import Mathlib.Data.Nat.Find
import Silifuzz.Fuzzer.Program

/-!
# Program mutation operations

The mutators of `fuzzer/program_mutation_ops.h`. The donor of a crossover may be
the program itself: it is only read before the program changes, so that `other`
is a value here.
-/

namespace Silifuzz

open LittleEndian

variable {ρ : Type}

/-- `BestIntType`, as a size. -/
def bestIntSize (n : Nat) : Nat :=
  if n % 8 = 0 then 8 else if n % 4 = 0 then 4 else if n % 2 = 0 then 2 else 1

/-- `RandomizeBuffer`: whole words, each the low bytes of a random number. -/
def randomizeBuffer (rng : MutatorRng ρ) (n : Nat) : Rand ρ Bytes := do
  let granularity := bestIntSize (n.gcd 8)
  let words ← (List.range (n / granularity)).mapM fun _ => do
    let word ← modifyGet rng.next
    return encode granularity word.toNat
  return words.flatten

def flipBit (buffer : Bytes) (bit : Nat) : Except Fault Bytes :=
  match buffer[bit / 8]? with
  | some b => .ok (buffer.set (bit / 8) (b ^^^ (1#8 <<< (bit % 8))))
  | none => .error .undefined

def flipRandomBit (rng : MutatorRng ρ) (buffer : Bytes) (bufferSize : Nat) : Rand ρ Bytes := do
  flipBit buffer (← randomIndex rng (bufferSize * 8))

/-- The tries of `GenerateSingleInstruction`. -/
def generateLoop (A : Arch) (rng : MutatorRng ρ) :
    Nat → Instruction A.info → Rand ρ (Bool × Instruction A.info)
  | 0, instruction => return (false, instruction)
  | tries + 1, instruction => do
    let bytes ← randomizeBuffer rng A.info.bufferSize
    let (decoded, instruction) ← A.instructionFromBytes bytes instruction {} false
    if decoded then return (true, instruction)
    generateLoop A rng tries instruction

def generateSingleInstruction (A : Arch) (rng : MutatorRng ρ) :
    Rand ρ (Bool × Instruction A.info) :=
  generateLoop A rng 64 {}

/-- The mutations that push through sparse parts of the encoding space. -/
def flipLoop (A : Arch) (rng : MutatorRng ρ) (numOldBytes : Nat) :
    Nat → Bytes → Instruction A.info → Rand ρ (Bool × Bytes × Instruction A.info)
  | 0, bytes, mutated => return (false, bytes, mutated)
  | flips + 1, bytes, mutated => do
    let bytes ← flipRandomBit rng bytes numOldBytes
    let (decoded, mutated) ← A.instructionFromBytes bytes mutated {} false
    if decoded then return (true, bytes, mutated)
    flipLoop A rng numOldBytes flips bytes mutated

/-- The tries of `MutateSingleInstruction`. -/
def mutateLoop (A : Arch) (rng : MutatorRng ρ) (original : Instruction A.info) :
    Nat → Bytes → Instruction A.info → Rand ρ (Bool × Instruction A.info)
  | 0, _, mutated => return (false, mutated)
  | tries + 1, bytes, mutated => do
    let bytes ← (if A.info.maxSize ≠ A.info.minSize then randomizeBuffer rng A.info.bufferSize
      else pure bytes : Rand ρ Bytes)
    let bytes := original.encoded.bytes ++ bytes.drop original.encoded.size
    let (done, bytes, mutated) ← flipLoop A rng original.encoded.size 3 bytes mutated
    if done then return (true, mutated)
    mutateLoop A rng original tries bytes mutated

/-- An instruction of the only possible size overwrites all of the buffer, so that
what it holds at first does not matter. -/
def mutateSingleInstruction (A : Arch) (rng : MutatorRng ρ) (original : Instruction A.info) :
    Rand ρ (Bool × Instruction A.info) :=
  mutateLoop A rng original 64 (List.replicate A.info.bufferSize 0) {}

def copyOrRandomizeInstructionDisplacementBoundary (rng : MutatorRng ρ)
    (original mutated : InstructionDisplacementInfo) (numBoundaries : Nat) :
    Rand ρ InstructionDisplacementInfo := do
  if mutated.valid then
    if original.valid ∧ mutated.encodedByteDisplacement = original.encodedByteDisplacement then
      return { mutated with instructionBoundary := original.instructionBoundary }
    else randomizeInstructionDisplacementBoundary rng mutated numBoundaries
  else return mutated

def copyOrRandomizeInstructionDisplacementBoundaries {info : ArchInstructionInfo}
    (rng : MutatorRng ρ) (original mutated : Instruction info) (numBoundaries : Nat) :
    Rand ρ (Instruction info) := do
  let branch ← copyOrRandomizeInstructionDisplacementBoundary rng original.directBranch
    mutated.directBranch numBoundaries
  return { mutated with directBranch := branch }

/-- The invalid boundary is -1 as a signed number. -/
def shiftOrRandomizeInstructionDisplacementBoundary (rng : MutatorRng ρ)
    (info : InstructionDisplacementInfo) (indexOffset : Int) (numBoundaries : Nat) :
    Rand ρ InstructionDisplacementInfo := do
  if info.valid then
    let boundary : Int := match info.instructionBoundary with
      | some b => b
      | none => -1
    let shifted := boundary + indexOffset
    let shifted ← (if shifted < 0 ∨ shifted ≥ numBoundaries then randomIndex rng numBoundaries
      else pure shifted.toNat : Rand ρ Nat)
    return { info with instructionBoundary := some shifted }
  else return info

def shiftOrRandomizeInstructionDisplacementBoundaries {info : ArchInstructionInfo}
    (rng : MutatorRng ρ) (block : List (Instruction info)) (indexOffset : Int)
    (numBoundaries : Nat) : Rand ρ (List (Instruction info)) :=
  block.mapM fun instruction => do
    let branch ← shiftOrRandomizeInstructionDisplacementBoundary rng instruction.directBranch
      indexOffset numBoundaries
    return { instruction with directBranch := branch }

theorem MutatorRng.other_comesUp (rng : MutatorRng ρ) {n : Nat} (hn : 0 < n) (a : Nat) (r : ρ) :
    ∃ turns, (rng.uniform n ((fun r => (rng.uniform n r).2)^[turns] r)).1 ≠ a := by
  obtain ⟨turns, h⟩ := rng.comesUp n r (if a = 0 then n else 0) (by split <;> omega)
  refine ⟨turns, ?_⟩
  rw [h]
  split <;> omega

/-- `b = RandomIndex(n + 1)` and `while (a == b) b = RandomIndex(n + 1)`: another index
comes up sooner or later. -/
def redraw (rng : MutatorRng ρ) {n : Nat} (hn : 0 < n) (a : Nat) (r : ρ) : Nat × ρ :=
  if (rng.uniform n r).1 = a then redraw rng hn a (rng.uniform n r).2 else rng.uniform n r
termination_by Nat.find (rng.other_comesUp hn a r)
decreasing_by
  next same =>
    rw [Nat.find_lt_iff]
    have found := Nat.find_spec (rng.other_comesUp hn a r)
    cases h : Nat.find (rng.other_comesUp hn a r) with
    | zero =>
      rw [h] at found
      exact absurd same found
    | succ turns => exact ⟨turns, by omega, by rwa [h, Function.iterate_succ_apply] at found⟩

namespace Program

variable {A : Arch}

def insertGeneratedInstruction (rng : MutatorRng ρ) (program : Program A.info) :
    Rand ρ (Bool × Program A.info) := do
  let (success, insn) ← generateSingleInstruction A rng
  if !success then return (false, program)
  let insn ← randomizeInstructionDisplacementBoundaries rng insn
    (program.numInstructionBoundaries + 1)
  let insertBoundary ← program.randomInstructionBoundary rng
  let stealDisplacements := (← randomIndex rng 2) ≠ 0
  return (true, ← program.insertInstruction insertBoundary stealDisplacements insn)

def mutateInstruction (rng : MutatorRng ρ) (program : Program A.info) :
    Rand ρ (Bool × Program A.info) := do
  if program.numInstructions = 0 then return (false, program)
  let target ← program.randomInstructionIndex rng
  let original ← program.getInstruction target
  let (success, mutated) ← mutateSingleInstruction A rng original
  if success then
    let mutated ← copyOrRandomizeInstructionDisplacementBoundaries rng original mutated
      program.numInstructionBoundaries
    return (true, ← program.setInstruction target mutated)
  return (false, program)

def deleteInstruction (rng : MutatorRng ρ) (minimumInstructions : Nat)
    (program : Program A.info) : Rand ρ (Bool × Program A.info) := do
  if program.numInstructions ≤ minimumInstructions then return (false, program)
  let victim ← program.randomInstructionIndex rng
  return (true, ← program.removeInstruction victim)

def swapInstructions (rng : MutatorRng ρ) (program : Program A.info) :
    Rand ρ (Bool × Program A.info) := do
  if h : program.numInstructions < 2 then return (false, program)
  else
    let a ← program.randomInstructionIndex rng
    let b ← modifyGet (redraw rng (n := program.numInstructions - 1) (by omega) a)
    let aInstruction ← program.getInstruction a
    let bInstruction ← program.getInstruction b
    let program ← program.setInstruction a bInstruction
    return (true, ← program.setInstruction b aInstruction)

def crossoverInsert (rng : MutatorRng ρ) (program other : Program A.info) :
    Rand ρ (Bool × Program A.info) := do
  if other.numInstructions = 0 then return (false, program)
  let maxSize := other.numInstructions
  let srcSize := (← randomIndex rng maxSize) + 1
  let srcIndex ← randomIndex rng (other.numInstructions - srcSize + 1)
  let block ← other.copyInstructionBlock srcIndex srcSize
  let dstBoundary ← program.randomInstructionBoundary rng
  let block ← shiftOrRandomizeInstructionDisplacementBoundaries rng block
    ((dstBoundary : Int) - srcIndex) (program.numInstructionBoundaries + block.length)
  let stealDisplacements := (← randomIndex rng 2) ≠ 0
  return (true, ← program.insertInstructionBlock dstBoundary stealDisplacements block)

def crossoverOverwrite (rng : MutatorRng ρ) (program other : Program A.info) :
    Rand ρ (Bool × Program A.info) := do
  if program.numInstructions = 0 then return (false, program)
  if other.numInstructions = 0 then return (false, program)
  let maxSize := min (max 1 (program.numInstructions / 2)) other.numInstructions
  let srcSize := (← randomIndex rng maxSize) + 1
  let srcIndex ← randomIndex rng (other.numInstructions - srcSize + 1)
  let block ← other.copyInstructionBlock srcIndex srcSize
  let dstIndex ← randomIndex rng (program.numInstructions - block.length + 1)
  let block ← shiftOrRandomizeInstructionDisplacementBoundaries rng block
    ((dstIndex : Int) - srcIndex) program.numInstructionBoundaries
  return (true, ← program.setInstructionBlock dstIndex block)

/-- Every turn deletes an instruction. -/
def limitLoop (rng : MutatorRng ρ) (maxLen : Nat) :
    Nat → Program A.info → Bool → Rand ρ (Bool × Program A.info)
  | 0, program, modified =>
    if program.byteLen > maxLen then throw .outOfFuel else return (modified, program)
  | fuel + 1, program, modified =>
    if program.byteLen > maxLen then do
      check (program.numInstructions > 0)
      let (_, program) ← deleteInstruction rng 0 program
      limitLoop rng maxLen fuel program true
    else return (modified, program)

def limitProgramLength (rng : MutatorRng ρ) (program : Program A.info) (maxLen : Nat) :
    Rand ρ (Bool × Program A.info) :=
  limitLoop rng maxLen program.numInstructions program false

inductive Mutation where
  | insertGenerated
  | mutate
  | delete (minimumInstructions : Nat)
  | swap
  | crossoverInsert
  | crossoverOverwrite
  | limitProgramLength (maxLen : Nat)

def mutate (rng : MutatorRng ρ) (program other : Program A.info) :
    Mutation → Rand ρ (Bool × Program A.info)
  | .insertGenerated => program.insertGeneratedInstruction rng
  | .mutate => program.mutateInstruction rng
  | .delete minimumInstructions => program.deleteInstruction rng minimumInstructions
  | .swap => program.swapInstructions rng
  | .crossoverInsert => program.crossoverInsert rng other
  | .crossoverOverwrite => program.crossoverOverwrite rng other
  | .limitProgramLength maxLen => program.limitProgramLength rng maxLen

end Program

end Silifuzz
