import Silifuzz.Library.LittleEndian
import Silifuzz.Library.Triples

/-!
# Program

A linear sequence of instructions that may execute in a very non-linear way
(`fuzzer/program.cc`). What depends on the architecture (`fuzzer/program_arch.h`)
is an `Arch`; random numbers come from a `MutatorRng`.

`kInvalidByteDisplacement` and `kInvalidInstructionBoundary` are `none`: no
displacement and no boundary of a vector has their value. A failed `CHECK` is
`Fault.check`, and `Fault.undefined` is behaviour that C++ leaves undefined.
-/

namespace Silifuzz

open LittleEndian

inductive Fault where
  | check
  | undefined
  | outOfFuel
  deriving DecidableEq, Repr

def check (c : Prop) [Decidable c] : Except Fault Unit :=
  if c then .ok () else .error .check

/-- The generator, and `std::uniform_int_distribution{0, n}` drawing from it: every
value up to `n` comes up sooner or later. -/
structure MutatorRng (ρ : Type) where
  next : ρ → BitVec 64 × ρ
  uniform : Nat → ρ → Nat × ρ
  uniform_le : ∀ n r, (uniform n r).1 ≤ n
  comesUp : ∀ n r i, i ≤ n → ∃ turns, (uniform n ((fun r => (uniform n r).2)^[turns] r)).1 = i

/-- A computation with random choices. -/
abbrev Rand (ρ : Type) := StateT ρ (Except Fault)

def randomIndex {ρ : Type} (rng : MutatorRng ρ) (size : Nat) : Rand ρ Nat := do
  check (size > 0)
  modifyGet (rng.uniform (size - 1))

def kInt64Max : Int := 2 ^ 63 - 1

structure InstructionDisplacementInfo where
  encodedByteDisplacement : Option Int := none
  instructionBoundary : Option Nat := none
  deriving DecidableEq, Repr

def InstructionDisplacementInfo.valid (info : InstructionDisplacementInfo) : Bool :=
  info.encodedByteDisplacement.isSome

structure InstructionConfig where
  requireValidEncoding : Bool := true
  filter : Bool := true
  displacementFixupLimit : Nat := 2 ^ 64 - 1

def displacementWithinFixupLimit (displacement : Int) (displacementFixupLimit : Nat) : Bool :=
  displacement.natAbs < displacementFixupLimit

structure ArchInstructionInfo where
  minSize : Nat
  maxSize : Nat
  bufferSize : Nat

/-- A container with inline storage. -/
@[ext] structure InstructionData (info : ArchInstructionInfo) where
  bytes : Bytes
  fits : bytes.length ≤ info.bufferSize

namespace InstructionData

variable {info : ArchInstructionInfo}

def size (d : InstructionData info) : Nat := d.bytes.length

def empty : InstructionData info := ⟨[], Nat.zero_le _⟩

def copy (bytes : Bytes) : Except Fault (InstructionData info) :=
  if h : bytes.length ≤ info.bufferSize then .ok ⟨bytes, h⟩ else .error .check

end InstructionData

structure Instruction (info : ArchInstructionInfo) where
  encoded : InstructionData info := .empty
  directBranch : InstructionDisplacementInfo := {}
  offset : Nat := 0

/-- What a `Program` uses of its architecture. `InstructionFromBytes` is given the
instruction it writes to, which it need not write all of. -/
structure Arch where
  info : ArchInstructionInfo
  instructionFromBytes : Bytes → Instruction info → InstructionConfig → Bool →
    Except Fault (Bool × Instruction info)
  tryToReencodeInstructionDisplacements : Instruction info →
    Except Fault (Bool × Instruction info)

structure Program (info : ArchInstructionInfo) where
  instructions : List (Instruction info) := []
  byteLen : Nat := 0
  encodingsMayBeInvalid : Bool := false

def randomizeInstructionDisplacementBoundary {ρ : Type} (rng : MutatorRng ρ)
    (info : InstructionDisplacementInfo) (numBoundaries : Nat) :
    Rand ρ InstructionDisplacementInfo := do
  if info.valid then
    return { info with instructionBoundary := some (← randomIndex rng numBoundaries) }
  else return info

def randomizeInstructionDisplacementBoundaries {ρ : Type} {info : ArchInstructionInfo}
    (rng : MutatorRng ρ) (insn : Instruction info) (numBoundaries : Nat) :
    Rand ρ (Instruction info) := do
  if insn.directBranch.valid then
    let branch ← randomizeInstructionDisplacementBoundary rng insn.directBranch numBoundaries
    return { insn with directBranch := branch }
  else return insn

namespace Program

variable {info : ArchInstructionInfo} {ρ : Type}

def numInstructions (p : Program info) : Nat := p.instructions.length

def numInstructionBoundaries (p : Program info) : Nat := p.instructions.length + 1

def getInstruction (p : Program info) (index : Nat) : Except Fault (Instruction info) :=
  match p.instructions[index]? with
  | some insn => .ok insn
  | none => .error .undefined

def copyInstructionBlock (p : Program info) (index size : Nat) :
    Except Fault (List (Instruction info)) := do
  check (index + size ≤ p.instructions.length)
  return (p.instructions.drop index).take size

def randomInstructionIndex (p : Program info) (rng : MutatorRng ρ) : Rand ρ Nat :=
  randomIndex rng p.numInstructions

def randomInstructionBoundary (p : Program info) (rng : MutatorRng ρ) : Rand ρ Nat :=
  randomIndex rng p.numInstructionBoundaries

def checkConsistency (p : Program info) : Except Fault Unit := do
  let actualLen ← p.instructions.foldlM (fun actualLen insn => do
    if insn.directBranch.valid then
      check (insn.directBranch.encodedByteDisplacement ≠ none)
      check (insn.directBranch.instructionBoundary ≠ none)
      check (∀ b ∈ insn.directBranch.instructionBoundary, b < p.numInstructionBoundaries)
    else
      check (insn.directBranch.encodedByteDisplacement = none)
      check (insn.directBranch.instructionBoundary = none)
    return actualLen + insn.encoded.size) 0
  check (p.byteLen = actualLen)

/-- The instructions packed end-to-end from `offset` on, and where they end. -/
def layout : Nat → List (Instruction info) → List (Instruction info) × Nat
  | offset, [] => ([], offset)
  | offset, insn :: rest =>
    let next := layout (offset + insn.encoded.size) rest
    ({ insn with offset := offset } :: next.1, next.2)

def fixupInvariants (p : Program info) : Program info :=
  { p with instructions := (layout 0 p.instructions).1, byteLen := (layout 0 p.instructions).2 }

def instructionBoundaryToProgramByteOffset (p : Program info) (boundary : Nat) :
    Except Fault Int := do
  check (boundary < p.numInstructionBoundaries)
  match p.instructions[boundary]? with
  | some insn => return insn.offset
  | none =>
    -- the end of the program, which an empty program does not have
    match p.instructions.getLast? with
    | some insn => return insn.offset + insn.encoded.size
    | none => throw .undefined

def findClosestInstructionBoundary (p : Program info) (programOffset : Int) :
    Except Fault (Option Nat) := do
  let closest ← (List.range p.numInstructionBoundaries).foldlM
    (fun (closest : Option Nat × Int) i => do
      let boundaryOffset ← p.instructionBoundaryToProgramByteOffset i
      let diff : Int := (boundaryOffset - programOffset).natAbs
      return if diff < closest.2 then (some i, diff) else closest)
    (none, kInt64Max)
  return closest.1

def resolveDisplacements (p : Program info) (strict : Bool) : Except Fault (Program info) := do
  let instructions ← p.instructions.mapM fun insn => do
    match insn.directBranch.encodedByteDisplacement, insn.directBranch.instructionBoundary with
    | some displacement, none =>
      let programOffset := insn.offset + displacement
      let boundary ← p.findClosestInstructionBoundary programOffset
      if strict then
        match boundary with
        | some b => check ((← p.instructionBoundaryToProgramByteOffset b) = programOffset)
        | none => throw .check
      return { insn with
        directBranch := { insn.directBranch with instructionBoundary := boundary } }
    | _, _ => return insn
  return { p with instructions := instructions }

/-- The loop of the constructor from `offset` on, with the instructions so far. -/
def parseLoop (A : Arch) (bytes : Bytes) (config : InstructionConfig) (strict : Bool) :
    Nat → Nat → List (Instruction A.info) → Except Fault (List (Instruction A.info))
  | 0, offset, instructions =>
    if offset < bytes.length then throw .outOfFuel else return instructions
  | fuel + 1, offset, instructions =>
    if offset < bytes.length then do
      let (decoded, insn) ← A.instructionFromBytes (bytes.drop offset) {} config false
      if decoded then
        parseLoop A bytes config strict fuel (offset + insn.encoded.size)
          (instructions ++ [{ insn with offset := offset }])
      else
        check (strict = false)
        -- what did not decode is skipped by the smallest possible instruction
        let insnLen := if insn.encoded.size = 0 then A.info.minSize else insn.encoded.size
        parseLoop A bytes config strict fuel (offset + insnLen) instructions
    else return instructions

/-- The constructor that disassembles. Every turn of the loop consumes a byte. -/
def parse (A : Arch) (bytes : Bytes) (config : InstructionConfig := {}) (strict : Bool := false) :
    Except Fault (Program A.info) := do
  let instructions ← parseLoop A bytes config strict bytes.length 0 []
  let p ← resolveDisplacements ⟨instructions, 0, true⟩ strict
  return p.fixupInvariants

def setInstructionBlock (p : Program info) (index : Nat) (insns : List (Instruction info)) :
    Except Fault (Program info) := do
  check (index + insns.length ≤ p.numInstructions)
  let old := (p.instructions.drop index).take insns.length
  let byteLen := (old.zip insns).foldl
    (fun byteLen i => byteLen - i.1.encoded.size + i.2.encoded.size) p.byteLen
  return { instructions := p.instructions.take index ++ insns ++
             p.instructions.drop (index + insns.length)
           byteLen := byteLen
           encodingsMayBeInvalid := true }

def setInstruction (p : Program info) (index : Nat) (insn : Instruction info) :
    Except Fault (Program info) :=
  p.setInstructionBlock index [insn]

/-- What `AdjustInstructionIndexes` does to one branch. -/
def adjustBranch (boundary : Nat) (amount : Int) (branch : InstructionDisplacementInfo) :
    InstructionDisplacementInfo :=
  if branch.valid then
    match branch.instructionBoundary with
    | some b =>
      if b ≥ boundary then { branch with instructionBoundary := some (b + amount).toNat }
      else branch
    -- the invalid boundary is larger than any other, and wraps around
    | none =>
      { branch with instructionBoundary := some ((2 ^ 64 - 1 + amount) % 2 ^ 64).toNat }
  else branch

def adjustInstructionIndexes (p : Program info) (boundary : Nat) (amount : Int) :
    Except Fault (Program info) := do
  check (boundary ≤ p.numInstructionBoundaries)
  return { p with instructions := p.instructions.map fun insn =>
    { insn with directBranch := adjustBranch boundary amount insn.directBranch } }

def insertInstructionBlock (p : Program info) (boundary : Nat) (stealDisplacements : Bool)
    (insns : List (Instruction info)) : Except Fault (Program info) := do
  check (boundary < p.numInstructionBoundaries)
  let adjustedOffset := if stealDisplacements then boundary + 1 else boundary
  let p ← p.adjustInstructionIndexes adjustedOffset insns.length
  return fixupInvariants
    { instructions := p.instructions.take boundary ++ insns ++ p.instructions.drop boundary
      byteLen := insns.foldl (fun byteLen insn => byteLen + insn.encoded.size) p.byteLen
      encodingsMayBeInvalid := true }

def insertInstruction (p : Program info) (boundary : Nat) (stealDisplacements : Bool)
    (insn : Instruction info) : Except Fault (Program info) :=
  p.insertInstructionBlock boundary stealDisplacements [insn]

def removeInstruction (p : Program info) (index : Nat) : Except Fault (Program info) := do
  check (index < p.numInstructions)
  let p ← p.adjustInstructionIndexes (index + 1) (-1)
  let insn ← p.getInstruction index
  return fixupInvariants
    { instructions := p.instructions.eraseIdx index
      byteLen := p.byteLen - insn.encoded.size
      encodingsMayBeInvalid := true }

/-- `SyncByteDisplacements`, with the instruction synced and whether it changed. -/
def syncByteDisplacements (p : Program info) (insn : Instruction info) :
    Except Fault (Bool × Instruction info) := do
  match insn.directBranch.encodedByteDisplacement with
  | none => return (false, insn)
  | some encoded =>
    match insn.directBranch.instructionBoundary with
    | none => throw .check
    | some boundary =>
      let target := (← p.instructionBoundaryToProgramByteOffset boundary) - insn.offset
      if target = encoded then return (false, insn)
      return (true, { insn with
        directBranch := { insn.directBranch with encodedByteDisplacement := some target } })

/-- Writes through the reference that a loop over the instructions holds. -/
def put (p : Program info) (i : Nat) (insn : Instruction info) : Program info :=
  { p with instructions := p.instructions.set i insn }

/-- `while (!TryToReencodeInstructionDisplacements(insn))` of `FixupEncodedDisplacements`,
on the instruction at `i`. -/
def reencodeLoop (A : Arch) (rng : MutatorRng ρ) (i : Nat) :
    Nat → Program A.info → Rand ρ (Program A.info)
  | 0, _ => throw .outOfFuel
  | fuel + 1, p => do
    let (encoded, insn) ← A.tryToReencodeInstructionDisplacements (← p.getInstruction i)
    let p := p.put i insn
    if encoded then return p
    let insn ← randomizeInstructionDisplacementBoundaries rng insn p.numInstructionBoundaries
    let p := p.put i insn
    let (_, insn) ← p.syncByteDisplacements insn
    reencodeLoop A rng i fuel (p.put i insn)

/-- Where the loop over the instructions is. -/
structure FixupState (info : ArchInstructionInfo) where
  program : Program info
  offset : Nat := 0
  stable : Bool := true
  modified : Bool := false

/-- One turn of the loop over the instructions. -/
def fixupInstruction (A : Arch) (rng : MutatorRng ρ) (fuel : Nat) (s : FixupState A.info)
    (i : Nat) : Rand ρ (FixupState A.info) := do
  let insn ← s.program.getInstruction i
  let stable := s.stable && insn.offset == s.offset
  let p := s.program.put i { insn with offset := s.offset }
  let (changed, insn) ← p.syncByteDisplacements { insn with offset := s.offset }
  let p ← (if changed then reencodeLoop A rng i fuel (p.put i insn) else pure p :
    Rand ρ (Program A.info))
  let insn ← p.getInstruction i
  return ⟨p, s.offset + insn.encoded.size, stable, s.modified || changed⟩

/-- The loop of `FixupEncodedDisplacements`, with the iterations that its `CHECK` allows. -/
def fixupLoop (A : Arch) (rng : MutatorRng ρ) (fuel : Nat) :
    Nat → Program A.info → Bool → Rand ρ (Bool × Program A.info)
  | 0, _, _ => throw .check
  | iterations + 1, p, modified => do
    let s ← (List.range p.numInstructions).foldlM (fixupInstruction A rng fuel)
      { program := p, modified := modified }
    let stable := s.stable && s.program.byteLen == s.offset
    let p := { s.program with byteLen := s.offset }
    if stable then return (s.modified, { p with encodingsMayBeInvalid := false })
    fixupLoop A rng fuel iterations p s.modified

/-- `FixupEncodedDisplacements`, with whether it modified the program. -/
def fixupEncodedDisplacements (A : Arch) (rng : MutatorRng ρ) (fuel : Nat)
    (p : Program A.info) : Rand ρ (Bool × Program A.info) :=
  fixupLoop A rng fuel (p.numInstructions + 1) p.fixupInvariants false

def toBytes (p : Program info) : Except Fault Bytes := do
  check (p.encodingsMayBeInvalid = false)
  p.instructions.foldlM (fun output insn => do
    check (insn.offset = output.length)
    return output ++ insn.encoded.bytes) []

end Program

end Silifuzz
