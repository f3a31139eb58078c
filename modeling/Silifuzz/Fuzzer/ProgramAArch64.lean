import Silifuzz.Fuzzer.Program.Parse
import Silifuzz.Instruction.StaticInsnFilter

/-!
# Programs of AArch64

`fuzzer/program_aarch64.cc`: instructions are words of four bytes, and the direct
branches among them have their displacement in a field of the word. The
disassembler is a parameter: it says whether the bytes begin with an instruction
it knows.
-/

namespace Silifuzz

open LittleEndian Triples

structure FieldLocation where
  lsb : Nat
  width : Nat

structure BranchInstructionInfo where
  matcher : BitMatcher 32
  displacement : FieldLocation

/-- b and bl, b.cond and bc.cond, cbz and cbnz, tbz and tbnz. -/
def kBranchInstructionInfo : List BranchInstructionInfo := [
  ⟨⟨0b0111_1100_0000_0000_0000_0000_0000_0000,
    0b0001_0100_0000_0000_0000_0000_0000_0000⟩, ⟨0, 26⟩⟩,
  ⟨⟨0b1111_1111_0000_0000_0000_0000_0000_0000,
    0b0101_0100_0000_0000_0000_0000_0000_0000⟩, ⟨5, 19⟩⟩,
  ⟨⟨0b0111_1110_0000_0000_0000_0000_0000_0000,
    0b0011_0100_0000_0000_0000_0000_0000_0000⟩, ⟨5, 19⟩⟩,
  ⟨⟨0b0111_1110_0000_0000_0000_0000_0000_0000,
    0b0011_0110_0000_0000_0000_0000_0000_0000⟩, ⟨5, 14⟩⟩]

/-- The field goes all the way to the left and back, which sign extends it. -/
def extractBranchDisplacement (insn : BitVec 32) (lsb width : Nat) : BitVec 32 :=
  ((insn.sshiftRight lsb) <<< (32 - width)).sshiftRight (32 - width - 2)

def displacementMask (lsb width : Nat) : BitVec 32 := ((1#32 <<< width) - 1#32) <<< lsb

def rewriteBranchDisplacement (insn : BitVec 32) (lsb width : Nat) (displacement : BitVec 32) :
    BitVec 32 :=
  (insn &&& ~~~displacementMask lsb width) |||
    (((displacement.sshiftRight 2) <<< lsb) &&& displacementMask lsb width)

example : rewriteBranchDisplacement 0x5400002f 5 19 (-4) = 0x54ffffef := by decide

example : rewriteBranchDisplacement 0x54ffffef 5 19 4 = 0x5400002f := by decide

def branchInstructionInfo (insn : BitVec 32) : Option BranchInstructionInfo :=
  kBranchInstructionInfo.find? (·.matcher.isMatch insn)

def getDirectBranchInfo (insn : BitVec 32) (displacementFixupLimit : Nat) :
    InstructionDisplacementInfo :=
  match branchInstructionInfo insn with
  | some branchInfo =>
    let displacement := (extractBranchDisplacement insn branchInfo.displacement.lsb
      branchInfo.displacement.width).toInt
    if displacementWithinFixupLimit displacement displacementFixupLimit then
      { encodedByteDisplacement := some displacement }
    else {}
  | none => {}

namespace AArch64

def kInstructionInfo : ArchInstructionInfo where
  minSize := 4
  maxSize := 4
  bufferSize := 4

def insnWord (insn : Instruction kInstructionInfo) : BitVec 32 :=
  BitVec.ofNat 32 (decode insn.encoded.bytes)

def instructionFromBytes (disassemble : Bytes → Bool) (bytes : Bytes)
    (instruction : Instruction kInstructionInfo) (config : InstructionConfig)
    (mustDecodeEverything : Bool) : Except Fault (Bool × Instruction kInstructionInfo) := do
  let instruction := { instruction with encoded := .empty }
  if bytes.length < 4 then return (false, instruction)
  let instruction := { instruction with encoded := ← InstructionData.copy (bytes.take 4) }
  if config.requireValidEncoding && !disassemble bytes then return (false, instruction)
  let instruction := { instruction with
    directBranch := getDirectBranchInfo (insnWord instruction) config.displacementFixupLimit }
  if mustDecodeEverything && bytes.length ≠ 4 then return (false, instruction)
  if config.filter && !staticInstructionFilter instruction.encoded.bytes then
    return (false, instruction)
  return (true, instruction)

/-- `kInvalidByteDisplacement` -/
def kInvalidByteDisplacement : Int := 2 ^ 63 - 1

/-- The word is written even when the displacement does not fit in it. -/
def tryToReencodeInstructionDisplacements (insn : Instruction kInstructionInfo) :
    Except Fault (Bool × Instruction kInstructionInfo) := do
  if insn.encoded.size ≠ 4 then throw .undefined
  else match branchInstructionInfo (insnWord insn) with
  | some info =>
    let displacement := insn.directBranch.encodedByteDisplacement.getD kInvalidByteDisplacement
    let insnWord := rewriteBranchDisplacement (insnWord insn) info.displacement.lsb
      info.displacement.width (BitVec.ofInt 32 displacement)
    let encoded ← InstructionData.copy (encode 4 insnWord.toNat)
    return ((extractBranchDisplacement insnWord info.displacement.lsb
        info.displacement.width).toInt = displacement, { insn with encoded := encoded })
  | none => throw .check

end AArch64

/-- The architecture, with the disassembler it uses. -/
abbrev aarch64 (disassemble : Bytes → Bool) : Arch where
  info := AArch64.kInstructionInfo
  instructionFromBytes := AArch64.instructionFromBytes disassemble
  tryToReencodeInstructionDisplacements := AArch64.tryToReencodeInstructionDisplacements

theorem getDirectBranchInfo_near (insn : BitVec 32) (displacementFixupLimit : Nat) :
    (getDirectBranchInfo insn displacementFixupLimit).instructionBoundary = none ∧
      ∀ d ∈ (getDirectBranchInfo insn displacementFixupLimit).encodedByteDisplacement,
        (d.natAbs : Int) < kInt64Max := by
  unfold getDirectBranchInfo
  cases branchInstructionInfo insn with
  | none => simp
  | some branchInfo =>
    dsimp only
    split
    · refine ⟨rfl, fun d hd => ?_⟩
      cases hd
      have low := BitVec.le_toInt (extractBranchDisplacement insn branchInfo.displacement.lsb
        branchInfo.displacement.width)
      have high := BitVec.toInt_lt (x := extractBranchDisplacement insn branchInfo.displacement.lsb
        branchInfo.displacement.width)
      unfold kInt64Max
      omega
    · simp

namespace AArch64

variable {disassemble : Bytes → Bool}

theorem copy_ok {info : ArchInstructionInfo} {bytes : Bytes} (h : bytes.length ≤ info.bufferSize) :
    (InstructionData.copy bytes : Except Fault (InstructionData info)) = .ok ⟨bytes, h⟩ :=
  dif_pos h

/-- What `InstructionFromBytes` makes of `bytes`, and when it accepts them. -/
structure FromBytes (disassemble : Bytes → Bool) (bytes : Bytes) (config : InstructionConfig)
    (mustDecodeEverything decoded : Bool) (insn : Instruction kInstructionInfo) : Prop where
  encoded : insn.encoded.bytes = if bytes.length < 4 then [] else bytes.take 4
  accepted : decoded = true ↔ 4 ≤ bytes.length ∧
    (config.requireValidEncoding = true → disassemble bytes = true) ∧
    (mustDecodeEverything = true → bytes.length = 4) ∧
    (config.filter = true → staticInstructionFilter (bytes.take 4) = true)
  branch : decoded = true →
    insn.directBranch = getDirectBranchInfo (insnWord insn) config.displacementFixupLimit

theorem instructionFromBytes_yields (disassemble : Bytes → Bool) (bytes : Bytes) (instruction : Instruction kInstructionInfo)
    (config : InstructionConfig) (mustDecodeEverything : Bool) :
    Yields (instructionFromBytes disassemble bytes instruction config mustDecodeEverything)
      (fun r => FromBytes disassemble bytes config mustDecodeEverything r.1 r.2)
      (fun _ => False) := by
  unfold instructionFromBytes
  by_cases short : bytes.length < 4
  · rw [if_pos short]
    refine yields_pure ⟨by simp [short, InstructionData.empty], ?_, nofun⟩
    simp only [Bool.false_eq_true, false_iff, not_and]
    omega
  · have fits : (bytes.take 4).length ≤ kInstructionInfo.bufferSize := by simp [kInstructionInfo]
    have encoded : bytes.take 4 = if bytes.length < 4 then [] else bytes.take 4 := by simp [short]
    have long : 4 ≤ bytes.length := by omega
    rw [if_neg short, copy_ok fits]
    simp only [bind, Except.bind]
    cases valid : config.requireValidEncoding && !disassemble bytes with
    | true =>
      refine yields_pure ⟨encoded, ?_, nofun⟩
      simp_all
    | false =>
      cases rest : mustDecodeEverything && decide (bytes.length ≠ 4) with
      | true =>
        refine yields_pure ⟨encoded, ?_, nofun⟩
        simp_all
      | false =>
        cases filter : config.filter && !staticInstructionFilter (bytes.take 4) with
        | true =>
          simp only [Bool.false_eq_true, if_false, if_true]
          refine yields_pure ⟨encoded, ?_, nofun⟩
          simp_all
        | false =>
          simp only [Bool.false_eq_true, if_false]
          refine yields_pure ⟨encoded, ?_, fun _ => rfl⟩
          simp_all

def rewrittenWord (insn : Instruction kInstructionInfo) (info : BranchInstructionInfo) :
    BitVec 32 :=
  rewriteBranchDisplacement (insnWord insn) info.displacement.lsb info.displacement.width
    (BitVec.ofInt 32 (insn.directBranch.encodedByteDisplacement.getD kInvalidByteDisplacement))

/-- What the rewriting of a direct branch leaves behind, and when it has succeeded. -/
structure Reencoded (insn : Instruction kInstructionInfo) (info : BranchInstructionInfo)
    (success : Bool) (result : Instruction kInstructionInfo) : Prop where
  size : result.encoded.size = 4
  word : insnWord result = rewrittenWord insn info
  branch : result.directBranch = insn.directBranch
  offset : result.offset = insn.offset
  success_iff : success = true ↔
    (extractBranchDisplacement (insnWord result) info.displacement.lsb
      info.displacement.width).toInt =
        insn.directBranch.encodedByteDisplacement.getD kInvalidByteDisplacement

theorem insnWord_encode {insn : Instruction kInstructionInfo} {word : BitVec 32}
    (h : insn.encoded.bytes = encode 4 word.toNat) : insnWord insn = word := by
  apply BitVec.eq_of_toNat_eq
  rw [insnWord, h, decode_encode_of_lt word.isLt, BitVec.ofNat_toNat, BitVec.setWidth_eq]

theorem tryToReencodeInstructionDisplacements_ok {insn : Instruction kInstructionInfo}
    {info : BranchInstructionInfo} (size : insn.encoded.size = 4)
    (hi : branchInstructionInfo (insnWord insn) = some info) :
    ∃ success result, tryToReencodeInstructionDisplacements insn = .ok (success, result) ∧
      Reencoded insn info success result := by
  unfold tryToReencodeInstructionDisplacements
  rw [if_neg (not_not.mpr size), hi]
  dsimp only
  have fits : (encode 4 (rewrittenWord insn info).toNat).length ≤ kInstructionInfo.bufferSize := by
    simp [kInstructionInfo]
  rw [← rewrittenWord, copy_ok fits]
  generalize hd : (⟨_, fits⟩ : InstructionData kInstructionInfo) = encoded
  have bytes : encoded.bytes = encode 4 (rewrittenWord insn info).toNat := hd ▸ rfl
  have word : insnWord { insn with encoded := encoded } = rewrittenWord insn info :=
    insnWord_encode bytes
  refine ⟨_, _, rfl, ?_, word, rfl, rfl, ?_⟩
  · rw [InstructionData.size, bytes, length_encode]
  · rw [word, decide_eq_true_iff]

/-- An instruction is only rewritten when it is one of the direct branches. -/
theorem tryToReencodeInstructionDisplacements_yields (insn : Instruction kInstructionInfo) :
    Yields (tryToReencodeInstructionDisplacements insn)
      (fun r => insn.encoded.size = 4 ∧ ∃ info,
        branchInstructionInfo (insnWord insn) = some info ∧ Reencoded insn info r.1 r.2)
      (fun _ => True) := by
  by_cases size : insn.encoded.size = 4
  · cases hi : branchInstructionInfo (insnWord insn) with
    | none =>
      unfold tryToReencodeInstructionDisplacements
      rw [if_neg (not_not.mpr size), hi]
      trivial
    | some info =>
      obtain ⟨success, result, run, reencoded⟩ :=
        tryToReencodeInstructionDisplacements_ok size hi
      rw [run]
      exact ⟨size, info, rfl, reencoded⟩
  · unfold tryToReencodeInstructionDisplacements
    rw [if_pos size]
    trivial

end AArch64

theorem aarch64_lawful (disassemble : Bytes → Bool) : (aarch64 disassemble).Lawful where
  minSize_pos := Nat.zero_lt_succ 3
  decodes bytes insn config mustDecodeEverything := by
    apply yields_post (AArch64.instructionFromBytes_yields disassemble bytes insn config mustDecodeEverything)
    intro r h hd
    have long := (h.accepted.mp hd).1
    have size : r.2.encoded.size = 4 := by
      have eq := h.encoded
      rw [if_neg (by omega)] at eq
      unfold InstructionData.size
      rw [eq, List.length_take]
      omega
    have near := getDirectBranchInfo_near (AArch64.insnWord r.2) config.displacementFixupLimit
    rw [← h.branch hd] at near
    exact ⟨Nat.lt_of_lt_of_eq (Nat.zero_lt_succ 3) size.symm, size.trans_le long,
      near.1, near.2⟩
  reencodes insn := by
    apply yields_post (AArch64.tryToReencodeInstructionDisplacements_yields insn)
    rintro r ⟨-, info, -, h⟩
    exact ⟨fun _ => Nat.lt_of_lt_of_eq (Nat.zero_lt_succ 3) h.size.symm, h.branch⟩

end Silifuzz
