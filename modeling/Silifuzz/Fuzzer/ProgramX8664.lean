import Silifuzz.Fuzzer.Program.Parse

/-!
# Programs of x86-64

`fuzzer/program_x86_64.cc`, over the decoder and encoder of XED, which are parameters.
-/

namespace Silifuzz

open LittleEndian Triples

/-- What the code asks of a decoded instruction; `allowedInRunner` is
`InstructionIsAllowedInRunner`. -/
structure XedDecodedInst where
  length : Nat
  branchDisplacementWidth : Nat
  branchDisplacement : Int
  allowedInRunner : Bool

/-- `encode` is given the bytes that an encoder request is initialised from, and the
displacement that is set in it. -/
structure Xed where
  decode : Bytes → Option XedDecodedInst
  encode : Bytes → Int → Option Bytes

/-- An instruction has between one byte and 15, all of them there, and its branch
displacement has 32 bits at most. An encoding is not empty. -/
structure Xed.Lawful (xed : Xed) : Prop where
  length : ∀ {bytes xedd}, xed.decode bytes = some xedd →
    0 < xedd.length ∧ xedd.length ≤ 15 ∧ xedd.length ≤ bytes.length
  displacement : ∀ {bytes xedd}, xed.decode bytes = some xedd →
    xedd.branchDisplacement.natAbs ≤ 2 ^ 31
  encode : ∀ {bytes displacement ibuf}, xed.encode bytes displacement = some ibuf →
    0 < ibuf.length

namespace X8664

def kInstructionInfo : ArchInstructionInfo where
  minSize := 1
  maxSize := 15
  bufferSize := 16

def getDirectBranchInfo (xedd : XedDecodedInst) (displacementFixupLimit : Nat) :
    InstructionDisplacementInfo :=
  if xedd.branchDisplacementWidth > 0 then
    let displacement := xedd.branchDisplacement + xedd.length
    if displacementWithinFixupLimit displacement displacementFixupLimit then
      { encodedByteDisplacement := some displacement }
    else {}
  else {}

def instructionFromBytes (xed : Xed) (bytes : Bytes) (instruction : Instruction kInstructionInfo)
    (config : InstructionConfig) (mustDecodeEverything : Bool) :
    Except Fault (Bool × Instruction kInstructionInfo) := do
  let instruction := { instruction with encoded := .empty }
  match xed.decode bytes with
  | none => return (false, instruction)
  | some xedd =>
    let encoded ← InstructionData.copy (bytes.take xedd.length)
    let instruction := { instruction with
      encoded := encoded
      directBranch := getDirectBranchInfo xedd config.displacementFixupLimit }
    if mustDecodeEverything && xedd.length ≠ bytes.length then return (false, instruction)
    if config.filter && !xedd.allowedInRunner then return (false, instruction)
    return (true, instruction)

def reencodeInternal (xed : Xed) (insn : Instruction kInstructionInfo) :
    Except Fault (Instruction kInstructionInfo) := do
  match xed.decode insn.encoded.bytes with
  | none => throw .check
  | some xedd =>
    check (xedd.length = insn.encoded.size)
    check (xedd.branchDisplacementWidth > 0)
    match insn.directBranch.encodedByteDisplacement with
    | none => throw .undefined
    | some displacement =>
      match xed.encode insn.encoded.bytes (displacement - xedd.length) with
      | none => throw .check
      | some ibuf => return { insn with encoded := ← InstructionData.copy ibuf }

def tryToReencodeInstructionDisplacements (xed : Xed) (insn : Instruction kInstructionInfo) :
    Except Fault (Bool × Instruction kInstructionInfo) := do
  check (insn.directBranch.valid = true)
  let canonical ← reencodeInternal xed insn
  let reencoded ← (if insn.encoded.size ≠ canonical.encoded.size then do
      let again ← reencodeInternal xed canonical
      check (again.encoded.size = canonical.encoded.size)
      pure again
    else pure canonical : Except Fault (Instruction kInstructionInfo))
  match xed.decode reencoded.encoded.bytes with
  | none => throw .check
  | some xedd =>
    check (xedd.length = reencoded.encoded.size)
    return (some (xedd.branchDisplacement + xedd.length) =
      reencoded.directBranch.encodedByteDisplacement, reencoded)

end X8664

def x8664 (xed : Xed) : Arch where
  info := X8664.kInstructionInfo
  instructionFromBytes := X8664.instructionFromBytes xed
  tryToReencodeInstructionDisplacements := X8664.tryToReencodeInstructionDisplacements xed

theorem X8664.getDirectBranchInfo_near {xedd : XedDecodedInst} (le : xedd.length ≤ 15)
    (near : xedd.branchDisplacement.natAbs ≤ 2 ^ 31) (displacementFixupLimit : Nat) :
    (X8664.getDirectBranchInfo xedd displacementFixupLimit).instructionBoundary = none ∧
      ∀ d ∈ (X8664.getDirectBranchInfo xedd displacementFixupLimit).encodedByteDisplacement,
        (d.natAbs : Int) < kInt64Max := by
  unfold X8664.getDirectBranchInfo
  split
  · dsimp only
    split
    · refine ⟨rfl, fun d hd => ?_⟩
      cases hd
      unfold kInt64Max
      omega
    · simp
  · simp

theorem reencodeInternal_yields {xed : Xed} (hx : xed.Lawful)
    (insn : Instruction X8664.kInstructionInfo) :
    Yields (X8664.reencodeInternal xed insn)
      (fun r => 0 < r.encoded.size ∧ r.directBranch = insn.directBranch) (fun _ => True) := by
  unfold X8664.reencodeInternal
  cases xed.decode insn.encoded.bytes with
  | none => trivial
  | some xedd =>
    refine yields_bind (check_yields _ fun _ => trivial) fun _ _ => ?_
    refine yields_bind (check_yields _ fun _ => trivial) fun _ _ => ?_
    cases insn.directBranch.encodedByteDisplacement with
    | none => trivial
    | some displacement =>
      dsimp only
      cases he : xed.encode insn.encoded.bytes (displacement - xedd.length) with
      | none => trivial
      | some ibuf =>
        by_cases fits : ibuf.length ≤ X8664.kInstructionInfo.bufferSize
        · simp only [InstructionData.copy, dif_pos fits]
          exact yields_pure ⟨hx.encode he, rfl⟩
        · simp only [InstructionData.copy, dif_neg fits]
          trivial

theorem x8664_lawful {xed : Xed} (hx : xed.Lawful) : (x8664 xed).Lawful where
  minSize_pos := Nat.zero_lt_succ 0
  decodes bytes insn config mustDecodeEverything := by
    change Yields (X8664.instructionFromBytes _ _ _ _ _) _ _
    unfold X8664.instructionFromBytes
    cases hd : xed.decode bytes with
    | none => exact yields_pure nofun
    | some xedd =>
      obtain ⟨pos, le, inside⟩ := hx.length hd
      have size : (bytes.take xedd.length).length = xedd.length := List.length_take_of_le inside
      have fits : (bytes.take xedd.length).length ≤ X8664.kInstructionInfo.bufferSize := by
        rw [size]
        exact Nat.le_succ_of_le le
      have near := X8664.getDirectBranchInfo_near le (hx.displacement hd) config.displacementFixupLimit
      simp only [InstructionData.copy, dif_pos fits, bind, Except.bind]
      split
      · exact yields_pure nofun
      split
      · exact yields_pure nofun
      · refine yields_pure fun _ => ⟨?_, ?_, near.1, near.2⟩
        · exact Nat.lt_of_lt_of_eq pos size.symm
        · exact size.trans_le inside
  reencodes insn := by
    change Yields (X8664.tryToReencodeInstructionDisplacements _ _) _ _
    unfold X8664.tryToReencodeInstructionDisplacements
    refine yields_bind (check_yields _ fun _ => trivial) fun _ _ => ?_
    refine yields_bind (reencodeInternal_yields hx insn) ?_
    rintro canonical ⟨pos, same⟩
    refine yields_bind
      (Q := fun r => 0 < r.encoded.size ∧ r.directBranch = insn.directBranch) ?_ ?_
    · split
      · refine yields_bind (reencodeInternal_yields hx canonical) ?_
        rintro again ⟨pos, same'⟩
        refine yields_bind (check_yields _ fun _ => trivial) fun _ _ => ?_
        exact yields_pure ⟨pos, same'.trans same⟩
      · exact yields_pure ⟨pos, same⟩
    · rintro reencoded ⟨pos, same⟩
      cases xed.decode reencoded.encoded.bytes with
      | none => trivial
      | some xedd =>
        refine yields_bind (check_yields _ fun _ => trivial) fun _ _ => ?_
        exact yields_pure ⟨fun _ => pos, same⟩

end Silifuzz
