import Silifuzz.Fuzzer.ProgramAArch64.Fixup
import Silifuzz.Fuzzer.ProgramMutationOps.Branches
import Silifuzz.Fuzzer.ProgramX8664

/-!
# The fixup of both architectures

What `InstructionFromBytes` and `TryToReencodeInstructionDisplacements` do for AArch64 and
for x86-64, as `FixupEncodedDisplacements` relies on it.
-/

namespace Silifuzz

open LittleEndian Triples Fuel

namespace AArch64

/-- All instructions are words, and the displacement is in a field of the word. -/
def reencoding (disassemble : Bytes → Bool) : Reencoding (aarch64 disassemble) where
  Branch e := e.size = 4 ∧ ∃ info, branchInstructionInfo (insnWord { encoded := e }) = some info
  Canonical e := e.size = 4
  Shows e d := ∀ info, branchInstructionInfo (insnWord { encoded := e }) = some info →
    wordDisplacement { encoded := e } info = d
  run insn d hd branch := by
    obtain ⟨size, info, at_insn⟩ := branch
    have hinfo : branchInstructionInfo (insnWord insn) = some info := at_insn
    obtain ⟨success, result, run, h⟩ := tryToReencodeInstructionDisplacements_ok size hinfo
    have shape : result = { insn with encoded := result.encoded } := by
      rw [← h.branch, ← h.offset]
    have found : branchInstructionInfo (insnWord result) = some info := h.info hinfo
    refine ⟨success, result.encoded, run.trans (by rw [← shape]), ?_, ⟨h.size, info, found⟩, h.size,
      ?_, ?_, ?_⟩
    · rw [h.size]
      decide
    · intro done info' hinfo'
      have same : info = info' := Option.some.inj (found.symm.trans hinfo')
      have fits := h.success_iff.mp done
      rw [hd, Option.getD_some] at fits
      exact same ▸ fits
    · intro zero
      exact h.success_zero hinfo (zero ▸ hd)
    · intro _
      exact h.size.trans size.symm

theorem reencoding_marks (disassemble : Bytes → Bool) :
    (aarch64 disassemble).Marks (reencoding disassemble).Has := by
  apply Reencoding.marks
  intro bytes insn config mustDecodeEverything
  apply yields_mono (instructionFromBytes_yields disassemble bytes insn config mustDecodeEverything)
  · intro r h accepted
    have long := (h.accepted.mp accepted).1
    have encoded := h.encoded
    rw [if_neg (by omega)] at encoded
    have size : r.2.encoded.size = 4 := by
      rw [InstructionData.size, encoded, List.length_take]
      omega
    have branch := h.branch accepted
    unfold getDirectBranchInfo at branch
    cases found : branchInstructionInfo (insnWord r.2) with
    | none =>
      rw [found] at branch
      constructor
      · simp [branch, InstructionDisplacementInfo.valid]
      · simp [branch]
    | some info =>
      rw [found] at branch
      constructor
      · intro _
        exact ⟨size, info, found⟩
      · intro d hd info' found'
        have same : info = info' := Option.some.inj (found.symm.trans found')
        subst same
        dsimp only at branch
        split at branch
        · rw [branch] at hd
          exact Option.some.inj hd
        · simp [branch] at hd
  · intro _ _
    trivial

end AArch64

/-- What the code relies on when it encodes direct branches again: an instruction is decoded
from its own bytes as it is with others after them; there is no error, whatever the
displacement; a displacement of a byte fits; and the size of what has been encoded does not
change when it is encoded again. -/
structure Xed.Reencodes (xed : Xed) : Prop where
  alone : ∀ {bytes xedd}, xed.decode bytes = some xedd →
    xed.decode (bytes.take xedd.length) = some xedd
  encodes : ∀ {bytes xedd} (displacement : Int), xed.decode bytes = some xedd →
    xedd.length = bytes.length → 0 < xedd.branchDisplacementWidth →
    ∃ ibuf xedd', xed.encode bytes displacement = some ibuf ∧
      0 < ibuf.length ∧ ibuf.length ≤ 15 ∧ xed.decode ibuf = some xedd' ∧
      xedd'.length = ibuf.length ∧ 0 < xedd'.branchDisplacementWidth ∧
      (-128 ≤ displacement → displacement < 128 → xedd'.branchDisplacement = displacement)
  canonical : ∀ {bytes xedd displacement ibuf displacement' ibuf'}, xed.decode bytes = some xedd →
    xedd.length = bytes.length → 0 < xedd.branchDisplacementWidth →
    xed.encode bytes displacement = some ibuf → xed.encode ibuf displacement' = some ibuf' →
    ibuf'.length = ibuf.length

namespace X8664

variable {xed : Xed}

/-- A direct branch, with nothing after it. -/
def IsBranch (xed : Xed) (e : InstructionData kInstructionInfo) : Prop :=
  ∃ xedd, xed.decode e.bytes = some xedd ∧ xedd.length = e.size ∧
    0 < xedd.branchDisplacementWidth

/-- The displacement from the start of the instruction. -/
def HasDisplacement (xed : Xed) (e : InstructionData kInstructionInfo) (d : Int) : Prop :=
  ∃ xedd, xed.decode e.bytes = some xedd ∧ xedd.branchDisplacement + e.size = d

/-- The encoding of a direct branch again. -/
theorem reencodeInternal_ok (hx : xed.Reencodes) {insn : Instruction kInstructionInfo} {d : Int}
    (hd : insn.directBranch.encodedByteDisplacement = some d) (branch : IsBranch xed insn.encoded) :
    ∃ e, reencodeInternal xed insn = .ok { insn with encoded := e } ∧ 0 < e.size ∧ e.size ≤ 15 ∧
      IsBranch xed e ∧ xed.encode insn.encoded.bytes (d - insn.encoded.size) = some e.bytes ∧
      (-128 ≤ d - insn.encoded.size → d - insn.encoded.size < 128 →
        ∃ xedd, xed.decode e.bytes = some xedd ∧ xedd.branchDisplacement = d - insn.encoded.size) := by
  obtain ⟨xedd, decoded, length, width⟩ := branch
  obtain ⟨ibuf, xedd', encoded, pos, le, decoded', length', width', near⟩ :=
    hx.encodes (d - xedd.length) decoded length width
  have fits : ibuf.length ≤ kInstructionInfo.bufferSize := Nat.le_succ_of_le le
  refine ⟨⟨ibuf, fits⟩, ?_, pos, le, ⟨xedd', decoded', length', width'⟩, ?_, ?_⟩
  · unfold reencodeInternal
    simp only [decoded, check_ok_iff.mpr length, check_ok_iff.mpr width, hd, encoded,
      InstructionData.copy, dif_pos fits, bind, Except.bind]
    rfl
  · rw [← length]
    exact encoded
  · rw [← length]
    exact fun low high => ⟨xedd', decoded', near low high⟩

/-- The displacement that is asked for, and whether it is in the encoding now. -/
structure Encoded (xed : Xed) (d : Int) (e : InstructionData kInstructionInfo) (success : Bool) :
    Prop where
  branch : IsBranch xed e
  success_iff : success = true ↔ HasDisplacement xed e d

theorem isBranch_encoded {e : InstructionData kInstructionInfo} (branch : IsBranch xed e) (d : Int) :
    ∃ xedd, xed.decode e.bytes = some xedd ∧ xedd.length = e.size ∧
      Encoded xed d e (decide (some (xedd.branchDisplacement + xedd.length) = some d)) := by
  obtain ⟨xedd, decoded, length, width⟩ := branch
  refine ⟨xedd, decoded, length, ⟨xedd, decoded, length, width⟩, ?_⟩
  rw [decide_eq_true_iff, Option.some.injEq, length]
  constructor
  · intro same
    exact ⟨xedd, decoded, same⟩
  · rintro ⟨xedd', decoded', same⟩
    obtain rfl := Option.some.inj (decoded.symm.trans decoded')
    exact same

/-- A direct branch as XED has encoded it. -/
def IsCanonical (xed : Xed) (e : InstructionData kInstructionInfo) : Prop :=
  ∃ old displacement, IsBranch xed old ∧ xed.encode old.bytes displacement = some e.bytes

theorem IsCanonical.size (hx : xed.Reencodes) {e e' : InstructionData kInstructionInfo}
    (h : IsCanonical xed e) {displacement : Int}
    (encoded : xed.encode e.bytes displacement = some e'.bytes) : e'.size = e.size := by
  obtain ⟨old, _, ⟨xedd, decoded, length, width⟩, made⟩ := h
  exact hx.canonical decoded length width made encoded

/-- The branch is encoded once, or twice when its size has changed. -/
theorem tryToReencode_ok (hx : xed.Reencodes) (insn : Instruction kInstructionInfo) (d : Int)
    (hd : insn.directBranch.encodedByteDisplacement = some d) (branch : IsBranch xed insn.encoded) :
    ∃ success e, tryToReencodeInstructionDisplacements xed insn =
        .ok (success, { insn with encoded := e }) ∧
      0 < e.size ∧ IsBranch xed e ∧ IsCanonical xed e ∧
      (success = true → HasDisplacement xed e d) ∧ (d = 0 → success = true) ∧
      (IsCanonical xed insn.encoded → e.size = insn.encoded.size) := by
  obtain ⟨e, first, pos, le, branch₁, encoded, near⟩ := reencodeInternal_ok hx hd branch
  have valid : insn.directBranch.valid = true := by simp [InstructionDisplacementInfo.valid, hd]
  have short : insn.encoded.size ≤ 16 := insn.encoded.fits
  have canonical : IsCanonical xed e := ⟨insn.encoded, _, branch, encoded⟩
  by_cases same : insn.encoded.size = e.size
  · obtain ⟨xedd, decoded, length, done⟩ := isBranch_encoded branch₁ d
    refine ⟨_, e, ?_, pos, branch₁, canonical, done.success_iff.mp, ?_, fun _ => same.symm⟩
    · unfold tryToReencodeInstructionDisplacements
      simp only [check_ok_iff.mpr valid, first, same, ne_eq, not_true_eq_false, if_false, decoded,
        check_ok_iff.mpr length, hd, bind, Except.bind, pure, Except.pure]
    · rintro rfl
      obtain ⟨xedd', decoded', small⟩ := near (by omega) (by omega)
      exact done.success_iff.mpr ⟨xedd', decoded', by omega⟩
  · have hd₁ : ({ insn with encoded := e } : Instruction kInstructionInfo
        ).directBranch.encodedByteDisplacement = some d := hd
    obtain ⟨e', again, pos', -, branch₂, encoded', near'⟩ := reencodeInternal_ok hx hd₁ branch₁
    have kept : e'.size = e.size := canonical.size hx encoded'
    obtain ⟨xedd, decoded, length, done⟩ := isBranch_encoded branch₂ d
    refine ⟨_, e', ?_, pos', branch₂, ⟨e, _, branch₁, encoded'⟩, done.success_iff.mp, ?_, ?_⟩
    · unfold tryToReencodeInstructionDisplacements
      simp only [check_ok_iff.mpr valid, first, same, ne_eq, not_false_eq_true, if_true, again,
        check_ok_iff.mpr kept, decoded, check_ok_iff.mpr length, hd, bind, Except.bind, pure, Except.pure]
    · rintro rfl
      dsimp only at near'
      obtain ⟨xedd', decoded', small⟩ := near' (by omega) (by omega)
      exact done.success_iff.mpr ⟨xedd', decoded', by omega⟩
    · intro before
      exact absurd (before.size hx encoded).symm same

/-- What XED has encoded keeps its size. -/
def reencoding (hx : xed.Reencodes) : Reencoding (x8664 xed) where
  Branch := IsBranch xed
  Canonical := IsCanonical xed
  Shows := HasDisplacement xed
  run := tryToReencode_ok hx

theorem reencoding_marks (hx : xed.Reencodes) (lawful : xed.Lawful) :
    (x8664 xed).Marks (reencoding hx).Has := by
  apply Reencoding.marks
  intro bytes insn config mustDecodeEverything
  change Yields (instructionFromBytes _ _ _ _ _) _ _
  unfold instructionFromBytes
  cases decoded : xed.decode bytes with
  | none => exact yields_pure (by simp)
  | some xedd =>
    obtain ⟨-, le, inside⟩ := lawful.length decoded
    have size : (bytes.take xedd.length).length = xedd.length := List.length_take_of_le inside
    have fits : (bytes.take xedd.length).length ≤ kInstructionInfo.bufferSize := by
      rw [size]
      exact Nat.le_succ_of_le le
    have again := hx.alone decoded
    simp only [InstructionData.copy, dif_pos fits, bind, Except.bind]
    split
    · exact yields_pure (by simp)
    split
    · exact yields_pure (by simp)
    apply yields_pure
    intro _
    unfold getDirectBranchInfo
    by_cases width : xedd.branchDisplacementWidth > 0
    · constructor
      · intro _
        exact ⟨xedd, again, size.symm, width⟩
      · intro d hd
        rw [if_pos width] at hd
        dsimp only at hd
        split at hd
        · refine ⟨xedd, again, ?_⟩
          rw [← Option.some.inj hd, InstructionData.size, size]
        · cases hd
    · rw [if_neg width]
      constructor <;> simp [InstructionDisplacementInfo.valid]

end X8664

/-- `FixupEncodedDisplacements` ends without a failed `CHECK`, and its program is in sync. -/
def FixesUp {A : Arch} (E : Reencoding A) {ρ : Type} (rng : MutatorRng ρ) (p : Program A.info) :
    Prop :=
  Settles (fun fuel => p.fixupEncodedDisplacements A rng fuel) fun r =>
    Program.Synced E r.2 ∧ r.2.numInstructions = p.numInstructions

theorem fixesUp_encodable {A : Arch} {E : Reencoding A} {ρ : Type} {rng : MutatorRng ρ}
    {p : Program A.info} (h : p.Encodable E) : FixesUp E rng p := by
  apply settles_post (Program.fixupEncodedDisplacements_ends h.toConsistent h.has)
  rintro r ⟨synced, count, -⟩
  exact ⟨synced, count⟩

/-- **The fixup of a consistent program ends**, for both architectures, with all offsets and
displacements in sync. Programs as the code makes them are consistent, with branches that
can be encoded again. -/
theorem fixupEncodedDisplacements_exact {ρ : Type} (rng : MutatorRng ρ) :
    (∀ disassemble : Bytes → Bool,
      (∀ p : Program AArch64.kInstructionInfo, p.Encodable (AArch64.reencoding disassemble) →
        FixesUp (AArch64.reencoding disassemble) rng p) ∧
      ∀ p : Program AArch64.kInstructionInfo, Program.Built (A := aarch64 disassemble) rng p →
        p.Encodable (AArch64.reencoding disassemble)) ∧
    ∀ (xed : Xed) (_ : xed.Lawful) (hx : xed.Reencodes),
      (∀ p : Program X8664.kInstructionInfo, p.Encodable (X8664.reencoding hx) →
        FixesUp (X8664.reencoding hx) rng p) ∧
      ∀ p : Program X8664.kInstructionInfo, Program.Built (A := x8664 xed) rng p →
        p.Encodable (X8664.reencoding hx) := by
  constructor
  · intro disassemble
    constructor
    · intro p h
      exact fixesUp_encodable h
    · intro p built
      exact Program.built_encodable (aarch64_lawful disassemble)
        (AArch64.reencoding_marks disassemble) built
  · intro xed lawful hx
    constructor
    · intro p h
      exact fixesUp_encodable h
    · intro p built
      exact Program.built_encodable (x8664_lawful lawful) (X8664.reencoding_marks hx lawful) built

/-- Short jumps, decoded and encoded as XED does it. -/
def shortJumps : Xed where
  decode
    | 0xeb :: displacement :: _ => some ⟨2, 1, displacement.toInt, true⟩
    | _ => none
  encode _ displacement := some [0xeb, BitVec.ofInt 8 displacement]

theorem shortJumps_decode {bytes : Bytes} {xedd : XedDecodedInst}
    (h : shortJumps.decode bytes = some xedd) : ∃ displacement rest,
      bytes = 0xeb :: displacement :: rest ∧ xedd = ⟨2, 1, displacement.toInt, true⟩ := by
  unfold shortJumps at h
  dsimp only at h
  split at h
  · next displacement rest => exact ⟨displacement, rest, rfl, (Option.some.inj h).symm⟩
  · cases h

theorem shortJumps_lawful : shortJumps.Lawful where
  length h := by
    obtain ⟨displacement, rest, rfl, rfl⟩ := shortJumps_decode h
    simp
  displacement h := by
    obtain ⟨displacement, rest, rfl, rfl⟩ := shortJumps_decode h
    have low := BitVec.le_toInt displacement
    have high := BitVec.toInt_lt (x := displacement)
    dsimp only
    omega
  encode h := by
    obtain rfl := Option.some.inj h
    simp

theorem shortJumps_reencodes : shortJumps.Reencodes where
  alone h := by
    obtain ⟨displacement, rest, rfl, rfl⟩ := shortJumps_decode h
    rfl
  encodes displacement h := by
    obtain ⟨old, rest, rfl, rfl⟩ := shortJumps_decode h
    intro _ _
    refine ⟨_, _, rfl, by simp, by simp, rfl, rfl, by simp, ?_⟩
    intro low high
    dsimp only
    rw [BitVec.toInt_ofInt]
    exact Int.bmod_eq_of_le (by omega) (by omega)
  canonical _ _ _ h h' := by
    obtain rfl := Option.some.inj h
    obtain rfl := Option.some.inj h'
    rfl

theorem fixupEncodedDisplacements_exact_branches :
    (∃ p, Program.parse (aarch64 fun _ => true) [0, 0, 0, 0x14, 0xff, 0xff, 0xff, 0x17] = .ok p ∧
      FixesUp (AArch64.reencoding fun _ => true) countingRng p) ∧
    ∃ p, Program.parse (x8664 shortJumps) [0xeb, 0, 0xeb, 0xfc] = .ok p ∧
      FixesUp (X8664.reencoding shortJumps_reencodes) countingRng p := by
  obtain ⟨arm, intel⟩ := fixupEncodedDisplacements_exact countingRng
  obtain ⟨fixes, encodable⟩ := arm fun _ => true
  obtain ⟨fixes', encodable'⟩ := intel shortJumps shortJumps_lawful shortJumps_reencodes
  have ⟨p, run, _⟩ := Program.parse_ok (aarch64_lawful fun _ => true)
    [0, 0, 0, 0x14, 0xff, 0xff, 0xff, 0x17] {}
  have ⟨q, run', _⟩ := Program.parse_ok (x8664_lawful shortJumps_lawful) [0xeb, 0, 0xeb, 0xfc] {}
  constructor
  · exact ⟨p, run, fixes p (encodable p (.parsed run))⟩
  · exact ⟨q, run', fixes' q (encodable' q (.parsed run'))⟩

end Silifuzz
