import Silifuzz.Fuzzer.ProgramAArch64.Filter
import Silifuzz.Library.Fuel

/-!
# The fixup of AArch64 programs

All instructions have four bytes, so that the fixup is done after one pass. A branch
whose displacement does not fit gets boundaries at random until one does, and the
branch to itself always does.
-/

namespace Silifuzz

open LittleEndian Triples Fuel

namespace BranchInstructionInfo

theorem field_bits : ∀ info ∈ kBranchInstructionInfo,
    info.displacement.width ≤ 32 ∧ ∀ i < info.displacement.width,
      info.field.getLsbD (info.displacement.lsb + i) = true ∧
        info.displacement.lsb + i < 32 := by
  decide

/-- Without any bit in the field the displacement is zero. -/
theorem extractBranchDisplacement_zero {info : BranchInstructionInfo}
    (mem : info ∈ kBranchInstructionInfo) {insn : BitVec 32} (h : insn &&& info.field = 0) :
    extractBranchDisplacement insn info.displacement.lsb info.displacement.width = 0 := by
  obtain ⟨le, bits⟩ := field_bits info mem
  have shifted : (insn.sshiftRight info.displacement.lsb) <<<
      (32 - info.displacement.width) = 0 := by
    apply BitVec.eq_of_getLsbD_eq
    intro i hi
    rw [BitVec.getLsbD_shiftLeft]
    by_cases low : i < 32 - info.displacement.width
    · simp [low]
    · obtain ⟨field, inside⟩ := bits (i - (32 - info.displacement.width)) (by omega)
      have clear := congrArg (·.getLsbD
        (info.displacement.lsb + (i - (32 - info.displacement.width)))) h
      simp only [BitVec.getLsbD_and, field, Bool.and_true, BitVec.ofNat_eq_ofNat,
        BitVec.getLsbD_zero] at clear
      rw [BitVec.getLsbD_sshiftRight, if_pos inside, clear]
      simp
  unfold extractBranchDisplacement
  rw [shifted]
  simp

end BranchInstructionInfo

namespace AArch64

/-- An instruction word that the parser accepts under `config`. -/
structure Accepted (disassemble : Bytes → Bool) (config : InstructionConfig)
    (insn : Instruction kInstructionInfo) : Prop where
  size : insn.encoded.size = 4
  valid : config.requireValidEncoding = true → disassemble insn.encoded.bytes = true
  filter : config.filter = true → staticInstructionFilter insn.encoded.bytes = true

/-- The displacement that the word of an instruction has. -/
def wordDisplacement (insn : Instruction kInstructionInfo) (info : BranchInstructionInfo) : Int :=
  (extractBranchDisplacement (insnWord insn) info.displacement.lsb info.displacement.width).toInt

/-- An instruction of a program of `n` boundaries, as the fixup is to leave it alone
but for its displacement. What has no displacement has none by its word. -/
structure Sound (disassemble : Bytes → Bool) (config : InstructionConfig) (n : Nat)
    (insn : Instruction kInstructionInfo) : Prop where
  accepted : Accepted disassemble config insn
  branch : insn.directBranch.Within n
  isBranch : insn.directBranch.valid = true →
    ∃ info, branchInstructionInfo (insnWord insn) = some info
  noBranch : insn.directBranch.valid = false →
    (getDirectBranchInfo (insnWord insn) config.displacementFixupLimit).valid = false

/-- The word has the displacement of the instruction. -/
def Encoded (insn : Instruction kInstructionInfo) : Prop :=
  ∀ d ∈ insn.directBranch.encodedByteDisplacement, ∀ info,
    branchInstructionInfo (insnWord insn) = some info → wordDisplacement insn info = d

/-- The displacement goes to the boundary. -/
def Targeted (insn : Instruction kInstructionInfo) : Prop :=
  ∀ d ∈ insn.directBranch.encodedByteDisplacement,
    ∀ b ∈ insn.directBranch.instructionBoundary, d = (4 * b : Nat) - insn.offset

/-- What the code relies on in the disassembler: an instruction is four bytes, and a
branch is accepted or not whatever its displacement. -/
structure Disassembles (disassemble : Bytes → Bool) : Prop where
  word : ∀ bytes, 4 ≤ bytes.length → disassemble bytes = disassemble (bytes.take 4)
  branch : ∀ insn insn' info, branchInstructionInfo insn = some info →
    AgreeOutside info.field insn insn' →
    disassemble (encode 4 insn.toNat) = disassemble (encode 4 insn'.toNat)

variable {disassemble : Bytes → Bool} {config : InstructionConfig} {n : Nat}
  {insn : Instruction kInstructionInfo}

theorem bytes_eq_encode (size : insn.encoded.size = 4) :
    insn.encoded.bytes = encode 4 (insnWord insn).toNat := by
  have lt := decode_lt insn.encoded.bytes
  rw [show insn.encoded.bytes.length = 4 from size] at lt
  unfold insnWord
  rw [BitVec.toNat_ofNat, Nat.mod_eq_of_lt (by simpa using lt)]
  have back := encode_decode insn.encoded.bytes
  rw [show insn.encoded.bytes.length = 4 from size] at back
  exact back.symm

theorem Reencoded.accepted (hd : Disassembles disassemble) {info : BranchInstructionInfo}
    {success : Bool} {result : Instruction kInstructionInfo}
    (hi : branchInstructionInfo (insnWord insn) = some info)
    (h : Reencoded insn info success result) (accepted : Accepted disassemble config insn) :
    Accepted disassemble config result where
  size := h.size
  valid required := by
    have valid := accepted.valid required
    rw [bytes_eq_encode accepted.size] at valid
    rw [bytes_eq_encode h.size, ← hd.branch _ _ info hi h.agrees.symm]
    exact valid
  filter required := by
    have ok := accepted.filter required
    obtain ⟨mem, isMatch⟩ := branchInstructionInfo_mem hi
    rw [staticInstructionFilter_encoded accepted.size] at ok
    rw [staticInstructionFilter_encoded h.size]
    have same := BranchInstructionInfo.instructionIsOK_of_agree mem isMatch h.agrees.symm {}
    exact same.symm.trans ok

theorem Reencoded.info {info : BranchInstructionInfo} {success : Bool}
    {result : Instruction kInstructionInfo}
    (hi : branchInstructionInfo (insnWord insn) = some info)
    (h : Reencoded insn info success result) :
    branchInstructionInfo (insnWord result) = some info := by
  obtain ⟨mem, isMatch⟩ := branchInstructionInfo_mem hi
  rw [← hi]
  exact (BranchInstructionInfo.branchInstructionInfo_of_agree mem isMatch h.agrees.symm).symm

/-- A new encoding keeps everything but the displacement of the word. -/
theorem Reencoded.sound (hd : Disassembles disassemble) {info : BranchInstructionInfo}
    {success : Bool} {result : Instruction kInstructionInfo}
    (hi : branchInstructionInfo (insnWord insn) = some info)
    (h : Reencoded insn info success result) (valid : insn.directBranch.valid = true)
    (sound : Sound disassemble config n insn) : Sound disassemble config n result where
  accepted := h.accepted hd hi sound.accepted
  branch := h.branch ▸ sound.branch
  isBranch _ := ⟨info, h.info hi⟩
  noBranch none := by
    rw [h.branch, valid] at none
    cases none

/-- A displacement of zero can always be encoded. -/
theorem Reencoded.success_zero {info : BranchInstructionInfo} {success : Bool}
    {result : Instruction kInstructionInfo}
    (hi : branchInstructionInfo (insnWord insn) = some info)
    (h : Reencoded insn info success result)
    (zero : insn.directBranch.encodedByteDisplacement = some 0) : success = true := by
  obtain ⟨mem, -⟩ := branchInstructionInfo_mem hi
  have word : insnWord result = insnWord insn &&& ~~~info.field := by
    rw [h.word, rewrittenWord, zero]
    simp [rewriteBranchDisplacement, BranchInstructionInfo.field]
  have clear : insnWord result &&& info.field = 0 := by
    rw [word, BitVec.and_assoc]
    ext i hi
    simp
  rw [h.success_iff, zero, BranchInstructionInfo.extractBranchDisplacement_zero mem clear]
  simp

/-! ## Programs -/

/-- The instructions are four bytes each, one after another. -/
def Laid (p : Program kInstructionInfo) : Prop :=
  ∀ i, ∀ insn, p.instructions[i]? = some insn → insn.encoded.size = 4 ∧ insn.offset = 4 * i

theorem laid_layout {insns : List (Instruction kInstructionInfo)}
    (h : ∀ insn ∈ insns, insn.encoded.size = 4) (start i : Nat)
    (insn : Instruction kInstructionInfo)
    (hi : (Program.layout start insns).1[i]? = some insn) :
    insn.encoded.size = 4 ∧ insn.offset = start + 4 * i := by
  induction insns generalizing start i with
  | nil => simp [Program.layout] at hi
  | cons first rest ih =>
    have size := h first (by simp)
    cases i with
    | zero =>
      simp only [Program.layout, List.getElem?_cons_zero, Option.some.injEq] at hi
      subst hi
      exact ⟨size, rfl⟩
    | succ i =>
      simp only [Program.layout, List.getElem?_cons_succ] at hi
      obtain ⟨size', offset⟩ := ih (fun x hx => h x (by simp [hx])) _ i hi
      rw [size] at offset
      exact ⟨size', by omega⟩

theorem Laid.put {p : Program kInstructionInfo} (h : Laid p) {i : Nat}
    {x : Instruction kInstructionInfo} (size : x.encoded.size = 4) (offset : x.offset = 4 * i) :
    Laid (p.put i x) := by
  intro j insn hj
  simp only [Program.put, List.getElem?_set] at hj
  split at hj
  · next same =>
    subst same
    split at hj
    · cases hj
      exact ⟨size, offset⟩
    · cases hj
  · exact h j insn hj

theorem Laid.boundaryOffset {p : Program kInstructionInfo} (h : Laid p)
    (nonempty : 0 < p.numInstructions) {b : Nat} (hb : b < p.numInstructionBoundaries) :
    p.boundaryOffset b = (4 * b : Nat) := by
  simp only [Program.numInstructions, Program.numInstructionBoundaries] at nonempty hb
  unfold Program.boundaryOffset
  cases hi : p.instructions[b]? with
  | some insn =>
    have offset := (h b insn hi).2
    dsimp only
    rw [offset]
  | none =>
    have last : p.instructions.length = b := by
      have := List.getElem?_eq_none_iff.mp hi
      omega
    have nonempty : p.instructions ≠ [] := List.ne_nil_of_length_pos nonempty
    rw [List.getLast?_eq_some_getLast nonempty]
    have at_last := List.getLast_eq_getElem nonempty
    obtain ⟨size, offset⟩ := h (p.instructions.length - 1) (p.instructions.getLast nonempty) (by
      rw [at_last, List.getElem?_eq_getElem])
    dsimp only
    rw [offset, size, last]
    omega

/-- What `SyncByteDisplacements` does to an instruction of a program that is laid out. -/
theorem syncByteDisplacements_ok {p : Program kInstructionInfo} (h : Laid p)
    (nonempty : 0 < p.numInstructions) (insn : Instruction kInstructionInfo)
    (within : insn.directBranch.Within p.numInstructionBoundaries) :
    ∃ changed d, p.syncByteDisplacements insn = .ok (changed, { insn with
        directBranch := { insn.directBranch with encodedByteDisplacement := d } }) ∧
      d.isSome = insn.directBranch.valid ∧ (changed = true → insn.directBranch.valid = true) ∧
      (changed = false → d = insn.directBranch.encodedByteDisplacement) ∧
      ∀ d' ∈ d, ∀ b ∈ insn.directBranch.instructionBoundary,
        d' = (4 * b : Nat) - (insn.offset : Int) := by
  unfold Program.syncByteDisplacements
  cases hd : insn.directBranch.encodedByteDisplacement with
  | none =>
    refine ⟨false, insn.directBranch.encodedByteDisplacement, rfl, rfl, Bool.noConfusion, fun _ => hd, ?_⟩
    simp [hd]
  | some d =>
    have valid : insn.directBranch.valid = true := by simp [InstructionDisplacementInfo.valid, hd]
    obtain ⟨b, hb, lt⟩ := within.target valid
    rw [hb]
    dsimp only
    rw [Program.instructionBoundaryToProgramByteOffset_ok
      (List.ne_nil_of_length_pos nonempty) lt, h.boundaryOffset nonempty lt]
    by_cases same : ((4 * b : Nat) : Int) - insn.offset = d
    · refine ⟨false, insn.directBranch.encodedByteDisplacement, ?_, rfl, Bool.noConfusion, fun _ => hd, ?_⟩
      · simp only [bind, Except.bind, same, if_true]
        rfl
      · rw [hd]
        rintro _ ⟨⟩ _ ⟨⟩
        exact same.symm
    · refine ⟨true, some ((4 * b : Nat) - (insn.offset : Int)), ?_, ?_, fun _ => valid, Bool.noConfusion, ?_⟩
      · simp only [bind, Except.bind, same, if_false]
        rw [hb]
        rfl
      · simp [valid]
      · rintro _ ⟨⟩ _ ⟨⟩
        rfl

/-! ## Encoding a branch -/

/-- A branch at `i` whose displacement is to be encoded. -/
structure Ready (disassemble : Bytes → Bool) (config : InstructionConfig) (n i : Nat)
    (insn : Instruction kInstructionInfo) : Prop where
  sound : Sound disassemble config n insn
  valid : insn.directBranch.valid = true
  targeted : Targeted insn
  offset : insn.offset = 4 * i

variable {ρ : Type} {rng : MutatorRng ρ} {p : Program kInstructionInfo} {i : Nat}

/-- One turn: either the displacement fits, or a boundary has been drawn. -/
theorem reencodeLoop_turn (hd : Disassembles disassemble) (laid : Laid p)
    (hi : i < p.numInstructions)
    (ready : Ready disassemble config p.numInstructionBoundaries i insn) (r : ρ) :
    ∃ success x z, (∀ fuel, Program.reencodeLoop (aarch64 disassemble) rng i (fuel + 1)
        (p.put i insn) r = if success then .ok (p.put i x, r)
          else Program.reencodeLoop (aarch64 disassemble) rng i fuel (p.put i z)
            (rng.uniform p.numInstructions r).2) ∧
      (success = true → Ready disassemble config p.numInstructionBoundaries i x ∧ Encoded x) ∧
      Ready disassemble config p.numInstructionBoundaries i z ∧
      z.directBranch.instructionBoundary = some (rng.uniform p.numInstructions r).1 ∧
      (insn.directBranch.instructionBoundary = some i → success = true) := by
  obtain ⟨info, hinfo⟩ := ready.sound.isBranch ready.valid
  obtain ⟨success, x, run, reencoded⟩ :=
    tryToReencodeInstructionDisplacements_ok ready.sound.accepted.size hinfo
  have sound := reencoded.sound hd hinfo ready.valid ready.sound
  have valid : x.directBranch.valid = true := by
    rw [reencoded.branch]
    exact ready.valid
  have offset := reencoded.offset.trans ready.offset
  let drawn := (rng.uniform p.numInstructions r).1
  have lt : drawn < p.numInstructionBoundaries :=
    Nat.lt_succ_of_le (rng.uniform_le p.numInstructions r)
  let y : Instruction kInstructionInfo := { x with
    directBranch := { x.directBranch with instructionBoundary := some drawn } }
  have within : y.directBranch.Within (p.put i y).numInstructionBoundaries := by
    rw [Program.numInstructionBoundaries_put]
    exact ⟨fun _ => ⟨drawn, rfl, lt⟩, fun none => absurd (none.symm.trans valid) nofun⟩
  obtain ⟨changed, d, sync, hs, -, -, target⟩ := syncByteDisplacements_ok
    (laid.put (x := y) sound.accepted.size offset)
    (by rw [Program.numInstructions_put]; omega) y within
  refine ⟨success, x, { y with directBranch := { y.directBranch with
    encodedByteDisplacement := d } }, fun fuel => ?_, ?_, ?_, rfl, ?_⟩
  · exact Program.reencodeLoop_succ hi run valid sync fuel
  · intro h
    refine ⟨⟨sound, valid, ?_, offset⟩, ?_⟩
    · intro d hd b hb
      rw [reencoded.branch] at hd hb
      rw [reencoded.offset]
      exact ready.targeted d hd b hb
    · intro d hd info' hinfo'
      rw [reencoded.info hinfo, Option.some.injEq] at hinfo'
      rw [reencoded.branch] at hd
      rw [← hinfo']
      have fits := reencoded.success_iff.mp h
      rw [show insn.directBranch.encodedByteDisplacement = some d from hd] at fits
      exact fits
  · have still : d.isSome = true := hs.trans valid
    refine ⟨⟨⟨sound.accepted.size, sound.accepted.valid, sound.accepted.filter⟩,
      ⟨fun _ => ⟨drawn, rfl, lt⟩, fun none => absurd (none.symm.trans still) Bool.false_ne_true⟩,
      fun _ => sound.isBranch valid, fun none => absurd (none.symm.trans still) Bool.false_ne_true⟩,
      still, target, offset⟩
  · intro own
    obtain ⟨d, hd⟩ := Option.isSome_iff_exists.mp ready.valid
    have zero := ready.targeted d hd i own
    rw [ready.offset, Int.sub_self] at zero
    exact reencoded.success_zero hinfo (zero ▸ hd)

/-- **Sooner or later the displacement fits**: a draw of the branch itself is enough. -/
theorem reencodeLoop_settles (hd : Disassembles disassemble) (laid : Laid p)
    (hi : i < p.numInstructions)
    (ready : Ready disassemble config p.numInstructionBoundaries i insn) :
    Settles (fun fuel => Program.reencodeLoop (aarch64 disassemble) rng i fuel (p.put i insn))
      (fun q => ∃ x, q = p.put i x ∧
        Ready disassemble config p.numInstructionBoundaries i x ∧ Encoded x) := by
  intro r
  obtain ⟨turns, own⟩ := rng.comesUp p.numInstructions r i (Nat.le_of_lt hi)
  induction turns generalizing insn r with
  | zero =>
    obtain ⟨success, x, z, turn, done, ready', boundary, -⟩ :=
      reencodeLoop_turn hd laid hi ready r
    cases success with
    | true => exact settlesAt_done turn ⟨x, rfl, done rfl⟩
    | false =>
      apply settlesAt_turn turn
      obtain ⟨success, x', _, turn', done', -, -, fits⟩ :=
        reencodeLoop_turn hd laid hi ready' (rng.uniform p.numInstructions r).2
      have success := fits (boundary.trans (congrArg some own))
      subst success
      exact settlesAt_done turn' ⟨x', rfl, done' rfl⟩
  | succ turns ih =>
    obtain ⟨success, x, z, turn, done, ready', -, -⟩ :=
      reencodeLoop_turn hd laid hi ready r
    cases success with
    | true => exact settlesAt_done turn ⟨x, rfl, done rfl⟩
    | false => exact settlesAt_turn turn (ih ready' _ own)

/-! ## The pass over the instructions -/

/-- The program after the instructions before `i`. -/
structure Pass (disassemble : Bytes → Bool) (config : InstructionConfig) (n i : Nat)
    (s : Program.FixupState kInstructionInfo) : Prop where
  boundaries : s.program.numInstructionBoundaries = n
  laid : Laid s.program
  sound : ∀ insn ∈ s.program.instructions, Sound disassemble config n insn
  encoded : ∀ insn ∈ s.program.instructions, Encoded insn
  targeted : ∀ j < i, ∀ insn, s.program.instructions[j]? = some insn → Targeted insn
  offset : s.offset = 4 * i
  byteLen : s.program.byteLen + 4 = 4 * n
  stable : s.stable = true

/-- The instruction at `i` is done. -/
theorem Pass.next {s : Program.FixupState kInstructionInfo} (h : Pass disassemble config n i s)
    {x : Instruction kInstructionInfo} (sound : Sound disassemble config n x) (encoded : Encoded x)
    (targeted : Targeted x) (offset : x.offset = 4 * i) (modified : Bool) :
    Pass disassemble config n (i + 1)
      ⟨s.program.put i x, s.offset + x.encoded.size, true, modified⟩ where
  boundaries := by rw [Program.numInstructionBoundaries_put, h.boundaries]
  laid := h.laid.put sound.accepted.size offset
  sound y hy := by
    rcases List.mem_or_eq_of_mem_set hy with hy | rfl
    · exact h.sound y hy
    · exact sound
  encoded y hy := by
    rcases List.mem_or_eq_of_mem_set hy with hy | rfl
    · exact h.encoded y hy
    · exact encoded
  targeted j hj y hy := by
    simp only [Program.put, List.getElem?_set] at hy
    split at hy
    · split at hy
      · cases hy
        exact targeted
      · cases hy
    · exact h.targeted j (by omega) y hy
  offset := by
    change s.offset + x.encoded.size = 4 * (i + 1)
    rw [h.offset, sound.accepted.size]
    omega
  byteLen := h.byteLen
  stable := rfl

theorem fixupInstruction_settles (hd : Disassembles disassemble)
    {s : Program.FixupState kInstructionInfo} (h : Pass disassemble config n i s)
    (hi : i < s.program.numInstructions) :
    Settles (fun fuel => Program.fixupInstruction (aarch64 disassemble) rng fuel s i)
      (Pass disassemble config n (i + 1)) := by
  have at_i : s.program.instructions[i]? = some s.program.instructions[i] :=
    List.getElem?_eq_getElem hi
  have mem : s.program.instructions[i] ∈ s.program.instructions := List.getElem_mem hi
  obtain ⟨size, offset⟩ := h.laid i _ at_i
  have sound := h.sound _ mem
  have encoded := h.encoded _ mem
  generalize s.program.instructions[i] = insn at at_i size offset sound encoded
  have get : s.program.getInstruction i = .ok insn := by
    unfold Program.getInstruction
    rw [at_i]
  have placed : ({ insn with offset := s.offset } : Instruction kInstructionInfo) = insn := by
    rw [h.offset, ← offset]
  have laid := h.laid.put (x := insn) size offset
  have within : insn.directBranch.Within (s.program.put i insn).numInstructionBoundaries := by
    rw [Program.numInstructionBoundaries_put, h.boundaries]
    exact sound.branch
  obtain ⟨changed, d, sync, hs, isBranch, same, target⟩ := syncByteDisplacements_ok laid
    (by rw [Program.numInstructions_put]; omega) insn within
  unfold Program.fixupInstruction
  apply settles_bind (settles_lift_ok ⟨insn, get, rfl⟩ (Q := (insn = ·)))
  rintro _ rfl
  rw [placed]
  apply settles_bind (settles_lift_ok ⟨_, sync, rfl⟩ (Q := (_ = ·)))
  rintro _ rfl
  apply settles_bind (Q := fun q => ∃ x, q = s.program.put i x ∧
    Sound disassemble config n x ∧ Encoded x ∧ Targeted x ∧ x.offset = 4 * i)
  · cases changed with
    | false =>
      have unchanged := same rfl
      subst unchanged
      exact settles_pure ⟨insn, rfl, sound, encoded, target, offset⟩
    | true =>
      have valid := isBranch rfl
      have still := hs.trans valid
      have ready : Ready disassemble config s.program.numInstructionBoundaries i { insn with
          directBranch := { insn.directBranch with encodedByteDisplacement := d } } := by
        refine ⟨⟨⟨size, sound.accepted.valid, sound.accepted.filter⟩, ?_, ?_, ?_⟩, still, target, offset⟩
        · rw [h.boundaries]
          exact ⟨fun _ => sound.branch.target valid, fun none => absurd (none.symm.trans still) Bool.false_ne_true⟩
        · exact fun _ => sound.isBranch valid
        · exact fun none => absurd (none.symm.trans still) nofun
      simp only [if_true, Program.put_put]
      apply settles_post (reencodeLoop_settles hd h.laid hi ready)
      rintro q ⟨x, rfl, done, fits⟩
      rw [h.boundaries] at done
      exact ⟨x, rfl, done.sound, fits, done.targeted, done.offset⟩
  · rintro _ ⟨x, rfl, sound, encoded, targeted, at_x⟩
    apply settles_bind (settles_lift_ok ⟨x, Program.getInstruction_put hi x, rfl⟩ (Q := (x = ·)))
    rintro _ rfl
    have stable : (s.stable && insn.offset == s.offset) = true := by
      simp [h.stable, offset, h.offset]
    rw [stable]
    exact settles_pure (h.next sound encoded targeted at_x _)

theorem totalSize_words {insns : List (Instruction kInstructionInfo)}
    (h : ∀ insn ∈ insns, insn.encoded.size = 4) :
    Program.totalSize insns = 4 * insns.length := by
  induction insns with
  | nil => rfl
  | cons insn insns ih =>
    rw [Program.totalSize_cons, h insn (by simp), ih fun x hx => h x (by simp [hx]),
      List.length_cons]
    omega

/-- **The fixup ends**, and every branch then goes to its boundary. -/
theorem fixupEncodedDisplacements_settles (hd : Disassembles disassemble)
    (sound : ∀ insn ∈ p.instructions, Sound disassemble config p.numInstructionBoundaries insn)
    (encoded : ∀ insn ∈ p.instructions, Encoded insn) :
    Settles (fun fuel => p.fixupEncodedDisplacements (aarch64 disassemble) rng fuel)
      (fun r => Pass disassemble config p.numInstructionBoundaries p.numInstructions
          ⟨r.2, 4 * p.numInstructions, true, false⟩ ∧ r.2.encodingsMayBeInvalid = false) := by
  have count : p.fixupInvariants.numInstructions = p.numInstructions := by
    simp [Program.fixupInvariants, Program.numInstructions]
  have start : Pass disassemble config p.numInstructionBoundaries 0
      { program := p.fixupInvariants, modified := false } := by
    refine ⟨congrArg (· + 1) count, fun i insn hi => ?_, fun insn mem => ?_, fun insn mem => ?_,
      fun j hj => absurd hj (by omega), rfl, ?_, rfl⟩
    · have laid := laid_layout (fun x hx => (sound x hx).accepted.size) 0 i insn hi
      rwa [Nat.zero_add] at laid
    · obtain ⟨old, ho, o, rfl⟩ := Program.mem_layout mem
      have h := sound old ho
      exact ⟨⟨h.accepted.size, h.accepted.valid, h.accepted.filter⟩, h.branch, h.isBranch, h.noBranch⟩
    · obtain ⟨old, ho, o, rfl⟩ := Program.mem_layout mem
      exact encoded old ho
    · have size := totalSize_words fun x hx => (sound x hx).accepted.size
      simp only [Program.fixupInvariants, Program.layout_end, Program.numInstructionBoundaries,
        size]
      omega
  unfold Program.fixupEncodedDisplacements Program.fixupLoop
  rw [count]
  apply settles_bind (settles_foldlM (fun done s => Pass disassemble config
    p.numInstructionBoundaries done.length s) (l := List.range p.numInstructions) start ?_)
  · intro s h
    rw [List.length_range] at h
    have count : p.numInstructionBoundaries = p.numInstructions + 1 := rfl
    have byteLen := h.byteLen
    have offset := h.offset
    have stable : (s.stable && s.program.byteLen == s.offset) = true := by
      rw [h.stable, Bool.true_and, beq_iff_eq]
      omega
    have final : s.offset + 4 = 4 * p.numInstructionBoundaries := by omega
    simp only [stable, if_true]
    exact settles_pure ⟨⟨h.boundaries, h.laid, h.sound, h.encoded, h.targeted, rfl, final, rfl⟩, rfl⟩
  · intro done i rest s hl h
    obtain ⟨rfl, inside⟩ := Loops.range_at hl
    rw [List.length_append, List.length_singleton]
    apply fixupInstruction_settles hd h
    have same : s.program.numInstructions + 1 = p.numInstructions + 1 := h.boundaries
    omega

end AArch64

end Silifuzz
