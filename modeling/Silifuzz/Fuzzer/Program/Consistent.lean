import Silifuzz.Fuzzer.Program

/-!
# Consistent programs

`CheckConsistency` asserts that boundaries lie within the program and that its size
is the sum of its instructions. `Program.Consistent` says so of a program whose
instructions have bytes, and the operations of `Program` keep it.
-/

namespace Silifuzz

open LittleEndian Triples

theorem check_ok_iff {c : Prop} [Decidable c] : check c = .ok () ↔ c := by
  unfold check
  split <;> simp_all

theorem check_error_iff {c : Prop} [Decidable c] : check c = .error .check ↔ ¬ c := by
  unfold check
  split <;> simp_all

theorem check_yields {E : Fault → Prop} (c : Prop) [Decidable c] (stop : ¬ c → E .check) :
    Yields (check c) (fun _ => c) E := by
  unfold check
  split
  · next h => exact h
  · next h => exact stop h

/-- The displacement has a boundary below `n`, or there is neither. -/
structure InstructionDisplacementInfo.Within (branch : InstructionDisplacementInfo) (n : Nat) :
    Prop where
  target : branch.valid = true → ∃ b, branch.instructionBoundary = some b ∧ b < n
  absent : branch.valid = false → branch.instructionBoundary = none

structure Instruction.Fits {info : ArchInstructionInfo} (insn : Instruction info) (n : Nat) :
    Prop where
  nonempty : 0 < insn.encoded.size
  branch : insn.directBranch.Within n

namespace Program

variable {info : ArchInstructionInfo} {ρ : Type}

def totalSize (insns : List (Instruction info)) : Nat := (insns.map (·.encoded.size)).sum

@[simp] theorem totalSize_nil : totalSize ([] : List (Instruction info)) = 0 := rfl

@[simp] theorem totalSize_cons (insn : Instruction info) (insns : List (Instruction info)) :
    totalSize (insn :: insns) = insn.encoded.size + totalSize insns := by
  simp [totalSize]

@[simp] theorem totalSize_append (xs ys : List (Instruction info)) :
    totalSize (xs ++ ys) = totalSize xs + totalSize ys := by
  simp [totalSize]

structure Consistent (p : Program info) : Prop where
  insns : ∀ insn ∈ p.instructions, insn.Fits p.numInstructionBoundaries
  byteLen : p.byteLen = totalSize p.instructions

theorem consistent_empty : Consistent ({} : Program info) where
  insns := by simp
  byteLen := rfl

theorem checkConsistency_ok {p : Program info} (h : p.Consistent) :
    p.checkConsistency = .ok () := by
  have loop : Yields (p.instructions.foldlM (fun actualLen insn => do
      if insn.directBranch.valid then
        check (insn.directBranch.encodedByteDisplacement ≠ none)
        check (insn.directBranch.instructionBoundary ≠ none)
        check (∀ b ∈ insn.directBranch.instructionBoundary, b < p.numInstructionBoundaries)
      else
        check (insn.directBranch.encodedByteDisplacement = none)
        check (insn.directBranch.instructionBoundary = none)
      return actualLen + insn.encoded.size) 0)
      (fun actualLen => actualLen = totalSize p.instructions) (fun _ => False) := by
    apply yields_foldlM (fun done actualLen => actualLen = totalSize done) rfl
    intro done insn rest actualLen hl ha
    have fits := (h.insns insn (by simp [hl])).branch
    cases hv : insn.directBranch.valid with
    | true =>
      obtain ⟨b, hb, lt⟩ := fits.target hv
      have some := Option.isSome_iff_ne_none.mp hv
      simpa [check, some, hb, lt, Yields, pure, Except.pure, bind, Except.bind] using ha
    | false =>
      have none := Option.not_isSome_iff_eq_none.mp (Bool.eq_false_iff.mp hv)
      simpa [check, none, fits.absent hv, Yields, pure, Except.pure, bind, Except.bind] using ha
  obtain ⟨actualLen, run, eq⟩ := yields_ok loop
  unfold checkConsistency
  rw [run]
  exact check_ok_iff.mpr (eq ▸ h.byteLen)

/-! ## The layout -/

@[simp] theorem length_layout (offset : Nat) (insns : List (Instruction info)) :
    (layout offset insns).1.length = insns.length := by
  induction insns generalizing offset with
  | nil => rfl
  | cons insn insns ih => simp [layout, ih]

@[simp] theorem layout_end (offset : Nat) (insns : List (Instruction info)) :
    (layout offset insns).2 = offset + totalSize insns := by
  induction insns generalizing offset with
  | nil => rfl
  | cons insn insns ih => simp [layout, ih, Nat.add_assoc]

@[simp] theorem totalSize_layout (offset : Nat) (insns : List (Instruction info)) :
    totalSize (layout offset insns).1 = totalSize insns := by
  induction insns generalizing offset with
  | nil => rfl
  | cons insn insns ih => simp [layout, ih]

/-- Only offsets change. -/
theorem mem_layout {offset : Nat} {insns : List (Instruction info)} {insn : Instruction info}
    (h : insn ∈ (layout offset insns).1) : ∃ old ∈ insns, ∃ o, insn = { old with offset := o } := by
  induction insns generalizing offset with
  | nil => simp [layout] at h
  | cons first insns ih =>
    rcases List.mem_cons.mp h with rfl | h
    · exact ⟨first, by simp, offset, rfl⟩
    · obtain ⟨old, ho, eq⟩ := ih h
      exact ⟨old, by simp [ho], eq⟩

theorem fixupInvariants_consistent {insns : List (Instruction info)} {n byteLen : Nat}
    {mayBeInvalid : Bool} (hn : insns.length + 1 = n) (h : ∀ insn ∈ insns, insn.Fits n) :
    (fixupInvariants ⟨insns, byteLen, mayBeInvalid⟩).Consistent where
  insns insn hi := by
    obtain ⟨old, ho, o, rfl⟩ := mem_layout hi
    have fits := h old ho
    simp only [numInstructionBoundaries, fixupInvariants, length_layout, hn]
    exact ⟨fits.nonempty, fits.branch⟩
  byteLen := by simp [fixupInvariants]

/-! ## Instructions moved around -/

@[simp] theorem adjustBranch_valid (boundary : Nat) (amount : Int)
    (branch : InstructionDisplacementInfo) :
    (adjustBranch boundary amount branch).valid = branch.valid := by
  unfold adjustBranch
  split <;> [skip; rfl]
  split <;> [split; skip] <;> rfl

theorem adjustBranch_within {branch : InstructionDisplacementInfo} {boundary n m : Nat}
    {amount : Int} (h : branch.Within n) (kept : ∀ b < boundary, b < n → b < m)
    (moved : ∀ b ≥ boundary, b < n → (b + amount).toNat < m) :
    (adjustBranch boundary amount branch).Within m where
  target hv := by
    rw [adjustBranch_valid] at hv
    obtain ⟨b, hb, lt⟩ := h.target hv
    unfold adjustBranch
    rw [if_pos hv, hb]
    by_cases hge : b ≥ boundary
    · exact ⟨_, by simp [hge], moved b hge lt⟩
    · exact ⟨b, by simp [hge, hb], kept b (by omega) lt⟩
  absent hv := by
    rw [adjustBranch_valid] at hv
    unfold adjustBranch
    rw [if_neg (by simp [hv])]
    exact h.absent hv

theorem adjustInstructionIndexes_ok {p : Program info} {boundary : Nat} (amount : Int)
    (h : boundary ≤ p.numInstructionBoundaries) :
    p.adjustInstructionIndexes boundary amount = .ok { p with
      instructions := p.instructions.map fun insn =>
        { insn with directBranch := adjustBranch boundary amount insn.directBranch } } := by
  unfold adjustInstructionIndexes
  rw [check_ok_iff.mpr h]
  rfl

theorem insertInstructionBlock_consistent {p : Program info} (h : p.Consistent) {boundary : Nat}
    (hb : boundary < p.numInstructionBoundaries) (steal : Bool)
    {insns : List (Instruction info)}
    (hi : ∀ insn ∈ insns, insn.Fits (p.numInstructionBoundaries + insns.length)) :
    ∃ p', p.insertInstructionBlock boundary steal insns = .ok p' ∧ p'.Consistent := by
  have near : (if steal then boundary + 1 else boundary) ≤ p.numInstructionBoundaries := by
    split <;> omega
  unfold insertInstructionBlock
  simp only [check_ok_iff.mpr hb, adjustInstructionIndexes_ok _ near]
  refine ⟨_, rfl, fixupInvariants_consistent (n := p.numInstructionBoundaries + insns.length) ?_
    fun insn mem => ?_⟩
  · simp only [numInstructionBoundaries, List.length_append, List.length_take, List.length_drop,
      List.length_map] at hb ⊢
    omega
  · rw [List.append_assoc, List.mem_append, List.mem_append] at mem
    generalize (if steal then boundary + 1 else boundary) = shifted at near mem
    have old : insn ∈ p.instructions.map (fun insn =>
          { insn with directBranch := adjustBranch shifted insns.length insn.directBranch }) →
        insn.Fits (p.numInstructionBoundaries + insns.length) := by
      intro mem
      obtain ⟨before, hm, rfl⟩ := List.mem_map.mp mem
      have fits := h.insns before hm
      refine ⟨fits.nonempty, adjustBranch_within fits.branch ?_ ?_⟩ <;> omega
    rcases mem with mem | mem | mem
    · exact old (List.mem_of_mem_take mem)
    · exact hi insn mem
    · exact old (List.mem_of_mem_drop mem)

theorem removeInstruction_consistent {p : Program info} (h : p.Consistent) {index : Nat}
    (hi : index < p.numInstructions) :
    ∃ p', p.removeInstruction index = .ok p' ∧ p'.Consistent ∧
      p'.numInstructions + 1 = p.numInstructions := by
  have near : index + 1 ≤ p.numInstructionBoundaries := by
    simp only [numInstructions, numInstructionBoundaries] at hi ⊢
    omega
  simp only [numInstructions] at hi
  unfold removeInstruction
  rw [check_ok_iff.mpr (show index < p.numInstructions from hi), adjustInstructionIndexes_ok _ near]
  refine ⟨_, by simp [getInstruction, hi, bind, Except.bind]; rfl, ?_, ?_⟩
  · refine fixupInvariants_consistent (n := p.instructions.length) ?_ fun insn mem => ?_
    · simp [List.length_eraseIdx, hi]
      omega
    · obtain ⟨before, hm, rfl⟩ := List.mem_map.mp (List.mem_of_mem_eraseIdx mem)
      have fits := h.insns before hm
      refine ⟨fits.nonempty, adjustBranch_within fits.branch ?_ ?_⟩
      · omega
      · simp only [numInstructionBoundaries]
        omega
  · simp [numInstructions, fixupInvariants, List.length_eraseIdx, hi]
    omega

theorem foldl_setSizes (old insns : List (Instruction info)) (hl : old.length = insns.length)
    (rest : Nat) :
    (old.zip insns).foldl (fun byteLen i => byteLen - i.1.encoded.size + i.2.encoded.size)
      (rest + totalSize old) = rest + totalSize insns := by
  induction old generalizing insns rest with
  | nil => cases insns <;> simp_all
  | cons o old ih =>
    cases insns with
    | nil => simp at hl
    | cons insn insns =>
      have next := ih insns (by simpa using hl) (rest + insn.encoded.size)
      simp only [List.zip_cons_cons, List.foldl_cons, totalSize_cons]
      rw [show rest + (o.encoded.size + totalSize old) - o.encoded.size + insn.encoded.size =
        rest + insn.encoded.size + totalSize old by omega, next]
      omega

theorem setInstructionBlock_consistent {p : Program info} (h : p.Consistent) (index : Nat)
    (insns : List (Instruction info)) (hi : index + insns.length ≤ p.numInstructions)
    (fits : ∀ insn ∈ insns, insn.Fits p.numInstructionBoundaries) :
    ∃ p', p.setInstructionBlock index insns = .ok p' ∧ p'.Consistent ∧
      p'.numInstructions = p.numInstructions := by
  unfold setInstructionBlock
  rw [check_ok_iff.mpr hi]
  simp only [numInstructions] at hi
  have same : (p.instructions.take index ++ insns ++
      p.instructions.drop (index + insns.length)).length = p.instructions.length := by
    simp only [List.length_append, List.length_take, List.length_drop]
    omega
  refine ⟨_, rfl, ⟨fun insn mem => ?_, ?_⟩, same⟩
  · simp only [numInstructionBoundaries, same]
    rw [List.append_assoc, List.mem_append, List.mem_append] at mem
    rcases mem with mem | mem | mem
    · exact h.insns insn (List.mem_of_mem_take mem)
    · exact fits insn mem
    · exact h.insns insn (List.mem_of_mem_drop mem)
  · have parts : p.instructions = p.instructions.take index ++
        ((p.instructions.drop index).take insns.length ++
          p.instructions.drop (index + insns.length)) := by
      rw [← List.drop_drop, List.take_append_drop, List.take_append_drop]
    have size : p.byteLen = totalSize (p.instructions.take index) +
        totalSize (p.instructions.drop (index + insns.length)) +
          totalSize ((p.instructions.drop index).take insns.length) := by
      rw [h.byteLen]
      conv_lhs => rw [parts]
      simp only [totalSize_append]
      omega
    simp only [size]
    rw [foldl_setSizes _ _ (by simp; omega)]
    simp only [totalSize_append]
    omega

end Program

end Silifuzz
