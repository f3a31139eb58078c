import Silifuzz.Fuzzer.Program.Random

/-!
# What the fixup keeps

`FixupEncodedDisplacements` changes offsets, displacements and boundaries of
instructions, and encodes displacements. A property of single instructions that
these keep is kept by all of it, however often the loops turn.
-/

namespace Silifuzz

open Triples

/-- `I` is kept by each thing that the fixup does to an instruction of a program of `n`
boundaries. -/
structure FixupKeeps (A : Arch) (n : Nat) (I : Instruction A.info → Prop) : Prop where
  offset : ∀ {insn} o, I insn → I { insn with offset := o }
  displacement : ∀ {insn} d, insn.directBranch.valid = true → I insn →
    I { insn with directBranch := { insn.directBranch with encodedByteDisplacement := some d } }
  boundary : ∀ {insn} b, insn.directBranch.valid = true → b < n → I insn →
    I { insn with directBranch := { insn.directBranch with instructionBoundary := some b } }
  reencode : ∀ {insn}, I insn → Yields (A.tryToReencodeInstructionDisplacements insn)
    (fun r => I r.2) (fun _ => True)

namespace Program

variable {A : Arch} {ρ : Type} {n : Nat} {I : Instruction A.info → Prop}

/-- The instructions of a program of `n` boundaries, all with the property. -/
structure AllHave (I : Instruction A.info → Prop) (n : Nat) (p : Program A.info) : Prop where
  boundaries : p.numInstructionBoundaries = n
  each : ∀ insn ∈ p.instructions, I insn

theorem AllHave.put {p : Program A.info} (h : p.AllHave I n) {i : Nat} {insn : Instruction A.info}
    (hi : I insn) : (p.put i insn).AllHave I n where
  boundaries := by simpa [Program.put, numInstructionBoundaries] using h.boundaries
  each x hx := by
    rcases List.mem_or_eq_of_mem_set hx with hx | rfl
    · exact h.each x hx
    · exact hi

theorem AllHave.getInstruction {p : Program A.info} (h : p.AllHave I n) (i : Nat) :
    Yields (p.getInstruction i) I (fun _ => True) := by
  unfold Program.getInstruction
  cases hi : p.instructions[i]? with
  | none => trivial
  | some insn => exact h.each insn (List.mem_of_getElem? hi)

theorem syncByteDisplacements_keeps (keeps : FixupKeeps A n I) (p : Program A.info)
    {insn : Instruction A.info} (h : I insn) :
    Yields (p.syncByteDisplacements insn) (fun r => I r.2) (fun _ => True) := by
  unfold syncByteDisplacements
  cases hd : insn.directBranch.encodedByteDisplacement with
  | none => exact h
  | some d =>
    cases insn.directBranch.instructionBoundary with
    | none => trivial
    | some b =>
      apply yields_bind (Q := fun _ => True)
      · cases p.instructionBoundaryToProgramByteOffset b <;> trivial
      intro o _
      dsimp only
      split
      · exact h
      · exact keeps.displacement _ (by simp [InstructionDisplacementInfo.valid, hd]) h

theorem randomizeInstructionDisplacementBoundaries_keeps (keeps : FixupKeeps A n I)
    (rng : MutatorRng ρ) (hn : 0 < n) {insn : Instruction A.info} (h : I insn) :
    Surely (randomizeInstructionDisplacementBoundaries rng insn n) I (fun _ => True) := by
  unfold randomizeInstructionDisplacementBoundaries randomizeInstructionDisplacementBoundary
  apply surely_ite
  · intro hv
    apply surely_bind (Q := fun branch => I { insn with directBranch := branch })
    · apply surely_ite
      · intro _
        apply surely_bind (randomIndex_surely rng hn)
        intro b lt
        exact surely_pure (keeps.boundary b hv lt h)
      · intro _
        exact surely_pure h
    · intro branch hb
      exact surely_pure hb
  · intro _
    exact surely_pure h

section
variable {info : ArchInstructionInfo}

@[simp] theorem put_put (p : Program info) (i : Nat) (x y : Instruction info) :
    (p.put i x).put i y = p.put i y := by
  simp [put, List.set_set]

@[simp] theorem numInstructions_put (p : Program info) (i : Nat) (x : Instruction info) :
    (p.put i x).numInstructions = p.numInstructions := by
  simp [put, numInstructions]

@[simp] theorem numInstructionBoundaries_put (p : Program info) (i : Nat) (x : Instruction info) :
    (p.put i x).numInstructionBoundaries = p.numInstructionBoundaries := by
  simp [put, numInstructionBoundaries]

theorem getInstruction_put {p : Program info} {i : Nat} (hi : i < p.numInstructions)
    (x : Instruction info) : (p.put i x).getInstruction i = .ok x := by
  unfold getInstruction put
  rw [List.getElem?_set_self hi]

end

/-- One turn of the loop, where each of its steps succeeds. -/
theorem reencodeLoop_succ {rng : MutatorRng ρ} {p : Program A.info} {i : Nat}
    (hi : i < p.numInstructions) {insn x z : Instruction A.info} {success changed : Bool} {r : ρ}
    (run : A.tryToReencodeInstructionDisplacements insn = .ok (success, x))
    (valid : x.directBranch.valid = true)
    (sync : (p.put i { x with directBranch := { x.directBranch with
        instructionBoundary := some (rng.uniform p.numInstructions r).1 } }).syncByteDisplacements
      { x with directBranch := { x.directBranch with
        instructionBoundary := some (rng.uniform p.numInstructions r).1 } } = .ok (changed, z))
    (fuel : Nat) :
    reencodeLoop A rng i (fuel + 1) (p.put i insn) r =
      if success then .ok (p.put i x, r)
      else reencodeLoop A rng i fuel (p.put i z) (rng.uniform p.numInstructions r).2 := by
  have drawn : randomizeInstructionDisplacementBoundaries rng x p.numInstructionBoundaries r =
      .ok ({ x with directBranch := { x.directBranch with
        instructionBoundary := some (rng.uniform p.numInstructions r).1 } },
          (rng.uniform p.numInstructions r).2) := by
    unfold randomizeInstructionDisplacementBoundaries randomizeInstructionDisplacementBoundary
    simp only [valid, if_true]
    rfl
  rw [reencodeLoop, getInstruction_put hi, lift_bind_run rfl, lift_bind_run run]
  simp only [put_put]
  cases success with
  | true => rfl
  | false =>
    simp only [Bool.false_eq_true, if_false]
    rw [numInstructionBoundaries_put, bind_run drawn, lift_bind_run sync]

theorem reencodeLoop_keeps (keeps : FixupKeeps A n I) (hn : 0 < n) (rng : MutatorRng ρ) {i : Nat}
    (fuel : Nat) {p : Program A.info} (hp : p.numInstructionBoundaries = n)
    (hi : i < p.numInstructions) {insn : Instruction A.info} (h : I insn) :
    Surely (reencodeLoop A rng i fuel (p.put i insn)) (fun q => ∃ x, I x ∧ q = p.put i x)
      (fun _ => True) := by
  induction fuel generalizing insn with
  | zero => exact surely_throw trivial
  | succ fuel ih =>
    unfold reencodeLoop
    rw [getInstruction_put hi]
    apply surely_bind (surely_lift (y := .ok insn) (Q := (insn = ·)) rfl)
    rintro _ rfl
    apply surely_bind (surely_lift (keeps.reencode h))
    rintro ⟨encoded, insn₁⟩ h₁
    simp only [put_put, numInstructionBoundaries_put, hp]
    apply surely_ite
    · intro _
      exact surely_pure ⟨insn₁, h₁, rfl⟩
    intro _
    apply surely_bind (randomizeInstructionDisplacementBoundaries_keeps keeps rng hn h₁)
    intro insn₂ h₂
    apply surely_bind (surely_lift (syncByteDisplacements_keeps keeps _ h₂))
    rintro ⟨_, insn₃⟩ h₃
    exact ih h₃

/-- After the instructions before `i`: they all have the property still, and the offset
is where the next one goes. -/
structure FixedUp (I : Instruction A.info → Prop) (n i : Nat) (s : FixupState A.info) : Prop where
  all : s.program.AllHave I n
  offset : s.offset = totalSize (s.program.instructions.take i)

theorem fixupInstruction_keeps (keeps : FixupKeeps A n I) (rng : MutatorRng ρ) (fuel : Nat)
    {s : FixupState A.info} {i : Nat} (hi : i < s.program.numInstructions)
    (h : FixedUp I n i s) :
    Surely (fixupInstruction A rng fuel s i) (FixedUp I n (i + 1)) (fun _ => True) := by
  have hn : 0 < n := by
    rw [← h.all.boundaries]
    exact Nat.succ_pos _
  unfold fixupInstruction
  apply surely_bind (surely_lift (h.all.getInstruction i))
  intro insn hinsn
  apply surely_bind (surely_lift (syncByteDisplacements_keeps keeps _ (keeps.offset _ hinsn)))
  rintro ⟨changed, synced⟩ hs
  simp only [put_put]
  apply surely_bind (Q := fun q => ∃ x, I x ∧ q = s.program.put i x)
  · apply surely_ite
    · intro _
      exact reencodeLoop_keeps keeps hn rng fuel h.all.boundaries hi hs
    · intro _
      exact surely_pure ⟨_, keeps.offset _ hinsn, rfl⟩
  rintro _ ⟨x, hx, rfl⟩
  rw [getInstruction_put hi]
  apply surely_bind (surely_lift (y := .ok x) (Q := (x = ·)) rfl)
  rintro _ rfl
  refine surely_pure ⟨h.all.put hx, ?_⟩
  simp only [numInstructions] at hi
  have grown : (s.program.instructions.set i x).take (i + 1) =
      s.program.instructions.take i ++ [x] := by
    rw [List.take_succ_eq_append_getElem (by simpa using hi), List.take_set_of_le (Nat.le_refl i),
      List.getElem_set_self]
  simp only [put, h.offset, grown, totalSize_append, totalSize_cons, totalSize_nil, Nat.add_zero]

theorem fixupLoop_keeps (keeps : FixupKeeps A n I) (rng : MutatorRng ρ) (fuel iterations : Nat)
    {p : Program A.info} (h : p.AllHave I n) (modified : Bool) :
    Surely (fixupLoop A rng fuel iterations p modified)
      (fun r => r.2.AllHave I n ∧ r.2.byteLen = totalSize r.2.instructions) (fun _ => True) := by
  induction iterations generalizing p modified with
  | zero => exact surely_throw trivial
  | succ iterations ih =>
    have count : p.numInstructions + 1 = n := h.boundaries
    unfold fixupLoop
    apply surely_bind (surely_foldlM
      (fun done s => FixedUp I n done.length s) (l := List.range p.numInstructions)
      ⟨h, by simp⟩ ?_)
    · intro s hs
      have offset : s.offset = totalSize s.program.instructions := by
        have same : s.program.numInstructions + 1 = n := hs.all.boundaries
        rw [hs.offset, List.length_range, List.take_of_length_le]
        exact Nat.le_of_eq (by simp only [numInstructions] at same count ⊢; omega)
      apply surely_ite
      · intro _
        exact surely_pure ⟨⟨hs.all.boundaries, hs.all.each⟩, offset⟩
      · intro _
        exact ih (p := { s.program with byteLen := s.offset })
          ⟨hs.all.boundaries, hs.all.each⟩ _
    · intro done i rest s hl hs
      obtain ⟨rfl, inside⟩ := Loops.range_at hl
      rw [List.length_append, List.length_singleton]
      apply fixupInstruction_keeps keeps rng fuel _ hs
      have same : s.program.numInstructions + 1 = n := hs.all.boundaries
      omega

theorem layout_getElem {start i : Nat} {insns : List (Instruction A.info)}
    {insn : Instruction A.info} (h : (layout start insns).1[i]? = some insn) :
    insn.offset = start + totalSize (insns.take i) := by
  induction insns generalizing start i with
  | nil => simp [layout] at h
  | cons first rest ih =>
    cases i with
    | zero =>
      simp only [layout, List.getElem?_cons_zero, Option.some.injEq] at h
      rw [← h]
      simp
    | succ i =>
      simp only [layout, List.getElem?_cons_succ] at h
      rw [ih h, List.take_succ_cons, totalSize_cons, Nat.add_assoc]

theorem totalSize_take_layout (start i : Nat) (insns : List (Instruction A.info)) :
    totalSize ((layout start insns).1.take i) = totalSize (insns.take i) := by
  induction insns generalizing start i with
  | nil => simp [layout]
  | cons first rest ih =>
    cases i with
    | zero => simp
    | succ i => simp [layout, ih]

theorem put_self {p : Program A.info} {i : Nat} {insn : Instruction A.info}
    (h : p.instructions[i]? = some insn) : p.put i insn = p := by
  obtain ⟨hi, rfl⟩ := List.getElem?_eq_some_iff.mp h
  simp [put]

theorem fixupInstruction_noop {s : FixupState A.info} {i : Nat} {insn : Instruction A.info}
    (at_i : s.program.instructions[i]? = some insn) (offset : insn.offset = s.offset)
    (synced : s.program.syncByteDisplacements insn = .ok (false, insn)) (rng : MutatorRng ρ)
    (fuel : Nat) :
    Quietly (fixupInstruction A rng fuel s i)
      ({ s with offset := s.offset + insn.encoded.size } = ·) := by
  have get : s.program.getInstruction i = .ok insn := by
    unfold getInstruction
    rw [at_i]
  have placed : ({ insn with offset := s.offset } : Instruction A.info) = insn := by
    rw [← offset]
  unfold fixupInstruction
  apply quietly_bind (quietly_lift_ok ⟨insn, get, rfl⟩ (Q := (insn = ·)))
  rintro _ rfl
  rw [placed, put_self at_i]
  apply quietly_bind (quietly_lift_ok ⟨_, synced, rfl⟩ (Q := (_ = ·)))
  rintro _ rfl
  apply quietly_bind (quietly_pure (a := s.program) (Q := (s.program = ·)) rfl)
  rintro _ rfl
  apply quietly_bind (quietly_lift_ok ⟨insn, get, rfl⟩ (Q := (insn = ·)))
  rintro _ rfl
  apply quietly_pure
  simp [offset]

/-- A program whose displacements are all right is not modified. -/
theorem fixupEncodedDisplacements_noop {p : Program A.info} (synced : ∀ insn ∈
      p.fixupInvariants.instructions,
      p.fixupInvariants.syncByteDisplacements insn = .ok (false, insn))
    (rng : MutatorRng ρ) (fuel : Nat) :
    Quietly (p.fixupEncodedDisplacements A rng fuel)
      ((false, { p.fixupInvariants with encodingsMayBeInvalid := false }) = ·) := by
  have count : p.fixupInvariants.numInstructions = p.numInstructions := by
    simp [fixupInvariants, numInstructions]
  have size : totalSize p.fixupInvariants.instructions = p.fixupInvariants.byteLen := by
    simp [fixupInvariants]
  have offsets : ∀ (i : Nat) (insn : Instruction A.info),
      p.fixupInvariants.instructions[i]? = some insn →
      insn.offset = totalSize (p.fixupInvariants.instructions.take i) := by
    intro i insn hi
    have offset := layout_getElem hi
    rw [offset, Nat.zero_add]
    exact (totalSize_take_layout 0 i p.instructions).symm
  unfold fixupEncodedDisplacements fixupLoop
  rw [count]
  generalize p.fixupInvariants = q at synced count size offsets
  apply quietly_bind (quietly_foldlM
    (fun done s => ⟨q, totalSize (q.instructions.take done.length), true, false⟩ = s)
    (l := List.range p.numInstructions) (by simp) ?_)
  · rintro s rfl
    rw [List.length_range, ← count, numInstructions, List.take_length, size]
    simp only [beq_self_eq_true, Bool.and_self, if_true]
    exact quietly_pure rfl
  · rintro done i rest s hl rfl
    obtain ⟨rfl, inside⟩ := Loops.range_at hl
    have lt : done.length < q.instructions.length := by
      simp only [numInstructions] at count inside
      omega
    have at_i := List.getElem?_eq_getElem lt
    have here := List.getElem_mem lt
    apply quietly_post (fixupInstruction_noop at_i (offsets _ _ at_i) (synced _ here) rng fuel)
    rintro s rfl
    rw [List.length_append, List.length_singleton, List.take_succ_eq_append_getElem lt,
      totalSize_append, totalSize_cons, totalSize_nil, Nat.add_zero]

/-- **The fixup keeps what each of its steps keeps**, and leaves the size right. -/
theorem fixupEncodedDisplacements_keeps {p : Program A.info}
    (keeps : FixupKeeps A p.numInstructionBoundaries I) (h : ∀ insn ∈ p.instructions, I insn)
    (rng : MutatorRng ρ) (fuel : Nat) :
    Surely (p.fixupEncodedDisplacements A rng fuel)
      (fun r => r.2.AllHave I p.numInstructionBoundaries ∧
        r.2.byteLen = totalSize r.2.instructions) (fun _ => True) := by
  apply fixupLoop_keeps keeps
  refine ⟨by simp [numInstructionBoundaries, fixupInvariants], fun insn mem => ?_⟩
  obtain ⟨old, ho, o, rfl⟩ := mem_layout mem
  exact keeps.offset o (h old ho)

theorem fits_keeps (hA : A.Lawful) (n : Nat) : FixupKeeps A n (·.Fits n) where
  offset _ h := ⟨h.nonempty, h.branch⟩
  displacement _ hv h :=
    ⟨h.nonempty, fun _ => h.branch.target hv, fun none => absurd none nofun⟩
  boundary b hv lt h :=
    ⟨h.nonempty, fun _ => ⟨b, rfl, lt⟩, fun none => absurd (none.symm.trans hv) nofun⟩
  reencode {insn} h := by
    apply yields_post (hA.reencodes insn)
    rintro r ⟨pos, branch⟩
    exact ⟨pos h.nonempty, branch ▸ h.branch⟩

/-- A program that has been fixed up is consistent. -/
theorem fixupEncodedDisplacements_consistent (hA : A.Lawful) {p : Program A.info}
    (h : p.Consistent) (rng : MutatorRng ρ) (fuel : Nat) :
    Surely (p.fixupEncodedDisplacements A rng fuel) (fun r => r.2.Consistent)
      (fun _ => True) := by
  apply surely_post (fixupEncodedDisplacements_keeps (fits_keeps hA _) h.insns rng fuel)
  rintro r ⟨all, byteLen⟩
  exact ⟨all.boundaries ▸ all.each, byteLen⟩

end Program

end Silifuzz
