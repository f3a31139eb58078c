import Silifuzz.Fuzzer.Program.Settling
import Silifuzz.Fuzzer.ProgramMutationOps.Runs

/-!
# The branches of the programs that the code makes

An instruction comes out of `InstructionFromBytes`, and after that only the fixup changes
its encoding and its displacement. What holds of all decoded instructions because of these
two holds of all instructions of a program, whatever the mutations.
-/

namespace Silifuzz

open LittleEndian Triples Fuel

variable {A : Arch} {I : Instruction A.info → Prop} {ρ : Type}

/-- `I` holds of all instructions that are decoded, and is about the encoding and the
displacement. -/
structure Arch.Marks (A : Arch) (I : Instruction A.info → Prop) : Prop where
  decodes : ∀ bytes insn config mustDecodeEverything,
    Yields (A.instructionFromBytes bytes insn config mustDecodeEverything)
      (fun r => r.1 = true → I r.2) (fun _ => True)
  same : ∀ (x : Instruction A.info) {y : Instruction A.info}, y.encoded = x.encoded →
    y.directBranch.encodedByteDisplacement = x.directBranch.encodedByteDisplacement → I x → I y

theorem Reencoding.marks {E : Reencoding A}
    (decodes : ∀ bytes insn config mustDecodeEverything,
      Yields (A.instructionFromBytes bytes insn config mustDecodeEverything)
        (fun r => r.1 = true → E.Has r.2) (fun _ => True)) : A.Marks E.Has where
  decodes := decodes
  same x y encoded displacement h := by
    constructor
    · intro valid
      rw [encoded]
      apply h.branch
      rw [InstructionDisplacementInfo.valid, ← displacement]
      exact valid
    · intro d hd
      rw [encoded]
      exact h.shows d (displacement ▸ hd)

namespace Program

/-- All instructions of a list have the property. -/
def Each (I : Instruction A.info → Prop) (insns : List (Instruction A.info)) : Prop :=
  ∀ insn ∈ insns, I insn

theorem Each.append {xs ys : List (Instruction A.info)} (hx : Each I xs) (hy : Each I ys) :
    Each I (xs ++ ys) := by
  intro insn mem
  rcases List.mem_append.mp mem with mem | mem
  · exact hx insn mem
  · exact hy insn mem

theorem Each.take {xs : List (Instruction A.info)} (h : Each I xs) (n : Nat) :
    Each I (xs.take n) :=
  fun insn mem => h insn (List.mem_of_mem_take mem)

theorem Each.drop {xs : List (Instruction A.info)} (h : Each I xs) (n : Nat) :
    Each I (xs.drop n) :=
  fun insn mem => h insn (List.mem_of_mem_drop mem)

theorem each_singleton {insn : Instruction A.info} (h : I insn) : Each I [insn] := by
  intro x mem
  exact List.mem_singleton.mp mem ▸ h

variable (marks : A.Marks I)
include marks

theorem Each.fixupInvariants {p : Program A.info} (h : Each I p.instructions) :
    Each I p.fixupInvariants.instructions := by
  intro insn mem
  obtain ⟨old, there, _, rfl⟩ := mem_layout mem
  exact marks.same old rfl rfl (h old there)

omit marks in
@[simp] theorem adjustBranch_displacement (boundary : Nat) (amount : Int)
    (branch : InstructionDisplacementInfo) :
    (adjustBranch boundary amount branch).encodedByteDisplacement =
      branch.encodedByteDisplacement := by
  unfold adjustBranch
  split <;> [skip; rfl]
  split <;> [split; skip] <;> rfl

theorem adjustInstructionIndexes_each {p : Program A.info} (h : Each I p.instructions)
    (boundary : Nat) (amount : Int) :
    Yields (p.adjustInstructionIndexes boundary amount) (fun q => Each I q.instructions)
      (fun _ => True) := by
  unfold adjustInstructionIndexes
  apply yields_bind (check_yields _ fun _ => trivial)
  intro _ _
  apply yields_pure
  intro insn mem
  obtain ⟨old, there, rfl⟩ := List.mem_map.mp mem
  exact marks.same old rfl (adjustBranch_displacement _ _ _) (h old there)

theorem insertInstructionBlock_each {p : Program A.info} (h : Each I p.instructions)
    (boundary : Nat) (steal : Bool) {insns : List (Instruction A.info)} (hi : Each I insns) :
    Yields (p.insertInstructionBlock boundary steal insns) (fun q => Each I q.instructions)
      (fun _ => True) := by
  unfold insertInstructionBlock
  apply yields_bind (check_yields _ fun _ => trivial)
  intro _ _
  apply yields_bind (adjustInstructionIndexes_each marks h _ _)
  intro q hq
  apply yields_pure
  apply Each.fixupInvariants marks
  exact ((hq.take boundary).append hi).append (hq.drop boundary)

theorem removeInstruction_each {p : Program A.info} (h : Each I p.instructions) (index : Nat) :
    Yields (p.removeInstruction index) (fun q => Each I q.instructions) (fun _ => True) := by
  unfold removeInstruction
  apply yields_bind (check_yields _ fun _ => trivial)
  intro _ _
  apply yields_bind (adjustInstructionIndexes_each marks h _ _)
  intro q hq
  apply yields_bind (Q := fun _ => True)
  · cases q.getInstruction index <;> trivial
  intro _ _
  apply yields_pure
  apply Each.fixupInvariants marks
  exact fun insn mem => hq insn (List.mem_of_mem_eraseIdx mem)

omit marks in
theorem setInstructionBlock_each {p : Program A.info} (h : Each I p.instructions)
    (index : Nat) {insns : List (Instruction A.info)} (hi : Each I insns) :
    Yields (p.setInstructionBlock index insns) (fun q => Each I q.instructions)
      (fun _ => True) := by
  unfold setInstructionBlock
  apply yields_bind (check_yields _ fun _ => trivial)
  intro _ _
  exact yields_pure (((h.take index).append hi).append (h.drop _))

omit marks in
theorem getInstruction_each {p : Program A.info} (h : Each I p.instructions) (index : Nat) :
    Yields (p.getInstruction index) I (fun _ => True) := by
  unfold getInstruction
  cases at_index : p.instructions[index]? with
  | none => trivial
  | some insn => exact h insn (List.mem_of_getElem? at_index)

omit marks in
theorem copyInstructionBlock_each {p : Program A.info} (h : Each I p.instructions)
    (index size : Nat) :
    Yields (p.copyInstructionBlock index size) (Each I) (fun _ => True) := by
  unfold copyInstructionBlock
  apply yields_bind (check_yields _ fun _ => trivial)
  intro _ _
  exact yields_pure ((h.drop index).take size)

/-! ## Decoding -/

theorem parseLoop_each (bytes : Bytes) (config : InstructionConfig) (strict : Bool)
    (fuel offset : Nat) {insns : List (Instruction A.info)} (h : Each I insns) :
    Yields (parseLoop A bytes config strict fuel offset insns) (Each I) (fun _ => True) := by
  induction fuel generalizing offset insns with
  | zero =>
    unfold parseLoop
    split
    · trivial
    · exact h
  | succ fuel ih =>
    unfold parseLoop
    split
    · apply yields_bind (marks.decodes (bytes.drop offset) {} config false)
      rintro ⟨decoded, insn⟩ hd
      dsimp only
      split
      · next accepted =>
        apply ih
        exact h.append (each_singleton (marks.same insn rfl rfl (hd accepted)))
      · apply yields_bind (check_yields _ fun _ => trivial)
        intro _ _
        exact ih _ h
    · exact h

theorem resolveDisplacements_each {p : Program A.info} (h : Each I p.instructions)
    (strict : Bool) :
    Yields (p.resolveDisplacements strict) (fun q => Each I q.instructions) (fun _ => True) := by
  unfold resolveDisplacements
  apply yields_bind (yields_mapM (R := fun _ => I) ?_)
  · intro insns rel
    apply yields_pure
    intro insn mem
    obtain ⟨_, -, hi⟩ := Loops.forall₂_mem rel mem
    exact hi
  · intro insn mem
    split
    · apply yields_bind (Q := fun _ => True)
      · cases p.findClosestInstructionBoundary _ <;> trivial
      intro boundary _
      have kept : I { insn with directBranch := { insn.directBranch with
          instructionBoundary := boundary } } := marks.same insn rfl rfl (h insn mem)
      split
      · split
        · apply yields_bind (Q := fun _ => True)
          · cases p.instructionBoundaryToProgramByteOffset _ <;> trivial
          intro _ _
          apply yields_bind (check_yields _ fun _ => trivial)
          intro _ _
          exact kept
        · trivial
      · exact kept
    · exact h insn mem

theorem parse_each (bytes : Bytes) (config : InstructionConfig) (strict : Bool) :
    Yields (parse A bytes config strict) (fun p => Each I p.instructions) (fun _ => True) := by
  unfold parse
  have none : Each I ([] : List (Instruction A.info)) := nofun
  apply yields_bind (parseLoop_each marks bytes config strict bytes.length 0 none)
  intro insns hi
  apply yields_bind (resolveDisplacements_each marks (p := ⟨insns, 0, true⟩) hi strict)
  intro p hp
  exact yields_pure (hp.fixupInvariants marks)

end Program

/-! ## Mutations -/

section
variable (marks : A.Marks I) (rng : MutatorRng ρ)
include marks

/-- A result that counts has the property. -/
def Marked (I : Instruction A.info → Prop) (r : Bool × Instruction A.info) : Prop :=
  r.1 = true → I r.2

theorem generateLoop_marked (tries : Nat) (insn : Instruction A.info) :
    Surely (generateLoop A rng tries insn) (Marked I) (fun _ => True) := by
  induction tries generalizing insn with
  | zero => exact surely_pure nofun
  | succ tries ih =>
    unfold generateLoop
    apply surely_bind (surely_any _)
    intro bytes _
    apply surely_bind (surely_lift (marks.decodes bytes insn {} false))
    rintro ⟨decoded, insn⟩ hd
    apply surely_ite
    · intro h
      exact surely_pure fun _ => hd h
    · intro _
      exact ih insn

theorem flipLoop_marked (numOldBytes flips : Nat) (bytes : Bytes) (mutated : Instruction A.info) :
    Surely (flipLoop A rng numOldBytes flips bytes mutated) (fun r => Marked I (r.1, r.2.2))
      (fun _ => True) := by
  induction flips generalizing bytes mutated with
  | zero => exact surely_pure nofun
  | succ flips ih =>
    unfold flipLoop
    apply surely_bind (surely_any _)
    intro bytes _
    apply surely_bind (surely_lift (marks.decodes bytes mutated {} false))
    rintro ⟨decoded, mutated⟩ hd
    apply surely_ite
    · intro h
      exact surely_pure fun _ => hd h
    · intro _
      exact ih bytes mutated

theorem mutateLoop_marked (original : Instruction A.info) (tries : Nat) (bytes : Bytes)
    (mutated : Instruction A.info) :
    Surely (mutateLoop A rng original tries bytes mutated) (Marked I) (fun _ => True) := by
  induction tries generalizing bytes mutated with
  | zero => exact surely_pure nofun
  | succ tries ih =>
    unfold mutateLoop
    apply surely_bind (surely_any _)
    intro bytes _
    apply surely_bind (flipLoop_marked marks rng _ _ _ mutated)
    rintro ⟨done, bytes, mutated⟩ hd
    apply surely_ite
    · intro h
      exact surely_pure fun _ => hd h
    · intro _
      exact ih bytes mutated

/-! A new boundary leaves the encoding and the displacement alone. -/

/-- The branch with another boundary, maybe. -/
def Retargeted (old new : InstructionDisplacementInfo) : Prop :=
  new.encodedByteDisplacement = old.encodedByteDisplacement

omit marks in
theorem randomizeInstructionDisplacementBoundary_retargeted (branch : InstructionDisplacementInfo)
    (n : Nat) :
    Surely (randomizeInstructionDisplacementBoundary rng branch n) (Retargeted branch)
      (fun _ => True) := by
  unfold randomizeInstructionDisplacementBoundary
  apply surely_ite
  · intro _
    apply surely_bind (surely_any _)
    intro _ _
    exact surely_pure rfl
  · intro _
    exact surely_pure rfl

theorem randomizeInstructionDisplacementBoundaries_marked {insn : Instruction A.info}
    (h : I insn) (n : Nat) :
    Surely (randomizeInstructionDisplacementBoundaries rng insn n) I (fun _ => True) := by
  unfold randomizeInstructionDisplacementBoundaries
  apply surely_ite
  · intro _
    apply surely_bind (randomizeInstructionDisplacementBoundary_retargeted rng _ n)
    intro branch same
    exact surely_pure (marks.same insn rfl same h)
  · intro _
    exact surely_pure h

theorem copyOrRandomizeInstructionDisplacementBoundaries_marked (original : Instruction A.info)
    {mutated : Instruction A.info} (h : I mutated) (n : Nat) :
    Surely (copyOrRandomizeInstructionDisplacementBoundaries rng original mutated n) I
      (fun _ => True) := by
  unfold copyOrRandomizeInstructionDisplacementBoundaries
    copyOrRandomizeInstructionDisplacementBoundary
  apply surely_bind (Q := Retargeted mutated.directBranch)
  · apply surely_ite
    · intro _
      apply surely_ite
      · intro _
        exact surely_pure rfl
      · intro _
        exact randomizeInstructionDisplacementBoundary_retargeted rng _ n
    · intro _
      exact surely_pure rfl
  · intro branch same
    exact surely_pure (marks.same mutated rfl same h)

theorem shiftOrRandomizeInstructionDisplacementBoundaries_each {block : List (Instruction A.info)}
    (h : Program.Each I block) (indexOffset : Int) (n : Nat) :
    Surely (shiftOrRandomizeInstructionDisplacementBoundaries rng block indexOffset n)
      (Program.Each I) (fun _ => True) := by
  unfold shiftOrRandomizeInstructionDisplacementBoundaries
  apply surely_post (surely_mapM (R := I) ?_) fun _ => And.left
  intro insn mem
  apply surely_bind (Q := Retargeted insn.directBranch)
  · unfold shiftOrRandomizeInstructionDisplacementBoundary
    apply surely_ite
    · intro _
      apply surely_bind (surely_any _)
      intro _ _
      exact surely_pure rfl
    · intro _
      exact surely_pure rfl
  · intro branch same
    exact surely_pure (marks.same insn rfl same (h insn mem))

namespace Program

/-- All instructions that a mutation leaves have the property. -/
def KeptEach (I : Instruction A.info → Prop) (r : Bool × Program A.info) : Prop :=
  Each I r.2.instructions

variable {p other : Program A.info}

theorem insertGeneratedInstruction_each (h : Each I p.instructions) :
    Surely (p.insertGeneratedInstruction rng) (KeptEach I) (fun _ => True) := by
  unfold insertGeneratedInstruction generateSingleInstruction
  apply surely_bind (generateLoop_marked marks rng 64 {})
  rintro ⟨success, insn⟩ hs
  cases success with
  | false => exact surely_pure h
  | true =>
    apply surely_bind (randomizeInstructionDisplacementBoundaries_marked marks rng (hs rfl) _)
    intro insn hi
    apply surely_bind (surely_any _)
    intro boundary _
    apply surely_bind (surely_any _)
    intro steal _
    apply surely_bind (surely_lift (insertInstructionBlock_each marks h _ _ (each_singleton hi)))
    intro q hq
    exact surely_pure hq

theorem mutateInstruction_each (h : Each I p.instructions) :
    Surely (p.mutateInstruction rng) (KeptEach I) (fun _ => True) := by
  unfold mutateInstruction mutateSingleInstruction
  apply surely_ite
  · intro _
    exact surely_pure h
  intro _
  apply surely_bind (surely_any _)
  intro target _
  apply surely_bind (surely_any _)
  intro original _
  apply surely_bind (mutateLoop_marked marks rng original 64 _ _)
  rintro ⟨success, mutated⟩ hs
  cases success with
  | false => exact surely_pure h
  | true =>
    apply surely_bind
      (copyOrRandomizeInstructionDisplacementBoundaries_marked marks rng original (hs rfl) _)
    intro mutated hm
    apply surely_bind (surely_lift (setInstructionBlock_each h _ (each_singleton hm)))
    intro q hq
    exact surely_pure hq

theorem deleteInstruction_each (h : Each I p.instructions) (minimumInstructions : Nat) :
    Surely (p.deleteInstruction rng minimumInstructions) (KeptEach I) (fun _ => True) := by
  unfold deleteInstruction
  apply surely_ite
  · intro _
    exact surely_pure h
  intro _
  apply surely_bind (surely_any _)
  intro victim _
  apply surely_bind (surely_lift (removeInstruction_each marks h victim))
  intro q hq
  exact surely_pure hq

omit marks in
theorem swapInstructions_each (h : Each I p.instructions) :
    Surely (p.swapInstructions rng) (KeptEach I) (fun _ => True) := by
  unfold swapInstructions
  split
  · exact surely_pure h
  apply surely_bind (surely_any _)
  intro a _
  apply surely_bind (surely_any _)
  intro b _
  apply surely_bind (surely_lift (getInstruction_each h a))
  intro aInstruction ha
  apply surely_bind (surely_lift (getInstruction_each h b))
  intro bInstruction hb
  apply surely_bind (surely_lift (setInstructionBlock_each h a (each_singleton hb)))
  intro q hq
  apply surely_bind (surely_lift (setInstructionBlock_each hq b (each_singleton ha)))
  intro q' hq'
  exact surely_pure hq'

theorem crossoverInsert_each (h : Each I p.instructions) (ho : Each I other.instructions) :
    Surely (p.crossoverInsert rng other) (KeptEach I) (fun _ => True) := by
  unfold crossoverInsert
  apply surely_ite
  · intro _
    exact surely_pure h
  intro _
  apply surely_bind (surely_any _)
  intro size _
  apply surely_bind (surely_any _)
  intro srcIndex _
  apply surely_bind (surely_lift (copyInstructionBlock_each ho _ _))
  intro block hb
  apply surely_bind (surely_any _)
  intro dstBoundary _
  apply surely_bind (shiftOrRandomizeInstructionDisplacementBoundaries_each marks rng hb _ _)
  intro shifted hs
  apply surely_bind (surely_any _)
  intro steal _
  apply surely_bind (surely_lift (insertInstructionBlock_each marks h _ _ hs))
  intro q hq
  exact surely_pure hq

theorem crossoverOverwrite_each (h : Each I p.instructions) (ho : Each I other.instructions) :
    Surely (p.crossoverOverwrite rng other) (KeptEach I) (fun _ => True) := by
  unfold crossoverOverwrite
  apply surely_ite
  · intro _
    exact surely_pure h
  intro _
  apply surely_ite
  · intro _
    exact surely_pure h
  intro _
  apply surely_bind (surely_any _)
  intro size _
  apply surely_bind (surely_any _)
  intro srcIndex _
  apply surely_bind (surely_lift (copyInstructionBlock_each ho _ _))
  intro block hb
  apply surely_bind (surely_any _)
  intro dstIndex _
  apply surely_bind (shiftOrRandomizeInstructionDisplacementBoundaries_each marks rng hb _ _)
  intro shifted hs
  apply surely_bind (surely_lift (setInstructionBlock_each h _ hs))
  intro q hq
  exact surely_pure hq

theorem limitLoop_each (maxLen fuel : Nat) (h : Each I p.instructions) (modified : Bool) :
    Surely (limitLoop rng maxLen fuel p modified) (KeptEach I) (fun _ => True) := by
  induction fuel generalizing p modified with
  | zero =>
    unfold limitLoop
    apply surely_ite
    · intro _
      exact surely_throw trivial
    · intro _
      exact surely_pure h
  | succ fuel ih =>
    unfold limitLoop
    apply surely_ite
    · intro _
      apply surely_bind (surely_any _)
      intro _ _
      apply surely_bind (deleteInstruction_each marks rng h 0)
      rintro ⟨_, q⟩ hq
      exact ih hq true
    · intro _
      exact surely_pure h

/-- One mutation keeps what all decoded instructions have. -/
theorem mutate_each (h : Each I p.instructions) (ho : Each I other.instructions) (m : Mutation) :
    Surely (p.mutate rng other m) (KeptEach I) (fun _ => True) := by
  cases m with
  | insertGenerated => exact insertGeneratedInstruction_each marks rng h
  | mutate => exact mutateInstruction_each marks rng h
  | delete minimumInstructions => exact deleteInstruction_each marks rng h minimumInstructions
  | swap => exact swapInstructions_each rng h
  | crossoverInsert => exact crossoverInsert_each marks rng h ho
  | crossoverOverwrite => exact crossoverOverwrite_each marks rng h ho
  | limitProgramLength maxLen => exact limitLoop_each marks rng maxLen _ h false

end Program

end

namespace Program

/-- A consistent program whose branches can be encoded again. -/
structure Encodable (E : Reencoding A) (p : Program A.info) : Prop extends p.Consistent where
  has : ∀ insn ∈ p.instructions, E.Has insn

theorem built_has {E : Reencoding A} (hA : A.Lawful) (marks : A.Marks E.Has)
    {rng : MutatorRng ρ} {p : Program A.info} (h : Built rng p) :
    ∀ insn ∈ p.instructions, E.Has insn := by
  induction h with
  | empty => exact nofun
  | parsed run => exact yields_value (parse_each marks _ _ _) run
  | mutated _ _ run hp ho => exact surely_value (mutate_each marks _ hp ho _) run
  | fixedUp built run hp =>
    have synced := settles_value
      (fixupEncodedDisplacements_ends (built_consistent hA built) hp)
      (fixupEncodedDisplacements_extends _) run
    exact synced.1.has

/-- **The branches of all programs that the code makes can be encoded again.** -/
theorem built_encodable {E : Reencoding A} (hA : A.Lawful) (marks : A.Marks E.Has)
    {rng : MutatorRng ρ} {p : Program A.info} (h : Built rng p) : p.Encodable E where
  toConsistent := built_consistent hA h
  has := built_has hA marks h

end Program

end Silifuzz
