import Silifuzz.Fuzzer.Program.Random
import Silifuzz.Fuzzer.ProgramMutationOps

/-!
# Mutations keep programs consistent

Whatever the random numbers, no check of a mutation fails, and a consistent program
stays consistent. The instructions that a mutation brings in are either decoded
or copied from a consistent program, and get boundaries of the program they enter.
-/

namespace Silifuzz

open LittleEndian Triples

variable {ρ : Type} (rng : MutatorRng ρ)

theorem redraw_spec {n : Nat} (hn : 0 < n) (a : Nat) (r : ρ) :
    (redraw rng hn a r).1 ≤ n ∧ (redraw rng hn a r).1 ≠ a := by
  fun_induction redraw rng hn a r with
  | case1 r same ih => exact ih
  | case2 r other => exact ⟨rng.uniform_le n r, other⟩

/-! ## Decoding random bytes -/

theorem bestIntSize_dvd (n : Nat) : bestIntSize (n.gcd 8) ∣ n := by
  have h : bestIntSize (n.gcd 8) ∣ n.gcd 8 := by
    unfold bestIntSize
    split
    · omega
    · split
      · omega
      · split <;> omega
  exact h.trans (Nat.gcd_dvd_left n 8)

theorem length_flatten_const {l : List Bytes} {k : Nat} (h : ∀ b ∈ l, b.length = k) :
    l.flatten.length = l.length * k := by
  induction l with
  | nil => simp
  | cons b l ih =>
    rw [List.flatten_cons, List.length_append, h b (by simp), ih fun x hx => h x (by simp [hx]),
      List.length_cons, Nat.succ_mul]
    omega

theorem randomizeBuffer_length (n : Nat) :
    Surely (randomizeBuffer rng n) (fun bytes => bytes.length = n) := by
  unfold randomizeBuffer
  have words : ∀ i ∈ List.range (n / bestIntSize (n.gcd 8)), Surely (do
      let word ← modifyGet rng.next
      return encode (bestIntSize (n.gcd 8)) word.toNat : Rand ρ Bytes)
      (fun word => word.length = bestIntSize (n.gcd 8)) := by
    intro i _
    apply surely_bind (surely_modifyGet (Q := fun _ => True) fun _ => trivial)
    intro word _
    exact surely_pure (length_encode _ _)
  apply surely_bind (surely_mapM words)
  rintro words ⟨each, count⟩
  apply surely_pure
  rw [length_flatten_const each, count, List.length_range, Nat.div_mul_cancel (bestIntSize_dvd n)]

theorem flipRandomBit_length {buffer : Bytes} {bufferSize : Nat} (pos : 0 < bufferSize)
    (le : bufferSize ≤ buffer.length) :
    Surely (flipRandomBit rng buffer bufferSize) (fun b => b.length = buffer.length) := by
  unfold flipRandomBit
  have bits : 0 < bufferSize * 8 := by omega
  apply surely_bind (randomIndex_surely rng bits)
  intro bit hbit
  have inside : bit / 8 < buffer.length := by omega
  apply surely_lift_ok
  unfold flipBit
  rw [List.getElem?_eq_getElem inside]
  exact ⟨_, rfl, List.length_set⟩

section
variable {A : Arch} (hA : A.Lawful)
include hA

theorem instructionFromBytes_surely (bytes : Bytes) (insn : Instruction A.info) :
    Surely (liftM (A.instructionFromBytes bytes insn {} false) : Rand ρ _)
      (fun r => r.1 = true → r.2.Decoded bytes) :=
  surely_lift (hA.decodes bytes insn {} false)

/-- A result that counts, with an instruction that has bytes. -/
def Success (r : Bool × Instruction A.info) : Prop :=
  r.1 = true → 0 < r.2.encoded.size ∧ r.2.directBranch.instructionBoundary = none

theorem generateLoop_success (tries : Nat) (insn : Instruction A.info) :
    Surely (generateLoop A rng tries insn) Success := by
  induction tries generalizing insn with
  | zero => exact surely_pure nofun
  | succ tries ih =>
    unfold generateLoop
    apply surely_bind (randomizeBuffer_length rng _)
    intro bytes _
    apply surely_bind (instructionFromBytes_surely hA bytes insn)
    rintro ⟨decoded, insn⟩ hd
    apply surely_ite
    · intro h
      exact surely_pure fun _ => ⟨(hd h).nonempty, (hd h).unresolved⟩
    · intro _
      exact ih insn

theorem flipLoop_success {numOldBytes : Nat} (pos : 0 < numOldBytes) (flips : Nat) {bytes : Bytes}
    (le : numOldBytes ≤ bytes.length) (mutated : Instruction A.info) :
    Surely (flipLoop A rng numOldBytes flips bytes mutated)
      (fun r => r.2.1.length = bytes.length ∧ Success (r.1, r.2.2)) := by
  induction flips generalizing bytes mutated with
  | zero => exact surely_pure ⟨rfl, nofun⟩
  | succ flips ih =>
    unfold flipLoop
    apply surely_bind (flipRandomBit_length rng pos le)
    intro flipped hl
    apply surely_bind (instructionFromBytes_surely hA flipped mutated)
    rintro ⟨decoded, mutated⟩ hd
    apply surely_ite
    · intro h
      exact surely_pure ⟨hl, fun _ => ⟨(hd h).nonempty, (hd h).unresolved⟩⟩
    · intro _
      rw [← hl]
      exact ih (by omega) mutated

theorem mutateLoop_success {original : Instruction A.info} (pos : 0 < original.encoded.size)
    (tries : Nat) {bytes : Bytes} (mutated : Instruction A.info) :
    Surely (mutateLoop A rng original tries bytes mutated) Success := by
  induction tries generalizing bytes mutated with
  | zero => exact surely_pure nofun
  | succ tries ih =>
    unfold mutateLoop
    apply surely_bind (Q := fun _ => True)
    · apply surely_ite
      · intro _
        exact surely_post (randomizeBuffer_length rng _) fun _ _ => trivial
      · intro _
        exact surely_pure trivial
    intro bytes _
    have le : original.encoded.size ≤
        (original.encoded.bytes ++ bytes.drop original.encoded.size).length := by
      simp [InstructionData.size]
    apply surely_bind (flipLoop_success rng hA pos 3 le mutated)
    rintro ⟨done, flipped, mutated⟩ ⟨_, hd⟩
    apply surely_ite
    · intro h
      exact surely_pure fun _ => hd h
    · intro _
      exact ih mutated

end

/-! ## Boundaries -/

variable {info : ArchInstructionInfo}

theorem copyOrRandomizeInstructionDisplacementBoundaries_fits {original mutated : Instruction info}
    {n : Nat} (fits : original.Fits n) (pos : 0 < mutated.encoded.size)
    (unresolved : mutated.directBranch.instructionBoundary = none) (hn : 0 < n) :
    Surely (copyOrRandomizeInstructionDisplacementBoundaries rng original mutated n)
      (·.Fits n) := by
  unfold copyOrRandomizeInstructionDisplacementBoundaries
    copyOrRandomizeInstructionDisplacementBoundary
  apply surely_bind (Q := (·.Within n))
  · apply surely_ite
    · intro hv
      apply surely_ite
      · rintro ⟨valid, _⟩
        have target := fits.branch.target valid
        exact surely_pure ⟨fun _ => target, fun h => absurd (h.symm.trans hv) nofun⟩
      · intro _
        exact randomizeInstructionDisplacementBoundary_within rng _ (fun _ => unresolved) hn
    · intro hv
      exact surely_pure ⟨fun h => absurd h hv, fun _ => unresolved⟩
  · intro branch within
    exact surely_pure ⟨pos, within⟩

theorem shiftOrRandomizeInstructionDisplacementBoundary_within
    {branch : InstructionDisplacementInfo} {m : Nat} (within : branch.Within m)
    (indexOffset : Int) {n : Nat} (hn : 0 < n) :
    Surely (shiftOrRandomizeInstructionDisplacementBoundary rng branch indexOffset n)
      (·.Within n) := by
  unfold shiftOrRandomizeInstructionDisplacementBoundary
  apply surely_ite
  · intro hv
    apply surely_bind (Q := (· < n))
    · apply surely_ite
      · intro _
        exact randomIndex_surely rng hn
      · intro inside
        apply surely_pure
        omega
    · intro b lt
      exact surely_pure ⟨fun _ => ⟨b, rfl, lt⟩, fun h => absurd (h.symm.trans hv) nofun⟩
  · intro hv
    exact surely_pure ⟨fun h => absurd h hv, within.absent⟩

theorem shiftOrRandomizeInstructionDisplacementBoundaries_fits {block : List (Instruction info)}
    {m : Nat} (fits : ∀ insn ∈ block, insn.Fits m) (indexOffset : Int) {n : Nat} (hn : 0 < n) :
    Surely (shiftOrRandomizeInstructionDisplacementBoundaries rng block indexOffset n)
      (fun b => (∀ insn ∈ b, insn.Fits n) ∧ b.length = block.length) := by
  unfold shiftOrRandomizeInstructionDisplacementBoundaries
  apply surely_mapM
  intro insn mem
  have old := fits insn mem
  apply surely_bind
    (shiftOrRandomizeInstructionDisplacementBoundary_within rng old.branch indexOffset hn)
  intro branch within
  exact surely_pure ⟨old.nonempty, within⟩

/-! ## The mutators -/

namespace Program

variable {A : Arch} {p other : Program A.info}

theorem getInstruction_surely (h : p.Consistent) {index : Nat} (hi : index < p.numInstructions) :
    Surely (liftM (p.getInstruction index) : Rand ρ _) (·.Fits p.numInstructionBoundaries) := by
  apply surely_lift_ok
  unfold getInstruction
  rw [List.getElem?_eq_getElem hi]
  exact ⟨_, rfl, h.insns _ (List.getElem_mem hi)⟩

theorem copyInstructionBlock_surely (h : p.Consistent) {index size : Nat}
    (hi : index + size ≤ p.numInstructions) :
    Surely (liftM (p.copyInstructionBlock index size) : Rand ρ _)
      (fun b => (∀ insn ∈ b, insn.Fits p.numInstructionBoundaries) ∧ b.length = size) := by
  apply surely_lift_ok
  unfold copyInstructionBlock
  rw [check_ok_iff.mpr (show index + size ≤ p.instructions.length from hi)]
  refine ⟨_, rfl, fun insn mem => ?_, ?_⟩
  · exact h.insns insn (List.mem_of_mem_drop (List.mem_of_mem_take mem))
  · simp only [numInstructions] at hi
    rw [List.length_take, List.length_drop]
    omega

/-- What a mutation leaves behind. -/
def Kept (r : Bool × Program A.info) : Prop := r.2.Consistent

theorem insertGeneratedInstruction_kept (hA : A.Lawful) (h : p.Consistent) :
    Surely (p.insertGeneratedInstruction rng) Kept := by
  unfold insertGeneratedInstruction generateSingleInstruction
  apply surely_bind (generateLoop_success rng hA 64 {})
  rintro ⟨success, insn⟩ hs
  cases success with
  | false => exact surely_pure h
  | true =>
    obtain ⟨pos, unresolved⟩ := hs rfl
    apply surely_bind
      (randomizeInstructionDisplacementBoundaries_fits rng insn pos (fun _ => unresolved) (by omega))
    intro insn fits
    apply surely_bind (randomIndex_surely rng (by simp only [numInstructionBoundaries]; omega))
    intro boundary hb
    apply surely_bind (randomIndex_surely rng (by omega))
    intro steal _
    apply surely_bind (surely_lift_ok (insertInstructionBlock_consistent h hb _ (by simpa using fits)))
    intro p' h'
    exact surely_pure h'

theorem mutateInstruction_kept (hA : A.Lawful) (h : p.Consistent) :
    Surely (p.mutateInstruction rng) Kept := by
  unfold mutateInstruction mutateSingleInstruction
  apply surely_ite
  · intro _
    exact surely_pure h
  intro some
  apply surely_bind (randomIndex_surely rng (by omega))
  intro target ht
  apply surely_bind (getInstruction_surely h ht)
  intro original fits
  apply surely_bind (mutateLoop_success rng hA fits.nonempty 64 _)
  rintro ⟨success, mutated⟩ hs
  cases success with
  | false => exact surely_pure h
  | true =>
    obtain ⟨pos, unresolved⟩ := hs rfl
    apply surely_bind (copyOrRandomizeInstructionDisplacementBoundaries_fits rng fits pos
      unresolved (by simp only [numInstructionBoundaries]; omega))
    intro mutated fits
    apply surely_bind (surely_lift_ok (setInstructionBlock_consistent h
      target [mutated] ht (by simpa using fits)))
    intro p' h'
    exact surely_pure h'.1

theorem deleteInstruction_kept (h : p.Consistent) (minimumInstructions : Nat) :
    Surely (p.deleteInstruction rng minimumInstructions) (fun r => Kept r ∧
      (minimumInstructions < p.numInstructions → r.2.numInstructions + 1 = p.numInstructions)) := by
  unfold deleteInstruction
  apply surely_ite
  · intro few
    exact surely_pure ⟨h, fun many => absurd few (by omega)⟩
  intro many
  apply surely_bind (randomIndex_surely rng (by omega))
  intro victim hv
  apply surely_bind (surely_lift_ok (removeInstruction_consistent h hv))
  intro p' h'
  exact surely_pure ⟨h'.1, fun _ => h'.2⟩

theorem swapInstructions_kept (h : p.Consistent) : Surely (p.swapInstructions rng) Kept := by
  unfold swapInstructions
  split
  · exact surely_pure h
  next two =>
  apply surely_bind (randomIndex_surely rng (by omega))
  intro a ha
  apply surely_bind (surely_modifyGet (Q := fun b => b ≤ p.numInstructions - 1 ∧ b ≠ a) fun r =>
    redraw_spec rng (n := p.numInstructions - 1) (by omega) a r)
  rintro b ⟨hb, _⟩
  replace hb : b < p.numInstructions := by omega
  apply surely_bind (getInstruction_surely h ha)
  intro aInstruction fitsA
  apply surely_bind (getInstruction_surely h hb)
  intro bInstruction fitsB
  apply surely_bind (surely_lift_ok (setInstructionBlock_consistent h
    a [bInstruction] ha (by simpa using fitsB)))
  rintro q ⟨hq, same⟩
  have boundaries : q.numInstructionBoundaries = p.numInstructionBoundaries :=
    congrArg (· + 1) same
  apply surely_bind (surely_lift_ok (setInstructionBlock_consistent hq
    b [aInstruction] (by simp only [List.length_singleton]; omega)
    (by simpa [boundaries] using fitsA)))
  intro q' h'
  exact surely_pure h'.1

theorem crossoverInsert_kept (h : p.Consistent) (ho : other.Consistent) :
    Surely (p.crossoverInsert rng other) Kept := by
  unfold crossoverInsert
  apply surely_ite
  · intro _
    exact surely_pure h
  intro some
  apply surely_bind (randomIndex_surely rng (by omega))
  intro size hs
  apply surely_bind (randomIndex_surely rng (by omega))
  intro srcIndex hi
  apply surely_bind (copyInstructionBlock_surely ho (by omega))
  rintro block ⟨fits, _⟩
  apply surely_bind (randomIndex_surely rng (by simp only [numInstructionBoundaries]; omega))
  intro dstBoundary hd
  apply surely_bind (shiftOrRandomizeInstructionDisplacementBoundaries_fits rng fits _
    (by simp only [numInstructionBoundaries]; omega))
  rintro shifted ⟨fits, same⟩
  apply surely_bind (randomIndex_surely rng (by omega))
  intro steal _
  apply surely_bind (surely_lift_ok (insertInstructionBlock_consistent h hd _ (same ▸ fits)))
  intro p' h'
  exact surely_pure h'

theorem crossoverOverwrite_kept (h : p.Consistent) (ho : other.Consistent) :
    Surely (p.crossoverOverwrite rng other) Kept := by
  unfold crossoverOverwrite
  apply surely_ite
  · intro _
    exact surely_pure h
  intro some
  apply surely_ite
  · intro _
    exact surely_pure h
  intro donor
  apply surely_bind (randomIndex_surely rng (by omega))
  intro size hs
  apply surely_bind (randomIndex_surely rng (by omega))
  intro srcIndex hi
  apply surely_bind (copyInstructionBlock_surely ho (by omega))
  rintro block ⟨fits, hl⟩
  apply surely_bind (randomIndex_surely rng (by omega))
  intro dstIndex hd
  apply surely_bind (shiftOrRandomizeInstructionDisplacementBoundaries_fits rng fits _
    (by simp only [numInstructionBoundaries]; omega))
  rintro shifted ⟨fits, same⟩
  apply surely_bind (surely_lift_ok (setInstructionBlock_consistent h _ _ (by omega) fits))
  intro p' h'
  exact surely_pure h'.1

theorem numInstructions_pos (h : p.Consistent) (long : 0 < p.byteLen) :
    0 < p.numInstructions := by
  cases hp : p.instructions with
  | nil => simp [h.byteLen, hp] at long
  | cons => simp [numInstructions, hp]

/-- The program when it is no longer too long: the one there was, or one with fewer
instructions. -/
structure Limited (p : Program A.info) (maxLen : Nat) (modified : Bool)
    (r : Bool × Program A.info) : Prop where
  kept : Kept r
  short : r.2.byteLen ≤ maxLen
  fewer : r = (modified, p) ∨ r.1 = true ∧ r.2.numInstructions < p.numInstructions

theorem limitLoop_limited (maxLen : Nat) {fuel : Nat} (h : p.Consistent)
    (enough : p.numInstructions ≤ fuel) (modified : Bool) :
    Surely (limitLoop rng maxLen fuel p modified) (Limited p maxLen modified) := by
  induction fuel generalizing p modified with
  | zero =>
    have short : ¬ p.byteLen > maxLen := by
      intro long
      have some := numInstructions_pos h (by omega)
      omega
    unfold limitLoop
    rw [if_neg short]
    exact surely_pure ⟨h, not_lt.mp short, .inl rfl⟩
  | succ fuel ih =>
    unfold limitLoop
    apply surely_ite
    · intro long
      have some := numInstructions_pos h (by omega)
      apply surely_bind (surely_check some)
      intro _ _
      apply surely_bind (deleteInstruction_kept rng h 0)
      rintro ⟨_, q⟩ ⟨hq, fewer⟩
      have fewer : q.numInstructions + 1 = p.numInstructions := fewer some
      apply surely_post (ih hq (by omega) true)
      intro r limited
      refine ⟨limited.kept, limited.short, .inr ?_⟩
      rcases limited.fewer with rfl | ⟨done, less⟩
      · exact ⟨rfl, by change q.numInstructions < _; omega⟩
      · exact ⟨done, by omega⟩
    · intro short
      exact surely_pure ⟨h, not_lt.mp short, .inl rfl⟩

/-- **One mutation keeps the program consistent**, whatever its kind and its donor. -/
theorem mutate_kept (hA : A.Lawful) (h : p.Consistent) (ho : other.Consistent) (m : Mutation) :
    Surely (p.mutate rng other m) Kept := by
  cases m with
  | insertGenerated => exact insertGeneratedInstruction_kept rng hA h
  | mutate => exact mutateInstruction_kept rng hA h
  | delete minimumInstructions =>
    exact surely_post (deleteInstruction_kept rng h minimumInstructions) fun _ => And.left
  | swap => exact swapInstructions_kept rng h
  | crossoverInsert => exact crossoverInsert_kept rng h ho
  | crossoverOverwrite => exact crossoverOverwrite_kept rng h ho
  | limitProgramLength maxLen =>
    exact surely_post (limitLoop_limited rng maxLen h (Nat.le_refl _) false) fun _ => Limited.kept

end Program

end Silifuzz
