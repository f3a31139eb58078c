import Silifuzz.Fuzzer.ProgramAArch64
import Silifuzz.Fuzzer.ProgramMutationOps.Consistent

/-!
# Where branches go when instructions move

An insertion moves the instructions from the boundary on, and a removal those after the
index. The boundaries of the branches move with them, so that each branch goes where it
went before; a removed target is followed by the next instruction that is left. A
crossover copies branches within the block with the block.
-/

namespace Silifuzz

open LittleEndian Triples

/-- The instruction at another place, its branch to the boundary that `target` gives. -/
structure Instruction.Moved {info : ArchInstructionInfo} (target : Nat → Nat)
    (insn moved : Instruction info) : Prop where
  encoded : moved.encoded = insn.encoded
  displacement : moved.directBranch.encodedByteDisplacement =
    insn.directBranch.encodedByteDisplacement
  boundary : moved.directBranch.instructionBoundary =
    insn.directBranch.instructionBoundary.map target

theorem Instruction.Moved.trans {info : ArchInstructionInfo} {f g : Nat → Nat} {x y z : Instruction info} (h : x.Moved f y)
    (h' : y.Moved g z) : x.Moved (fun b => g (f b)) z where
  encoded := h'.encoded.trans h.encoded
  displacement := h'.displacement.trans h.displacement
  boundary := by
    rw [h'.boundary, h.boundary, Option.map_map]
    rfl

namespace Program

variable {info : ArchInstructionInfo}

theorem layout_moved {insns : List (Instruction info)} {k : Nat} {insn : Instruction info}
    (at_k : insns[k]? = some insn) (start : Nat) :
    ∃ o, (layout start insns).1[k]? = some { insn with offset := o } := by
  induction insns generalizing start k with
  | nil => simp at at_k
  | cons first rest ih =>
    cases k with
    | zero =>
      obtain rfl := Option.some.inj at_k
      exact ⟨start, rfl⟩
    | succ k => exact ih at_k _

/-- The layout changes offsets only. -/
theorem fixupInvariants_moved {p : Program info} {k : Nat} {insn moved : Instruction info}
    {target : Nat → Nat} (at_k : p.instructions[k]? = some moved)
    (h : insn.Moved target moved) :
    ∃ moved', p.fixupInvariants.instructions[k]? = some moved' ∧ insn.Moved target moved' := by
  obtain ⟨o, at_k'⟩ := layout_moved at_k 0
  exact ⟨_, at_k', h.encoded, h.displacement, h.boundary⟩

/-- What `AdjustInstructionIndexes` makes of a boundary. -/
def adjusted (boundary : Nat) (amount : Int) (b : Nat) : Nat :=
  if b ≥ boundary then (b + amount).toNat else b

theorem adjustBranch_moved {insn : Instruction info} {n : Nat} (fits : insn.Fits n)
    (boundary : Nat) (amount : Int) : insn.Moved (adjusted boundary amount)
      { insn with directBranch := adjustBranch boundary amount insn.directBranch } := by
  cases valid : insn.directBranch.valid with
  | true =>
    obtain ⟨b, hb, -⟩ := fits.branch.target valid
    unfold adjustBranch
    rw [if_pos valid, hb]
    by_cases moves : b ≥ boundary
    · simp only [if_pos moves]
      exact ⟨rfl, rfl, by simp [hb, adjusted, moves]⟩
    · simp only [if_neg moves]
      exact ⟨rfl, rfl, by simp [hb, adjusted, moves]⟩
  | false =>
    unfold adjustBranch
    rw [if_neg (by simp [valid])]
    exact ⟨rfl, rfl, by simp [fits.branch.absent valid]⟩

/-! ## Insertions -/

/-- Where the instruction that was at `k` is, after `n` others have been inserted. -/
def insertedPlace (boundary n k : Nat) : Nat := if k < boundary then k else k + n

/-- Where a branch to `b` goes, after `n` instructions have been inserted at `boundary`. -/
def insertedTarget (boundary n : Nat) (steal : Bool) (b : Nat) : Nat :=
  if steal ∧ b = boundary then boundary else insertedPlace boundary n b

/-- The instructions of `p` and the inserted ones, each where it belongs in `q`. -/
structure Inserted (p : Program info) (boundary : Nat) (steal : Bool)
    (insns : List (Instruction info)) (q : Program info) : Prop where
  count : q.numInstructions = p.numInstructions + insns.length
  kept : ∀ k insn, p.instructions[k]? = some insn →
    ∃ moved, q.instructions[insertedPlace boundary insns.length k]? = some moved ∧
      insn.Moved (insertedTarget boundary insns.length steal) moved
  inserted : ∀ j insn, insns[j]? = some insn →
    ∃ moved, q.instructions[boundary + j]? = some moved ∧ insn.Moved id moved

section
variable {α : Type} {l block : List α} {boundary : Nat}

theorem splice_kept (le : boundary ≤ l.length) (k : Nat) :
    (l.take boundary ++ block ++ l.drop boundary)[insertedPlace boundary block.length k]? =
      l[k]? := by
  unfold insertedPlace
  split
  · next before =>
    have inside : k < (l.take boundary).length := by
      rw [List.length_take_of_le le]
      exact before
    rw [List.append_assoc, List.getElem?_append_left inside, List.getElem?_take_of_lt before]
  · next after =>
    have past : (l.take boundary ++ block).length ≤ k + block.length := by
      rw [List.length_append, List.length_take_of_le le]
      omega
    rw [List.getElem?_append_right past, List.getElem?_drop, List.length_append,
      List.length_take_of_le le]
    congr 1
    omega

theorem splice_inserted (le : boundary ≤ l.length) {j : Nat} (hj : j < block.length) :
    (l.take boundary ++ block ++ l.drop boundary)[boundary + j]? = block[j]? := by
  have past : (l.take boundary).length ≤ boundary + j := by
    rw [List.length_take_of_le le]
    exact Nat.le_add_right boundary j
  rw [List.append_assoc, List.getElem?_append_right past, List.length_take_of_le le,
    Nat.add_sub_cancel_left, List.getElem?_append_left hj]

end

theorem insertedTarget_eq (boundary n : Nat) (steal : Bool) :
    adjusted (if steal then boundary + 1 else boundary) n = insertedTarget boundary n steal := by
  funext b
  unfold adjusted insertedTarget insertedPlace
  cases steal <;> simp <;> split_ifs <;> omega

theorem insertInstructionBlock_inserted {p : Program info} (h : p.Consistent) {boundary : Nat}
    (hb : boundary < p.numInstructionBoundaries) (steal : Bool)
    (insns : List (Instruction info)) :
    ∃ q, p.insertInstructionBlock boundary steal insns = .ok q ∧
      p.Inserted boundary steal insns q := by
  have near : (if steal then boundary + 1 else boundary) ≤ p.numInstructionBoundaries := by
    split <;> omega
  have le : boundary ≤ p.instructions.length := Nat.le_of_lt_succ hb
  unfold insertInstructionBlock
  simp only [check_ok_iff.mpr hb, adjustInstructionIndexes_ok _ near]
  refine ⟨_, rfl, ?_, ?_, ?_⟩
  · simp only [numInstructions, fixupInvariants, length_layout, List.length_append,
      List.length_take, List.length_drop, List.length_map]
    omega
  · intro k insn at_k
    have moves := adjustBranch_moved (h.insns insn (List.mem_of_getElem? at_k))
      (if steal then boundary + 1 else boundary) insns.length
    rw [insertedTarget_eq] at moves
    refine fixupInvariants_moved ?_ moves
    change (List.take boundary _ ++ insns ++ List.drop boundary _)[_]? = _
    rw [splice_kept (by simpa using le), List.getElem?_map, at_k]
    rfl
  · intro j insn at_j
    have here : insn.Moved id insn := ⟨rfl, rfl, by simp⟩
    refine fixupInvariants_moved ?_ here
    have inside := (List.getElem?_eq_some_iff.mp at_j).1
    change (List.take boundary _ ++ insns ++ List.drop boundary _)[_]? = _
    rw [splice_inserted (by simpa using le) inside, at_j]

/-! ## Removals -/

/-- What is left of `p` in `q`. The `survivors` are the places that the instructions of `q`
had in `p`, and the `target` of a boundary is the first survivor at or after it, or the end
when there is none. -/
structure Remains (p q : Program info) (survivors : List Nat) (target : Nat → Nat) : Prop where
  count : q.numInstructions = survivors.length
  ordered : survivors.Pairwise (· < ·)
  kept : ∀ j k : Nat, survivors[j]? = some k → ∃ insn moved : Instruction info,
    p.instructions[k]? = some insn ∧ q.instructions[j]? = some moved ∧ insn.Moved target moved
  first : ∀ b j k : Nat, survivors[j]? = some k → (target b ≤ j ↔ b ≤ k)
  inside : ∀ b ≤ p.numInstructions, target b ≤ survivors.length

theorem remains_self (p : Program info) :
    Remains p p (List.range p.numInstructions) id where
  count := by simp
  ordered := List.pairwise_lt_range
  kept j k at_j := by
    obtain ⟨hj, rfl⟩ := List.getElem?_eq_some_iff.mp at_j
    rw [List.length_range] at hj
    rw [List.getElem_range]
    exact ⟨_, _, List.getElem?_eq_getElem hj, List.getElem?_eq_getElem hj, rfl, rfl, by simp⟩
  first b j k at_j := by
    obtain ⟨hj, rfl⟩ := List.getElem?_eq_some_iff.mp at_j
    rw [List.getElem_range]
    rfl
  inside b hb := by simpa using hb

/-- A target that has survived is still the target. -/
theorem Remains.same {p q : Program info} {survivors : List Nat} {target : Nat → Nat}
    (h : Remains p q survivors target) {j k : Nat} (at_j : survivors[j]? = some k) :
    target k = j := by
  apply Nat.le_antisymm ((h.first k j k at_j).mpr le_rfl)
  by_contra less
  obtain ⟨hj, rfl⟩ := List.getElem?_eq_some_iff.mp at_j
  have before : target survivors[j] < survivors.length := by omega
  have earlier := (h.first survivors[j] _ _ (List.getElem?_eq_getElem before)).mp le_rfl
  have later := List.pairwise_iff_getElem.mp h.ordered (target survivors[j]) j before hj (by omega)
  omega

theorem getElem?_gap {α : Type} (l : List α) (index j : Nat) :
    (l.eraseIdx index)[j]? = l[if j < index then j else j + 1]? := by
  rw [List.getElem?_eraseIdx]
  split <;> rfl

/-- One removal: the survivors after it move up, and so do the targets. -/
theorem removeInstruction_remains {p q : Program info} {survivors : List Nat}
    {target : Nat → Nat} (hq : q.Consistent) (h : Remains p q survivors target) {index : Nat}
    (hi : index < q.numInstructions) :
    ∃ q', q.removeInstruction index = .ok q' ∧
      Remains p q' (survivors.eraseIdx index) (fun b => adjusted (index + 1) (-1) (target b)) := by
  have near : index + 1 ≤ q.numInstructionBoundaries := Nat.succ_le_succ (Nat.le_of_lt hi)
  have hs : index < survivors.length := h.count ▸ hi
  unfold removeInstruction
  rw [check_ok_iff.mpr hi, adjustInstructionIndexes_ok _ near]
  simp only [numInstructions] at hi
  refine ⟨_, by simp [getInstruction, hi, bind, Except.bind]; rfl, ?_, ?_, ?_, ?_, ?_⟩
  · have count : q.instructions.length = survivors.length := h.count
    simp [numInstructions, fixupInvariants, List.length_eraseIdx, hs, count]
  · exact h.ordered.eraseIdx index
  · intro j k at_j
    rw [getElem?_gap] at at_j
    obtain ⟨insn, moved, at_k, here, moves⟩ := h.kept _ k at_j
    have again := adjustBranch_moved (hq.insns moved (List.mem_of_getElem? here)) (index + 1) (-1)
    obtain ⟨moved', there, moves'⟩ := fixupInvariants_moved (p := ⟨_, _, _⟩)
      (by rw [getElem?_gap, List.getElem?_map, here]; rfl) (moves.trans again)
    exact ⟨insn, moved', at_k, there, moves'⟩
  · intro b j k at_j
    rw [getElem?_gap] at at_j
    rw [← h.first b _ k at_j]
    unfold adjusted
    split_ifs <;> omega
  · intro b hb
    have old := h.inside b hb
    rw [List.length_eraseIdx, if_pos hs]
    unfold adjusted
    split_ifs <;> omega

/-- The removals one after another are all of instructions that are there. -/
def Removable : Nat → List Nat → Prop
  | _, [] => True
  | n, index :: rest => index < n ∧ Removable (n - 1) rest

/-- The places of the instructions that are left, in the program before. -/
def remaining (n : Nat) (indices : List Nat) : List Nat :=
  indices.foldl (fun left index => left.eraseIdx index) (List.range n)

theorem removeInstructions_remains {p : Program info} (h : p.Consistent) {indices : List Nat}
    (removable : Removable p.numInstructions indices) :
    ∃ q target, indices.foldlM (fun q index => q.removeInstruction index) p = .ok q ∧
      Remains p q (remaining p.numInstructions indices) target := by
  suffices run : ∀ (q : Program info) (left : List Nat) (target : Nat → Nat), q.Consistent →
      Remains p q left target → Removable q.numInstructions indices →
      ∃ q' target', indices.foldlM (fun q index => q.removeInstruction index) q = .ok q' ∧
        Remains p q' (indices.foldl (fun left index => left.eraseIdx index) left) target' from
    run p _ id h (remains_self p) removable
  clear removable
  induction indices with
  | nil => exact fun q left target _ remains _ => ⟨q, target, rfl, remains⟩
  | cons index rest ih =>
    intro q left target hq remains ⟨hi, removable⟩
    obtain ⟨q', run, remains'⟩ := removeInstruction_remains hq remains hi
    obtain ⟨_, run', hq', count⟩ := removeInstruction_consistent hq hi
    obtain rfl := Except.ok.inj (run.symm.trans run')
    have fewer : q'.numInstructions = q.numInstructions - 1 := by omega
    obtain ⟨q'', target'', rest', remains''⟩ := ih q' _ _ hq' remains' (fewer ▸ removable)
    refine ⟨q'', target'', ?_, remains''⟩
    rw [List.foldlM_cons, run]
    exact rest'

variable {ρ : Type} (rng : MutatorRng ρ) {A : Arch}

theorem deleteInstruction_remains {p q : Program A.info} {survivors : List Nat}
    {target : Nat → Nat} (hq : q.Consistent) (h : Remains p q survivors target)
    (minimumInstructions : Nat) :
    Surely (q.deleteInstruction rng minimumInstructions) (fun r => r.2.Consistent ∧
      (minimumInstructions < q.numInstructions → r.2.numInstructions + 1 = q.numInstructions) ∧
      ∃ survivors target, Remains p r.2 survivors target) := by
  unfold deleteInstruction
  apply surely_ite
  · intro few
    exact surely_pure ⟨hq, fun many => absurd few (by omega), survivors, target, h⟩
  intro many
  apply surely_bind (randomIndex_surely rng (by omega))
  intro victim hv
  obtain ⟨q', run, remains⟩ := removeInstruction_remains hq h hv
  obtain ⟨_, run', hq', count⟩ := removeInstruction_consistent hq hv
  obtain rfl := Except.ok.inj (run.symm.trans run')
  apply surely_bind (surely_lift_ok ⟨q', run, rfl⟩ (Q := (q' = ·)))
  rintro _ rfl
  exact surely_pure ⟨hq', fun _ => count, _, _, remains⟩

theorem limitLoop_remains {p q : Program A.info} {survivors : List Nat} {target : Nat → Nat}
    (hq : q.Consistent) (h : Remains p q survivors target) (maxLen : Nat) {fuel : Nat}
    (enough : q.numInstructions ≤ fuel) (modified : Bool) :
    Surely (limitLoop rng maxLen fuel q modified)
      (fun r => ∃ survivors target, Remains p r.2 survivors target) := by
  induction fuel generalizing q survivors target modified with
  | zero =>
    unfold limitLoop
    apply surely_ite
    · intro long
      have some := numInstructions_pos hq (by omega)
      omega
    · intro _
      exact surely_pure ⟨survivors, target, h⟩
  | succ fuel ih =>
    unfold limitLoop
    apply surely_ite
    · intro long
      have some := numInstructions_pos hq (by omega)
      apply surely_bind (surely_check some)
      intro _ _
      apply surely_bind (deleteInstruction_remains rng hq h 0)
      rintro ⟨_, q'⟩ ⟨hq', fewer, survivors', target', remains⟩
      have fewer : q'.numInstructions + 1 = q.numInstructions := fewer some
      exact ih hq' remains (by omega) true
    · intro _
      exact surely_pure ⟨survivors, target, h⟩

/-! ## Crossovers -/

/-- The instruction in a block that is copied `indexOffset` further on, to a program of `n`
boundaries. -/
structure Shifted (indexOffset : Int) (n : Nat) (insn copy : Instruction info) : Prop where
  encoded : copy.encoded = insn.encoded
  displacement : copy.directBranch.encodedByteDisplacement =
    insn.directBranch.encodedByteDisplacement
  boundary : ∀ b : Nat, insn.directBranch.instructionBoundary = some b →
    0 ≤ b + indexOffset → b + indexOffset < n →
    copy.directBranch.instructionBoundary = some (b + indexOffset).toNat

theorem shiftOrRandomizeInstructionDisplacementBoundaries_shifted
    {block : List (Instruction info)} {m : Nat} (fits : ∀ insn ∈ block, insn.Fits m)
    (indexOffset : Int) {n : Nat} (hn : 0 < n) :
    Surely (shiftOrRandomizeInstructionDisplacementBoundaries rng block indexOffset n)
      (List.Forall₂ (Shifted indexOffset n) block) := by
  unfold shiftOrRandomizeInstructionDisplacementBoundaries
  apply surely_forall₂
  intro insn mem
  have branch := (fits insn mem).branch
  unfold shiftOrRandomizeInstructionDisplacementBoundary
  cases valid : insn.directBranch.valid with
  | false =>
    have absent := branch.absent valid
    apply surely_bind (surely_pure (Q := (insn.directBranch = ·)) rfl)
    rintro _ rfl
    refine surely_pure ⟨rfl, rfl, fun b hb => ?_⟩
    rw [absent] at hb
    cases hb
  | true =>
    obtain ⟨b, hb, -⟩ := branch.target valid
    rw [hb]
    apply surely_bind (Q := fun branch => Shifted indexOffset n insn
      { insn with directBranch := branch })
    · apply surely_bind (Q := fun shifted : Nat => 0 ≤ b + indexOffset → b + indexOffset < n →
        shifted = (b + indexOffset).toNat)
      · apply surely_ite
        · intro outside
          have outside : (b : Int) + indexOffset < 0 ∨ (b : Int) + indexOffset ≥ n := outside
          apply surely_post (randomIndex_surely rng hn)
          omega
        · intro _
          exact surely_pure fun _ _ => rfl
      · intro shifted same
        refine surely_pure ⟨rfl, rfl, fun b' hb' low high => ?_⟩
        obtain rfl := Option.some.inj (hb.symm.trans hb')
        rw [same low high]
    · intro branch shifted
      exact surely_pure shifted

/-- The instructions of `other` from `src` on, copied to `dst`. A branch between two of them
goes from copy to copy. -/
def Copied (other : Program info) (src size dst : Nat) (q : Program info) : Prop :=
  ∀ j < size, ∃ insn copy : Instruction info, other.instructions[src + j]? = some insn ∧
    q.instructions[dst + j]? = some copy ∧ copy.encoded = insn.encoded ∧
    copy.directBranch.encodedByteDisplacement = insn.directBranch.encodedByteDisplacement ∧
    ∀ i < size, insn.directBranch.instructionBoundary = some (src + i) →
      copy.directBranch.instructionBoundary = some (dst + i)

theorem copyInstructionBlock_copies {p : Program info} (h : p.Consistent) {index size : Nat}
    (hi : index + size ≤ p.numInstructions) :
    ∃ block, p.copyInstructionBlock index size = .ok block ∧ block.length = size ∧
      (∀ insn ∈ block, insn.Fits p.numInstructionBoundaries) ∧
      ∀ j < size, block[j]? = p.instructions[index + j]? := by
  unfold copyInstructionBlock
  rw [check_ok_iff.mpr (show index + size ≤ p.instructions.length from hi)]
  simp only [numInstructions] at hi
  refine ⟨_, rfl, ?_, fun insn mem => ?_, fun j hj => ?_⟩
  · rw [List.length_take, List.length_drop]
    omega
  · exact h.insns insn (List.mem_of_mem_drop (List.mem_of_mem_take mem))
  · rw [List.getElem?_take_of_lt hj, List.getElem?_drop]

/-- The copy of a block, wherever the program has put it. -/
theorem copied_of_shifted {other q : Program info} {src size dst n : Nat}
    {block shifted : List (Instruction info)} (room : dst + size ≤ n)
    (from_other : ∀ j < size, block[j]? = other.instructions[src + j]?)
    (rel : List.Forall₂ (Shifted ((dst : Int) - src) n) block shifted)
    (placed : ∀ j copy, shifted[j]? = some copy → ∃ moved, q.instructions[dst + j]? = some moved ∧
      copy.Moved id moved) (same : block.length = size) : Copied other src size dst q := by
  intro j hj
  have hs : j < shifted.length := by
    rw [← rel.length_eq, same]
    exact hj
  obtain ⟨insn, at_j, h⟩ := Loops.forall₂_getElem? rel (List.getElem?_eq_getElem hs)
  obtain ⟨moved, there, moves⟩ := placed j _ (List.getElem?_eq_getElem hs)
  refine ⟨insn, moved, ?_, there, moves.encoded.trans h.encoded,
    moves.displacement.trans h.displacement, fun i hi' target => ?_⟩
  · rw [← from_other j hj, at_j]
  · have shift := h.boundary (src + i) target (by omega) (by omega)
    rw [moves.boundary, Option.map_id, id, shift]
    congr 1
    omega

theorem crossoverInsert_copied {p other : Program A.info} (h : p.Consistent)
    (ho : other.Consistent) :
    Surely (p.crossoverInsert rng other) (fun r => r = (false, p) ∨
      ∃ src size dst steal block, 0 < size ∧ src + size ≤ other.numInstructions ∧
        block.length = size ∧ p.Inserted dst steal block r.2 ∧ Copied other src size dst r.2) := by
  unfold crossoverInsert
  apply surely_ite
  · intro _
    exact surely_pure (.inl rfl)
  intro donor
  apply surely_bind (randomIndex_surely rng (by omega))
  intro less hs
  apply surely_bind (randomIndex_surely rng (by omega))
  intro src hi
  have room : src + (less + 1) ≤ other.numInstructions := by omega
  obtain ⟨block, run, length, fits, from_other⟩ := copyInstructionBlock_copies ho room
  apply surely_bind (surely_lift_ok ⟨block, run, rfl⟩ (Q := (block = ·)))
  rintro _ rfl
  apply surely_bind (randomIndex_surely rng (by simp only [numInstructionBoundaries]; omega))
  intro dst hd
  apply surely_bind (shiftOrRandomizeInstructionDisplacementBoundaries_shifted rng fits _
    (by simp only [numInstructionBoundaries]; omega))
  intro shifted rel
  apply surely_bind (randomIndex_surely rng (by omega))
  intro steal _
  obtain ⟨q, run, inserted⟩ := insertInstructionBlock_inserted h hd (decide (steal ≠ 0)) shifted
  apply surely_bind (surely_lift_ok ⟨q, run, rfl⟩ (Q := (q = ·)))
  rintro _ rfl
  have size : shifted.length = less + 1 := rel.length_eq.symm.trans length
  refine surely_pure (.inr ⟨src, less + 1, dst, _, shifted, Nat.succ_pos less, room, size,
    inserted, ?_⟩)
  refine copied_of_shifted ?_ from_other rel inserted.inserted length
  rw [length]
  omega

/-- The block from `dst` on is overwritten, and nothing else. -/
structure Overwritten (p : Program info) (dst size : Nat) (q : Program info) : Prop where
  count : q.numInstructions = p.numInstructions
  rest : ∀ k : Nat, k < dst ∨ dst + size ≤ k → q.instructions[k]? = p.instructions[k]?

theorem setInstructionBlock_overwritten {p : Program info} {index : Nat}
    {insns : List (Instruction info)} (hi : index + insns.length ≤ p.numInstructions) :
    ∃ q, p.setInstructionBlock index insns = .ok q ∧ p.Overwritten index insns.length q ∧
      ∀ j copy, insns[j]? = some copy → q.instructions[index + j]? = some copy := by
  unfold setInstructionBlock
  rw [check_ok_iff.mpr hi]
  simp only [numInstructions] at hi
  have before : (p.instructions.take index).length = index := List.length_take_of_le (by omega)
  refine ⟨_, rfl, ⟨?_, ?_⟩, ?_⟩
  · simp only [numInstructions, List.length_append, List.length_take, List.length_drop]
    omega
  · intro k outside
    dsimp only
    rcases outside with less | more
    · rw [List.append_assoc, List.getElem?_append_left (by omega), List.getElem?_take_of_lt less]
    · have past : (p.instructions.take index ++ insns).length ≤ k := by
        rw [List.length_append, before]
        exact more
      rw [List.getElem?_append_right past, List.getElem?_drop, List.length_append, before]
      congr 1
      omega
  · intro j copy at_j
    have inside := (List.getElem?_eq_some_iff.mp at_j).1
    dsimp only
    rw [List.append_assoc, List.getElem?_append_right (by omega), before, Nat.add_sub_cancel_left,
      List.getElem?_append_left inside, at_j]

theorem crossoverOverwrite_copied {p other : Program A.info} (ho : other.Consistent) :
    Surely (p.crossoverOverwrite rng other) (fun r => r = (false, p) ∨
      ∃ src size dst, 0 < size ∧ src + size ≤ other.numInstructions ∧
        dst + size ≤ p.numInstructions ∧ p.Overwritten dst size r.2 ∧
        Copied other src size dst r.2) := by
  unfold crossoverOverwrite
  apply surely_ite
  · intro _
    exact surely_pure (.inl rfl)
  intro some
  apply surely_ite
  · intro _
    exact surely_pure (.inl rfl)
  intro donor
  apply surely_bind (randomIndex_surely rng (by omega))
  intro less hs
  apply surely_bind (randomIndex_surely rng (by omega))
  intro src hi
  have room : src + (less + 1) ≤ other.numInstructions := by omega
  obtain ⟨block, run, length, fits, from_other⟩ := copyInstructionBlock_copies ho room
  apply surely_bind (surely_lift_ok ⟨block, run, rfl⟩ (Q := (block = ·)))
  rintro _ rfl
  apply surely_bind (randomIndex_surely rng (by omega))
  intro dst hd
  apply surely_bind (shiftOrRandomizeInstructionDisplacementBoundaries_shifted rng fits _
    (by simp only [numInstructionBoundaries]; omega))
  intro shifted rel
  have size : shifted.length = less + 1 := rel.length_eq.symm.trans length
  have inside : dst + (less + 1) ≤ p.numInstructions := by omega
  obtain ⟨q, run, overwritten, copies⟩ := setInstructionBlock_overwritten
    (show dst + shifted.length ≤ p.numInstructions from size.symm ▸ inside)
  apply surely_bind (surely_lift_ok ⟨q, run, rfl⟩ (Q := (q = ·)))
  rintro _ rfl
  refine surely_pure (.inr ⟨src, less + 1, dst, Nat.succ_pos less, room, inside,
    size ▸ overwritten, ?_⟩)
  refine copied_of_shifted (Nat.le_succ_of_le inside) from_other rel ?_ length
  intro j copy at_j
  exact ⟨copy, copies j copy at_j, rfl, rfl, by simp⟩

/-- **Branches go where they went**, to the boundaries that insertions, removals and
crossovers move. A branch to the boundary of an insertion goes to the first new instruction
exactly when displacements are stolen, and one to a removed instruction to the next that is
left. -/
theorem edits_retarget {p : Program A.info} (h : p.Consistent) :
    (∀ boundary < p.numInstructionBoundaries, ∀ steal insns,
      ∃ q, p.insertInstructionBlock boundary steal insns = .ok q ∧
        p.Inserted boundary steal insns q ∧ (insns ≠ [] →
          (insertedTarget boundary insns.length steal boundary = boundary ↔ steal = true))) ∧
    (∀ indices, Removable p.numInstructions indices →
      ∃ q target, indices.foldlM (fun q index => q.removeInstruction index) p = .ok q ∧
        p.Remains q (remaining p.numInstructions indices) target ∧
        ∀ j k : Nat, (remaining p.numInstructions indices)[j]? = some k → target k = j) ∧
    (∀ maxLen, Surely (p.limitProgramLength rng maxLen) fun r =>
      ∃ survivors target, p.Remains r.2 survivors target ∧
        ∀ j k : Nat, survivors[j]? = some k → target k = j) ∧
    ∀ other : Program A.info, other.Consistent →
      Surely (p.crossoverInsert rng other) (fun r => r = (false, p) ∨
        ∃ src size dst steal block, 0 < size ∧ src + size ≤ other.numInstructions ∧
          block.length = size ∧ p.Inserted dst steal block r.2 ∧ Copied other src size dst r.2) ∧
      Surely (p.crossoverOverwrite rng other) (fun r => r = (false, p) ∨
        ∃ src size dst, 0 < size ∧ src + size ≤ other.numInstructions ∧
          dst + size ≤ p.numInstructions ∧ p.Overwritten dst size r.2 ∧
          Copied other src size dst r.2) := by
  refine ⟨?_, ?_, ?_, ?_⟩
  · intro boundary hb steal insns
    obtain ⟨q, run, inserted⟩ := insertInstructionBlock_inserted h hb steal insns
    refine ⟨q, run, inserted, fun some => ?_⟩
    have pos := List.length_pos_iff.mpr some
    unfold insertedTarget insertedPlace
    cases steal
    · simp
      omega
    · simp
  · intro indices removable
    obtain ⟨q, target, run, remains⟩ := removeInstructions_remains h removable
    exact ⟨q, target, run, remains, fun j k => remains.same⟩
  · intro maxLen
    apply surely_post (limitLoop_remains rng h (remains_self p) maxLen (Nat.le_refl _) false)
    rintro r ⟨survivors, target, remains⟩
    exact ⟨survivors, target, remains, fun j k => remains.same⟩
  · intro other ho
    exact ⟨crossoverInsert_copied rng h ho, crossoverOverwrite_copied rng ho⟩

/-- Two branches to each other. -/
def twoBranches : Program AArch64.kInstructionInfo where
  instructions := [⟨⟨[1, 0, 0, 0x14], by decide⟩, ⟨some 4, some 1⟩, 0⟩,
    ⟨⟨[0xff, 0xff, 0xff, 0x17], by decide⟩, ⟨some (-4), some 0⟩, 4⟩]
  byteLen := 8

theorem twoBranches_consistent : twoBranches.Consistent where
  insns insn mem := by
    rcases List.mem_cons.mp mem with rfl | mem
    · exact ⟨by decide, fun _ => ⟨1, rfl, by decide⟩, nofun⟩
    · obtain rfl := List.mem_singleton.mp mem
      exact ⟨by decide, fun _ => ⟨0, rfl, by decide⟩, nofun⟩
  byteLen := rfl

theorem edits_retarget_twoBranches :
    (∃ q, twoBranches.insertInstructionBlock 1 true twoBranches.instructions = .ok q ∧
      twoBranches.Inserted 1 true twoBranches.instructions q) ∧
    (∃ q target, [0].foldlM (fun q index => q.removeInstruction index) twoBranches = .ok q ∧
      twoBranches.Remains q (remaining 2 [0]) target) ∧
    Surely (crossoverInsert (A := aarch64 fun _ => true) countingRng twoBranches
      twoBranches) (fun r => r = (false, twoBranches) ∨
        ∃ src size dst steal block, 0 < size ∧ src + size ≤ 2 ∧ block.length = size ∧
          twoBranches.Inserted dst steal block r.2 ∧ Copied twoBranches src size dst r.2) := by
  obtain ⟨insertion, removal, -, crossover⟩ :=
    edits_retarget (A := aarch64 fun _ => true) countingRng twoBranches_consistent
  refine ⟨?_, ?_, (crossover twoBranches twoBranches_consistent).1⟩
  · obtain ⟨q, run, inserted, -⟩ := insertion 1 (by decide) true twoBranches.instructions
    exact ⟨q, run, inserted⟩
  · obtain ⟨q, target, run, remains, -⟩ := removal [0] ⟨by decide, trivial⟩
    exact ⟨q, target, run, remains⟩

end Program

end Silifuzz
