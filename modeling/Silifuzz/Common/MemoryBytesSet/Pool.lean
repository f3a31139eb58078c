import Silifuzz.Common.MemoryBytesSet

/-!
# Sets under all operations

A program holds some sets, each under a name, and adds to them, takes from them,
intersects and copies them in any order. `run` is what the class does and
`meaning` what the names stand for as finite sets of addresses.
-/

namespace Silifuzz

open Segments RangeMap Loops

namespace MemoryBytesSet

abbrev Pool := Nat → MemoryBytesSet

inductive Op where
  | add (i : Nat) (start limit : Address)
  | addSet (i j : Nat)
  | remove (i : Nat) (start limit : Address)
  | intersect (i j : Nat)
  | copy (i j : Nat)
  | clear (i : Nat)
  deriving DecidableEq, Repr

/-- The ranges of `Add` and `Remove` are not empty, which `RangeMap` checks. -/
def Op.Forward : Op → Prop
  | .add _ start limit | .remove _ start limit => start < limit
  | _ => True

def Op.run (p : Pool) : Op → Option Pool
  | .add i start limit => ((p i).add start limit).map (Function.update p i)
  | .addSet i j => ((p i).addSet (p j)).map (Function.update p i)
  | .remove i start limit => ((p i).remove start limit).map (Function.update p i)
  | .intersect i j => ((p i).intersect (p j)).map (Function.update p i)
  | .copy i j => some (Function.update p i (p j))
  | .clear i => some (Function.update p i .empty)

def Op.meaning (s : Nat → Finset Address) : Op → Nat → Finset Address
  | .add i start limit => Function.update s i (s i ∪ Finset.Ico start limit)
  | .addSet i j => Function.update s i (s i ∪ s j)
  | .remove i start limit => Function.update s i (s i \ Finset.Ico start limit)
  | .intersect i j => Function.update s i (s i ∩ s j)
  | .copy i j => Function.update s i (s j)
  | .clear i => Function.update s i ∅

def runAll (ops : List Op) : Option Pool := ops.foldlM Op.run fun _ => .empty

def meaningAll (ops : List Op) : Nat → Finset Address := ops.foldl Op.meaning fun _ => ∅

/-- `Add` of each range in turn. -/
def addAll (m : MemoryBytesSet) (ranges : List (Address × Address)) : Option MemoryBytesSet :=
  ranges.foldlM (fun m r => m.add r.1 r.2) m

/-- The set is the finite set of addresses `s`. -/
def Is (m : MemoryBytesSet) (s : Finset Address) : Prop := m.Represents fun k => decide (k ∈ s)

variable {m y : MemoryBytesSet} {s t : Finset Address} {start limit : Address}

theorem Is.addresses_eq (hm : m.Is s) : m.addresses = s := by
  ext k
  rw [Represents.mem_addresses_iff hm, decide_eq_true_eq]

theorem Is.byteSize_eq (hm : m.Is s) : m.byteSize = s.card := by
  rw [MemoryBytesSet.byteSize_eq hm.separated, hm.addresses_eq]

theorem Is.eq_iff (hm : m.Is s) (hy : y.Is t) : m = y ↔ s = t := by
  constructor
  · rintro rfl
    exact hm.addresses_eq.symm.trans hy.addresses_eq
  · rintro rfl
    exact Represents.unique hm hy

theorem Is.add (hm : m.Is s) (h : start < limit) :
    ∃ m', m.add start limit = some m' ∧ m'.Is (s ∪ Finset.Ico start limit) := by
  obtain ⟨m', run, hm'⟩ := Represents.add_represents hm h
  exact ⟨m', run, hm'.congr fun k => by simp [Finset.mem_union, Finset.mem_Ico]⟩

theorem Is.remove (hm : m.Is s) (h : start < limit) :
    ∃ m', m.remove start limit = some m' ∧ m'.Is (s \ Finset.Ico start limit) := by
  obtain ⟨m', run, hm'⟩ := Represents.remove_represents hm h
  refine ⟨m', run, hm'.congr fun k => ?_⟩
  rw [← decide_not, ← Bool.decide_and]
  simp only [Finset.mem_sdiff, Finset.mem_Ico]

theorem Is.addSet (hm : m.Is s) (hy : y.Is t) : ∃ m', m.addSet y = some m' ∧ m'.Is (s ∪ t) := by
  obtain ⟨m', run, hm'⟩ := Represents.addSet_represents hm hy
  exact ⟨m', run, hm'.congr fun k => by simp [Finset.mem_union]⟩

theorem Is.intersect (hm : m.Is s) (hy : y.Is t) :
    ∃ m', m.intersect y = some m' ∧ m'.Is (s ∩ t) := by
  obtain ⟨m', run, hm'⟩ := Represents.intersect_represents hm hy
  exact ⟨m', run, hm'.congr fun k => by simp [Finset.mem_inter]⟩

theorem Is.isDisjoint (hm : m.Is s) (h : start < limit) :
    m.isDisjoint start limit = some (decide (Disjoint s (Finset.Ico start limit))) := by
  obtain ⟨b, run, iff⟩ := Represents.isDisjoint_eq hm h
  rw [run, Option.some.injEq, Bool.eq_iff_iff, iff, decide_eq_true_eq, Finset.disjoint_right]
  simp only [decide_eq_false_iff_not, Finset.mem_Ico, and_imp]

theorem empty_is : empty.Is ∅ := empty_represents.congr fun k => by simp

/-- Every name stands for its set. -/
def Pool.Denotes (p : Pool) (s : Nat → Finset Address) : Prop := ∀ i, (p i).Is (s i)

theorem Pool.Denotes.update {p : Pool} {s : Nat → Finset Address} (hp : p.Denotes s) {i : Nat}
    {m : MemoryBytesSet} {t : Finset Address} (hm : m.Is t) :
    Pool.Denotes (Function.update p i m) (Function.update s i t) := by
  intro j
  by_cases h : j = i
  · subst h
    rw [Function.update_self, Function.update_self]
    exact hm
  · rw [Function.update_of_ne h, Function.update_of_ne h]
    exact hp j

theorem op_denotes {p : Pool} {s : Nat → Finset Address} (hp : p.Denotes s) (o : Op)
    (forward : o.Forward) : ∃ p', o.run p = some p' ∧ p'.Denotes (o.meaning s) := by
  cases o with
  | add i start limit =>
    obtain ⟨m, run, hm⟩ := (hp i).add forward
    exact ⟨_, by rw [Op.run, run]; rfl, hp.update hm⟩
  | addSet i j =>
    obtain ⟨m, run, hm⟩ := (hp i).addSet (hp j)
    exact ⟨_, by rw [Op.run, run]; rfl, hp.update hm⟩
  | remove i start limit =>
    obtain ⟨m, run, hm⟩ := (hp i).remove forward
    exact ⟨_, by rw [Op.run, run]; rfl, hp.update hm⟩
  | intersect i j =>
    obtain ⟨m, run, hm⟩ := (hp i).intersect (hp j)
    exact ⟨_, by rw [Op.run, run]; rfl, hp.update hm⟩
  | copy i j => exact ⟨_, rfl, hp.update (hp j)⟩
  | clear i => exact ⟨_, rfl, hp.update empty_is⟩

theorem runAll_denotes {ops : List Op} (forward : ∀ o ∈ ops, o.Forward) :
    ∃ p, runAll ops = some p ∧ p.Denotes (meaningAll ops) := by
  have start : Pool.Denotes (fun _ => .empty) fun _ => ∅ := fun _ => empty_is
  unfold runAll meaningAll
  generalize (fun _ => MemoryBytesSet.empty : Pool) = p at start ⊢
  generalize (fun _ => ∅ : Nat → Finset Address) = s at start ⊢
  induction ops generalizing p s with
  | nil => exact ⟨p, rfl, start⟩
  | cons o ops ih =>
    obtain ⟨p', run, hp'⟩ := op_denotes start o (forward o (by simp))
    obtain ⟨q, rest, hq⟩ := ih (fun o ho => forward o (by simp [ho])) p' _ hp'
    exact ⟨q, by rw [List.foldlM_cons, run]; exact rest, hq⟩

/-- The addresses of all the ranges. -/
def union (ranges : List (Address × Address)) : Finset Address :=
  ranges.foldr (fun r s => Finset.Ico r.1 r.2 ∪ s) ∅

theorem addAll_is {ranges : List (Address × Address)} (hm : m.Is s)
    (forward : ∀ r ∈ ranges, r.1 < r.2) :
    ∃ m', m.addAll ranges = some m' ∧ m'.Is (s ∪ union ranges) := by
  induction ranges generalizing m s with
  | nil => exact ⟨m, rfl, by rwa [union, List.foldr_nil, Finset.union_empty]⟩
  | cons r ranges ih =>
    obtain ⟨m₁, run, hm₁⟩ := hm.add (forward r (by simp))
    obtain ⟨m', rest, hm'⟩ := ih hm₁ fun r hr => forward r (by simp [hr])
    refine ⟨m', by rw [addAll, List.foldlM_cons, run]; exact rest, ?_⟩
    rwa [union, List.foldr_cons, ← Finset.union_assoc]

theorem union_perm {a b : List (Address × Address)} (h : a.Perm b) : union a = union b := by
  unfold union
  apply h.foldr_eq'
  intro x _ y _ s
  exact Finset.union_left_comm _ _ s

/-- **Equal sets are the sets with the same addresses**, after any operations on any
sets. Each set has the addresses its operations say, `byteSize` counts them, the
order of additions does not matter, and `intersect` gives the common addresses. -/
theorem runAll_sets (ops : List Op) (forward : ∀ o ∈ ops, o.Forward) :
    ∃ p, runAll ops = some p ∧
      (∀ i, (p i).addresses = meaningAll ops i) ∧
      (∀ i j, p i = p j ↔ (p i).addresses = (p j).addresses) ∧
      (∀ i, (p i).byteSize = (p i).addresses.card) ∧
      (∀ i start limit, start < limit → (p i).isDisjoint start limit =
        some (decide (Disjoint (p i).addresses (Finset.Ico start limit)))) ∧
      (∀ i a b, List.Perm a b → (∀ r ∈ a, r.1 < r.2) →
        ∃ m, (p i).addAll a = some m ∧ (p i).addAll b = some m) ∧
      ∀ i j, ∃ m, (p i).intersect (p j) = some m ∧
        m.addresses = (p i).addresses ∩ (p j).addresses := by
  obtain ⟨p, run, hp⟩ := runAll_denotes forward
  refine ⟨p, run, fun i => (hp i).addresses_eq, fun i j => ?_, fun i => ?_,
    fun i start limit h => ?_, fun i a b perm forward => ?_, fun i j => ?_⟩
  · rw [(hp i).eq_iff (hp j), (hp i).addresses_eq, (hp j).addresses_eq]
  · rw [(hp i).byteSize_eq, (hp i).addresses_eq]
  · rw [(hp i).isDisjoint h, (hp i).addresses_eq]
  · obtain ⟨m, runA, hm⟩ := addAll_is (hp i) forward
    obtain ⟨m', runB, hm'⟩ := addAll_is (hp i) fun r hr => forward r (perm.mem_iff.mpr hr)
    rw [← union_perm perm] at hm'
    obtain rfl : m = m' := Represents.unique hm hm'
    exact ⟨m, runA, runB⟩
  · obtain ⟨m, run, hm⟩ := (hp i).intersect (hp j)
    refine ⟨m, run, ?_⟩
    rw [hm.addresses_eq, (hp i).addresses_eq, (hp j).addresses_eq]

/-- Two sets built in different orders, one through a copy and a removal. -/
theorem runAll_sets_orders :
    let ops := [Op.add 0 0 10, .add 0 10 20, .add 1 5 20, .copy 2 1, .add 1 0 6, .remove 2 8 12,
      .addSet 2 0, .intersect 1 0]
    ∃ p, runAll ops = some p ∧
      (∀ i, (p i).addresses = meaningAll ops i) ∧
      (∀ i j, p i = p j ↔ (p i).addresses = (p j).addresses) ∧
      (∀ i, (p i).byteSize = (p i).addresses.card) ∧
      (∀ i start limit, start < limit → (p i).isDisjoint start limit =
        some (decide (Disjoint (p i).addresses (Finset.Ico start limit)))) ∧
      (∀ i a b, List.Perm a b → (∀ r ∈ a, r.1 < r.2) →
        ∃ m, (p i).addAll a = some m ∧ (p i).addAll b = some m) ∧
      ∀ i j, ∃ m, (p i).intersect (p j) = some m ∧
        m.addresses = (p i).addresses ∩ (p j).addresses :=
  runAll_sets _ <| by simp [Op.Forward]

end MemoryBytesSet

end Silifuzz
