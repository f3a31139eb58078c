import Silifuzz.Common.MappedMemoryMap.PermsMap
import Silifuzz.Util.RangeMap.Covers
import Silifuzz.Util.RangeMap.Unique

/-!
# Questions about a range of addresses

What `Contains` and `Perms` answer for a range, in terms of the single addresses:
whether all are mapped, what all have, and what some have.
-/

namespace Silifuzz

open Segments RangeMap Loops

namespace MemoryPerms

theorem hasSomeOf_add (q x y : MemoryPerms) :
    q.hasSomeOf (x.add y) = (q.hasSomeOf x || q.hasSomeOf y) := by
  rw [Bool.eq_iff_iff]
  simp [hasSomeOf, add, BitVec.and_or_distrib_left, BitVec.or_eq_zero_iff, -not_and, not_and_or]

theorem hasSomeOf_comm (x y : MemoryPerms) : x.hasSomeOf y = y.hasSomeOf x := by
  simp only [hasSomeOf, BitVec.and_comm]

@[simp] theorem hasSomeOf_none (q : MemoryPerms) : q.hasSomeOf .none = false := by
  simp [hasSomeOf, none]

end MemoryPerms

theorem memoryPerms_extensional : memoryPerms.Extensional where
  ext h _ _ same := same _ le_rfl h
  refl _ := by simp [memoryPermsMethods]

namespace MappedMemoryMap

variable {m : MappedMemoryMap} {f : PermsMap} {start limit : Address}

/-- Permissions common to entries that all have `v`. -/
theorem join_const {v : MemoryPerms} {w : List (Segment Address MemoryPerms)}
    (hw : ∀ i ∈ w, i.value = v) {p : MemoryPerms} (h : p.intersect v = v) (some : w ≠ []) :
    w.foldl (fun p i => p.join i.value .kAnd) p = v := by
  induction w generalizing p with
  | nil => exact absurd rfl some
  | cons i w ih =>
    have first : p.join i.value .kAnd = v := by rw [hw i (by simp)]; exact h
    rw [List.foldl_cons, first]
    cases w with
    | nil => rfl
    | cons j w => exact ih (fun i hi => hw i (by simp [hi])) (MemoryPerms.intersect_self v) (by simp)

theorem join_proper {w : List (Segment Address MemoryPerms)} {p : MemoryPerms} (hp : p.Proper) :
    (w.foldl (fun p i => p.join i.value .kAnd) p).Proper := by
  induction w generalizing p with
  | nil => exact hp
  | cons i w ih => exact ih (hp.intersect i.value)

/-- `Perms` with `kAnd`: on a range with the same permissions throughout, these. -/
theorem perms_and (hm : m.Represents f) (h : start < limit) :
    ∃ p, m.perms start limit .kAnd = some p ∧ p.Proper ∧
      ∀ v, v.Proper → (∀ k, start ≤ k → k < limit → f k = some v) → p = v := by
  obtain ⟨w, c, run, hw, full⟩ := covers_run hm.separated h
    (fun (p : MemoryPerms) i => p.join i.value .kAnd) .allPlusMapped
  have proper : (w.foldl (fun p i => p.join i.value .kAnd) MemoryPerms.allPlusMapped).Proper :=
    join_proper (by decide)
  refine ⟨_, by simp only [perms, run]; rw [if_neg (not_le.mpr h)]; rfl, ?_, fun v hv same => ?_⟩
  · dsimp only
    split
    · exact proper
    · exact proper.intersect _
  · have all : ∀ k, start ≤ k → k < limit → ∃ s ∈ m.rep, s.start ≤ k ∧ k < s.limit :=
      fun k low high => (lookup_iff hm k).mpr (Option.isSome_of_mem (same k low high))
    obtain rfl := full.mpr all
    obtain ⟨i, inMap, first⟩ := all start le_rfl h
    have some : w ≠ [] := List.ne_nil_of_mem ((hw i).mpr ⟨inMap, first.2, first.1.trans_lt h⟩)
    refine join_const (fun i hi => ?_) hv.all_intersect some
    obtain ⟨him, low, high⟩ := (hw i).mp hi
    have lt := hm.separated.1 i him
    have at_i := hm.entry him (k := max start i.start) ⟨le_max_right _ _, max_lt low lt⟩
    rw [same _ (le_max_left _ _) (max_lt h high)] at at_i
    exact (Option.some.inj at_i).symm

theorem has_join (q : Permission) (p : MemoryPerms) (w : List (Segment Address MemoryPerms)) :
    (w.foldl (fun p i => p.join i.value .kAnd) p).has q = true ↔
      p.has q = true ∧ ∀ i ∈ w, i.value.has q = true := by
  induction w generalizing p with
  | nil => simp
  | cons i w ih =>
    rw [List.foldl_cons, ih, MemoryPerms.join, MemoryPerms.has_intersect, Bool.and_eq_true]
    simp only [List.mem_cons, forall_eq_or_imp, and_assoc]

/-- `Perms` with `kAnd` has a permission when every address of the range has it. -/
theorem perms_has (hm : m.Represents f) (h : start < limit) :
    ∃ p, m.perms start limit .kAnd = some p ∧ ∀ q : Permission, p.has q = true ↔
      ∀ k, start ≤ k → k < limit → ∃ v ∈ f k, v.has q = true := by
  obtain ⟨w, c, run, hw, full⟩ := covers_run hm.separated h
    (fun (p : MemoryPerms) i => p.join i.value .kAnd) .allPlusMapped
  refine ⟨_, by simp only [perms, run]; rw [if_neg (not_le.mpr h)]; rfl, fun q => ?_⟩
  have every : MemoryPerms.allPlusMapped.has q = true := by cases q <;> rfl
  constructor
  · intro has k low high
    obtain rfl : c = true := by
      by_contra missing
      rw [Bool.not_eq_true] at missing
      have nothing : MemoryPerms.none.has q = false := by cases q <;> rfl
      simp [missing, MemoryPerms.join, MemoryPerms.has_intersect, nothing] at has
    obtain ⟨i, him, inside⟩ := full.mp rfl k low high
    refine ⟨i.value, hm.entry him inside, ?_⟩
    exact ((has_join q _ w).mp has).2 i
      ((hw i).mpr ⟨him, low.trans_lt inside.2, inside.1.trans_lt high⟩)
  · intro each
    obtain rfl := full.mpr fun k low high => by
      obtain ⟨v, hv, _⟩ := each k low high
      exact (lookup_iff hm k).mpr (Option.isSome_of_mem hv)
    refine (has_join q _ w).mpr ⟨every, fun i hi => ?_⟩
    obtain ⟨him, low, high⟩ := (hw i).mp hi
    have lt := hm.separated.1 i him
    obtain ⟨v, hv, has⟩ := each (max start i.start) (le_max_left _ _) (max_lt h high)
    have at_i := hm.entry him (k := max start i.start) ⟨le_max_right _ _, max_lt low lt⟩
    obtain rfl : i.value = v := Option.some.inj (at_i.symm.trans hv)
    exact has

theorem hasSomeOf_join (q p : MemoryPerms) (w : List (Segment Address MemoryPerms)) :
    q.hasSomeOf (w.foldl (fun p i => p.join i.value .kOr) p) = false ↔
      q.hasSomeOf p = false ∧ ∀ i ∈ w, q.hasSomeOf i.value = false := by
  induction w generalizing p with
  | nil => simp
  | cons i w ih =>
    rw [List.foldl_cons, ih, MemoryPerms.join, MemoryPerms.hasSomeOf_add, Bool.or_eq_false_iff]
    simp only [List.mem_cons, forall_eq_or_imp, and_assoc]

/-- `Perms` with `kOr` has a permission when some address of the range has it. -/
theorem perms_or (hm : m.Represents f) (h : start < limit) :
    ∃ p, m.perms start limit .kOr = some p ∧ ∀ q : MemoryPerms, q.hasSomeOf p = false ↔
      ∀ k, start ≤ k → k < limit → ∀ v ∈ f k, q.hasSomeOf v = false := by
  obtain ⟨w, c, run, hw, -⟩ := covers_run hm.separated h
    (fun (p : MemoryPerms) i => p.join i.value .kOr) .none
  refine ⟨w.foldl (fun p i => p.join i.value .kOr) .none, ?_, fun q => ?_⟩
  · simp only [perms, run, if_neg (not_le.mpr h)]
    cases c <;> simp [MemoryPerms.join]
  · rw [hasSomeOf_join, MemoryPerms.hasSomeOf_none]
    simp only [true_and]
    constructor
    · intro free k low high v hv
      obtain ⟨i, hi, inside⟩ := (lookup_iff hm k).mpr (Option.isSome_of_mem hv)
      obtain rfl : i.value = v := Option.some.inj ((hm.entry hi inside).symm.trans hv)
      exact free i ((hw i).mpr ⟨hi, low.trans_lt inside.2, inside.1.trans_lt high⟩)
    · intro free i hi
      obtain ⟨him, low, high⟩ := (hw i).mp hi
      have lt := hm.separated.1 i him
      exact free (max start i.start) (le_max_left _ _) (max_lt h high) i.value
        (hm.entry him ⟨le_max_right _ _, max_lt low lt⟩)

/-- `Contains` of a range: every address of it is mapped. -/
theorem containsRange_eq (hm : m.Represents f) (h : start < limit) :
    ∃ b, m.containsRange start limit = some b ∧
      (b = true ↔ ∀ k, start ≤ k → k < limit → (f k).isSome) := by
  obtain ⟨w, c, run, -, full⟩ := covers_run hm.separated h (fun (_ : Unit) _ => ()) ()
  refine ⟨c, by simp only [containsRange, run]; rfl, ?_⟩
  simp only [full, lookup_iff hm]

/-- `Iterate` over a range: the values that it passes on are those of the addresses. -/
theorem iterate_values (hm : m.Represents f) (h : start < limit) :
    ∃ seen, m.iterate start limit = some seen ∧ ∀ v, (∀ i ∈ seen, i.value = v) ↔
      ∀ k, start ≤ k → k < limit → ∀ p ∈ f k, p = v := by
  obtain ⟨w, c, run, hw, -⟩ := covers_run hm.separated h (fun seen i => seen ++ [i]) []
  have passed : w.foldl (fun seen i => seen ++ [i]) [] = w := by
    rw [List.foldl_append_eq_append, ← List.flatMap_def, List.flatMap_singleton', List.nil_append]
  refine ⟨w, by rw [iterate, run, passed]; rfl, fun v => ⟨fun all k low high p hp => ?_,
    fun all i hi => ?_⟩⟩
  · obtain ⟨i, hi, inside⟩ := (lookup_iff hm k).mpr (Option.isSome_of_mem hp)
    obtain rfl : i.value = p := Option.some.inj ((hm.entry hi inside).symm.trans hp)
    exact all i ((hw i).mpr ⟨hi, low.trans_lt inside.2, inside.1.trans_lt high⟩)
  · obtain ⟨him, low, high⟩ := (hw i).mp hi
    have lt := hm.separated.1 i him
    exact all (max start i.start) (le_max_left _ _) (max_lt h high) i.value
      (hm.entry him ⟨le_max_right _ _, max_lt low lt⟩)

theorem Represents.unique {y : MappedMemoryMap} (hm : m.Represents f) (hy : y.Represents f) :
    m = y := by
  have same : m.rep = y.rep := Lawful.Represents.unique memoryPerms_extensional hm hy
  cases m
  cases y
  rw [MappedMemoryMap.mk.injEq]
  exact same

/-- A map changes at the ends of its entries, and only there. -/
theorem Represents.start_changes (hm : m.Represents f) {i : Segment Address MemoryPerms}
    (hi : i ∈ m.rep) {k : Address} (hk : k + 1 = i.start) : f k ≠ f (k + 1) := by
  intro same
  have first := hm.entry hi ⟨le_rfl, hm.separated.1 i hi⟩
  rw [← hk, ← same] at first
  obtain ⟨j, hj, low, high⟩ := (lookup_iff hm k).mpr (Option.isSome_of_mem first)
  have value : j.value = i.value := Option.some.inj ((hm.entry hj ⟨low, high⟩).symm.trans first)
  have touch : j.limit = i.start := by
    by_contra apart
    have := hm.separated.1 i hi
    have := hm.separated.unique hi hj (k := i.start) ⟨le_rfl, this⟩ ⟨by lia, by lia⟩
    subst this
    lia
  have := hm.canonical j hj i hi touch
  simp [memoryPermsMethods, value] at this

theorem Represents.limit_changes (hm : m.Represents f) {i : Segment Address MemoryPerms}
    (hi : i ∈ m.rep) {k : Address} (hk : k + 1 = i.limit) : f k ≠ f (k + 1) := by
  intro same
  have lt := hm.separated.1 i hi
  have last := hm.entry hi (k := k) ⟨by lia, by lia⟩
  rw [same] at last
  obtain ⟨j, hj, low, high⟩ := (lookup_iff hm (k + 1)).mpr (Option.isSome_of_mem last)
  have value : j.value = i.value := Option.some.inj ((hm.entry hj ⟨low, high⟩).symm.trans last)
  have touch : i.limit = j.start := by
    by_contra apart
    have := hm.separated.unique hi hj (k := k) ⟨by lia, by lia⟩ ⟨by lia, by lia⟩
    subst this
    lia
  have := hm.canonical i hi j hj touch
  simp [memoryPermsMethods, value] at this

end MappedMemoryMap

end Silifuzz
