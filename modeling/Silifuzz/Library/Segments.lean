import Mathlib.Order.Lattice
import Mathlib.Data.List.Basic
import Mathlib.Tactic.Order

/-!
# Lists of half-open segments

A finite map over a linear order is often kept as a list of half-open segments
`[start, limit) ↦ value`. What such a list says at one key is `lookup`:

* `Separated`: the segments are non-empty and come in order, without overlap;
* `lookup_append`, `lookup_none`, `lookup_mem`: how a key is looked up in the
  pieces of a list, so that a list can be rewritten piece by piece;
* `Separated.split`: the entries before a range of keys, those it overlaps and
  those after it, which is what a search by key finds (`findIdx_append`).
-/

namespace Segments

variable {K V β : Type}

structure Segment (K V : Type) where
  start : K
  limit : K
  value : V
  deriving DecidableEq, Repr

section
variable [LinearOrder K]

/-- The segment holds the key `k`. -/
def Segment.covers (s : Segment K V) (k : K) : Bool := decide (s.start ≤ k) && decide (k < s.limit)

@[simp] theorem covers_iff (s : Segment K V) (k : K) :
    s.covers k = true ↔ s.start ≤ k ∧ k < s.limit := by simp [Segment.covers]

/-- Non-empty segments in order, none reaching into the next. -/
def Separated (m : List (Segment K V)) : Prop :=
  (∀ s ∈ m, s.start < s.limit) ∧ m.Pairwise fun a b => a.limit ≤ b.start

/-- What the list says at `k`, reading a segment's value at a key with `view`. -/
def lookup (view : K → K → V → K → β) (m : List (Segment K V)) (k : K) : Option β :=
  (m.find? (·.covers k)).map fun s => view s.start s.limit s.value k

theorem Separated.nil : Separated ([] : List (Segment K V)) := ⟨by simp, List.Pairwise.nil⟩

theorem separated_singleton {s : Segment K V} : Separated [s] ↔ s.start < s.limit := by
  simp [Separated]

theorem separated_cons {s : Segment K V} {m : List (Segment K V)} :
    Separated (s :: m) ↔ s.start < s.limit ∧ (∀ t ∈ m, s.limit ≤ t.start) ∧ Separated m := by
  simp only [Separated, List.mem_cons, forall_eq_or_imp, List.pairwise_cons]
  tauto

theorem separated_append {a b : List (Segment K V)} :
    Separated (a ++ b) ↔ Separated a ∧ Separated b ∧ ∀ s ∈ a, ∀ t ∈ b, s.limit ≤ t.start := by
  simp only [Separated, List.mem_append, List.pairwise_append]
  grind

/-- Of two segments, one is before the other. -/
theorem Separated.ordered {m : List (Segment K V)} (h : Separated m) {s t : Segment K V}
    (hs : s ∈ m) (ht : t ∈ m) : s = t ∨ s.limit ≤ t.start ∨ t.limit ≤ s.start := by
  induction m with
  | nil => cases hs
  | cons u m ih =>
    obtain ⟨-, after, rest⟩ := separated_cons.mp h
    rcases List.mem_cons.mp hs with eq | inS <;> rcases List.mem_cons.mp ht with eq' | inT
    · exact .inl (eq.trans eq'.symm)
    · exact .inr (.inl (eq ▸ after t inT))
    · exact .inr (.inr (eq' ▸ after s inS))
    · exact ih rest inS inT

variable {view : K → K → V → K → β}

@[simp] theorem lookup_nil (k : K) : lookup view ([] : List (Segment K V)) k = none := rfl

theorem lookup_cons (s : Segment K V) (m : List (Segment K V)) (k : K) :
    lookup view (s :: m) k =
      if s.start ≤ k ∧ k < s.limit then some (view s.start s.limit s.value k)
      else lookup view m k := by
  simp only [lookup, List.find?_cons]
  by_cases h : s.start ≤ k ∧ k < s.limit
  · simp [Segment.covers, h]
  · have : s.covers k = false := by simpa [Segment.covers] using h
    simp [h, this]

theorem lookup_append (a b : List (Segment K V)) (k : K) :
    lookup view (a ++ b) k = (lookup view a k).or (lookup view b k) := by
  induction a with
  | nil => simp
  | cons s a ih => rw [List.cons_append, lookup_cons, lookup_cons, ih]; split <;> simp

/-- A key no segment holds is not in the map. -/
theorem lookup_none {m : List (Segment K V)} {k : K}
    (h : ∀ s ∈ m, ¬ (s.start ≤ k ∧ k < s.limit)) : lookup view m k = none := by
  simp only [lookup, Option.map_eq_none_iff, List.find?_eq_none, covers_iff]
  exact h

theorem lookup_none_iff {m : List (Segment K V)} {k : K} :
    lookup view m k = none ↔ ∀ s ∈ m, ¬ (s.start ≤ k ∧ k < s.limit) := by
  simp only [lookup, Option.map_eq_none_iff, List.find?_eq_none, covers_iff]

/-- Every segment of a separated list is the one found at each of its keys. -/
theorem lookup_mem {m : List (Segment K V)} (hm : Separated m) {s : Segment K V} (hs : s ∈ m)
    {k : K} (h : s.start ≤ k ∧ k < s.limit) :
    lookup view m k = some (view s.start s.limit s.value k) := by
  induction m with
  | nil => simp at hs
  | cons t m ih =>
    obtain ⟨_, after, hm⟩ := separated_cons.mp hm
    rcases List.mem_cons.mp hs with rfl | hs
    · rw [lookup_cons, if_pos h]
    · have := after s hs
      rw [lookup_cons, if_neg (by rintro ⟨_, hk⟩; order), ih hm hs]

/-- At most one segment of a separated list holds a key. -/
theorem Separated.unique {m : List (Segment K V)} (hm : Separated m) {s t : Segment K V}
    (hs : s ∈ m) (ht : t ∈ m) {k : K} (hks : s.start ≤ k ∧ k < s.limit)
    (hkt : t.start ≤ k ∧ k < t.limit) : s = t := by
  have found : lookup (fun start limit v _ => (start, limit, v)) m k =
      some (s.start, s.limit, s.value) := lookup_mem hm hs hks
  have same := found.symm.trans (lookup_mem hm ht hkt)
  cases s
  cases t
  simpa using same

theorem lookup_some {m : List (Segment K V)} {k : K} {b : β} (h : lookup view m k = some b) :
    ∃ s ∈ m, (s.start ≤ k ∧ k < s.limit) ∧ b = view s.start s.limit s.value k := by
  simp only [lookup, Option.map_eq_some_iff] at h
  obtain ⟨s, found, rfl⟩ := h
  exact ⟨s, List.mem_of_find?_eq_some found, by simpa using List.find?_some found, rfl⟩

/-- Every segment ends by `k`, so the list says nothing there. -/
theorem lookup_before {m : List (Segment K V)} {k : K} (h : ∀ s ∈ m, s.limit ≤ k) :
    lookup view m k = none :=
  lookup_none fun s hs hk => by have := h s hs; order

/-- Every segment starts after `k`, so the list says nothing there. -/
theorem lookup_after {m : List (Segment K V)} {k : K} (h : ∀ s ∈ m, k < s.start) :
    lookup view m k = none :=
  lookup_none fun s hs hk => by have := h s hs; order

/-- A predicate that stays true along the list cuts it in two. -/
theorem exists_cut {α : Type} (p : α → Prop) {m : List α} (h : m.Pairwise fun a b => p a → p b) :
    ∃ a b, m = a ++ b ∧ (∀ x ∈ a, ¬ p x) ∧ ∀ x ∈ b, p x := by
  induction m with
  | nil => exact ⟨[], [], rfl, by simp, by simp⟩
  | cons x m ih =>
    obtain ⟨later, h⟩ := List.pairwise_cons.mp h
    by_cases hx : p x
    · exact ⟨[], x :: m, rfl, by simp, by simpa [hx] using fun y hy => later y hy hx⟩
    · obtain ⟨a, b, rfl, ha, hb⟩ := ih h
      exact ⟨x :: a, b, rfl, by simpa [hx] using ha, hb⟩

theorem findIdx_append {α : Type} {p : α → Bool} {a b : List α} (ha : ∀ x ∈ a, p x = false)
    (hb : ∀ x ∈ b, p x = true) : (a ++ b).findIdx p = a.length := by
  induction a with
  | nil =>
    cases b with
    | nil => rfl
    | cons y b => simp [List.findIdx_cons, hb y (by simp)]
  | cons x a ih =>
    rw [List.cons_append, List.findIdx_cons, ha x (by simp),
      ih fun y hy => ha y (List.mem_cons_of_mem _ hy)]
    rfl

/-- The entries before `[start, limit)`, those overlapping it, and those after. -/
structure Split (start limit : K) (a w b : List (Segment K V)) : Prop where
  before : ∀ s ∈ a, s.limit ≤ start
  within : ∀ s ∈ w, start < s.limit ∧ s.start < limit
  after : ∀ s ∈ b, limit ≤ s.start

theorem Separated.split {m : List (Segment K V)} (hm : Separated m) (start limit : K) :
    ∃ a w b, m = a ++ (w ++ b) ∧ Split start limit a w b := by
  obtain ⟨a, r, rfl, ha, hr⟩ := exists_cut (m := m) (fun s => start < s.limit) <| by
    refine hm.2.imp_of_mem fun {x y} hx hy hxy hs => ?_
    have := hm.1 y hy
    order
  obtain ⟨_, hm, _⟩ := separated_append.mp hm
  obtain ⟨w, b, rfl, hw, hb⟩ := exists_cut (m := r) (fun s => limit ≤ s.start) <| by
    refine hm.2.imp_of_mem fun {x y} hx hy hxy hs => ?_
    have := hm.1 x hx
    order
  refine ⟨a, w, b, rfl, fun s hs => not_lt.mp (ha s hs), fun s hs => ?_, hb⟩
  exact ⟨hr s (List.mem_append_left _ hs), not_le.mp (hw s hs)⟩

end

end Segments
