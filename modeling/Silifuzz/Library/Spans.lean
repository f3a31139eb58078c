import Mathlib.Algebra.GroupWithZero.Nat
import Mathlib.Algebra.BigOperators.Group.List.Basic

/-!
# Spans

Consecutive ranges of indices with given lengths. They lie one behind the other, and every
index up to their end is in one of them.
-/

namespace Spans

/-- The ranges with these lengths, the first one from `offset` on. -/
def spans : Nat → List Nat → List (Nat × Nat)
  | _, [] => []
  | offset, length :: lengths => (offset, offset + length) :: spans (offset + length) lengths

variable {offset : Nat} {lengths : List Nat}

@[simp] theorem length_spans : (spans offset lengths).length = lengths.length := by
  induction lengths generalizing offset with
  | nil => rfl
  | cons length lengths ih => simp [spans, ih]

theorem spans_bounds {span : Nat × Nat} (h : span ∈ spans offset lengths) :
    offset ≤ span.1 ∧ span.1 ≤ span.2 ∧ span.2 ≤ offset + lengths.sum := by
  induction lengths generalizing offset with
  | nil => cases h
  | cons length lengths ih =>
    rw [List.sum_cons]
    rcases List.mem_cons.mp h with rfl | later
    · dsimp only
      omega
    · have := ih later
      omega

theorem spans_ordered : (spans offset lengths).Pairwise fun a b => a.2 ≤ b.1 := by
  induction lengths generalizing offset with
  | nil => exact .nil
  | cons length lengths ih => exact .cons (fun b hb => (spans_bounds hb).1) ih

/-- Every index of the whole is in one of the ranges. -/
theorem spans_cover {j : Nat} (low : offset ≤ j) (high : j < offset + lengths.sum) :
    ∃ (i : Nat) (span : Nat × Nat), (spans offset lengths)[i]? = some span ∧
      span.1 ≤ j ∧ j < span.2 := by
  induction lengths generalizing offset with
  | nil =>
    rw [List.sum_nil] at high
    omega
  | cons length lengths ih =>
    rw [List.sum_cons] at high
    by_cases first : j < offset + length
    · exact ⟨0, _, rfl, low, first⟩
    · obtain ⟨i, span, at_i, inside⟩ := ih (by omega : offset + length ≤ j) (by omega)
      exact ⟨i + 1, span, at_i, inside⟩

theorem spans_length {i : Nat} {span : Nat × Nat} (h : (spans offset lengths)[i]? = some span) :
    lengths[i]? = some (span.2 - span.1) := by
  induction lengths generalizing offset i with
  | nil => cases h
  | cons length lengths ih =>
    cases i with
    | zero =>
      obtain rfl := Option.some.inj h
      simp
    | succ i => exact ih h

/-- Two ranges share no index. -/
theorem spans_apart {i i' : Nat} {span span' : Nat × Nat}
    (h : (spans offset lengths)[i]? = some span) (h' : (spans offset lengths)[i']? = some span')
    {j : Nat} (inside : span.1 ≤ j ∧ j < span.2) (inside' : span'.1 ≤ j ∧ j < span'.2) :
    i = i' := by
  obtain ⟨bound, rfl⟩ := List.getElem?_eq_some_iff.mp h
  obtain ⟨bound', rfl⟩ := List.getElem?_eq_some_iff.mp h'
  have ordered := List.pairwise_iff_getElem.mp (@spans_ordered offset lengths)
  rcases Nat.lt_trichotomy i i' with before | same | after
  · have := ordered i i' bound bound' before
    omega
  · exact same
  · have := ordered i' i bound' bound after
    omega

end Spans
