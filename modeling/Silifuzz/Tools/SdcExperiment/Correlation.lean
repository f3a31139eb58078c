import Mathlib.Data.List.FinRange
import Mathlib.Data.List.Nodup
import Mathlib.Data.List.Sort
import Mathlib.Data.Rat.Defs
import Mathlib.Algebra.BigOperators.Group.List.Basic
import Mathlib.Algebra.Order.Field.Rat
import Mathlib.Tactic.Ring
import Mathlib.Tactic.Linarith
import Mathlib.Tactic.FieldSimp

/-!
# Ranks

`_rank` of `tools/sdc_experiment/correlation.py`, and that it gives the mid-ranks of a list.
The averages are rational numbers.
-/

namespace Silifuzz.SdcExperiment.Correlation

variable {α : Type} [LinearOrder α]

/-- The inner `while`: the last position behind `j` up to which all are the same. -/
def groupEnd (same : Nat → Bool) (len j : Nat) : Nat :=
  if j + 1 < len ∧ same (j + 1) = true then groupEnd same len (j + 1) else j
termination_by len - j

theorem le_groupEnd (same : Nat → Bool) (len j : Nat) : j ≤ groupEnd same len j := by
  induction j using groupEnd.induct same len with
  | case1 j next ih =>
    rw [groupEnd, if_pos next]
    omega
  | case2 j next =>
    rw [groupEnd, if_neg next]

/-- The `for`: `ranks[p] = avg` for the places of a group. -/
def fill {n : Nat} (ranks : List Rat) (places : List (Fin n)) (avg : Rat) : List Rat :=
  places.foldl (fun ranks (p : Fin n) => ranks.set p.val avg) ranks

/-- The outer `while`. -/
def rankLoop (xs : List α) (order : List (Fin xs.length)) (i : Nat) (ranks : List Rat) :
    List Rat :=
  if h : i < order.length then
    let same k := decide ((order[k]?.map fun p => xs[p]) = some xs[order[i]])
    let j := groupEnd same order.length i
    let avg : Rat := ((i : Rat) + j) / 2 + 1
    rankLoop xs order (j + 1) (fill ranks ((order.drop i).take (j + 1 - i)) avg)
  else ranks
termination_by order.length - i
decreasing_by
  have := le_groupEnd (fun k => decide ((order[k]?.map fun p => xs[p]) = some xs[order[i]]))
    order.length i
  omega

/-- `sorted(range(len(xs)), key=lambda i: xs[i])` -/
def sortedOrder (xs : List α) : List (Fin xs.length) :=
  (List.finRange xs.length).mergeSort fun p q => decide (xs[p] ≤ xs[q])

/-- `_rank` -/
def rank (xs : List α) : List Rat :=
  rankLoop xs (sortedOrder xs) 0 (List.replicate xs.length 0)

/-- The number of smaller values, and half of one more than the number of equal ones. -/
def midrank (xs : List α) (x : α) : Rat :=
  (xs.countP (· < x) : Rat) + ((xs.countP (· = x) : Rat) + 1) / 2

/-! ## The groups -/

theorem groupEnd_lt {same : Nat → Bool} {len j : Nat} (inside : j < len) :
    groupEnd same len j < len := by
  induction j using groupEnd.induct same len with
  | case1 j next ih =>
    rw [groupEnd, if_pos next]
    exact ih next.1
  | case2 j next =>
    rw [groupEnd, if_neg next]
    exact inside

theorem groupEnd_same {same : Nat → Bool} {len j : Nat} {k : Nat} (after : j < k)
    (upTo : k ≤ groupEnd same len j) : same k = true := by
  induction j using groupEnd.induct same len with
  | case1 j next ih =>
    rw [groupEnd, if_pos next] at upTo
    by_cases first : k = j + 1
    · rw [first]
      exact next.2
    · exact ih (by omega) upTo
  | case2 j next =>
    rw [groupEnd, if_neg next] at upTo
    omega

theorem groupEnd_next {same : Nat → Bool} {len j : Nat}
    (inside : groupEnd same len j + 1 < len) : same (groupEnd same len j + 1) = false := by
  induction j using groupEnd.induct same len with
  | case1 j next ih =>
    rw [groupEnd, if_pos next] at inside ⊢
    exact ih inside
  | case2 j next =>
    rw [groupEnd, if_neg next] at inside ⊢
    have other : same (j + 1) ≠ true := fun same => next ⟨inside, same⟩
    exact Bool.eq_false_iff.mpr other

/-! ## The order -/

theorem sortedOrder_perm (xs : List α) : (sortedOrder xs).Perm (List.finRange xs.length) :=
  List.mergeSort_perm _ _

theorem sortedOrder_nodup (xs : List α) : (sortedOrder xs).Nodup :=
  (sortedOrder_perm xs).nodup_iff.mpr (List.nodup_finRange _)

theorem sortedOrder_values (xs : List α) : ((sortedOrder xs).map fun p => xs[p]).Perm xs := by
  have all : (List.finRange xs.length).map (fun p => xs[p]) = xs := List.map_get_finRange xs
  have perm := (sortedOrder_perm xs).map fun p => xs[p]
  rw [all] at perm
  exact perm

theorem sortedOrder_sorted (xs : List α) :
    (sortedOrder xs).Pairwise fun p q => xs[p] ≤ xs[q] := by
  have sorted : (sortedOrder xs).Pairwise fun p q => decide (xs[p] ≤ xs[q]) = true := by
    apply List.pairwise_mergeSort
    · intro p q r pq qr
      simp only [decide_eq_true_eq] at pq qr ⊢
      exact pq.trans qr
    · intro p q
      simp only [Bool.or_eq_true, decide_eq_true_eq]
      exact le_total _ _
  exact sorted.imp fun le => decide_eq_true_eq.mp le

theorem order_mono {xs : List α} {order : List (Fin xs.length)}
    (sorted : order.Pairwise fun p q => xs[p] ≤ xs[q]) {i j : Nat} (hi : i < order.length)
    (hj : j < order.length) (le : i ≤ j) : xs[order[i]] ≤ xs[order[j]] := by
  rcases Nat.lt_or_eq_of_le le with lt | rfl
  · exact List.pairwise_iff_getElem.mp sorted i j hi hj lt
  · exact le_refl _

/-- A value between the smaller ones before it and the greater ones behind it. -/
theorem midrank_of_split {xs : List α} {before group after : List (Fin xs.length)} {v : α}
    (perm : ((before ++ group ++ after).map fun p => xs[p]).Perm xs)
    (less : ∀ p ∈ before, xs[p] < v) (equal : ∀ p ∈ group, xs[p] = v)
    (more : ∀ p ∈ after, v < xs[p]) :
    midrank xs v = before.length + ((group.length : Rat) + 1) / 2 := by
  have smaller : xs.countP (· < v) = before.length := by
    rw [← perm.countP_eq, List.countP_map, List.countP_append, List.countP_append,
      List.countP_eq_length.mpr fun p mem => by simpa using less p mem,
      List.countP_eq_zero.mpr fun p mem => by simpa using (equal p mem).ge,
      List.countP_eq_zero.mpr fun p mem => by simpa using (more p mem).le]
    omega
  have same : xs.countP (· = v) = group.length := by
    rw [← perm.countP_eq, List.countP_map, List.countP_append, List.countP_append,
      List.countP_eq_zero.mpr fun p mem => by simpa using (less p mem).ne,
      List.countP_eq_length.mpr fun p mem => by simpa using equal p mem,
      List.countP_eq_zero.mpr fun p mem => by simpa using (more p mem).ne']
    omega
  rw [midrank, smaller, same]

/-! ## The loop -/

theorem length_fill {n : Nat} (places : List (Fin n)) (avg : Rat) (ranks : List Rat) :
    (fill ranks places avg).length = ranks.length := by
  induction places generalizing ranks with
  | nil => rfl
  | cons p places ih => exact (ih _).trans List.length_set

theorem fill_other {n : Nat} {places : List (Fin n)} {avg : Rat} {ranks : List Rat} {p : Fin n}
    (other : p ∉ places) :
    (fill ranks places avg)[p.val]? = ranks[p.val]? := by
  induction places generalizing ranks with
  | nil => rfl
  | cons q places ih =>
    rw [List.mem_cons, not_or] at other
    refine (@ih (ranks.set q.val avg) other.2).trans ?_
    exact List.getElem?_set_ne fun same => other.1 (Fin.ext same.symm)

theorem fill_place {n : Nat} {places : List (Fin n)} {avg : Rat} {ranks : List Rat} {p : Fin n}
    (length : ranks.length = n) (mem : p ∈ places) :
    (fill ranks places avg)[p.val]? = some avg := by
  induction places generalizing ranks with
  | nil => cases mem
  | cons q places ih =>
    by_cases later : p ∈ places
    · exact @ih (ranks.set q.val avg) (by rw [List.length_set, length]) later
    · have here : p = q := (List.mem_cons.mp mem).resolve_right later
      refine (@fill_other _ places avg (ranks.set q.val avg) p later).trans ?_
      rw [here, List.getElem?_set_self (by rw [length]; exact q.isLt)]

/-- The loop gives the places behind `i` their mid-ranks, where all values before `i` are
smaller than those behind. -/
theorem rankLoop_spec {xs : List α} {order : List (Fin xs.length)}
    (perm : (order.map fun p => xs[p]).Perm xs) (nodup : order.Nodup)
    (sorted : order.Pairwise fun p q => xs[p] ≤ xs[q]) (i : Nat) (ranks : List Rat)
    (length : ranks.length = xs.length)
    (boundary : ∀ p ∈ order.take i, ∀ q ∈ order.drop i, xs[p] < xs[q]) :
    (rankLoop xs order i ranks).length = xs.length ∧
      (∀ p : Fin xs.length, p ∉ order.drop i →
        (rankLoop xs order i ranks)[p.val]? = ranks[p.val]?) ∧
      ∀ p ∈ order.drop i, (rankLoop xs order i ranks)[p.val]? = some (midrank xs xs[p]) := by
  induction i, ranks using rankLoop.induct xs order with
  | case1 i ranks inside same j avg ih =>
    rw [rankLoop, dif_pos inside]
    have low : i ≤ j := le_groupEnd same order.length i
    have high : j < order.length := groupEnd_lt inside
    have split : order.drop i = (order.drop i).take (j + 1 - i) ++ order.drop (j + 1) := by
      have rest : order.drop (j + 1) = (order.drop i).drop (j + 1 - i) := by
        rw [List.drop_drop]
        congr 1
        omega
      rw [rest, List.take_append_drop]
    have inGroup : ∀ p ∈ (order.drop i).take (j + 1 - i), xs[p] = xs[order[i]] := by
      intro p mem
      obtain ⟨k, hk, rfl⟩ := List.mem_iff_getElem.mp mem
      rw [List.length_take, List.length_drop] at hk
      rw [List.getElem_take, List.getElem_drop]
      by_cases first : k = 0
      · subst first
        rfl
      · have same' := @groupEnd_same same order.length i (i + k)
          (by omega) (by omega)
        rw [decide_eq_true_eq, List.getElem?_eq_getElem (by omega), Option.map_some] at same'
        exact Option.some.inj same'
    have behind : ∀ p ∈ order.drop (j + 1), xs[order[i]] < xs[p] := by
      intro p mem
      obtain ⟨k, hk, rfl⟩ := List.mem_iff_getElem.mp mem
      rw [List.length_drop] at hk
      rw [List.getElem_drop]
      have next := @groupEnd_next same order.length i (by omega)
      rw [decide_eq_false_iff_not, List.getElem?_eq_getElem (by omega), Option.map_some,
        Option.some_inj] at next
      have le := order_mono sorted inside (j := j + 1) (by omega) (by omega)
      have le' := order_mono sorted (i := j + 1) (j := j + 1 + k) (by omega) (by omega)
        (by omega)
      exact (lt_of_le_of_ne le (Ne.symm next)).trans_le le'
    have before : ∀ p ∈ order.take i, xs[p] < xs[order[i]] := by
      intro p mem
      apply boundary p mem
      exact List.mem_iff_getElem.mpr ⟨0, by rw [List.length_drop]; omega, by simp⟩
    have place : midrank xs xs[order[i]] = avg := by
      have whole : order = order.take i ++ (order.drop i).take (j + 1 - i) ++
          order.drop (j + 1) := by
        rw [List.append_assoc, ← split, List.take_append_drop]
      have parts := perm
      rw [whole] at parts
      rw [midrank_of_split parts before inGroup behind, List.length_take, List.length_take,
        List.length_drop, Nat.min_eq_left (by omega), Nat.min_eq_left (by omega),
        Nat.cast_sub (by omega)]
      push_cast
      ring
    obtain ⟨length', other, done⟩ := ih (by rw [length_fill, length]) (by
      intro p hp q hq
      have earlier : p ∈ order.take i ∨ p ∈ (order.drop i).take (j + 1 - i) := by
        have cut : order.take (j + 1) = order.take i ++ (order.drop i).take (j + 1 - i) := by
          rw [← List.take_add]
          congr 1
          omega
        rw [cut] at hp
        exact List.mem_append.mp hp
      rcases earlier with old | new
      · exact (before p old).trans (behind q hq)
      · rw [inGroup p new]
        exact behind q hq)
    refine ⟨length', ?_, ?_⟩
    · intro p outside
      rw [split, List.mem_append, not_or] at outside
      rw [other p outside.2, fill_other outside.1]
    · intro p mem
      rw [split, List.mem_append] at mem
      rcases mem with group | later
      · have fresh : p ∉ order.drop (j + 1) := by
          have parts := nodup.sublist (List.drop_sublist i order)
          rw [split] at parts
          exact (List.disjoint_of_nodup_append parts) group
        rw [other p fresh, fill_place length group, inGroup p group, place]
      · exact done p later
  | case2 i ranks outside =>
    rw [rankLoop, dif_neg outside]
    have none : order.drop i = [] := List.drop_eq_nil_of_le (by omega)
    rw [none]
    exact ⟨length, fun _ _ => rfl, fun _ mem => nomatch mem⟩

/-! ## What the ranks are -/

theorem rank_eq (xs : List α) : rank xs = xs.map (midrank xs) := by
  have perm := sortedOrder_perm xs
  obtain ⟨length, _, done⟩ := rankLoop_spec (sortedOrder_values xs) (sortedOrder_nodup xs)
    (sortedOrder_sorted xs) 0 (List.replicate xs.length 0) List.length_replicate
    (fun p mem => by simp at mem)
  apply List.ext_getElem?
  intro p
  rw [List.getElem?_map]
  by_cases inside : p < xs.length
  · rw [List.getElem?_eq_getElem inside, Option.map_some]
    exact done ⟨p, inside⟩ (perm.mem_iff.mpr (List.mem_finRange _))
  · have short : (rank xs).length ≤ p := length.le.trans (Nat.le_of_not_lt inside)
    rw [List.getElem?_eq_none short, List.getElem?_eq_none (Nat.le_of_not_lt inside)]
    rfl

/-- The rank at a position. -/
def rankAt (xs : List α) (p : Nat) : Rat := (rank xs).getD p 0

theorem rankAt_eq {xs : List α} (p : Fin xs.length) : rankAt xs p = midrank xs xs[p] := by
  have found : (rank xs)[p.val]? = some (midrank xs xs[p]) := by
    rw [rank_eq, List.getElem?_map, List.getElem?_eq_getElem p.isLt]
    rfl
  rw [rankAt, List.getD_eq_getElem?_getD, found, Option.getD_some]

/-- The equal values of `x` are all below a greater value. -/
theorem midrank_lt {xs : List α} {x y : α} (mem : y ∈ xs) (lt : x < y) :
    midrank xs x < midrank xs y := by
  have below : xs.countP (· < x) + xs.countP (· = x) ≤ xs.countP (· < y) := by
    clear mem
    induction xs with
    | nil => exact le_refl 0
    | cons z xs ih =>
      simp only [List.countP_cons]
      rcases lt_trichotomy z x with less | equal | more
      · simp [less, less.ne, less.trans lt]
        omega
      · simp [equal, lt]
        omega
      · simp [more.not_gt, more.ne']
        omega
  have one : 1 ≤ xs.countP (· = y) := List.countP_pos_iff.mpr ⟨y, mem, by simp⟩
  have below' : (xs.countP (· < x) : Rat) + xs.countP (· = x) ≤ xs.countP (· < y) := by
    exact_mod_cast below
  have one' : (1 : Rat) ≤ xs.countP (· = y) := by exact_mod_cast one
  have none : (0 : Rat) ≤ xs.countP (· = x) := Nat.cast_nonneg _
  unfold midrank
  linarith

theorem midrank_lt_iff {xs : List α} {x y : α} (hx : x ∈ xs) (hy : y ∈ xs) :
    x < y ↔ midrank xs x < midrank xs y := by
  constructor
  · exact midrank_lt hy
  · intro lt
    rcases lt_trichotomy x y with less | equal | more
    · exact less
    · rw [equal] at lt
      exact absurd lt (lt_irrefl _)
    · exact absurd (lt.trans (midrank_lt hx more)) (lt_irrefl _)

theorem midrank_perm {xs ys : List α} (perm : ys.Perm xs) : midrank ys = midrank xs := by
  funext x
  rw [midrank, midrank, perm.countP_eq, perm.countP_eq]

/-- Each pair of values is counted once on either side. -/
theorem sum_countP_swap (xs ys : List α) :
    (xs.map fun x => ys.countP (· < x)).sum = (ys.map fun y => xs.countP (y < ·)).sum := by
  induction xs with
  | nil => simp
  | cons x xs ih =>
    rw [List.map_cons, List.sum_cons, ih]
    clear ih
    induction ys with
    | nil => rfl
    | cons y ys ih' =>
      simp only [List.countP_cons, List.map_cons, List.sum_cons] at ih' ⊢
      by_cases lt : y < x
      · simp only [lt, decide_true, if_true]
        omega
      · simp only [lt, decide_false, Bool.false_eq_true, if_false]
        omega

theorem countP_total (xs : List α) (x : α) :
    xs.countP (· < x) + xs.countP (· = x) + xs.countP (x < ·) = xs.length := by
  induction xs with
  | nil => rfl
  | cons z xs ih =>
    simp only [List.countP_cons, List.length_cons]
    rcases lt_trichotomy z x with less | equal | more
    · simp [less, less.ne, less.not_gt]
      omega
    · simp [equal]
      omega
    · simp [more.not_gt, more.ne', more]
      omega

theorem sum_midrank (xs : List α) :
    (xs.map (midrank xs)).sum = (xs.length : Rat) * (xs.length + 1) / 2 := by
  have ranks (l : List α) : (l.map (midrank xs)).sum =
      ((l.map fun x => xs.countP (· < x)).sum : Nat) +
        (((l.map fun x => xs.countP (· = x)).sum : Nat) + (l.length : Rat)) / 2 := by
    induction l with
    | nil => simp
    | cons x l ih =>
      simp only [List.map_cons, List.sum_cons, List.length_cons]
      rw [ih, midrank]
      push_cast
      ring
  have pairs (l : List α) : (l.map fun x => xs.countP (· < x)).sum +
      (l.map fun x => xs.countP (· = x)).sum + (l.map fun x => xs.countP (x < ·)).sum =
        l.length * xs.length := by
    induction l with
    | nil => simp
    | cons x l ih =>
      have total := countP_total xs x
      simp only [List.map_cons, List.sum_cons, List.length_cons, Nat.add_mul]
      omega
  have both := pairs xs
  rw [← sum_countP_swap xs xs] at both
  have both' : (2 : Rat) * ((xs.map fun x => xs.countP (· < x)).sum : Nat) +
      ((xs.map fun x => xs.countP (· = x)).sum : Nat) = xs.length * xs.length := by
    rw [← Nat.cast_mul, ← both]
    push_cast
    ring
  rw [ranks]
  linarith

/-- **The ranks are the mid-ranks of the values, in their order; equal values have equal ranks;
they sum up to those of different values, and move with the values.** -/
theorem rank_midranks (xs : List α) :
    rank xs = xs.map (midrank xs) ∧
      (∀ p q : Fin xs.length, xs[p] < xs[q] ↔ rankAt xs p < rankAt xs q) ∧
      (∀ p q : Fin xs.length, xs[p] = xs[q] ↔ rankAt xs p = rankAt xs q) ∧
      (rank xs).sum = (xs.length : Rat) * (xs.length + 1) / 2 ∧
      ∀ places : List (Fin xs.length), places.Perm (List.finRange xs.length) →
        rank (places.map fun p => xs[p]) =
          places.map fun (p : Fin xs.length) => rankAt xs p := by
  have mono (p q : Fin xs.length) : xs[p] < xs[q] ↔ rankAt xs p < rankAt xs q := by
    rw [rankAt_eq, rankAt_eq]
    exact midrank_lt_iff (List.getElem_mem _) (List.getElem_mem _)
  refine ⟨rank_eq xs, mono, ?_, ?_, ?_⟩
  · intro p q
    constructor
    · intro same
      rw [rankAt_eq, rankAt_eq, same]
    · intro same
      apply le_antisymm
      · exact not_lt.mp fun lt => absurd ((mono q p).mp lt) same.not_gt
      · exact not_lt.mp fun lt => absurd ((mono p q).mp lt) same.not_lt
  · rw [rank_eq]
    exact sum_midrank xs
  · intro places perm
    have values : (places.map fun p => xs[p]).Perm xs := by
      have moved := perm.map fun p => xs[p]
      rw [show (List.finRange xs.length).map (fun p => xs[p]) = xs from
        List.map_get_finRange xs] at moved
      exact moved
    rw [rank_eq, midrank_perm values, List.map_map]
    apply List.map_congr_left
    intro p _
    exact (rankAt_eq p).symm

end Silifuzz.SdcExperiment.Correlation
