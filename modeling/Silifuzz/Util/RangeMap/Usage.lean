import Silifuzz.Library.Loops
import Silifuzz.Util.RangeMap
import Mathlib.Tactic.Linarith
import Mathlib.Algebra.BigOperators.Group.List.Basic

/-!
# Usage

What every operation adds to `*usage` is `Usage()` after it less `Usage()` before it,
whatever `Methods::Usage` is: each record that an operation puts into the map is added
once, and each that it takes out is subtracted once.
-/

namespace Silifuzz

open Segments Loops

namespace RangeMap

variable {K V : Type} [LinearOrder K] {M : Methods K V}

section
omit [LinearOrder K]

@[simp] theorem usageOf_nil : usageOf M [] = 0 := rfl

@[simp] theorem usageOf_cons (i : Segment K V) (m : RangeMap K V) :
    usageOf M (i :: m) = M.usage i + usageOf M m := by
  simp [usageOf]

@[simp] theorem usageOf_append (a b : RangeMap K V) :
    usageOf M (a ++ b) = usageOf M a + usageOf M b := by
  simp [usageOf]

/-- The map around a part of it. -/
theorem usageOf_around (m : RangeMap K V) {first second : Nat} (h : first ≤ second) :
    usageOf M m =
      usageOf M (m.take first) + usageOf M (range m (first, second)) + usageOf M (m.drop second) := by
  have front : m.take first = (m.take second).take first := by
    rw [List.take_take, min_eq_left h]
  rw [range, front, ← usageOf_append, List.take_append_drop, ← usageOf_append,
    List.take_append_drop]

end

theorem mergeLoop_usage (prev : Segment K V) (rest : RangeMap K V) :
    usageOf M (prev :: rest) + (mergeLoop M prev rest).2 = usageOf M (mergeLoop M prev rest).1 := by
  induction rest generalizing prev with
  | nil => simp [mergeLoop]
  | cons iter rest ih =>
    unfold mergeLoop
    split
    · have next := ih ⟨prev.start, iter.limit, M.merge prev.value iter.value⟩
      simp only [usageOf_cons] at next ⊢
      linarith
    · have next := ih iter
      simp only [usageOf_cons] at next ⊢
      linarith

theorem merge_usage (m : RangeMap K V) (r : Nat × Nat) :
    usageOf M m + (merge M m r).2 = usageOf M (merge M m r).1 := by
  unfold merge
  dsimp only
  split
  · simp
  · next p rest found =>
    have nonempty : range m (if r.1 ≠ 0 then r.1 - 1 else 0,
        if r.2 ≠ m.length then r.2 + 1 else r.2) ≠ [] := by
      rw [found]
      exact List.cons_ne_nil p rest
    have forward : (if r.1 ≠ 0 then r.1 - 1 else 0) ≤ if r.2 ≠ m.length then r.2 + 1 else r.2 := by
      by_contra backward
      apply nonempty
      apply List.drop_eq_nil_of_le
      rw [List.length_take]
      omega
    have around := @usageOf_around _ _ M m _ _ forward
    have merged := @mergeLoop_usage _ _ _ M p rest
    rw [found] at around
    simp only [usageOf_append, usageOf_cons] at around merged ⊢
    linarith

omit [LinearOrder K] in
theorem changeRecord_usage (mode : ChangeMode) (s l : K) (dest value : V) (result : Bool) :
    (changeRecord M mode s l dest value result).usage =
      usageOf M (changeRecord M mode s l dest value result).map := by
  unfold changeRecord
  split <;> simp

theorem changeGap_usage (mode : ChangeMode) (start limit : K) (value : V) (s l : K)
    (result : Bool) :
    (changeGap M mode start limit value s l result).usage =
      usageOf M (changeGap M mode start limit value s l result).map := by
  unfold changeGap
  split
  · cases mode <;> simp
  · rfl

theorem changeEntry_usage (mode : ChangeMode) (start limit : K) (value : V) (prevStart : K)
    (i : Segment K V) (result : Bool) :
    M.usage i + (changeEntry M mode start limit value prevStart i result).usage =
      usageOf M (changeEntry M mode start limit value prevStart i result).map := by
  unfold changeEntry
  split
  · simp only [changeRecord_usage]
    linarith
  split
  · simp only [changeRecord_usage, usageOf_append, usageOf_cons, usageOf_nil]
    linarith
  split
  · simp only [changeRecord_usage, usageOf_append, usageOf_cons, usageOf_nil]
    linarith
  · simp only [changeRecord_usage, usageOf_append, usageOf_cons, usageOf_nil]
    linarith

theorem changeLoop_usage (mode : ChangeMode) (start limit : K) (value : V) (prevStart : K)
    (result : Bool) (w : RangeMap K V) :
    usageOf M w + (changeLoop M mode start limit value prevStart result w).usage =
      usageOf M (changeLoop M mode start limit value prevStart result w).map := by
  induction w generalizing prevStart result with
  | nil =>
    unfold changeLoop
    rw [changeGap_usage, usageOf_nil, zero_add]
  | cons i rest ih =>
    unfold changeLoop
    have gap := changeGap_usage (M := M) mode start limit value prevStart i.start result
    have entry := changeEntry_usage (M := M) mode start limit value prevStart i
      (changeGap M mode start limit value prevStart i.start result).result
    have next := ih i.limit (changeEntry M mode start limit value prevStart i
      (changeGap M mode start limit value prevStart i.start result).result).result
    simp only [usageOf_cons, usageOf_append] at entry next ⊢
    linarith

omit [LinearOrder K] in
/-- The first entry that a search stops at is no later than that of a narrower search. -/
theorem findIdx_le_of_imp {m : RangeMap K V} {p q : Segment K V → Bool}
    (imp : ∀ s, q s = true → p s = true) : m.findIdx p ≤ m.findIdx q := by
  induction m with
  | nil => simp
  | cons s m ih =>
    rw [List.findIdx_cons, List.findIdx_cons]
    have first := imp s
    cases hp : p s with
    | true => simp
    | false =>
      cases hq : q s with
      | true =>
        rw [first hq] at hp
        contradiction
      | false => simpa using ih

/-- The iterator range of an interval is not backward, in any list of entries. -/
theorem find_forward {m : RangeMap K V} {start limit : K} {r : Nat × Nat}
    (found : find m start limit = some r) : r.1 ≤ r.2 := by
  have low : lowerBound m start ≤ m.findIdx fun s => !keyLess (s.start, s.limit) (start, start) := by
    simp only [lowerBound]
    split
    · split
      · split
        · omega
        · exact le_refl _
      · exact le_refl _
    · exact le_refl _
  unfold find at found
  split at found
  · next forward =>
    split at found
    · obtain rfl := Option.some.inj found
      exact le_refl _
    · next proper =>
      obtain rfl := Option.some.inj found
      apply low.trans
      apply findIdx_le_of_imp
      intro s
      simp only [keyLess, Bool.or_eq_true, Bool.and_eq_true, decide_eq_true_eq, beq_iff_eq,
        Bool.not_eq_true', Bool.or_eq_false_iff, Bool.and_eq_false_iff, decide_eq_false_iff_not,
        beq_eq_false_iff_ne]
      have above : start < limit := lt_of_le_of_ne forward proper
      rintro (after | ⟨same, -⟩)
      · have later := above.trans after
        exact ⟨not_lt.mpr later.le, Or.inl later.ne'⟩
      · have later := same ▸ above
        exact ⟨not_lt.mpr later.le, Or.inl later.ne'⟩
  · exact absurd found (by simp)

theorem change_usage {m : RangeMap K V} {start limit : K} {value : V} {mode : ChangeMode}
    {postMerge : Bool} {c : Changed K V} (run : change M m start limit value mode postMerge = some c) :
    usageOf M m + c.usage = usageOf M c.map := by
  unfold change at run
  obtain ⟨-, -, run⟩ := Option.bind_eq_some_iff.mp run
  obtain ⟨r, found, run⟩ := Option.bind_eq_some_iff.mp run
  have around := @usageOf_around _ _ M m _ _ (find_forward found)
  have loop := changeLoop_usage (M := M) mode start limit value start
    (decide (mode = .remove)) (range m r)
  cases postMerge with
  | true =>
    simp only [↓reduceIte] at run
    obtain ⟨after, -, run⟩ := Option.bind_eq_some_iff.mp run
    obtain rfl := Option.some.inj run
    have merged := merge_usage (M := M) (m.take r.1 ++ (changeLoop M mode start limit value start
      (decide (mode = .remove)) (range m r)).map ++ m.drop r.2) after
    simp only [usageOf_append] at merged ⊢
    linarith
  | false =>
    simp only [Bool.false_eq_true, ↓reduceIte] at run
    obtain rfl := Option.some.inj run
    simp only [usageOf_append]
    linarith

/-- What `c` has added to `*usage` accounts for the map it holds, `m` being the one before. -/
def Accounts (M : Methods K V) (m : RangeMap K V) (c : Changed K V) : Prop :=
  usageOf M m + c.usage = usageOf M c.map

omit [LinearOrder K] in
theorem Accounts.start (m : RangeMap K V) (result : Bool) : Accounts M m ⟨m, result, 0⟩ := by
  simp [Accounts]

theorem Accounts.change {m : RangeMap K V} {c c' : Changed K V} {s : Segment K V}
    {mode : ChangeMode} {postMerge : Bool} (before : Accounts M m c)
    (run : Changed.change M c s mode postMerge = some c') : Accounts M m c' := by
  unfold Changed.change at run
  obtain ⟨n, changed, run⟩ := Option.bind_eq_some_iff.mp run
  obtain rfl := Option.some.inj run
  have more := change_usage changed
  simp only [Accounts] at before ⊢
  linarith

theorem changeRangeMap_accounts {m y : RangeMap K V} {mode : ChangeMode} {postMerge : Bool}
    {c : Changed K V} (run : changeRangeMap M m y mode postMerge = some c) : Accounts M m c :=
  foldlM_after (P := fun _ c => Accounts M m c) (Accounts.start m _)
    (fun _ _ _ _ _ _ before step => before.change step) run

omit [LinearOrder K] in
theorem changeEachLoop_usage (mode : ChangeMode) (start limit : K) (value : V) (result : Bool)
    (m : RangeMap K V) :
    usageOf M m + (changeEachLoop M mode start limit value result m).usage =
      usageOf M (changeEachLoop M mode start limit value result m).map := by
  induction m generalizing result with
  | nil => rfl
  | cons i rest ih =>
    unfold changeEachLoop
    have next := ih (changeRecord M mode i.start i.limit i.value
      (M.slice start limit value i.start i.limit) result).result
    simp only [usageOf_cons, usageOf_append, changeRecord_usage] at next ⊢
    linarith

theorem changeEach_accounts (m : RangeMap K V) (value : V) (mode : ChangeMode) :
    Accounts M m (changeEach M m value mode) := by
  unfold changeEach
  split
  · next first last _ _ =>
    have loop := changeEachLoop_usage (M := M) mode first.start last.limit value
      (decide (mode = .remove)) m
    have merged := merge_usage (M := M) (changeEachLoop M mode first.start last.limit value
      (decide (mode = .remove)) m).map (0, (changeEachLoop M mode first.start last.limit value
      (decide (mode = .remove)) m).map.length)
    simp only [Accounts]
    linarith
  · exact Accounts.start m _

theorem addIntersectionOf_accounts {m x : RangeMap K V} {start limit : K} {valueY : V}
    {postMerge : Bool} {c c' : Changed K V} (before : Accounts M m c)
    (run : addIntersectionOf M c x start limit valueY postMerge = some c') : Accounts M m c' := by
  unfold addIntersectionOf at run
  obtain ⟨r, -, run⟩ := Option.bind_eq_some_iff.mp run
  apply foldlM_after (P := fun _ c => Accounts M m c) before _ run
  intro _ i _ c c' _ before step
  unfold intersectEntry at step
  dsimp only at step
  split at step
  · exact Option.some.inj step ▸ before
  · exact before.change step

theorem addIntersectionOfMaps_accounts {m x y : RangeMap K V} {postMerge : Bool}
    {c : Changed K V} (run : addIntersectionOfMaps M m x y postMerge = some c) :
    Accounts M m c :=
  foldlM_after (P := fun _ c => Accounts M m c) (Accounts.start m _)
    (fun _ _ _ _ _ _ before step => addIntersectionOf_accounts before step) run

theorem addGap_accounts {m : RangeMap K V} {start limit s l : K} {valueX : V} {postMerge : Bool}
    {c c' : Changed K V} (before : Accounts M m c)
    (run : addGap M c start limit valueX s l postMerge = some c') : Accounts M m c' := by
  unfold addGap at run
  split at run
  · exact before.change run
  · exact Option.some.inj run ▸ before

theorem subtractEntry_accounts {m : RangeMap K V} {start limit : K} {valueX : V}
    {postMerge : Bool} {i : Segment K V} {c c' : Changed K V} (before : Accounts M m c)
    (run : subtractEntry M start limit valueX postMerge c i = some c') : Accounts M m c' := by
  unfold subtractEntry at run
  dsimp only at run
  split at run
  · exact Option.some.inj run ▸ before
  · exact before.change run

theorem addDifferenceLoop_accounts {m w : RangeMap K V} {start limit prev : K} {valueX : V}
    {postMerge : Bool} {c c' : Changed K V} (before : Accounts M m c)
    (run : addDifferenceLoop M start limit valueX postMerge prev c w = some c') :
    Accounts M m c' := by
  induction w generalizing prev c with
  | nil => exact addGap_accounts before run
  | cons i rest ih =>
    unfold addDifferenceLoop at run
    obtain ⟨c₁, subtracted, run⟩ := Option.bind_eq_some_iff.mp run
    obtain ⟨c₂, filled, run⟩ := Option.bind_eq_some_iff.mp run
    have first := subtractEntry_accounts before subtracted
    exact ih (addGap_accounts first filled) run

theorem addDifferenceOf_accounts {m y : RangeMap K V} {start limit : K} {valueX : V}
    {postMerge : Bool} {c c' : Changed K V} (before : Accounts M m c)
    (run : addDifferenceOf M c start limit valueX y postMerge = some c') : Accounts M m c' := by
  unfold addDifferenceOf at run
  obtain ⟨r, -, run⟩ := Option.bind_eq_some_iff.mp run
  exact addDifferenceLoop_accounts before run

theorem addDifferenceOfMaps_accounts {m x y : RangeMap K V} {postMerge : Bool}
    {c : Changed K V} (run : addDifferenceOfMaps M m x y postMerge = some c) : Accounts M m c :=
  foldlM_after (P := fun _ c => Accounts M m c) (Accounts.start m _)
    (fun _ _ _ _ _ _ before step => addDifferenceOf_accounts before step) run

/-- `erase` of the entry at an iterator. -/
def erase (M : Methods K V) (m : RangeMap K V) (iter : Nat) : Option (Changed K V) := do
  let i ← m[iter]?
  return ⟨m.eraseIdx iter, false, -M.usage i⟩

/-- `erase` of an iterator range. -/
def eraseRange (M : Methods K V) (m : RangeMap K V) (r : Nat × Nat) : Option (Changed K V) :=
  if r.1 ≤ r.2 ∧ r.2 ≤ m.length then
    some ⟨m.take r.1 ++ m.drop r.2, false, -usageOf M (range m r)⟩
  else none

/-- The operations that take a `usage`, with their arguments. -/
inductive Operation (K V : Type) where
  | change (mode : ChangeMode) (start limit : K) (value : V) (postMerge : Bool)
  | mergeRange (range : Nat × Nat)
  | merge (start limit : K)
  | erase (iter : Nat)
  | eraseRange (range : Nat × Nat)
  | clear
  | changeRangeMap (mode : ChangeMode) (rangeMap : RangeMap K V) (postMerge : Bool)
  | changeEach (mode : ChangeMode) (value : V)
  | addIntersection (mapX : RangeMap K V) (start limit : K) (valueY : V) (postMerge : Bool)
  | addIntersectionOf (mapX mapY : RangeMap K V) (postMerge : Bool)
  | addDifference (start limit : K) (valueX : V) (mapY : RangeMap K V) (postMerge : Bool)
  | addDifferenceOf (mapX mapY : RangeMap K V) (postMerge : Bool)

/-- The operation on the map `m`, with the change of `*usage`. -/
def Operation.run (M : Methods K V) (m : RangeMap K V) : Operation K V → Option (Changed K V)
  | .change mode start limit value postMerge =>
    RangeMap.change M m start limit value mode postMerge
  | .mergeRange range => some ⟨(RangeMap.merge M m range).1, false, (RangeMap.merge M m range).2⟩
  | .merge start limit => do
    let merged := RangeMap.merge M m (← find m start limit)
    return ⟨merged.1, false, merged.2⟩
  | .erase iter => RangeMap.erase M m iter
  | .eraseRange range => RangeMap.eraseRange M m range
  | .clear => RangeMap.eraseRange M m (0, m.length)
  | .changeRangeMap mode rangeMap postMerge => RangeMap.changeRangeMap M m rangeMap mode postMerge
  | .changeEach mode value => some (RangeMap.changeEach M m value mode)
  | .addIntersection mapX start limit valueY postMerge =>
    RangeMap.addIntersectionOf M ⟨m, false, 0⟩ mapX start limit valueY postMerge
  | .addIntersectionOf mapX mapY postMerge => addIntersectionOfMaps M m mapX mapY postMerge
  | .addDifference start limit valueX mapY postMerge =>
    RangeMap.addDifferenceOf M ⟨m, false, 0⟩ start limit valueX mapY postMerge
  | .addDifferenceOf mapX mapY postMerge => addDifferenceOfMaps M m mapX mapY postMerge

/-- A run of operations on one map, each given the same `usage`. -/
def runOperations (M : Methods K V) (m : RangeMap K V) (ops : List (Operation K V)) :
    Option (Changed K V) :=
  ops.foldlM (fun c op => do
    let n ← op.run M c.map
    return ⟨n.map, n.result, c.usage + n.usage⟩) ⟨m, false, 0⟩

omit [LinearOrder K] in
theorem erase_accounts {m : RangeMap K V} {iter : Nat} {c : Changed K V}
    (run : erase M m iter = some c) : Accounts M m c := by
  unfold erase at run
  obtain ⟨i, at_iter, run⟩ := Option.bind_eq_some_iff.mp run
  obtain rfl := Option.some.inj run
  obtain ⟨inside, rfl⟩ := List.getElem?_eq_some_iff.mp at_iter
  have whole : usageOf M m = _ := congrArg (usageOf M) (List.take_append_drop iter m).symm
  rw [List.drop_eq_getElem_cons inside, usageOf_append, usageOf_cons] at whole
  simp only [Accounts, List.eraseIdx_eq_take_drop_succ, usageOf_append]
  linarith

omit [LinearOrder K] in
theorem eraseRange_accounts {m : RangeMap K V} {r : Nat × Nat} {c : Changed K V}
    (run : eraseRange M m r = some c) : Accounts M m c := by
  unfold eraseRange at run
  split at run
  · next valid =>
    obtain rfl := Option.some.inj run
    have around := @usageOf_around _ _ M m _ _ valid.1
    simp only [Accounts, usageOf_append]
    linarith
  · contradiction

theorem merge_accounts (m : RangeMap K V) (r : Nat × Nat) :
    Accounts M m ⟨(merge M m r).1, false, (merge M m r).2⟩ := merge_usage m r

/-- Every operation adds to `*usage` what it changes `Usage()` by. -/
theorem operation_accounts {m : RangeMap K V} {op : Operation K V} {c : Changed K V}
    (run : op.run M m = some c) : Accounts M m c := by
  cases op with
  | change mode start limit value postMerge => exact change_usage run
  | mergeRange range =>
    obtain rfl := Option.some.inj run
    exact merge_accounts m range
  | merge start limit =>
    obtain ⟨r, -, run⟩ := Option.bind_eq_some_iff.mp run
    obtain rfl := Option.some.inj run
    exact merge_accounts m r
  | erase iter => exact erase_accounts run
  | eraseRange range => exact eraseRange_accounts run
  | clear => exact eraseRange_accounts run
  | changeRangeMap mode rangeMap postMerge => exact changeRangeMap_accounts run
  | changeEach mode value =>
    obtain rfl := Option.some.inj run
    exact changeEach_accounts m value mode
  | addIntersection mapX start limit valueY postMerge =>
    exact addIntersectionOf_accounts (Accounts.start m false) run
  | addIntersectionOf mapX mapY postMerge => exact addIntersectionOfMaps_accounts run
  | addDifference start limit valueX mapY postMerge =>
    exact addDifferenceOf_accounts (Accounts.start m false) run
  | addDifferenceOf mapX mapY postMerge => exact addDifferenceOfMaps_accounts run

theorem runOperations_accounts {m : RangeMap K V} {ops : List (Operation K V)} {c : Changed K V}
    (run : runOperations M m ops = some c) : Accounts M m c := by
  apply foldlM_after (P := fun _ c => Accounts M m c) (Accounts.start m false) _ run
  intro _ op _ c c' _ before step
  obtain ⟨n, ran, step⟩ := Option.bind_eq_some_iff.mp step
  obtain rfl := Option.some.inj step
  have more := operation_accounts ran
  simp only [Accounts] at before more ⊢
  linarith

/--
**The usage that a caller keeps is the usage of the map.**

Whatever operations have run on a map, the next one adds to `*usage` exactly `Usage()` of
the map it leaves less `Usage()` of the map it finds, and so does the run as a whole.
-/
theorem usage_of_run (M : Methods K V) (m : RangeMap K V) (ops : List (Operation K V))
    (op : Operation K V) {c n : Changed K V} (ran : runOperations M m ops = some c)
    (run : op.run M c.map = some n) :
    n.usage = usageOf M n.map - usageOf M c.map ∧ c.usage = usageOf M c.map - usageOf M m := by
  have total := runOperations_accounts ran
  have step := operation_accounts run
  simp only [Accounts] at total step
  constructor <;> linarith

/-- `NumMethods<int>` of the tests, in `more_is_empty_mode`. -/
def numMethods : Methods Int Int where
  slice _ _ v _ _ := v
  addTo dest v := ⟨dest + v, dest + v != dest, dest + v == 0⟩
  removeFrom dest v := ⟨max (dest - v) 0, 0 ≤ dest - v, dest - v ≤ 0⟩
  canMerge v₁ v₂ := v₁ == v₂
  merge dest _ := dest
  makeIntersection v₁ v₂ := if min v₁ v₂ - 1 = 0 then none else some (min v₁ v₂ - 1)
  makeDifference v₁ v₂ := if max (v₁ - v₂) 0 = 0 then none else some (max (v₁ - v₂) 0)
  usage i := (i.limit - i.start) * i.value

/-- An addition that merges with its neighbour, then a removal that splits an entry. -/
theorem usage_of_run_numMethods :
    (-6 : Int) = usageOf numMethods [⟨10, 12, 2⟩, ⟨15, 30, 2⟩] - usageOf numMethods [⟨10, 30, 2⟩] ∧
      (20 : Int) = usageOf numMethods [⟨10, 30, 2⟩] - usageOf numMethods [⟨10, 20, 2⟩] :=
  usage_of_run numMethods [⟨10, 20, 2⟩] [.change .add 20 30 2 true] (.change .remove 12 15 7 true)
    (c := ⟨[⟨10, 30, 2⟩], true, 20⟩) (n := ⟨[⟨10, 12, 2⟩, ⟨15, 30, 2⟩], false, -6⟩)
    rfl rfl

end RangeMap

end Silifuzz
