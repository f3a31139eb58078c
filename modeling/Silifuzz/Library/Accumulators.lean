import Mathlib.Data.BitVec
import Mathlib.Data.List.Count
import Mathlib.Data.List.Nodup
import Mathlib.Logic.Function.Iterate

/-!
# Independent accumulators

Cells that are updated in turns, each from its own value and from a cell that the turns do not
write. The turns of different cells do not interfere (`foldl_turn_apply`), and a word in which
all cells are added up without carry changes if one of them does (`foldl_xor_eq_iff`).
-/

namespace Accumulators

variable {ι κ α : Type} [DecidableEq ι] [DecidableEq κ]

/-- The accumulator `d` takes in the cell `read d`. -/
def turn (op : ι → α → α → α) (cell read : ι → κ) (s : κ → α) (d : ι) : κ → α :=
  Function.update s (cell d) (op d (s (cell d)) (s (read d)))

variable {op : ι → α → α → α} {cell read : ι → κ} {l : List ι} {s : κ → α} {i : ι} {k : κ}

omit [DecidableEq ι] in
theorem foldl_turn_of_ne (out : ∀ d ∈ l, cell d ≠ k) : l.foldl (turn op cell read) s k = s k := by
  induction l generalizing s with
  | nil => rfl
  | cons d l ih =>
    obtain ⟨here, later⟩ := List.forall_mem_cons.mp out
    rw [List.foldl_cons, ih later, turn, Function.update_of_ne here.symm]

/-- An accumulator has made as many steps as it had turns. -/
theorem foldl_turn_apply (distinct : Function.Injective cell) (apart : ∀ d ∈ l, cell d ≠ read i) :
    l.foldl (turn op cell read) s (cell i) =
      (fun x => op i x (s (read i)))^[l.count i] (s (cell i)) := by
  induction l generalizing s with
  | nil => rfl
  | cons d l ih =>
    obtain ⟨here, later⟩ := List.forall_mem_cons.mp apart
    have constant : turn op cell read s d (read i) = s (read i) :=
      Function.update_of_ne here.symm _ _
    rw [List.foldl_cons, ih later, constant]
    by_cases same : d = i
    · subst same
      rw [List.count_cons_self, Function.iterate_succ_apply, turn, Function.update_self]
    · have other : cell i ≠ cell d := fun eq => same (distinct eq).symm
      rw [List.count_cons_of_ne same, turn, Function.update_of_ne other]

variable {w : Nat} {f g : ι → BitVec w}

omit [DecidableEq ι] in
theorem foldl_xor (l : List ι) (f : ι → BitVec w) (acc : BitVec w) :
    l.foldl (fun a j => a ^^^ f j) acc = acc ^^^ l.foldl (fun a j => a ^^^ f j) 0#w := by
  induction l generalizing acc with
  | nil => exact (BitVec.xor_zero).symm
  | cons j l ih =>
    rw [List.foldl_cons, ih, List.foldl_cons, ih (0#w ^^^ f j), BitVec.zero_xor, BitVec.xor_assoc]

/-- Of two families that agree but for one index, the sums agree if the words there do. -/
theorem foldl_xor_eq_iff (distinct : l.Nodup) (inside : i ∈ l) (same : ∀ j, j ≠ i → f j = g j) :
    l.foldl (fun a j => a ^^^ f j) 0#w = l.foldl (fun a j => a ^^^ g j) 0#w ↔ f i = g i := by
  induction l with
  | nil => cases inside
  | cons j l ih =>
    obtain ⟨out, distinct⟩ := List.nodup_cons.mp distinct
    rw [List.foldl_cons, List.foldl_cons, foldl_xor, foldl_xor l g, BitVec.zero_xor,
      BitVec.zero_xor]
    by_cases here : j = i
    · subst here
      have rest : l.foldl (fun a k => a ^^^ f k) 0#w =
          l.foldl (fun a k => a ^^^ g k) 0#w := by
        apply List.foldl_ext
        intro a k member
        have other : k ≠ j := by
          rintro rfl
          exact out member
        rw [same k other]
      rw [rest, BitVec.xor_left_inj]
    · have member : i ∈ l := (List.mem_cons.mp inside).resolve_left (Ne.symm here)
      rw [same j here, BitVec.xor_right_inj]
      exact ih distinct member

end Accumulators
