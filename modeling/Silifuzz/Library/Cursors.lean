import Mathlib.Data.List.Basic
import Mathlib.Data.List.Infix

/-!
# Cursors in a text

A text that is read through indices, where a read behind its end is a fault. `Sees` says what
stands at an index, and the rules say where a scan that starts there stops.
-/

namespace Cursors

variable {α ε : Type} {text a b : List α} {i : Nat} {x : α}

/-- `text[i]` -/
def charAt (outside : ε) (text : List α) (i : Nat) : Except ε α :=
  match text[i]? with
  | some x => .ok x
  | none => .error outside

/-- The first of the `n` indices from `i` on at which `pred` is false. -/
def scan (outside : ε) (text : List α) (pred : α → Bool) : Nat → Nat → Except ε (Option Nat)
  | 0, _ => .ok none
  | n + 1, i => do
    if pred (← charAt outside text i) then scan outside text pred n (i + 1)
    else return some i

/-- The text goes on with `l` at `i`. -/
def Sees (text : List α) (i : Nat) (l : List α) : Prop := l <+: text.drop i

theorem sees_append : Sees text i (a ++ b) ↔ Sees text i a ∧ Sees text (i + a.length) b := by
  constructor
  · rintro ⟨rest, eq⟩
    constructor
    · exact ⟨b ++ rest, by rw [← eq, List.append_assoc]⟩
    · exact ⟨rest, by rw [← List.drop_drop, ← eq, List.append_assoc, List.drop_left]⟩
  · rintro ⟨⟨after, first⟩, rest, second⟩
    refine ⟨rest, ?_⟩
    rw [← List.drop_drop, ← first, List.drop_left] at second
    rw [← first, List.append_assoc, second]

theorem sees_cons : Sees text i (x :: a) ↔ Sees text i [x] ∧ Sees text (i + 1) a :=
  sees_append (a := [x])

theorem charAt_sees (outside : ε) (sees : Sees text i (x :: a)) :
    charAt outside text i = .ok x := by
  obtain ⟨rest, eq⟩ := sees
  have found : text[i]? = some x := by
    rw [← List.head?_drop, ← eq]
    rfl
  rw [charAt, found]

variable {pred : α → Bool} {n : Nat}

/-- A scan stops behind a run that satisfies `pred`. -/
theorem scan_stops (outside : ε) (sees : Sees text i (a ++ [x])) (run : ∀ y ∈ a, pred y = true)
    (stop : pred x = false) (enough : a.length < n) :
    scan outside text pred n i = .ok (some (i + a.length)) := by
  induction a generalizing i n with
  | nil =>
    cases n with
    | zero => cases enough
    | succ n =>
      rw [scan, charAt_sees outside sees]
      change (if pred x = true then _ else _) = _
      rw [stop]
      rfl
  | cons y a ih =>
    cases n with
    | zero => cases enough
    | succ n =>
      rw [scan, charAt_sees outside sees]
      change (if pred y = true then _ else _) = _
      rw [run y List.mem_cons_self, if_pos rfl, ih (sees_cons.mp sees).2
        (fun z inside => run z (List.mem_cons_of_mem y inside)) (Nat.lt_of_succ_lt_succ enough),
        List.length_cons, Nat.add_right_comm, Nat.add_assoc]

/-- A scan of a run that satisfies `pred` finds nothing. -/
theorem scan_passes (outside : ε) (sees : Sees text i a) (run : ∀ y ∈ a, pred y = true)
    (all : n = a.length) : scan outside text pred n i = .ok none := by
  subst all
  induction a generalizing i with
  | nil => rfl
  | cons y a ih =>
    rw [List.length_cons, scan, charAt_sees outside sees]
    change (if pred y = true then _ else _) = _
    rw [run y List.mem_cons_self, if_pos rfl]
    exact ih (sees_cons.mp sees).2 fun z inside => run z (List.mem_cons_of_mem y inside)

end Cursors
