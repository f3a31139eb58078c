import Mathlib.Data.List.Basic

/-!
# Insertion-ordered dictionaries

A Python `dict`: its items in the order in which their keys first came in. `set` replaces
the value of a key that is there and appends one that is not.
-/

namespace Dicts

variable {κ ν : Type} [DecidableEq κ]

abbrev Dict (κ ν : Type) := List (κ × ν)

def get? (d : Dict κ ν) (k : κ) : Option ν := (d.find? (·.1 == k)).map (·.2)

def contains (d : Dict κ ν) (k : κ) : Bool := d.any (·.1 == k)

def set (d : Dict κ ν) (k : κ) (v : ν) : Dict κ ν :=
  match d with
  | [] => [(k, v)]
  | i :: d => if i.1 = k then (k, v) :: d else i :: set d k v

theorem get?_set (d : Dict κ ν) (k k' : κ) (v : ν) :
    get? (set d k v) k' = if k = k' then some v else get? d k' := by
  induction d with
  | nil =>
    by_cases same : k = k'
    · simp [set, get?, same]
    · simp [set, get?, same]
  | cons i d ih =>
    unfold set
    split
    · next here =>
      subst here
      by_cases same : i.1 = k'
      · simp [get?, same]
      · simp [get?, same]
    · next other =>
      by_cases same : i.1 = k'
      · have apart : k ≠ k' := fun eq => other (same.trans eq.symm)
        simp [get?, same, apart]
      · have skip : ∀ d' : Dict κ ν, get? (i :: d') k' = get? d' k' := by
          intro d'
          simp [get?, same]
        rw [skip, skip, ih]

theorem mem_keys_set {d : Dict κ ν} {k k' : κ} {v : ν} :
    k' ∈ (set d k v).map (·.1) ↔ k' = k ∨ k' ∈ d.map (·.1) := by
  induction d with
  | nil => simp [set]
  | cons i d ih =>
    unfold set
    split
    · next here =>
      subst here
      simp
    · rw [List.map_cons, List.mem_cons, ih, List.map_cons, List.mem_cons]
      exact or_left_comm

end Dicts
