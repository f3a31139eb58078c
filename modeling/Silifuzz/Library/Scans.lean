import Mathlib.Data.Set.Finite.List
import Mathlib.Order.WellFounded

/-!
# Scans that stop

A scan of a list stops at the first element that settles its answer, so an element that
cannot be looked at does no harm behind such an element. A strict order on the elements of a
list has an unbeaten element above each of them.
-/

namespace Scans

variable {α β ε : Type}

/-- Every element that `fails` comes after one that `stops`. -/
def Shielded (stops : α → Bool) (fails : α → Prop) (l : List α) : Prop :=
  ∀ before x after, l = before ++ x :: after → fails x → ∃ y ∈ before, stops y = true

theorem shielded_nil (stops : α → Bool) (fails : α → Prop) : Shielded stops fails [] := by
  intro before x after eq
  simp at eq

theorem shielded_cons {stops : α → Bool} {fails : α → Prop} {x : α} {l : List α} :
    Shielded stops fails (x :: l) ↔
      ¬fails x ∧ (stops x = true ∨ Shielded stops fails l) := by
  constructor
  · intro shielded
    have first : ¬fails x := by
      intro bad
      obtain ⟨y, inside, -⟩ := shielded [] x l rfl bad
      cases inside
    refine ⟨first, ?_⟩
    by_cases stop : stops x = true
    · exact .inl stop
    · right
      intro before y after eq bad
      obtain ⟨z, inside, stopped⟩ := shielded (x :: before) y after (by rw [eq]; rfl) bad
      rcases List.mem_cons.mp inside with rfl | inside
      · exact absurd stopped stop
      · exact ⟨z, inside, stopped⟩
  · rintro ⟨good, rest⟩ before y after eq bad
    cases before with
    | nil =>
      obtain ⟨rfl, -⟩ := List.cons.inj eq
      exact absurd bad good
    | cons b before =>
      obtain ⟨rfl, tail⟩ := List.cons.inj eq
      rcases rest with stop | shielded
      · exact ⟨x, List.mem_cons_self, stop⟩
      · obtain ⟨z, inside, stopped⟩ := shielded before y after tail bad
        exact ⟨z, List.mem_cons_of_mem x inside, stopped⟩

section

variable {e : ε} {f : α → Except ε Bool} {stops : α → Bool} {fails : α → Prop}
  {l : List α}

/-- `any` of a scan that is shielded. -/
theorem anyM_of_shielded (looks : ∀ x, ¬fails x → f x = .ok (stops x))
    (shielded : Shielded stops fails l) : l.anyM f = .ok (l.any stops) := by
  induction l with
  | nil => rfl
  | cons x l ih =>
    obtain ⟨good, rest⟩ := shielded_cons.mp shielded
    rw [List.anyM, looks x good, List.any_cons]
    cases stop : stops x with
    | true => rfl
    | false =>
      rcases rest with stopped | shielded
      · exact absurd stopped (by simp [stop])
      · exact ih shielded

theorem anyM_of_not_shielded (looks : ∀ x, ¬fails x → f x = .ok (stops x))
    (raises : ∀ x, fails x → f x = .error e) (bare : ¬Shielded stops fails l) :
    l.anyM f = .error e := by
  induction l with
  | nil => exact absurd (shielded_nil stops fails) bare
  | cons x l ih =>
    rw [shielded_cons] at bare
    by_cases bad : fails x
    · rw [List.anyM, raises x bad]
      rfl
    · have stop : stops x = false := by
        by_contra stop
        exact bare ⟨bad, .inl (by simpa using stop)⟩
      rw [List.anyM, looks x bad, stop]
      exact ih fun shielded => bare ⟨bad, .inr shielded⟩

/-- `all` of a scan that is shielded by elements without the property. -/
theorem allM_of_shielded (looks : ∀ x, ¬fails x → f x = .ok (!stops x))
    (shielded : Shielded stops fails l) : l.allM f = .ok (l.all fun x => !stops x) := by
  induction l with
  | nil => rfl
  | cons x l ih =>
    obtain ⟨good, rest⟩ := shielded_cons.mp shielded
    rw [List.allM, looks x good, List.all_cons]
    cases stop : stops x with
    | true => rfl
    | false =>
      rcases rest with stopped | shielded
      · exact absurd stopped (by simp [stop])
      · exact ih shielded

theorem allM_of_not_shielded (looks : ∀ x, ¬fails x → f x = .ok (!stops x))
    (raises : ∀ x, fails x → f x = .error e) (bare : ¬Shielded stops fails l) :
    l.allM f = .error e := by
  induction l with
  | nil => exact absurd (shielded_nil stops fails) bare
  | cons x l ih =>
    rw [shielded_cons] at bare
    by_cases bad : fails x
    · rw [List.allM, raises x bad]
      rfl
    · have stop : stops x = false := by
        by_contra stop
        exact bare ⟨bad, .inl (by simpa using stop)⟩
      rw [List.allM, looks x bad, stop]
      exact ih fun shielded => bare ⟨bad, .inr shielded⟩

end

/-- An element that is beaten is beaten by one that is not. -/
theorem exists_unbeaten {beats : α → α → Prop} (irrefl : ∀ x, ¬beats x x)
    (trans : ∀ x y z, beats x y → beats y z → beats x z) {l : List α} {x : α} (inside : x ∈ l) :
    ∃ y ∈ l, (y = x ∨ beats y x) ∧ ∀ z ∈ l, ¬beats z y := by
  have finite : Finite {y // y ∈ l} := (List.finite_toSet l).to_subtype
  have order : IsStrictOrder {y // y ∈ l} fun a b => beats a.1 b.1 :=
    { irrefl := fun a => irrefl a.1, trans := fun a b c => trans a.1 b.1 c.1 }
  have wellFounded := Finite.wellFounded_of_trans_of_irrefl
    fun a b : {y // y ∈ l} => beats a.1 b.1
  obtain ⟨⟨y, inList⟩, above, unbeaten⟩ := wellFounded.has_min
    {y | y.1 = x ∨ beats y.1 x} ⟨⟨x, inside⟩, .inl rfl⟩
  refine ⟨y, inList, above, fun z zInside zBeats => unbeaten ⟨z, zInside⟩ ?_ zBeats⟩
  rcases above with rfl | above
  · exact .inr zBeats
  · exact .inr (trans z y x zBeats above)

end Scans
