import Silifuzz.Library.Triples

/-!
# Programs with fuel

A loop that need not end is given fuel. `Settles x Q` says that with enough fuel the
program ends, always in the same way, with a value that `Q` allows. Its rules follow
the shape of the program like those of `Surely`.
-/

namespace Fuel

open Triples

variable {σ ε α β : Type}

/-- With enough fuel, `x` ends from `s` in one way. -/
def SettlesAt (x : Nat → StateT σ (Except ε) α) (s : σ) (Q : α → Prop) : Prop :=
  ∃ a s' enough, (∀ fuel ≥ enough, x fuel s = .ok (a, s')) ∧ Q a

def Settles (x : Nat → StateT σ (Except ε) α) (Q : α → Prop) : Prop := ∀ s, SettlesAt x s Q

variable {Q Q' : α → Prop} {R : β → Prop} {x : Nat → StateT σ (Except ε) α}

theorem settles_of_surely {x : StateT σ (Except ε) α} (h : Surely x Q) :
    Settles (fun _ => x) Q := by
  intro s
  obtain ⟨a, s', run, ha⟩ := surely_ok h s
  exact ⟨a, s', 0, fun _ _ => run, ha⟩

theorem settles_pure {a : α} (h : Q a) :
    Settles (fun _ => (pure a : StateT σ (Except ε) α)) Q :=
  settles_of_surely (surely_pure h)

theorem settles_lift_ok {y : Except ε α} (h : ∃ a, y = .ok a ∧ Q a) :
    Settles (fun _ => (liftM y : StateT σ (Except ε) α)) Q :=
  settles_of_surely (surely_lift_ok h)

/-- What ends in one way with any fuel, and leaves the state alone. -/
theorem settles_of_quietly {a : α} (h : ∀ fuel, Quietly (x fuel) (a = ·)) :
    Settles x (a = ·) := by
  intro s
  refine ⟨a, s, 0, fun fuel _ => ?_, rfl⟩
  obtain ⟨_, run, rfl⟩ := h fuel s
  exact run

theorem settlesAt_mono {s : σ} (h : SettlesAt x s Q) (post : ∀ a, Q a → Q' a) :
    SettlesAt x s Q' := by
  obtain ⟨a, s', enough, run, ha⟩ := h
  exact ⟨a, s', enough, run, post a ha⟩

theorem settles_post (h : Settles x Q) (post : ∀ a, Q a → Q' a) : Settles x Q' :=
  fun s => settlesAt_mono (h s) post

theorem settlesAt_bind {f : Nat → α → StateT σ (Except ε) β} {s : σ} (hx : SettlesAt x s Q)
    (hf : ∀ a s', Q a → SettlesAt (fun fuel => f fuel a) s' R) :
    SettlesAt (fun fuel => x fuel >>= f fuel) s R := by
  obtain ⟨a, s', enough, run, ha⟩ := hx
  obtain ⟨b, s'', enough', run', hb⟩ := hf a s' ha
  refine ⟨b, s'', max enough enough', fun fuel le => ?_, hb⟩
  change (x fuel s).bind (fun p => f fuel p.1 p.2) = .ok (b, s'')
  rw [run fuel (by omega)]
  exact run' fuel (by omega)

theorem settles_bind {f : Nat → α → StateT σ (Except ε) β} (hx : Settles x Q)
    (hf : ∀ a, Q a → Settles (fun fuel => f fuel a) R) :
    Settles (fun fuel => x fuel >>= f fuel) R :=
  fun s => settlesAt_bind (hx s) fun a s' ha => hf a ha s'

/-- A loop takes a turn. -/
theorem settles_succ (turn : Settles (fun fuel => x (fuel + 1)) Q) : Settles x Q := by
  intro s
  obtain ⟨a, s', enough, run, ha⟩ := turn s
  refine ⟨a, s', enough + 1, fun fuel le => ?_, ha⟩
  obtain ⟨fuel, rfl⟩ := Nat.exists_eq_succ_of_ne_zero (n := fuel) (by omega)
  exact run fuel (by omega)

/-- A turn of a loop that is the last one. -/
theorem settlesAt_done {s s' : σ} {a : α} (turn : ∀ fuel, x (fuel + 1) s = .ok (a, s'))
    (ha : Q a) : SettlesAt x s Q := by
  refine ⟨a, s', 1, fun fuel le => ?_, ha⟩
  obtain ⟨fuel, rfl⟩ := Nat.exists_eq_succ_of_ne_zero (n := fuel) (by omega)
  exact turn fuel

/-- A turn of a loop after which it goes on. -/
theorem settlesAt_turn {y : Nat → StateT σ (Except ε) α} {s s' : σ}
    (turn : ∀ fuel, x (fuel + 1) s = y fuel s') (rest : SettlesAt y s' Q) : SettlesAt x s Q := by
  obtain ⟨a, s'', enough, run, ha⟩ := rest
  refine ⟨a, s'', enough + 1, fun fuel le => ?_, ha⟩
  obtain ⟨fuel, rfl⟩ := Nat.exists_eq_succ_of_ne_zero (n := fuel) (by omega)
  rw [turn]
  exact run fuel (by omega)

theorem settles_foldlM {l : List β} {f : Nat → α → β → StateT σ (Except ε) α}
    (I : List β → α → Prop) {a : α} (start : I [] a)
    (step : ∀ done b rest a, l = done ++ b :: rest → I done a →
      Settles (fun fuel => f fuel a b) (I (done ++ [b]))) :
    Settles (fun fuel => l.foldlM (f fuel) a) (I l) := by
  suffices h : ∀ done rest a, l = done ++ rest → I done a →
      Settles (fun fuel => rest.foldlM (f fuel) a) (I l) from h [] l a rfl start
  intro done rest
  induction rest generalizing done with
  | nil =>
    intro a hl ha
    rw [List.append_nil] at hl
    simp only [List.foldlM_nil]
    exact settles_pure (hl ▸ ha)
  | cons b rest ih =>
    intro a hl ha
    simp only [List.foldlM_cons]
    exact settles_bind (step done b rest a hl ha) fun a => ih (done ++ [b]) a (by simp [hl])

/-! ## More fuel -/

/-- `y` ends as `x` does, if `x` ends with a value. -/
def Extends (x y : StateT σ (Except ε) α) : Prop := ∀ s v, x s = .ok v → y s = .ok v

theorem extends_refl (x : StateT σ (Except ε) α) : Extends x x := fun _ _ run => run

theorem extends_bind {x y : StateT σ (Except ε) α} {f g : α → StateT σ (Except ε) β}
    (hx : Extends x y) (hf : ∀ a, Extends (f a) (g a)) : Extends (x >>= f) (y >>= g) := by
  intro s v run
  change (x s).bind (fun p => f p.1 p.2) = .ok v at run
  cases first : x s with
  | error e =>
    rw [first] at run
    cases run
  | ok p =>
    rw [first] at run
    rw [bind_run (hx s p first)]
    exact hf p.1 p.2 v run

theorem extends_ite {c : Prop} [Decidable c] {x x' y y' : StateT σ (Except ε) α}
    (hx : Extends x x') (hy : Extends y y') :
    Extends (if c then x else y) (if c then x' else y') := by
  split
  · exact hx
  · exact hy

theorem extends_foldlM {f g : α → β → StateT σ (Except ε) α} (l : List β)
    (step : ∀ a b, Extends (f a b) (g a b)) (a : α) : Extends (l.foldlM f a) (l.foldlM g a) := by
  induction l generalizing a with
  | nil => exact extends_refl _
  | cons b l ih =>
    rw [List.foldlM_cons, List.foldlM_cons]
    exact extends_bind (step a b) ih

/-- A value that comes with some fuel is the one that comes with enough. -/
theorem settles_value (h : Settles x Q) (more : ∀ fuel, Extends (x fuel) (x (fuel + 1)))
    {fuel : Nat} {s s' : σ} {a : α} (run : x fuel s = .ok (a, s')) : Q a := by
  obtain ⟨b, s'', enough, all, hb⟩ := h s
  have later : ∀ n, x (fuel + n) s = .ok (a, s') := by
    intro n
    induction n with
    | zero => exact run
    | succ n ih => exact more _ s _ ih
  have same := later enough
  rw [all _ (Nat.le_add_left enough fuel)] at same
  cases same
  exact hb

end Fuel
