import Mathlib.Data.List.Basic

/-!
# Programs whose state outlives an exception

An exception of such a program leaves the state as it was when it was raised, so that a
handler goes on from there. Every run adds to a history: `Grows E x Q` holds when the
events that any run of `x` adds take its first state to its last one by `E`, and the
result and these events meet `Q`.
-/

namespace Effects

variable {ε σ κ α β : Type}

/-- The result of a run from `s`, with the last state. -/
def runFrom (x : ExceptT ε (StateM σ) α) (s : σ) : Except ε α × σ := x.run.run s

theorem runFrom_modify (f : σ → σ) (s : σ) :
    runFrom (modify f : ExceptT ε (StateM σ) PUnit) s = (.ok ⟨⟩, f s) := rfl

theorem runFrom_bind (x : ExceptT ε (StateM σ) α) (f : α → ExceptT ε (StateM σ) β) (s : σ) :
    runFrom (x >>= f) s = match runFrom x s with
      | (.ok a, s') => runFrom (f a) s'
      | (.error e, s') => (.error e, s') := by
  rcases h : runFrom x s with ⟨r, s'⟩
  change ((x s).1 |> ExceptT.bindCont f) (x s).2 = _
  have first : x s = (r, s') := h
  rw [first]
  cases r <;> rfl

theorem runFrom_tryCatch (x : ExceptT ε (StateM σ) α) (h : ε → ExceptT ε (StateM σ) α) (s : σ) :
    runFrom (tryCatch x h) s = match runFrom x s with
      | (.ok a, s') => (.ok a, s')
      | (.error e, s') => runFrom (h e) s' := by
  rcases first : runFrom x s with ⟨r, s'⟩
  have first : x s = (r, s') := first
  change (match (x s).1 with
    | .ok a => pure (.ok a)
    | .error e => h e : StateM σ (Except ε α)) (x s).2 = _
  rw [first]
  cases r <;> rfl

/-- Every run of `x` adds events that `E` allows, and `P` holds of its value, if it ends with
one, and these events. -/
def Grows (E : σ → List κ → σ → Prop) (x : ExceptT ε (StateM σ) α) (P : α → List κ → Prop) :
    Prop :=
  ∀ s, ∃ new, E s new (runFrom x s).2 ∧ ∀ a, (runFrom x s).1 = .ok a → P a new

/-- Steps that compose as their events do. -/
structure History (E : σ → List κ → σ → Prop) : Prop where
  refl (s : σ) : E s [] s
  trans (s t u : σ) (new later : List κ) : E s new t → E t later u → E s (new ++ later) u

section
variable {E E' : σ → List κ → σ → Prop} {x : ExceptT ε (StateM σ) α} {P P' : α → List κ → Prop}

theorem grows_pure (history : History E) {a : α} (h : P a []) :
    Grows E (pure a : ExceptT ε (StateM σ) α) P :=
  fun s => ⟨[], history.refl s, fun _ value => Except.ok.inj value ▸ h⟩

theorem grows_throw (history : History E) {e : ε} :
    Grows E (throw e : ExceptT ε (StateM σ) α) P :=
  fun s => ⟨[], history.refl s, fun _ value => nomatch value⟩

theorem grows_get (history : History E) {P : σ → List κ → Prop} (h : ∀ s, P s []) :
    Grows E (get : ExceptT ε (StateM σ) σ) P :=
  fun s => ⟨[], history.refl s, fun a _ => h a⟩

theorem grows_post (h : Grows E x P) (post : ∀ a new, P a new → P' a new) : Grows E x P' := by
  intro s
  obtain ⟨new, step, value⟩ := h s
  exact ⟨new, step, fun a ha => post a new (value a ha)⟩

/-- What the steps tell of their events is known of the value too. -/
theorem grows_mono {K : List κ → Prop} (h : Grows E x P)
    (weaken : ∀ s new t, E s new t → E' s new t ∧ K new) :
    Grows E' x fun a new => P a new ∧ K new := by
  intro s
  obtain ⟨new, step, value⟩ := h s
  obtain ⟨step, known⟩ := weaken _ _ _ step
  exact ⟨new, step, fun a ha => ⟨value a ha, known⟩⟩

theorem grows_bind (history : History E) {f : α → ExceptT ε (StateM σ) β}
    {R : β → List κ → Prop} (hx : Grows E x P)
    (hf : ∀ a new, P a new → Grows E (f a) fun b later => R b (new ++ later)) :
    Grows E (x >>= f) R := by
  intro s
  obtain ⟨new, step, value⟩ := hx s
  rw [runFrom_bind]
  rcases h : runFrom x s with ⟨r, s'⟩
  rw [h] at step value
  cases r with
  | error e => exact ⟨new, step, fun _ value => nomatch value⟩
  | ok a =>
    obtain ⟨later, step', value'⟩ := hf a new (value a rfl) s'
    exact ⟨new ++ later, history.trans _ _ _ _ _ step step', value'⟩

theorem grows_tryCatch (history : History E) {h : ε → ExceptT ε (StateM σ) α}
    (hx : Grows E x P) (handler : ∀ e new, Grows E (h e) fun a later => P a (new ++ later)) :
    Grows E (tryCatch x h) P := by
  intro s
  obtain ⟨new, step, value⟩ := hx s
  rw [runFrom_tryCatch]
  rcases first : runFrom x s with ⟨r, s'⟩
  rw [first] at step value
  cases r with
  | ok a => exact ⟨new, step, value⟩
  | error e =>
    obtain ⟨later, step', value'⟩ := handler e new s'
    exact ⟨new ++ later, history.trans _ _ _ _ _ step step', value'⟩

theorem grows_map (history : History E) {f : α → β} {R : β → List κ → Prop} (hx : Grows E x P)
    (h : ∀ a new, P a new → R (f a) new) : Grows E (f <$> x) R := by
  rw [← bind_pure_comp]
  apply grows_bind history hx
  intro a new ha
  apply grows_pure history
  simpa using h a new ha

end

/-! ## Watching a program

A program is watched by another that does the same and keeps a record beside the state. -/

section

variable {x : ExceptT ε (StateM σ) α} {y : ExceptT ε (StateM (σ × κ)) α}

/-- What the program does, and a note of the value it gives. -/
def noting (x : ExceptT ε (StateM σ) α) (note : α → κ → κ) : ExceptT ε (StateM (σ × κ)) α :=
  ExceptT.mk fun s =>
    match runFrom x s.1 with
    | (.ok a, s') => (.ok a, s', note a s.2)
    | (.error e, s') => (.error e, s', s.2)

theorem runFrom_noting (x : ExceptT ε (StateM σ) α) (note : α → κ → κ) (s : σ) (k : κ) :
    runFrom (noting x note) (s, k) = match runFrom x s with
      | (.ok a, s') => (.ok a, s', note a k)
      | (.error e, s') => (.error e, s', k) := rfl

/-- Without its record, `y` is `x`. -/
def Watches (y : ExceptT ε (StateM (σ × κ)) α) (x : ExceptT ε (StateM σ) α) : Prop :=
  ∀ s k, ((runFrom y (s, k)).1, (runFrom y (s, k)).2.1) = runFrom x s

theorem noting_watches (x : ExceptT ε (StateM σ) α) (note : α → κ → κ) :
    Watches (noting x note) x := by
  intro s k
  rw [runFrom_noting]
  rcases runFrom x s with ⟨r, s'⟩
  cases r <;> rfl

theorem pure_watches (a : α) :
    Watches (pure a : ExceptT ε (StateM (σ × κ)) α) (pure a) := fun _ _ => rfl

theorem Watches.bind {f : α → ExceptT ε (StateM σ) β} {g : α → ExceptT ε (StateM (σ × κ)) β}
    (first : Watches y x) (next : ∀ a, Watches (g a) (f a)) : Watches (y >>= g) (x >>= f) := by
  intro s k
  have same := first s k
  rw [runFrom_bind, runFrom_bind, ← same]
  rcases runFrom y (s, k) with ⟨r, s', k'⟩
  cases r with
  | error e => rfl
  | ok a => exact next a s' k'

/-- From a record that `P` holds of, every run leaves one that `Q` holds of with its value,
or `E` after an exception. -/
def Records (P : κ → Prop) (y : ExceptT ε (StateM (σ × κ)) α) (Q : α → κ → Prop)
    (E : κ → Prop) : Prop :=
  ∀ s k, P k → match runFrom y (s, k) with
    | (.ok a, s') => Q a s'.2
    | (.error _, s') => E s'.2

variable {P : κ → Prop} {Q : α → κ → Prop} {E : κ → Prop}

theorem records_pure {a : α} (h : ∀ k, P k → Q a k) :
    Records P (pure a : ExceptT ε (StateM (σ × κ)) α) Q E := fun _ k known => h k known

theorem records_noting {note : α → κ → κ} (value : ∀ a k, P k → Q a (note a k))
    (exception : ∀ k, P k → E k) : Records P (noting x note) Q E := by
  intro s k known
  rw [runFrom_noting]
  rcases runFrom x s with ⟨r, s'⟩
  cases r with
  | error e => exact exception k known
  | ok a => exact value a k known

theorem Records.bind {f : α → ExceptT ε (StateM (σ × κ)) β} {R : β → κ → Prop}
    (first : Records P y Q E) (next : ∀ a, Records (Q a) (f a) R E) :
    Records P (y >>= f) R E := by
  intro s k known
  have value := first s k known
  rw [runFrom_bind]
  rcases run : runFrom y (s, k) with ⟨r, s', k'⟩
  rw [run] at value
  cases r with
  | error e => exact value
  | ok a => exact next a s' k' value

end

end Effects
