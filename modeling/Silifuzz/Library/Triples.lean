import Mathlib.Data.List.Forall2

/-!
# Programs that may stop

A program that may stop with an error is an `Except`, and one with a state a
`StateT` over it. `Yields x Q E` and `Triple P x Q E` are total: the program ends,
either with a value (and a state) that `Q` allows, or stopped by an error that `E`
allows. The rules follow the shape of the program; a loop over a list has an
invariant over the elements it has passed.
-/

namespace Triples

variable {ε σ α β : Type}

def Yields (x : Except ε α) (Q : α → Prop) (E : ε → Prop) : Prop :=
  match x with
  | .ok a => Q a
  | .error e => E e

section
variable {Q Q' : α → Prop} {R : β → Prop} {E E' : ε → Prop} {x : Except ε α}

theorem yields_pure {a : α} (h : Q a) : Yields (pure a) Q E := h

theorem yields_bind {f : α → Except ε β} (hx : Yields x Q E) (hf : ∀ a, Q a → Yields (f a) R E) :
    Yields (x >>= f) R E := by
  cases x with
  | error e => exact hx
  | ok a => exact hf a hx

theorem yields_mono (h : Yields x Q E) (post : ∀ a, Q a → Q' a) (stop : ∀ e, E e → E' e) :
    Yields x Q' E' := by
  cases x with
  | error e => exact stop e h
  | ok a => exact post a h

theorem yields_post (h : Yields x Q E) (post : ∀ a, Q a → Q' a) : Yields x Q' E :=
  yields_mono h post fun _ => id

/-- Without an error that is allowed there is a value. -/
theorem yields_ok (h : Yields x Q fun _ => False) : ∃ a, x = .ok a ∧ Q a := by
  cases x with
  | error e => exact h.elim
  | ok a => exact ⟨a, rfl, h⟩

theorem yields_value (h : Yields x Q E) {a : α} (run : x = .ok a) : Q a := by
  rw [run] at h
  exact h

/-- The rule for a loop that carries a value through a list. -/
theorem yields_foldlM {l : List β} {f : α → β → Except ε α} (I : List β → α → Prop) {a : α}
    (start : I [] a)
    (step : ∀ done b rest a, l = done ++ b :: rest → I done a →
      Yields (f a b) (I (done ++ [b])) E) :
    Yields (l.foldlM f a) (I l) E := by
  suffices h : ∀ done rest a, l = done ++ rest → I done a → Yields (rest.foldlM f a) (I l) E from
    h [] l a rfl start
  intro done rest
  induction rest generalizing done with
  | nil =>
    intro a hl ha
    rw [List.append_nil] at hl
    exact hl ▸ ha
  | cons b rest ih =>
    intro a hl ha
    rw [List.foldlM_cons]
    exact yields_bind (step done b rest a hl ha) fun a ha => ih (done ++ [b]) a (by simp [hl]) ha

/-- The rule for a loop that counts. -/
theorem yields_range {n : Nat} {f : α → Nat → Except ε α} (I : Nat → α → Prop) {a : α}
    (start : I 0 a) (step : ∀ k < n, ∀ a, I k a → Yields (f a k) (I (k + 1)) E) :
    Yields ((List.range n).foldlM f a) (I n) E := by
  induction n with
  | zero => exact start
  | succ n ih =>
    rw [List.range_succ, List.foldlM_append]
    refine yields_bind (ih fun k below => step k (Nat.lt_succ_of_lt below)) fun a ha => ?_
    exact yields_bind (step n (Nat.lt_succ_self n) a ha) fun _ => id

/-- The rule for a loop that turns each element into one of a new list. -/
theorem yields_mapM {l : List α} {f : α → Except ε β} {R : α → β → Prop}
    (step : ∀ a ∈ l, Yields (f a) (R a) E) : Yields (l.mapM f) (List.Forall₂ R l) E := by
  induction l with
  | nil => exact .nil
  | cons a l ih =>
    rw [List.mapM_cons]
    refine yields_bind (step a (by simp)) fun b hb => ?_
    exact yields_bind (ih fun x hx => step x (by simp [hx])) fun bs hbs => .cons hb hbs

end

def Triple (P : σ → Prop) (x : StateT σ (Except ε) α) (Q : α → σ → Prop) (E : ε → Prop) : Prop :=
  ∀ s, P s → match x s with
    | .ok (a, s') => Q a s'
    | .error e => E e

/-- A run whose first part is known goes on with the rest. -/
theorem bind_run {x : StateT σ (Except ε) α} {s s' : σ} {a : α} (h : x s = .ok (a, s'))
    (f : α → StateT σ (Except ε) β) : (x >>= f) s = f a s' := by
  change (x s).bind (fun p => f p.1 p.2) = f a s'
  rw [h]
  rfl

/-- A run whose first part stops is stopped. -/
theorem bind_error {x : StateT σ (Except ε) α} {s : σ} {e : ε} (h : x s = .error e)
    (f : α → StateT σ (Except ε) β) : (x >>= f) s = .error e := by
  change (x s).bind (fun p => f p.1 p.2) = .error e
  rw [h]
  rfl

/-- A run that ends went through its first part. -/
theorem bind_ok {x : StateT σ (Except ε) α} {f : α → StateT σ (Except ε) β} {s s'' : σ} {b : β}
    (h : (x >>= f) s = .ok (b, s'')) : ∃ a s', x s = .ok (a, s') ∧ f a s' = .ok (b, s'') := by
  cases first : x s with
  | error e =>
    rw [bind_error first] at h
    cases h
  | ok p => exact ⟨p.1, p.2, rfl, (bind_run first f).symm.trans h⟩

theorem lift_ok {x : Except ε α} {s s' : σ} {a : α}
    (h : (liftM x : StateT σ (Except ε) α) s = .ok (a, s')) : x = .ok a ∧ s' = s := by
  cases x with
  | error e => cases h
  | ok b =>
    cases h
    exact ⟨rfl, rfl⟩

theorem lift_bind_run {x : Except ε α} {a : α} (h : x = .ok a)
    (f : α → StateT σ (Except ε) β) (s : σ) : ((liftM x : StateT σ (Except ε) α) >>= f) s = f a s := by
  subst h
  rfl

variable {P P' : σ → Prop} {Q Q' : α → σ → Prop} {R : β → σ → Prop} {E E' : ε → Prop}
  {x : StateT σ (Except ε) α}

theorem triple_pure {a : α} (h : ∀ s, P s → Q a s) : Triple P (pure a) Q E :=
  fun s hs => h s hs

theorem triple_throw {e : ε} (h : E e) : Triple P (throw e : StateT σ (Except ε) α) Q E :=
  fun _ _ => h

theorem triple_bind {f : α → StateT σ (Except ε) β} (hx : Triple P x Q E)
    (hf : ∀ a, Triple (Q a) (f a) R E) : Triple P (x >>= f) R E := by
  intro s hs
  have first := hx s hs
  change match (x s).bind fun p => f p.1 p.2 with
    | .ok (b, s') => R b s'
    | .error e => E e
  cases h : x s with
  | error e =>
    rw [h] at first
    exact first
  | ok p =>
    rw [h] at first
    exact hf p.1 p.2 first

/-- A program without a state leaves the state alone. -/
theorem triple_lift {y : Except ε α} {Q : α → Prop} (h : Yields y Q E) :
    Triple P (liftM y : StateT σ (Except ε) α) (fun a s => Q a ∧ P s) E := by
  intro s hs
  cases y with
  | error e => exact h
  | ok a => exact ⟨h, hs⟩

theorem triple_mono (h : Triple P x Q E) (pre : ∀ s, P' s → P s)
    (post : ∀ a s, Q a s → Q' a s) (stop : ∀ e, E e → E' e) : Triple P' x Q' E' := by
  intro s hs
  have run := h s (pre s hs)
  cases hx : x s with
  | error e =>
    rw [hx] at run
    exact stop e run
  | ok p =>
    rw [hx] at run
    exact post p.1 p.2 run

theorem triple_post (h : Triple P x Q E) (post : ∀ a s, Q a s → Q' a s) : Triple P x Q' E :=
  triple_mono h (fun _ => id) post fun _ => id

theorem triple_pre (h : Triple P x Q E) (pre : ∀ s, P' s → P s) : Triple P' x Q E :=
  triple_mono h pre (fun _ _ => id) fun _ => id

/-- A precondition that does not speak of the state is a hypothesis. -/
theorem triple_given {p : Prop} (h : p → Triple P x Q E) :
    Triple (fun s => p ∧ P s) x Q E :=
  fun s hs => h hs.1 s hs.2

theorem triple_ite {c : Prop} [Decidable c] {y : StateT σ (Except ε) α}
    (hx : c → Triple P x Q E) (hy : ¬ c → Triple P y Q E) :
    Triple P (if c then x else y) Q E := by
  split
  · next h => exact hx h
  · next h => exact hy h

/-- The rule for a loop that carries a value through a list. -/
theorem triple_foldlM {l : List β} {f : α → β → StateT σ (Except ε) α}
    (I : List β → α → σ → Prop) {a : α}
    (step : ∀ done b rest a, l = done ++ b :: rest →
      Triple (I done a) (f a b) (I (done ++ [b])) E) :
    Triple (I [] a) (l.foldlM f a) (I l) E := by
  suffices h : ∀ done rest a, l = done ++ rest →
      Triple (I done a) (rest.foldlM f a) (I l) E from h [] l a rfl
  intro done rest
  induction rest generalizing done with
  | nil =>
    intro a hl
    rw [List.append_nil] at hl
    exact triple_pure fun s hs => hl ▸ hs
  | cons b rest ih =>
    intro a hl
    rw [List.foldlM_cons]
    exact triple_bind (step done b rest a hl) fun a => ih (done ++ [b]) a (by simp [hl])

/-- The rule for a loop that turns each element into one of a new list. -/
theorem triple_mapM {l : List α} {f : α → StateT σ (Except ε) β} {I : σ → Prop} {R : β → Prop}
    (step : ∀ a ∈ l, Triple I (f a) (fun b s => R b ∧ I s) E) :
    Triple I (l.mapM f) (fun bs s => (∀ b ∈ bs, R b) ∧ bs.length = l.length ∧ I s) E := by
  induction l with
  | nil =>
    rw [List.mapM_nil]
    exact triple_pure fun s hs => ⟨by simp, rfl, hs⟩
  | cons a l ih =>
    rw [List.mapM_cons]
    refine triple_bind (step a (by simp)) fun b => triple_given fun hb => ?_
    refine triple_bind (ih fun x hx => step x (by simp [hx])) fun bs => ?_
    refine triple_given fun hbs => triple_given fun hl => triple_pure fun s hs => ?_
    exact ⟨by simpa using ⟨hb, hbs⟩, by simp [hl], hs⟩

/-! ## Programs whose state does not matter -/

/-- The program ends with a value that `Q` allows or an error that `E` allows, from
every state. -/
def Surely (x : StateT σ (Except ε) α) (Q : α → Prop) (E : ε → Prop := fun _ => False) : Prop :=
  Triple (fun _ => True) x (fun a _ => Q a) E

section
variable {Q Q' : α → Prop} {R : β → Prop}

theorem surely_pure {a : α} (h : Q a) : Surely (pure a : StateT σ (Except ε) α) Q E :=
  triple_pure fun _ _ => h

theorem surely_throw {e : ε} (h : E e) : Surely (throw e : StateT σ (Except ε) α) Q E :=
  triple_throw h

theorem surely_bind {f : α → StateT σ (Except ε) β} (hx : Surely x Q E)
    (hf : ∀ a, Q a → Surely (f a) R E) : Surely (x >>= f) R E := by
  apply triple_bind hx
  intro a s ha
  exact hf a ha s trivial

theorem surely_lift {y : Except ε α} (h : Yields y Q E) :
    Surely (liftM y : StateT σ (Except ε) α) Q E :=
  triple_post (triple_lift h) fun _ _ h => h.1

theorem surely_lift_ok {y : Except ε α} (h : ∃ a, y = .ok a ∧ Q a) :
    Surely (liftM y : StateT σ (Except ε) α) Q E := by
  obtain ⟨a, rfl, ha⟩ := h
  exact surely_lift ha

theorem surely_post (h : Surely x Q E) (post : ∀ a, Q a → Q' a) : Surely x Q' E :=
  triple_post h fun a _ => post a

theorem surely_ite {c : Prop} [Decidable c] {y : StateT σ (Except ε) α} (hx : c → Surely x Q E)
    (hy : ¬ c → Surely y Q E) : Surely (if c then x else y) Q E :=
  triple_ite hx hy

theorem surely_modifyGet {f : σ → α × σ} (h : ∀ s, Q (f s).1) :
    Surely (modifyGet f : StateT σ (Except ε) α) Q E :=
  fun s _ => h s

theorem surely_ok (h : Surely x Q) (s : σ) : ∃ a s', x s = .ok (a, s') ∧ Q a := by
  have run := h s trivial
  cases hx : x s with
  | error e =>
    rw [hx] at run
    exact run.elim
  | ok p =>
    rw [hx] at run
    exact ⟨p.1, p.2, rfl, run⟩

/-- What a run that has ended with a value tells. -/
theorem surely_value (h : Surely x Q E) {s s' : σ} {a : α} (run : x s = .ok (a, s')) : Q a := by
  have post := h s trivial
  rw [run] at post
  exact post

theorem surely_any (x : StateT σ (Except ε) α) : Surely x (fun _ => True) (fun _ => True) := by
  intro s _
  cases x s <;> trivial

theorem surely_and (h : Surely x Q E) (h' : Surely x Q' (fun _ => True)) :
    Surely x (fun a => Q a ∧ Q' a) E := by
  intro s hs
  have first := h s hs
  have second := h' s hs
  cases hx : x s with
  | error e =>
    rw [hx] at first
    exact first
  | ok p =>
    rw [hx] at first second
    exact ⟨first, second⟩

theorem surely_mapM {l : List α} {f : α → StateT σ (Except ε) β}
    (step : ∀ a ∈ l, Surely (f a) R E) :
    Surely (l.mapM f) (fun bs => (∀ b ∈ bs, R b) ∧ bs.length = l.length) E :=
  triple_post (triple_mapM fun a ha => triple_post (step a ha) fun _ _ hb => ⟨hb, trivial⟩)
    fun _ _ h => ⟨h.1, h.2.1⟩

theorem surely_forall₂ {l : List α} {f : α → StateT σ (Except ε) β} {R : α → β → Prop}
    (step : ∀ a ∈ l, Surely (f a) (R a) E) : Surely (l.mapM f) (List.Forall₂ R l) E := by
  induction l with
  | nil => exact surely_pure .nil
  | cons a l ih =>
    rw [List.mapM_cons]
    apply surely_bind (step a (by simp))
    intro b hb
    apply surely_bind (ih fun x hx => step x (by simp [hx]))
    intro bs hbs
    exact surely_pure (.cons hb hbs)

theorem surely_foldlM {l : List β} {f : α → β → StateT σ (Except ε) α} (I : List β → α → Prop)
    {a : α} (start : I [] a)
    (step : ∀ done b rest a, l = done ++ b :: rest → I done a →
      Surely (f a b) (I (done ++ [b])) E) :
    Surely (l.foldlM f a) (I l) E :=
  triple_pre (triple_foldlM (fun done a _ => I done a) fun done b rest a hl s ha =>
    step done b rest a hl ha s trivial) fun _ _ => start

end

/-! ## Programs that leave the state alone -/

/-- The program ends with a value that `Q` allows, in the state it started from. -/
def Quietly (x : StateT σ (Except ε) α) (Q : α → Prop) : Prop := ∀ s, ∃ a, x s = .ok (a, s) ∧ Q a

section
variable {Q : α → Prop} {R : β → Prop}

theorem quietly_pure {a : α} (h : Q a) : Quietly (pure a : StateT σ (Except ε) α) Q :=
  fun _ => ⟨a, rfl, h⟩

theorem quietly_lift_ok {y : Except ε α} (h : ∃ a, y = .ok a ∧ Q a) :
    Quietly (liftM y : StateT σ (Except ε) α) Q := by
  obtain ⟨a, rfl, ha⟩ := h
  exact fun _ => ⟨a, rfl, ha⟩

theorem quietly_bind {f : α → StateT σ (Except ε) β} (hx : Quietly x Q)
    (hf : ∀ a, Q a → Quietly (f a) R) : Quietly (x >>= f) R := by
  intro s
  obtain ⟨a, run, ha⟩ := hx s
  rw [bind_run run]
  exact hf a ha s

theorem quietly_post {Q' : α → Prop} (h : Quietly x Q) (post : ∀ a, Q a → Q' a) :
    Quietly x Q' := by
  intro s
  obtain ⟨a, run, ha⟩ := h s
  exact ⟨a, run, post a ha⟩

theorem quietly_foldlM {l : List β} {f : α → β → StateT σ (Except ε) α} (I : List β → α → Prop)
    {a : α} (start : I [] a)
    (step : ∀ done b rest a, l = done ++ b :: rest → I done a →
      Quietly (f a b) (I (done ++ [b]))) :
    Quietly (l.foldlM f a) (I l) := by
  suffices h : ∀ done rest a, l = done ++ rest → I done a →
      Quietly (rest.foldlM f a) (I l) from h [] l a rfl start
  intro done rest
  induction rest generalizing done with
  | nil =>
    intro a hl ha
    rw [List.append_nil] at hl
    exact quietly_pure (hl ▸ ha)
  | cons b rest ih =>
    intro a hl ha
    rw [List.foldlM_cons]
    exact quietly_bind (step done b rest a hl ha) fun a => ih (done ++ [b]) a (by simp [hl])

end

/-! ## Programs that only check -/

/-- The program stops unless the condition holds, and leaves the state alone. -/
def Guards (x : StateT σ (Except ε) Unit) (s : σ) (c : Prop) : Prop :=
  (c → x s = .ok ((), s)) ∧ (¬ c → ∃ e, x s = .error e)

section
variable {x y : StateT σ (Except ε) Unit} {s : σ} {c d : Prop}

/-- Two checks one after the other, where the second relies on the first. -/
theorem Guards.seq (first : Guards x s c) (second : c → Guards y s d) :
    Guards (do x; y) s (c ∧ d) := by
  constructor
  · rintro ⟨hc, hd⟩
    exact (bind_run (first.1 hc) _).trans ((second hc).1 hd)
  · intro wrong
    by_cases hc : c
    · obtain ⟨e, run⟩ := (second hc).2 fun hd => wrong ⟨hc, hd⟩
      exact ⟨e, (bind_run (first.1 hc) _).trans run⟩
    · obtain ⟨e, run⟩ := first.2 hc
      exact ⟨e, bind_error run _⟩

theorem Guards.congr (h : Guards x s c) (same : d ↔ c) : Guards x s d :=
  ⟨fun hd => h.1 (same.mp hd), fun not => h.2 fun hc => not (same.mpr hc)⟩

end

/-! ## Two programs side by side -/

/-- Where `y` ends, `x` ends too, with states and values that belong together. -/
def Follows {τ : Type} (S : σ → τ → Prop) (x : StateT σ (Except ε) α)
    (y : StateT τ (Except ε) β) (R : α → β → Prop) : Prop :=
  ∀ s t, S s t → ∀ b t', y t = .ok (b, t') → ∃ a s', x s = .ok (a, s') ∧ R a b ∧ S s' t'

section

variable {τ γ δ : Type} {S : σ → τ → Prop} {R : α → β → Prop} {R' : γ → δ → Prop}

theorem follows_pure {a : α} {b : β} (h : R a b) :
    Follows S (pure a : StateT σ (Except ε) α) (pure b) R := by
  intro s t related b' t' run
  cases run
  exact ⟨a, s, rfl, h, related⟩

theorem follows_bind {x : StateT σ (Except ε) α} {y : StateT τ (Except ε) β}
    {f : α → StateT σ (Except ε) γ} {g : β → StateT τ (Except ε) δ} (hx : Follows S x y R)
    (hf : ∀ a b, R a b → Follows S (f a) (g b) R') : Follows S (x >>= f) (y >>= g) R' := by
  intro s t related b t' run
  obtain ⟨b₁, t₁, first, rest⟩ := bind_ok run
  obtain ⟨a₁, s₁, first', same, related₁⟩ := hx s t related b₁ t₁ first
  obtain ⟨a, s', rest', same', related'⟩ := hf a₁ b₁ same s₁ t₁ related₁ b t' rest
  exact ⟨a, s', (bind_run first' f).trans rest', same', related'⟩

/-- The same check or value on both sides. -/
theorem follows_lift {x : Except ε α} :
    Follows S (liftM x : StateT σ (Except ε) α) (liftM x) Eq := by
  intro s t related b t' run
  obtain ⟨rfl, rfl⟩ := lift_ok run
  exact ⟨b, s, rfl, rfl, related⟩

/-- What only one side does does not matter to the other. -/
theorem follows_idle {a : α} {y : StateT τ (Except ε) β}
    (h : ∀ t b t', y t = .ok (b, t') → R a b ∧ ∀ s, S s t → S s t') :
    Follows S (pure a : StateT σ (Except ε) α) y R := by
  intro s t related b t' run
  obtain ⟨same, keeps⟩ := h t b t' run
  exact ⟨a, s, rfl, same, keeps s related⟩

end

end Triples
