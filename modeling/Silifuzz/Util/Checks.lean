import Silifuzz.Library.Triples

/-!
# Status and CHECK

How a function ends without a value (`util/checks.h`): a failed `CHECK` aborts the
process, anything else is a returned `absl::Status`, an `InvalidArgumentError` where
nothing else is said. `Settles` is the rule set for both.
-/

namespace Silifuzz

open Triples

inductive Stop where
  | abort
  | status (message : String)
  deriving DecidableEq, Repr

/-- `absl::StatusOr`, `absl::Status` for `Checked Unit`. -/
abbrev Checked := Except Stop

namespace Checked

variable {α β : Type}

def invalidArgument (message : String) : Checked α := .error (.status message)

/-- `RETURN_IF_NOT_OK(InvalidArgumentError(message))` unless `ok`. -/
def ensure (ok : Bool) (message : String) : Checked Unit :=
  if ok then .ok () else invalidArgument message

/-- The value of a function that only a failed `CHECK` stops. -/
def orAbort : Option α → Checked α
  | some a => .ok a
  | none => .error .abort

/-- A value that `message` is returned without. -/
def orStatus (message : String) : Option α → Checked α
  | some a => .ok a
  | none => invalidArgument message

/-- `RETURN_IF_NOT_OK_PLUS`. -/
def plus (messagePrefix : String) : Checked α → Checked α
  | .error (.status message) => .error (.status (messagePrefix ++ message))
  | x => x

/-- `status.ok()`. -/
def isOk : Checked Unit → Checked Bool
  | .ok () => .ok true
  | .error (.status _) => .ok false
  | .error .abort => .error .abort

@[simp] theorem ok_bind (a : α) (f : α → Checked β) : (Except.ok a : Checked α) >>= f = f a := rfl

@[simp] theorem error_bind (e : Stop) (f : α → Checked β) :
    (Except.error e : Checked α) >>= f = .error e := rfl

@[simp] theorem pure_ok (a : α) : (pure a : Checked α) = .ok a := rfl

@[simp] theorem plus_ok (a : α) (message : String) :
    plus message (Except.ok a : Checked α) = .ok a := rfl

/-- Nothing aborts, and a returned value is one of `Q`. -/
def Settles (x : Checked α) (Q : α → Prop) : Prop := Yields x Q (· ≠ .abort)

variable {x : Checked α} {Q Q' : α → Prop} {R : β → Prop} {message : String}

theorem settles_ok {a : α} (h : Q a) : Settles (.ok a) Q := h

theorem settles_status (message : String) (Q : α → Prop) :
    Settles (invalidArgument message) Q := by
  simp [Settles, Yields, invalidArgument]

theorem settles_bind {f : α → Checked β} (hx : Settles x Q) (hf : ∀ a, Q a → Settles (f a) R) :
    Settles (x >>= f) R := yields_bind hx hf

theorem settles_post (h : Settles x Q) (post : ∀ a, Q a → Q' a) : Settles x Q' :=
  yields_post h post

theorem settles_ensure {ok : Bool} {Q : Unit → Prop} (h : ok = true → Q ()) :
    Settles (ensure ok message) Q := by
  cases ok with
  | true => exact h rfl
  | false => exact settles_status message Q

theorem settles_orAbort {o : Option α} {a : α} (some : o = some a) (h : Q a) :
    Settles (orAbort o) Q := by
  subst some
  exact h

theorem settles_orStatus {o : Option α} (h : ∀ a, o = some a → Q a) :
    Settles (orStatus message o) Q := by
  cases o with
  | none => exact settles_status message Q
  | some a => exact h a rfl

theorem settles_plus (h : Settles x Q) : Settles (plus message x) Q := by
  cases x with
  | ok a => exact h
  | error e =>
    cases e with
    | abort => exact absurd rfl h
    | status m => simp [Settles, Yields, plus]

theorem settles_isOk {x : Checked Unit} {Q : Unit → Prop} (h : Settles x Q) :
    Settles (isOk x) fun b => b = true → Q () := by
  cases x with
  | ok a => exact fun _ => h
  | error e =>
    cases e with
    | abort => exact absurd rfl h
    | status m => simp [Settles, Yields, isOk]

theorem settles_foldlM {l : List β} {f : α → β → Checked α} (I : List β → α → Prop) {a : α}
    (start : I [] a)
    (step : ∀ done b rest a, l = done ++ b :: rest → I done a →
      Settles (f a b) (I (done ++ [b]))) :
    Settles (l.foldlM f a) (I l) := yields_foldlM I start step

/-- A loop all of whose turns succeed. -/
theorem foldlM_ok {l : List β} {f : α → β → Checked α} (I : List β → α → Prop) {a : α}
    (start : I [] a)
    (step : ∀ done b rest a, l = done ++ b :: rest → I done a →
      ∃ a', f a b = .ok a' ∧ I (done ++ [b]) a') :
    ∃ a', l.foldlM f a = .ok a' ∧ I l a' := by
  apply yields_ok
  apply yields_foldlM I start
  intro done b rest a hl ha
  obtain ⟨a', run, ha'⟩ := step done b rest a hl ha
  rw [run]
  exact ha'

/-- What a loop that has succeeded leaves behind. -/
theorem foldlM_after {l : List β} {f : α → β → Checked α} (I : List β → α → Prop) {a a' : α}
    (start : I [] a)
    (step : ∀ done b rest a a', l = done ++ b :: rest → I done a → f a b = .ok a' →
      I (done ++ [b]) a')
    (run : l.foldlM f a = .ok a') : I l a' := by
  refine yields_value (E := fun _ => True) (yields_foldlM I start ?_) run
  intro done b rest a hl ha
  cases turn : f a b with
  | error e => trivial
  | ok a' => exact step done b rest a a' hl ha turn

/-- A loop that counts, all of whose turns succeed. -/
theorem range_ok {n : Nat} {f : α → Nat → Checked α} (I : Nat → α → Prop) {a : α} (start : I 0 a)
    (step : ∀ k < n, ∀ a, I k a → ∃ a', f a k = .ok a' ∧ I (k + 1) a') :
    ∃ a', (List.range n).foldlM f a = .ok a' ∧ I n a' := by
  apply yields_ok
  apply yields_range I start
  intro k below a ha
  obtain ⟨a', run, ha'⟩ := step k below a ha
  rw [run]
  exact ha'

/-- What a loop that counts leaves behind. -/
theorem range_after {n : Nat} {f : α → Nat → Checked α} (I : Nat → α → Prop) {a a' : α}
    (start : I 0 a) (step : ∀ k < n, ∀ a a', I k a → f a k = .ok a' → I (k + 1) a')
    (run : (List.range n).foldlM f a = .ok a') : I n a' := by
  refine yields_value (E := fun _ => True) (yields_range I start ?_) run
  intro k below a ha
  cases turn : f a k with
  | error e => trivial
  | ok a' => exact step k below a a' ha turn

/-- A loop whose turns succeed under the condition `C`: when it has, each turn had met it. -/
theorem foldlM_conditions {l : List β} {f : α → β → Checked α} (I : List β → α → Prop)
    (C : List β → β → Prop) {a a' : α} (start : I [] a)
    (turn : ∀ done b rest a a', l = done ++ b :: rest → I done a → f a b = .ok a' →
      C done b ∧ I (done ++ [b]) a')
    (run : l.foldlM f a = .ok a') : I l a' ∧ ∀ done b rest, l = done ++ b :: rest → C done b := by
  refine foldlM_after (fun done a => I done a ∧ ∀ d b r, done = d ++ b :: r → C d b)
    ⟨start, by simp⟩ ?_ run
  rintro done b rest a a' hl ⟨ha, met⟩ step
  obtain ⟨condition, ha'⟩ := turn done b rest a a' hl ha step
  refine ⟨ha', fun d c r eq => ?_⟩
  rcases List.eq_nil_or_concat r with rfl | ⟨r', x, rfl⟩
  · obtain ⟨rfl, same⟩ := List.append_inj' eq rfl
    obtain rfl : b = c := by simpa using same
    exact condition
  · have cut : done ++ [b] = (d ++ c :: r') ++ [x] := by simpa using eq
    exact met d c r' (List.append_inj' cut rfl).1

theorem settles_mapM {l : List α} {f : α → Checked β} {R : α → β → Prop}
    (step : ∀ a ∈ l, Settles (f a) (R a)) : Settles (l.mapM f) (List.Forall₂ R l) :=
  yields_mapM step

/-- The value is also the one that was returned. -/
theorem settles_self (h : Settles x Q) : Settles x fun a => x = .ok a ∧ Q a := by
  cases x with
  | ok a => exact ⟨rfl, h⟩
  | error e => exact h

theorem settles_ne_abort (h : Settles x Q) : x ≠ .error .abort := by
  rintro rfl
  exact h rfl

/-- Without an abort, `Settles` says what a returned value is. -/
theorem settles_iff : Settles x Q ↔ x ≠ .error .abort ∧ ∀ a, x = .ok a → Q a := by
  cases x with
  | ok a => simp [Settles, Yields]
  | error e => simp [Settles, Yields]

@[simp] theorem ensure_eq_ok {ok : Bool} {u : Unit} : ensure ok message = .ok u ↔ ok = true := by
  cases ok with
  | true => simp [ensure]
  | false => simp [ensure, invalidArgument]

@[simp] theorem orAbort_eq_ok {o : Option α} {a : α} : orAbort o = .ok a ↔ o = some a := by
  cases o with
  | none => simp [orAbort]
  | some b => simp [orAbort]

@[simp] theorem orStatus_eq_ok {o : Option α} {a : α} :
    orStatus message o = .ok a ↔ o = some a := by
  cases o with
  | none => simp [orStatus, invalidArgument]
  | some b => simp [orStatus]

@[simp] theorem plus_eq_ok {a : α} : plus message x = .ok a ↔ x = .ok a := by
  cases x with
  | ok b => rfl
  | error e => cases e <;> simp [plus]

theorem bind_eq_ok {f : α → Checked β} {b : β} :
    x >>= f = .ok b ↔ ∃ a, x = .ok a ∧ f a = .ok b := by
  cases x with
  | ok a => simp [bind, Except.bind]
  | error e => simp [bind, Except.bind]

/-- A loop of checks passes when each of them does. -/
theorem forM_eq_ok {l : List α} {f : α → Checked Unit} :
    l.forM f = .ok () ↔ ∀ a ∈ l, f a = .ok () := by
  induction l with
  | nil => simp [List.forM]
  | cons a l ih =>
    rw [List.forall_mem_cons, ← ih]
    refine bind_eq_ok.trans ?_
    constructor
    · rintro ⟨_, first, rest⟩
      exact ⟨first, rest⟩
    · rintro ⟨first, rest⟩
      exact ⟨(), first, rest⟩

theorem exists_ok (h : x.toOption.isSome = true) : ∃ a, x = .ok a := by
  cases x with
  | ok a => exact ⟨a, rfl⟩
  | error e => cases h

theorem bind_eq_abort {f : α → Checked β} :
    x >>= f = .error .abort ↔ x = .error .abort ∨ ∃ a, x = .ok a ∧ f a = .error .abort := by
  cases x with
  | ok a => simp [bind, Except.bind]
  | error e => simp [bind, Except.bind]

theorem isOk_true {x : Checked Unit} (h : isOk x = .ok true) : x = .ok () := by
  cases x with
  | ok a => rfl
  | error e => cases e <;> simp [isOk] at h

theorem isOk_eq_ok {x : Checked Unit} (h : x ≠ .error .abort) :
    isOk x = .ok (decide (x = .ok ())) := by
  cases x with
  | ok a => rfl
  | error e =>
    cases e with
    | abort => exact absurd rfl h
    | status m => simp [isOk]

end Checked

end Silifuzz
