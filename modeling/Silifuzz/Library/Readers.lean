import Mathlib.Data.List.Basic

/-!
# Parsers that take from a source

A `Reader` asks how much is left and takes some of it. It runs on a sequence, and through
any source that can say how much is left. Where the source presents a sequence, both runs
come to the same end (`through_onSequence`), if the reader never takes more than there is
(`Bounded`).
-/

namespace Readers

inductive Reader (β ε α : Type) where
  | done (a : α)
  | fail (e : ε)
  | size (next : Nat → Reader β ε α)
  | read (n : Nat) (next : List β → Reader β ε α)

variable {β δ ε σ α α' : Type}

namespace Reader

def bind (f : α → Reader β ε α') : Reader β ε α → Reader β ε α'
  | done a => f a
  | fail e => fail e
  | size next => size fun n => (next n).bind f
  | read n next => read n fun taken => (next taken).bind f

instance : Monad (Reader β ε) where
  pure := done
  bind x f := x.bind f

/-- How much is left. -/
def left : Reader β ε Nat := size done

def take (n : Nat) : Reader β ε (List β) := read n done

/-- The end of a run on a sequence, with what is left of it; none if more is taken than there
is. -/
def onSequence : Reader β ε α → List β → Option (Except ε α × List β)
  | done a, l => some (.ok a, l)
  | fail e, l => some (.error e, l)
  | size next, l => (next l.length).onSequence l
  | read n next, l => if n ≤ l.length then (next (l.take n)).onSequence (l.drop n) else none

end Reader

/-- What a reader can ask of its source; a fault ends the run at once. -/
structure Source (β δ σ : Type) where
  size : σ → Nat
  read : Nat → σ → Except δ (List β × σ)

namespace Reader

def through (source : Source β δ σ) : Reader β ε α → σ → Except δ (Except ε α × σ)
  | done a, s => .ok (.ok a, s)
  | fail e, s => .ok (.error e, s)
  | size next, s => (next (source.size s)).through source s
  | read n next, s =>
    match source.read n s with
    | .ok (taken, s') => (next taken).through source s'
    | .error d => .error d

end Reader

/-- In a state that `R` relates to a sequence, the source has what the sequence has. -/
structure Source.Presents (source : Source β δ σ) (R : σ → List β → Prop) : Prop where
  size {s : σ} {l : List β} : R s l → source.size s = l.length
  read {s : σ} {l : List β} {n : Nat} : R s l → n ≤ l.length →
    ∃ s', source.read n s = .ok (l.take n, s') ∧ R s' (l.drop n)

namespace Reader

variable {p : Reader β ε α} {l rest : List β} {end' : Except ε α}

theorem through_onSequence {source : Source β δ σ} {R : σ → List β → Prop}
    (presents : source.Presents R) {s : σ} (related : R s l)
    (run : p.onSequence l = some (end', rest)) :
    ∃ s', p.through source s = .ok (end', s') ∧ R s' rest := by
  induction p generalizing s l with
  | done a =>
    cases run
    exact ⟨s, rfl, related⟩
  | fail e =>
    cases run
    exact ⟨s, rfl, related⟩
  | size next ih =>
    simp only [through, presents.size related]
    exact ih l.length related run
  | read n next ih =>
    simp only [onSequence] at run
    split at run
    · rename_i enough
      obtain ⟨s', taken, related'⟩ := presents.read related enough
      simp only [through, taken]
      exact ih (l.take n) related' run
    · cases run

/-- A run takes from the front. -/
theorem onSequence_suffix (run : p.onSequence l = some (end', rest)) : rest <:+ l := by
  induction p generalizing l with
  | done a =>
    cases run
    exact List.suffix_refl _
  | fail e =>
    cases run
    exact List.suffix_refl _
  | size next ih => exact ih l.length run
  | read n next ih =>
    simp only [onSequence] at run
    split at run
    · exact (ih (l.take n) run).trans (List.drop_suffix n l)
    · cases run

/-- No run on a sequence takes more than there is. -/
def Bounded (p : Reader β ε α) : Prop := ∀ l, ∃ end' rest, p.onSequence l = some (end', rest)

theorem onSequence_bind {f : α → Reader β ε α'} {a : α}
    (run : p.onSequence l = some (.ok a, rest)) :
    (p >>= f).onSequence l = (f a).onSequence rest := by
  induction p generalizing l with
  | done a =>
    cases run
    rfl
  | fail e => cases run
  | size next ih => exact ih l.length run
  | read n next ih =>
    change (if n ≤ l.length then ((next (l.take n)).bind f).onSequence (l.drop n) else none) = _
    simp only [onSequence] at run
    split at run
    · rename_i enough
      rw [if_pos enough]
      exact ih (l.take n) run
    · cases run

theorem onSequence_bind_error {f : α → Reader β ε α'} {e : ε}
    (run : p.onSequence l = some (.error e, rest)) :
    (p >>= f).onSequence l = some (.error e, rest) := by
  induction p generalizing l with
  | done a => cases run
  | fail e =>
    cases run
    rfl
  | size next ih => exact ih l.length run
  | read n next ih =>
    change (if n ≤ l.length then ((next (l.take n)).bind f).onSequence (l.drop n) else none) = _
    simp only [onSequence] at run
    split at run
    · rename_i enough
      rw [if_pos enough]
      exact ih (l.take n) run
    · cases run

theorem bounded_pure (a : α) : Bounded (pure a : Reader β ε α) := fun l => ⟨.ok a, l, rfl⟩

theorem bounded_fail (e : ε) : Bounded (fail e : Reader β ε α) := fun l => ⟨.error e, l, rfl⟩

theorem bounded_left : Bounded (left : Reader β ε Nat) := fun l => ⟨.ok l.length, l, rfl⟩

theorem bounded_bind {f : α → Reader β ε α'} (first : Bounded p) (next : ∀ a, Bounded (f a)) :
    Bounded (p >>= f) := by
  intro l
  obtain ⟨end', rest, run⟩ := first l
  cases end' with
  | error e => exact ⟨.error e, rest, onSequence_bind_error run⟩
  | ok a =>
    rw [onSequence_bind run]
    exact next a rest

/-- What is left is asked for, and only that much is taken. -/
theorem bounded_checked (n : Nat) (e : ε) (decode : List β → α) :
    Bounded (do
      if (← left) < n then fail e
      else return decode (← take n) : Reader β ε α) := by
  intro l
  by_cases short : l.length < n
  · refine ⟨.error e, l, ?_⟩
    change (if l.length < n then fail e else _ : Reader β ε α).onSequence l = _
    rw [if_pos short]
    rfl
  · refine ⟨.ok (decode (l.take n)), l.drop n, ?_⟩
    change (if l.length < n then fail e else _ : Reader β ε α).onSequence l = _
    rw [if_neg short]
    exact if_pos (Nat.le_of_not_lt short)

theorem bounded_ite {c : Prop} [Decidable c] {q : Reader β ε α} (hp : Bounded p)
    (hq : Bounded q) : Bounded (if c then p else q) := by
  split
  · exact hp
  · exact hq

theorem bounded_foldlM {γ : Type} {f : α → γ → Reader β ε α} (step : ∀ a x, Bounded (f a x))
    (l : List γ) (a : α) : Bounded (l.foldlM f a) := by
  induction l generalizing a with
  | nil => exact bounded_pure a
  | cons x l ih => exact bounded_bind (step a x) ih

end Reader

end Readers
