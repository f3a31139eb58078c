import Mathlib.Data.List.Basic

/-!
# Schedules

Threads that share a state interleave their atomic actions in the order a schedule gives.
An action that is not possible in a state has no run, so the schedules that run are the
interleavings; the events that the actions of a run show are its trace.
-/

namespace Schedules

variable {σ α ε : Type} {step : σ → α → Option (σ × List ε)}

/-- The state that a schedule leads to, and the trace. -/
def run (step : σ → α → Option (σ × List ε)) (s : σ) : List α → Option (σ × List ε)
  | [] => some (s, [])
  | a :: schedule => do
    let next ← step s a
    let last ← run step next.1 schedule
    return (last.1, next.2 ++ last.2)

theorem run_cons {s : σ} {a : α} {schedule : List α} {last : σ × List ε}
    (h : run step s (a :: schedule) = some last) :
    ∃ next trace, step s a = some next ∧ run step next.1 schedule = some (last.1, trace) ∧
      last.2 = next.2 ++ trace := by
  obtain ⟨next, first, h⟩ := Option.bind_eq_some_iff.mp h
  obtain ⟨rest, later, h⟩ := Option.bind_eq_some_iff.mp h
  obtain rfl := Option.some.inj h
  exact ⟨next, rest.2, first, later, rfl⟩

/-- Actions that all show something show at least one event each. -/
theorem length_le {s : σ} {schedule : List α} {last : σ × List ε}
    (shows : ∀ s a next, step s a = some next → next.2 ≠ [])
    (h : run step s schedule = some last) : schedule.length ≤ last.2.length := by
  induction schedule generalizing s last with
  | nil => exact Nat.zero_le _
  | cons a schedule ih =>
    obtain ⟨next, trace, first, later, ends⟩ := run_cons h
    have := List.length_pos_of_ne_nil (shows s a next first)
    have := ih later
    simp only [ends, List.length_cons, List.length_append] at this ⊢
    omega

/-- What every action preserves holds after every schedule. -/
theorem run_after {P : σ → List ε → Prop} {s : σ} {schedule : List α} {last : σ × List ε}
    (start : P s [])
    (next : ∀ s trace a s' new, P s trace → step s a = some (s', new) → P s' (trace ++ new))
    (h : run step s schedule = some last) : P last.1 last.2 := by
  suffices all : ∀ s before, P s before → run step s schedule = some last →
      P last.1 (before ++ last.2) by
    simpa using all s [] start h
  clear start h s
  induction schedule generalizing last with
  | nil =>
    intro s before holds h
    obtain rfl := Option.some.inj h
    simpa using holds
  | cons a schedule ih =>
    intro s before holds h
    obtain ⟨⟨s', new⟩, trace, first, later, rfl'⟩ := run_cons h
    have ends := ih s' (before ++ new) (next s before a s' new holds first) later
    rw [rfl']
    simpa using ends

/-- Actions that show one event each, which an invariant relates to the action. -/
theorem run_each {P : σ → Prop} {R : α → ε → Prop} {s : σ} {schedule : List α}
    {last : σ × List ε} (start : P s)
    (next : ∀ s a s' new, P s → step s a = some (s', new) → P s' ∧ ∃ e, new = [e] ∧ R a e)
    (h : run step s schedule = some last) : P last.1 ∧ List.Forall₂ R schedule last.2 := by
  induction schedule generalizing s last with
  | nil =>
    obtain rfl := Option.some.inj h
    exact ⟨start, .nil⟩
  | cons a schedule ih =>
    obtain ⟨⟨s', new⟩, trace, first, later, ends⟩ := run_cons h
    obtain ⟨holds, e, rfl, related⟩ := next s a s' new start first
    obtain ⟨last', rest⟩ := ih holds later
    rw [ends]
    exact ⟨last', .cons related rest⟩

/-- What an action of the schedule brings about, and every action preserves, holds at the
end. -/
theorem run_reaches {P Q : σ → Prop} {s : σ} {a : α} {schedule : List α} {last : σ × List ε}
    (start : P s) (keeps : ∀ s b s' new, P s → step s b = some (s', new) → P s')
    (enters : ∀ s s' new, P s → step s a = some (s', new) → Q s')
    (stays : ∀ s b s' new, Q s → step s b = some (s', new) → Q s')
    (mem : a ∈ schedule) (h : run step s schedule = some last) : Q last.1 := by
  induction schedule generalizing s last with
  | nil => cases mem
  | cons b schedule ih =>
    obtain ⟨⟨s', new⟩, trace, first, later, -⟩ := run_cons h
    cases List.mem_cons.mp mem with
    | inl here =>
      subst here
      have holds := run_after (P := fun s _ => Q s) (enters s s' new start first)
        (fun s _ b s' new holds next => stays s b s' new holds next) later
      exact holds
    | inr there =>
      have holds := ih (keeps s b s' new start first) there later
      exact holds

end Schedules
