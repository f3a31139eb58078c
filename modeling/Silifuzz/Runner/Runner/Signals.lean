import Silifuzz.Runner.Runner.Timers

/-!
# A snap that a signal ends

Whatever else happens to a process whose snap was ended by a signal, the driver does not
take the run of this one snap for a success.
-/

namespace Silifuzz.Runner

open RunnerDriver

/-- The process can no longer exit with 0. -/
def Phase.Spoiled : Phase → Prop
  | .loop _ | .inside _ => False
  | .ended _ endSpot => endSpot.signum ≠ 0
  | .failed _ | .reported | .verified | .killed _ => True
  | .concluded exitCode | .exited exitCode => exitCode ≠ kSuccess

structure Spoiled (p : Process) : Prop where
  phase : p.phase.Spoiled
  refused : NoOk p.stdout

theorem endSpotToOutcome_signal {endSpot : EndSpot} (signal : endSpot.signum ≠ 0) :
    endSpotToOutcome endSpot ≠ .kAsExpected := by
  rw [endSpotToOutcome, if_pos signal]
  split <;> decide

theorem Spoiled.timer {p : Process} (h : Spoiled p) (timer : Timer) :
    Spoiled (deliver p timer).1 := by
  unfold deliver
  split
  · exact h
  · cases timer with
    | alrm => exact ⟨Nat.succ_ne_zero 1, h.refused⟩
    | xcpu =>
      cases phase : p.phase with
      | inside left =>
        have impossible := h.phase
        rw [phase] at impossible
        exact impossible.elim
      | _ =>
        simp only [timerAction, phase]
        exact ⟨Nat.succ_ne_zero 1, h.refused⟩

theorem Spoiled.conclude {p : Process} (h : Spoiled p) {code : RunnerExecutionStatusCode}
    (bad : code ≠ .kOk) (message : Option String) (blocked : Bool) :
    Spoiled { logExecutionResult p code message with phase := .concluded 1, blocked := blocked }
    where
  phase := Nat.one_ne_zero
  refused := h.refused.snoc fun result new => by
    cases new
    simpa using bad

theorem Spoiled.write {p : Process} (h : Spoiled p) {field : Proto.RunnerOutput.Field}
    {phase : Phase} (spoiled : phase.Spoiled)
    (other : ∀ result, field ≠ .executionResult result) :
    Spoiled { p with phase := phase, stdout := p.stdout ++ [field] } where
  phase := spoiled
  refused := h.refused.snoc fun result new => absurd new (other result)

theorem step_spoiled {options : RunnerMainOptions} (checks : options.skipEndStateCheck = false)
    {p p' : Process} {event : Event} {new : List Delivery} (h : Spoiled p)
    (next : step options p event = some (p', new)) : Spoiled p' := by
  have spoiled := h.phase
  cases event with
  | timer timer =>
    have moved : deliver p timer = (p', new) := by
      cases phase : p.phase with
      | exited | killed => simp [step, phase] at next
      | _ => simpa [step, phase] using next
    have after := h.timer timer
    rw [moved] at after
    exact after
  | kill signum =>
    cases phase : p.phase with
    | exited | killed => simp [step, phase] at next
    | _ =>
      simp only [step, phase, Option.ite_none_right_eq_some, Option.some.injEq,
        Prod.mk.injEq] at next
      obtain ⟨-, rfl, rfl⟩ := next
      exact ⟨trivial, h.refused⟩
  | fault signum =>
    cases phase : p.phase with
    | exited | killed | inside => simp [step, phase] at next
    | _ =>
      simp only [step, phase, Option.ite_none_right_eq_some, Option.some.injEq,
        Prod.mk.injEq] at next
      obtain ⟨-, rfl, rfl⟩ := next
      exact h.conclude (by decide) (some (signalNameStr signum)) true
  | fatal =>
    cases phase : p.phase with
    | exited | killed | inside => simp [step, phase] at next
    | _ =>
      simp only [step, phase, Option.some.injEq, Prod.mk.injEq] at next
      obtain ⟨rfl, rfl⟩ := next
      exact ⟨Nat.one_ne_zero, h.refused⟩
  | runSnap =>
    cases phase : p.phase with
    | loop left => rw [phase] at spoiled; exact spoiled.elim
    | _ => simp [step, phase] at next
  | snapExit | snapSignal =>
    cases phase : p.phase with
    | inside left => rw [phase] at spoiled; exact spoiled.elim
    | _ => simp [step, phase] at next
  | judge =>
    cases phase : p.phase with
    | ended left endSpot =>
      rw [phase] at spoiled
      have unexpected : outcomeOf options endSpot ≠ .kAsExpected := by
        rw [outcomeOf, checks]
        exact endSpotToOutcome_signal spoiled
      simp only [step, phase, if_pos unexpected, Option.some.injEq, Prod.mk.injEq] at next
      obtain ⟨rfl, rfl⟩ := next
      exact ⟨trivial, h.refused⟩
    | _ => simp [step, phase] at next
  | report result =>
    cases phase : p.phase with
    | failed outcome =>
      simp only [step, phase, Option.some.injEq, Prod.mk.injEq] at next
      obtain ⟨rfl, rfl⟩ := next
      exact h.write trivial fun _ impossible => by cases impossible
    | _ => simp [step, phase] at next
  | verifySnapChecksums ok =>
    cases phase : p.phase with
    | reported =>
      simp only [step, phase, Option.ite_none_left_eq_some, Option.some.injEq,
        Prod.mk.injEq] at next
      obtain ⟨-, rfl, rfl⟩ := next
      exact h.write trivial fun _ impossible => by cases impossible
    | _ => simp [step, phase] at next
  | conclude =>
    cases phase : p.phase with
    | loop left => rw [phase] at spoiled; exact spoiled.elim
    | reported =>
      simp only [step, phase, Option.ite_none_right_eq_some, Option.some.injEq,
        Prod.mk.injEq] at next
      obtain ⟨-, rfl, rfl⟩ := next
      exact h.conclude (by decide) none p.blocked
    | verified =>
      simp only [step, phase, Option.some.injEq, Prod.mk.injEq] at next
      obtain ⟨rfl, rfl⟩ := next
      exact h.conclude (by decide) none p.blocked
    | _ => simp [step, phase] at next
  | exit =>
    cases phase : p.phase with
    | concluded exitCode =>
      rw [phase] at spoiled
      simp only [step, phase, Option.some.injEq, Prod.mk.injEq] at next
      obtain ⟨rfl, rfl⟩ := next
      exact ⟨spoiled, h.refused⟩
    | _ => simp [step, phase] at next

/-- A signal that ends a snap, before which nothing was written. -/
theorem snapSignal_spoiled {options : RunnerMainOptions} {p p' : Process} {signum : Nat}
    {new : List Delivery} (h : Consistent p)
    (next : step options p (.snapSignal signum) = some (p', new)) : Spoiled p' := by
  cases phase : p.phase with
  | inside left =>
    have running : p.phase.Running := by
      rw [phase]
      trivial
    simp only [step, phase, Option.ite_none_right_eq_some, Option.some.injEq,
      Prod.mk.injEq] at next
    obtain ⟨signal, rfl, rfl⟩ := next
    constructor
    · exact Nat.ne_of_gt signal.1.1
    · change NoOk p.stdout
      rw [h.silent running]
      exact noOk_nil
  | _ => simp [step, phase] at next

/-- **A snap that a signal ends is no success**, if the driver ran this one snap. -/
theorem signalled_snap_fails {options : RunnerMainOptions}
    (checks : options.skipEndStateCheck = false) {events : List Event} {p : Process}
    {trace : List Delivery} {signum exitCode : Nat}
    (ran : run options events = some (p, trace)) (signal : .snapSignal signum ∈ events)
    (ends : p.phase = .exited exitCode) {debugString : Proto.SnapshotExecutionResult → String}
    {runnerStdout : String} {snapshotId : Id} (one : snapshotId ≠ [])
    {result : RunnerDriver.RunResult}
    (made : handleRunnerOutput debugString runnerStdout (Proto.RunnerOutput.ofFields p.stdout)
      (.exited exitCode) snapshotId = some result) : result.success = false := by
  have spoiled : Spoiled p := by
    apply Schedules.run_reaches (P := fun p => ∃ trace, Sound p trace) (Q := Spoiled)
      ⟨[], start_sound options⟩ ?_ ?_ ?_ signal ran
    · rintro p event p' new ⟨trace, sound⟩ next
      exact ⟨trace ++ new, step_sound sound next⟩
    · rintro p p' new ⟨trace, sound⟩ next
      exact snapSignal_spoiled sound.consistent next
    · intro p event p' new spoiled next
      exact step_spoiled checks spoiled next
  have nonzero := spoiled.phase
  rw [ends] at nonzero
  exact handleRunnerOutput_failure spoiled.refused nonzero (fun timeout => one timeout.2) made

end Silifuzz.Runner
