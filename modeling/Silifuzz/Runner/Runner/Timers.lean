import Silifuzz.Runner.Runner
import Silifuzz.Library.Loops

/-!
# Failures and timers

A process that has reported a failed snap exits with 1 unless a signal is faster, and the
driver takes the exit of a timer for a success, and so the death by a `SIGINT`. After a snap
that failed with a signal the timers are blocked, so only a mismatch can be lost to them.
-/

namespace Silifuzz.Runner

open RunnerDriver

/-- A failed snap execution is on stdout. -/
def Process.Reported (p : Process) : Prop :=
  ∃ result, .failedSnapshotExecution result ∈ p.stdout

/-- No execution result on stdout is `kOk`. -/
def NoOk (stdout : List Proto.RunnerOutput.Field) : Prop :=
  ∀ result, .executionResult result ∈ stdout → result.code ≠ some .kOk

theorem add_executionResult {before after : Proto.RunnerOutput} {field : Proto.RunnerOutput.Field}
    (add : before.add field = some after) {result : Proto.ExecutionResult}
    (set : after.executionResult = some result) :
    before.executionResult = some result ∨ field = .executionResult result := by
  cases field with
  | executionResult value =>
    obtain ⟨x, first, last⟩ := Option.bind_eq_some_iff.mp add
    cases Option.some.inj last
    cases old : before.executionResult with
    | none =>
      rw [old] at first
      cases Option.some.inj first
      cases set
      exact .inr rfl
    | some r =>
      rw [old] at first
      cases first
  | failedSnapshotExecution value =>
    obtain ⟨x, -, last⟩ := Option.bind_eq_some_iff.mp add
    cases Option.some.inj last
    exact .inl set
  | postfailureChecksumStatus value =>
    obtain ⟨x, -, last⟩ := Option.bind_eq_some_iff.mp add
    cases Option.some.inj last
    exact .inl set

/-- The result that the parser sets is one of those in the text. -/
theorem ofFields_executionResult {fields : List Proto.RunnerOutput.Field}
    {output : Proto.RunnerOutput} (parsed : Proto.RunnerOutput.ofFields fields = some output)
    {result : Proto.ExecutionResult} (set : output.executionResult = some result) :
    .executionResult result ∈ fields := by
  have all : ∀ r, output.executionResult = some r → .executionResult r ∈ fields := by
    apply Loops.foldlM_after (P := fun done output =>
      ∀ r, output.executionResult = some r → .executionResult r ∈ done) ?_ ?_ parsed
    · intro r impossible
      cases impossible
    · intro done field rest before after _ known add r set
      cases add_executionResult add set with
      | inl old => simp [known r old]
      | inr new => simp [new]
  exact all result set

theorem handleFailedSnapshot_success {debugString : Proto.SnapshotExecutionResult → String}
    {info : ProcessStatus} {snapshotId : Id} {executionResult : ExecutionResult}
    {status : Option RunnerPostfailureChecksumStatus} {execResult : Proto.SnapshotExecutionResult}
    {result : RunnerDriver.RunResult} (bad : executionResult.ok = false)
    (made : handleFailedSnapshot debugString info snapshotId executionResult status execResult =
      some result) : result.success = false := by
  simp only [handleFailedSnapshot] at made
  split at made
  · cases made
    rfl
  · split at made
    · cases made
    · cases made
      rfl
    · split at made
      · cases made
        rfl
      · cases made
        exact bad

/-- A runner that does not exit with 0, and without an execution result that is ok, has no
success, but for the timeout of a whole corpus. -/
theorem handleRunnerOutput_failure {debugString : Proto.SnapshotExecutionResult → String}
    {runnerStdout : String} {fields : List Proto.RunnerOutput.Field} {snapshotId : Id}
    {result : RunnerDriver.RunResult} {exitCode : Nat} (bad : NoOk fields)
    (nonzero : exitCode ≠ kSuccess)
    (failed : ¬ (exitCode = kTimeout ∧ snapshotId = []))
    (made : handleRunnerOutput debugString runnerStdout (Proto.RunnerOutput.ofFields fields)
      (.exited exitCode) snapshotId = some result) : result.success = false := by
  simp only [handleRunnerOutput] at made
  rw [if_neg nonzero, if_neg failed] at made
  cases parsed : Proto.RunnerOutput.ofFields fields with
  | none =>
    rw [parsed] at made
    cases made
    rfl
  | some output =>
    cases set : output.executionResult with
    | none =>
      simp only [parsed, set] at made
      cases made
      rfl
    | some r =>
      have known := bad r (ofFields_executionResult parsed set)
      have refused : ExecutionResult.ok ⟨r.code.getD .kInternalError, r.msg.getD ""⟩ = false := by
        cases code : r.code with
        | none => rfl
        | some c =>
          rw [code] at known
          cases c
          case kOk => exact absurd rfl known
          all_goals rfl
      simp only [parsed, set] at made
      cases execution : output.failedSnapshotExecution with
      | none =>
        rw [execution] at made
        cases made
        exact refused
      | some execResult =>
        rw [execution] at made
        exact handleFailedSnapshot_success refused made

/-- No failure has been reported, and nothing else written. -/
def Phase.Running : Phase → Prop
  | .loop _ | .inside _ | .ended _ _ | .failed _ => True
  | _ => False

/-- The process is gone. -/
def Phase.Exited (phase : Phase) : Prop := phase.status ≠ none

/-- The ends that the driver takes for a success without reading stdout, when it has no
snapshot id. -/
def Phase.Lost (phase : Phase) : Prop := phase = .exited 2 ∨ phase = .killed SIGINT

theorem Phase.Lost.exited {phase : Phase} (h : phase.Lost) : phase.Exited := by
  rcases h with rfl | rfl <;> exact Option.some_ne_none _

theorem Phase.Running.not_lost {phase : Phase} (h : phase.Running) : ¬ phase.Lost := by
  rintro (rfl | rfl) <;> exact h

/-- A snap that was left with a signal leaves the timers blocked. -/
def SignalBlocks (p : Process) : Prop :=
  match p.phase with
  | .ended _ endSpot => endSpot.signum ≠ 0 → p.blocked = true
  | .failed outcome =>
    outcome = .kExecutionRunaway ∨ outcome = .kExecutionMisbehave → p.blocked = true
  | _ => True

theorem judge_signal {options : RunnerMainOptions} {endSpot : EndSpot}
    (h : outcomeOf options endSpot = .kExecutionRunaway ∨
      outcomeOf options endSpot = .kExecutionMisbehave) : endSpot.signum ≠ 0 := by
  intro zero
  simp only [outcomeOf, endSpotToOutcome, zero, ne_eq, not_true_eq_false, if_false] at h
  repeat' split at h
  all_goals simp at h

/-- What a step of the process, of a snap or of a fault does to the phase and to stdout. -/
inductive Moves (p p' : Process) : Prop where
  | snap (before : p.phase.Running) (after : p'.phase.Running) (same : p'.stdout = p.stdout)
      (signals : SignalBlocks p → SignalBlocks p')
  | report (result : Proto.SnapshotExecutionResult) (before : p.phase.Running)
      (after : p'.phase = .reported)
      (written : p'.stdout = p.stdout ++ [.failedSnapshotExecution result])
  | verify (status : RunnerPostfailureChecksumStatus) (before : p.phase = .reported)
      (after : p'.phase = .verified)
      (written : p'.stdout = p.stdout ++ [.postfailureChecksumStatus status])
  | finish (before : p.phase.Running) (after : p'.phase = .concluded 0)
      (written : p'.stdout = p.stdout ++ [.executionResult ⟨some .kOk, none⟩])
  | fail (code : RunnerExecutionStatusCode) (message : Option String)
      (before : ¬ p.phase.Exited) (after : p'.phase = .concluded 1) (bad : code ≠ .kOk)
      (written : p'.stdout = p.stdout ++ [.executionResult ⟨some code, message⟩])
  | fatal (before : ¬ p.phase.Exited) (after : p'.phase = .concluded 1)
      (same : p'.stdout = p.stdout)
  | exit (exitCode : Nat) (before : p.phase = .concluded exitCode)
      (after : p'.phase = .exited exitCode) (same : p'.stdout = p.stdout)

theorem step_moves {options : RunnerMainOptions} {p p' : Process} {event : Event}
    {new : List Delivery} (next : step options p event = some (p', new)) :
    (∃ timer, ¬ p.phase.Exited ∧ deliver p timer = (p', new)) ∨
    (∃ signum ∈ fatalSignals, ¬ p.phase.Exited ∧ p' = { p with phase := .killed signum } ∧
      new = [⟨signum, p⟩]) ∨
    (new = [] ∧ Moves p p') := by
  cases event with
  | timer timer =>
    cases phase : p.phase with
    | exited | killed => simp [step, phase] at next
    | _ =>
      simp only [step, phase, Option.some.injEq] at next
      exact .inl ⟨timer, by simp [Phase.Exited, Phase.status], next⟩
  | kill signum =>
    cases phase : p.phase with
    | exited | killed => simp [step, phase] at next
    | _ =>
      simp only [step, phase, Option.ite_none_right_eq_some, Option.some.injEq,
        Prod.mk.injEq] at next
      obtain ⟨fatal, rfl, rfl⟩ := next
      exact .inr (.inl ⟨signum, fatal, by simp [Phase.Exited, Phase.status], rfl, rfl⟩)
  | fault signum =>
    cases phase : p.phase with
    | exited | killed | inside => simp [step, phase] at next
    | _ =>
      simp only [step, phase, Option.ite_none_right_eq_some, Option.some.injEq,
        Prod.mk.injEq] at next
      obtain ⟨-, rfl, rfl⟩ := next
      exact .inr (.inr ⟨rfl, .fail .kUnhandledSignal (some (signalNameStr signum))
        (by simp [phase, Phase.Exited, Phase.status]) rfl (by decide) rfl⟩)
  | fatal =>
    cases phase : p.phase with
    | exited | killed | inside => simp [step, phase] at next
    | _ =>
      simp only [step, phase, Option.some.injEq, Prod.mk.injEq] at next
      obtain ⟨rfl, rfl⟩ := next
      exact .inr (.inr ⟨rfl, .fatal (by simp [phase, Phase.Exited, Phase.status]) rfl rfl⟩)
  | runSnap =>
    cases phase : p.phase with
    | loop left =>
      cases left with
      | zero => simp [step, phase] at next
      | succ left =>
        simp only [step, phase, Option.some.injEq, Prod.mk.injEq] at next
        obtain ⟨rfl, rfl⟩ := next
        exact .inr (.inr ⟨rfl, .snap (by simp [phase, Phase.Running]) trivial rfl
          fun _ => trivial⟩)
    | _ => simp [step, phase] at next
  | snapExit registersMatch checksumMatches memoryMatches =>
    cases phase : p.phase with
    | inside left =>
      simp only [step, phase, Option.some.injEq, Prod.mk.injEq] at next
      obtain ⟨rfl, rfl⟩ := next
      exact .inr (.inr ⟨rfl, .snap (by simp [phase, Phase.Running]) trivial rfl
        fun _ signal => absurd rfl signal⟩)
    | _ => simp [step, phase] at next
  | snapSignal signum =>
    cases phase : p.phase with
    | inside left =>
      simp only [step, phase, Option.ite_none_right_eq_some, Option.some.injEq,
        Prod.mk.injEq] at next
      obtain ⟨-, rfl, rfl⟩ := next
      exact .inr (.inr ⟨rfl, .snap (by simp [phase, Phase.Running]) trivial rfl
        fun _ _ => rfl⟩)
    | _ => simp [step, phase] at next
  | judge =>
    cases phase : p.phase with
    | ended left endSpot =>
      simp only [step, phase, Option.some.injEq, Prod.mk.injEq] at next
      obtain ⟨rfl, rfl⟩ := next
      refine .inr (.inr ⟨rfl, .snap (by simp [phase, Phase.Running]) ?_ rfl fun h => ?_⟩)
      · dsimp only
        split <;> trivial
      · unfold SignalBlocks at h ⊢
        rw [phase] at h
        by_cases unexpected : outcomeOf options endSpot ≠ .kAsExpected
        · simp only [if_pos unexpected]
          exact fun signal => h (judge_signal signal)
        · simp only [if_neg unexpected]
    | _ => simp [step, phase] at next
  | report result =>
    cases phase : p.phase with
    | failed outcome =>
      simp only [step, phase, Option.some.injEq, Prod.mk.injEq] at next
      obtain ⟨rfl, rfl⟩ := next
      exact .inr (.inr ⟨rfl, .report result (by simp [phase, Phase.Running]) rfl rfl⟩)
    | _ => simp [step, phase] at next
  | verifySnapChecksums ok =>
    cases phase : p.phase with
    | reported =>
      simp only [step, phase, Option.ite_none_left_eq_some, Option.some.injEq,
        Prod.mk.injEq] at next
      obtain ⟨-, rfl, rfl⟩ := next
      exact .inr (.inr ⟨rfl, .verify _ phase rfl rfl⟩)
    | _ => simp [step, phase] at next
  | conclude =>
    have bad : RunnerExecutionStatusCode.kSnapshotFailed ≠ .kOk := by decide
    cases phase : p.phase with
    | loop left =>
      cases left with
      | zero =>
        simp only [step, phase, Option.some.injEq, Prod.mk.injEq] at next
        obtain ⟨rfl, rfl⟩ := next
        exact .inr (.inr ⟨rfl, .finish (by simp [phase, Phase.Running]) rfl rfl⟩)
      | succ left => simp [step, phase] at next
    | reported =>
      simp only [step, phase, Option.ite_none_right_eq_some, Option.some.injEq,
        Prod.mk.injEq] at next
      obtain ⟨-, rfl, rfl⟩ := next
      exact .inr (.inr ⟨rfl, .fail _ none (by simp [phase, Phase.Exited, Phase.status]) rfl
        bad rfl⟩)
    | verified =>
      simp only [step, phase, Option.some.injEq, Prod.mk.injEq] at next
      obtain ⟨rfl, rfl⟩ := next
      exact .inr (.inr ⟨rfl, .fail _ none (by simp [phase, Phase.Exited, Phase.status]) rfl
        bad rfl⟩)
    | _ => simp [step, phase] at next
  | exit =>
    cases phase : p.phase with
    | concluded exitCode =>
      simp only [step, phase, Option.some.injEq, Prod.mk.injEq] at next
      obtain ⟨rfl, rfl⟩ := next
      exact .inr (.inr ⟨rfl, .exit exitCode phase rfl rfl⟩)
    | _ => simp [step, phase] at next

theorem noOk_nil : NoOk [] := by
  intro result mem
  cases mem

theorem NoOk.snoc {stdout : List Proto.RunnerOutput.Field} (h : NoOk stdout)
    {field : Proto.RunnerOutput.Field}
    (new : ∀ result, field = .executionResult result → result.code ≠ some .kOk) :
    NoOk (stdout ++ [field]) := by
  intro result mem
  cases List.mem_append.mp mem with
  | inl old => exact h result old
  | inr last => exact new result (List.mem_singleton.mp last).symm

/-- Only a report makes the process reported. -/
theorem reported_snoc {p p' : Process} {field : Proto.RunnerOutput.Field}
    (written : p'.stdout = p.stdout ++ [field])
    (other : ∀ result, field ≠ .failedSnapshotExecution result) : p'.Reported ↔ p.Reported := by
  simp only [Process.Reported, written, List.mem_append, List.mem_singleton]
  constructor
  · rintro ⟨result, old | last⟩
    · exact ⟨result, old⟩
    · exact absurd last.symm (other result)
  · rintro ⟨result, old⟩
    exact ⟨result, .inl old⟩

theorem reported_same {p p' : Process} (same : p'.stdout = p.stdout) :
    p'.Reported ↔ p.Reported := by
  rw [Process.Reported, Process.Reported, same]

/-- How stdout fits the phase of the process. -/
structure Consistent (p : Process) : Prop where
  silent : p.phase.Running → p.stdout = []
  refused : p.phase ≠ .exited 2 → p.Reported → NoOk p.stdout
  concluded : ∀ exitCode, p.phase = .concluded exitCode →
    (exitCode = 0 ∧ ¬ p.Reported) ∨ exitCode = 1
  exited : ∀ exitCode, p.phase = .exited exitCode →
    (exitCode = 0 ∧ ¬ p.Reported) ∨ exitCode = 1 ∨ exitCode = 2

theorem Consistent.not_reported {p : Process} (h : Consistent p) (running : p.phase.Running) :
    ¬ p.Reported := by
  rintro ⟨result, mem⟩
  rw [h.silent running] at mem
  cases mem

theorem Moves.consistent {p p' : Process} (h : Consistent p) (move : Moves p p') :
    Consistent p' := by
  cases move with
  | snap before after same =>
    have silent := h.silent before
    rw [← same] at silent
    have unreported : ¬ p'.Reported := by
      rw [reported_same same]
      exact h.not_reported before
    constructor
    · exact fun _ => silent
    · exact fun _ reported => absurd reported unreported
    · intro exitCode phase
      simp [phase, Phase.Running] at after
    · intro exitCode phase
      simp [phase, Phase.Running] at after
  | report result before after written =>
    rw [h.silent before] at written
    constructor
    · simp [after, Phase.Running]
    · intro _ _
      rw [written]
      exact noOk_nil.snoc fun _ impossible => by cases impossible
    · simp [after]
    · simp [after]
  | verify status before after written =>
    have same := reported_snoc written fun _ impossible => by cases impossible
    constructor
    · simp [after, Phase.Running]
    · intro _ reported
      rw [written]
      exact (h.refused (by simp [before]) (same.mp reported)).snoc
        fun _ impossible => by cases impossible
    · simp [after]
    · simp [after]
  | finish before after written =>
    have same := reported_snoc written fun _ impossible => by cases impossible
    have unreported := mt same.mp (h.not_reported before)
    constructor
    · simp [after, Phase.Running]
    · exact fun _ reported => absurd reported unreported
    · intro exitCode phase
      rw [after] at phase
      cases phase
      exact .inl ⟨rfl, unreported⟩
    · simp [after]
  | fail code message before after bad written =>
    have same := reported_snoc written fun _ impossible => by cases impossible
    have on : p.phase ≠ .exited 2 := fun exited => before (Phase.Lost.exited (.inl exited))
    constructor
    · simp [after, Phase.Running]
    · intro _ reported
      rw [written]
      apply (h.refused on (same.mp reported)).snoc
      intro result new
      cases new
      simpa using bad
    · intro exitCode phase
      rw [after] at phase
      cases phase
      exact .inr rfl
    · simp [after]
  | fatal before after same =>
    have on : p.phase ≠ .exited 2 := fun exited => before (Phase.Lost.exited (.inl exited))
    constructor
    · simp [after, Phase.Running]
    · intro _ reported
      rw [same]
      exact h.refused on ((reported_same same).mp reported)
    · intro exitCode phase
      rw [after] at phase
      cases phase
      exact .inr rfl
    · simp [after]
  | exit exitCode before after same =>
    constructor
    · simp [after, Phase.Running]
    · intro _ reported
      rw [same]
      exact h.refused (by simp [before]) ((reported_same same).mp reported)
    · simp [after]
    · intro exitCode' phase
      rw [after] at phase
      cases phase
      rw [reported_same same]
      exact (h.concluded exitCode before).imp_right .inl

/-- No timer is behind such a step, and no `SIGINT`. -/
theorem Moves.not_lost {p p' : Process} (h : Consistent p) (move : Moves p p') :
    ¬ p.phase.Lost ∧ ¬ p'.phase.Lost := by
  cases move with
  | snap before after => exact ⟨before.not_lost, after.not_lost⟩
  | report result before after | finish before after =>
    exact ⟨before.not_lost, by simp [after, Phase.Lost]⟩
  | verify status before after => simp [before, after, Phase.Lost]
  | fail code message before after | fatal before after =>
    exact ⟨fun lost => before lost.exited, by simp [after, Phase.Lost]⟩
  | exit exitCode before after =>
    constructor
    · simp [before, Phase.Lost]
    · rintro (phase | phase)
      · rw [after] at phase
        cases phase
        cases h.concluded 2 before with
        | inl zero => cases zero.1
        | inr one => cases one
      · rw [after] at phase
        cases phase

/-- The signals that the driver takes the end of the process by for a success. -/
def silentSignals : List Nat := [SIGALRM, SIGXCPU, SIGINT]

/-- The process had written a report and was not gone when such a signal came. -/
def Delivery.Late (d : Delivery) : Prop := d.signum ∈ silentSignals ∧ d.process.Reported

/-- The state of a process and the signals that it has received: one that is late has
ended it. -/
structure Sound (p : Process) (trace : List Delivery) : Prop where
  consistent : Consistent p
  lost : (∃ d ∈ trace, d.Late) ↔ p.phase.Lost ∧ p.Reported

theorem start_sound (options : RunnerMainOptions) : Sound (start options) [] where
  consistent := {
    silent := fun _ => rfl
    refused := by
      rintro - ⟨result, mem⟩
      cases mem
    concluded := by simp [start]
    exited := by simp [start] }
  lost := by simp [start, Phase.Lost]

/-- Before its end a process has received no late signal, so the next one decides. -/
theorem Sound.late_snoc {p : Process} {trace : List Delivery} (h : Sound p trace)
    (on : ¬ p.phase.Exited) (d : Delivery) :
    (∃ other ∈ trace ++ [d], other.Late) ↔ d.Late := by
  constructor
  · rintro ⟨other, mem, late⟩
    cases List.mem_append.mp mem with
    | inl old => exact absurd (h.lost.mp ⟨other, old, late⟩).1.exited on
    | inr last => exact List.mem_singleton.mp last ▸ late
  · exact fun late => ⟨d, by simp, late⟩

/-- A signal that ends the process. -/
theorem Sound.ends {p : Process} {trace : List Delivery} (h : Sound p trace)
    (on : ¬ p.phase.Exited) {phase : Phase} (ended : phase = .exited 2 ∨ ∃ s, phase = .killed s)
    {signum : Nat} (silent : signum ∈ silentSignals ↔ phase.Lost) :
    Sound { p with phase := phase } (trace ++ [⟨signum, p⟩]) := by
  constructor
  · constructor
    · rcases ended with rfl | ⟨s, rfl⟩ <;> exact fun running => running.elim
    · have alive : p.phase ≠ .exited 2 := fun exited => on (Phase.Lost.exited (.inl exited))
      exact fun _ reported => h.consistent.refused alive reported
    · rcases ended with rfl | ⟨s, rfl⟩ <;> simp
    · rcases ended with rfl | ⟨s, rfl⟩ <;> simp
  · rw [h.late_snoc on]
    exact and_congr_left' silent

/-- A timer that the mask lets through ends the process, but for one that the snap is
left with. -/
theorem timerAction_sound {p : Process} {trace : List Delivery} (h : Sound p trace)
    (on : ¬ p.phase.Exited) (timer : Timer) :
    Sound (timerAction p timer) (trace ++ [⟨timer.signum, p⟩]) := by
  have ends : Sound { p with phase := .exited 2 } (trace ++ [⟨timer.signum, p⟩]) := by
    apply h.ends on (.inl rfl)
    cases timer <;> simp [Timer.signum, silentSignals, Phase.Lost]
  cases timer with
  | alrm => exact ends
  | xcpu =>
    unfold timerAction
    cases phase : p.phase with
    | inside left =>
      have running : p.phase.Running := by
        rw [phase]
        trivial
      constructor
      · exact Moves.consistent h.consistent (.snap running trivial rfl fun _ _ => rfl)
      · rw [h.late_snoc on]
        constructor
        · exact fun late => absurd late.2 (h.consistent.not_reported running)
        · rintro ⟨impossible | impossible, -⟩ <;> cases impossible
    | _ => exact ends

theorem Moves.signalBlocks {p p' : Process} (h : SignalBlocks p) (move : Moves p p') :
    SignalBlocks p' := by
  cases move with
  | snap before after same signals => exact signals h
  | report _ _ after | verify _ _ after | finish _ after | fail _ _ _ after | fatal _ after
  | exit _ _ after =>
    unfold SignalBlocks
    rw [after]
    trivial

theorem step_signalBlocks {options : RunnerMainOptions} {p p' : Process} {new : List Delivery}
    {event : Event} (h : SignalBlocks p) (next : step options p event = some (p', new)) :
    SignalBlocks p' := by
  rcases step_moves next with ⟨timer, -, delivered⟩ | ⟨signum, -, -, rfl, -⟩ | ⟨-, move⟩
  · rw [deliver] at delivered
    split at delivered
    · cases delivered
      exact h
    · cases delivered
      unfold timerAction SignalBlocks
      cases timer with
      | alrm => trivial
      | xcpu => cases p.phase <;> first | trivial | exact fun _ => rfl
  · trivial
  · exact move.signalBlocks h

theorem step_sound {options : RunnerMainOptions} {p p' : Process} {trace new : List Delivery}
    {event : Event} (h : Sound p trace) (next : step options p event = some (p', new)) :
    Sound p' (trace ++ new) := by
  rcases step_moves next with ⟨timer, on, delivered⟩ | ⟨signum, fatal, on, rfl, rfl⟩ | ⟨rfl, move⟩
  · rw [deliver] at delivered
    split at delivered
    · cases delivered
      rw [List.append_nil]
      exact h
    · cases delivered
      exact timerAction_sound h on timer
  · apply h.ends on (.inr ⟨signum, rfl⟩)
    simp only [fatalSignals, List.mem_cons, List.not_mem_nil, or_false] at fatal
    rcases fatal with rfl | rfl | rfl | rfl <;> simp [silentSignals, Phase.Lost] <;> decide
  · have on := move.not_lost h.consistent
    rw [List.append_nil]
    constructor
    · exact move.consistent h.consistent
    · constructor
      · exact fun found => absurd (h.lost.mp found).1 on.1
      · exact fun ends => absurd ends.1 on.2

theorem run_sound {options : RunnerMainOptions} {events : List Event} {p : Process}
    {trace : List Delivery} (ran : run options events = some (p, trace)) : Sound p trace :=
  Schedules.run_after (start_sound options) (fun _ _ _ _ _ h next => step_sound h next) ran

/-- Where the signal of a lost report shows. -/
def AfterReport (trace : List Delivery) : Prop := ∃ d ∈ trace, d.Late

theorem Phase.Lost.success {phase : Phase} (h : phase.Lost) {info : ProcessStatus}
    (ends : phase.status = some info) (debugString : Proto.SnapshotExecutionResult → String)
    (runnerStdout : String) (parsed : Option Proto.RunnerOutput) :
    handleRunnerOutput debugString runnerStdout parsed info [] = some .successful := by
  rcases h with rfl | rfl <;> cases ends <;> rfl

/-- A process that a signal other than `SIGINT` has ended is no success. -/
theorem handleRunnerOutput_killed {debugString : Proto.SnapshotExecutionResult → String}
    {runnerStdout : String} {parsed : Option Proto.RunnerOutput} {termSig : Nat} {snapshotId : Id}
    {result : RunnerDriver.RunResult} (other : termSig ≠ SIGINT)
    (made : handleRunnerOutput debugString runnerStdout parsed (.signaled termSig) snapshotId =
      some result) : result.success = false := by
  rw [handleRunnerOutput, if_neg other] at made
  split at made
  all_goals
    cases made
    rfl

/-- **A reported failure reaches the driver exactly when no timer comes after it**, and no
`SIGINT`: the driver takes such an end for a success without reading stdout. -/
theorem reported_failure_iff {options : RunnerMainOptions} {events : List Event} {p : Process}
    {trace : List Delivery} {info : ProcessStatus} (ran : run options events = some (p, trace))
    (ends : p.phase.status = some info)
    (debugString : Proto.SnapshotExecutionResult → String) (runnerStdout : String) :
    (p.Reported → ∀ result, handleRunnerOutput debugString runnerStdout
      (Proto.RunnerOutput.ofFields p.stdout) info [] = some result → result.success = false) ↔
      ¬ AfterReport trace := by
  have h := run_sound ran
  constructor
  · intro seen late
    obtain ⟨lost, reported⟩ := h.lost.mp late
    have success := seen reported .successful (lost.success ends _ _ _)
    cases success
  · intro none reported result made
    have kept : ¬ p.phase.Lost := fun lost => none (h.lost.mpr ⟨lost, reported⟩)
    have alive : p.phase ≠ .exited 2 := fun timedOut => kept (.inl timedOut)
    cases phase : p.phase with
    | exited exitCode =>
      rw [phase] at ends
      cases ends
      rcases h.consistent.exited exitCode phase with ⟨-, unreported⟩ | rfl | rfl
      · exact absurd reported unreported
      · exact handleRunnerOutput_failure (h.consistent.refused alive reported) (by decide)
          (by decide) made
      · exact absurd phase alive
    | killed termSig =>
      rw [phase] at ends
      cases ends
      exact handleRunnerOutput_killed (fun same => kept (.inr (same ▸ phase))) made
    | _ =>
      rw [phase] at ends
      cases ends

/-- **Only a mismatch can be lost**: a snap that failed with a signal, or as a runaway, is
reported with the timers blocked. -/
theorem failed_signal_blocked {options : RunnerMainOptions} {events : List Event} {p : Process}
    {trace : List Delivery} (ran : run options events = some (p, trace)) : SignalBlocks p := by
  have begins : SignalBlocks (start options) := trivial
  exact Schedules.run_after (P := fun p _ => SignalBlocks p) begins
    (fun _ _ _ _ _ h next => step_signalBlocks h next) ran

/-! ## A mismatch that a timer hides -/

def oneSnap : RunnerMainOptions := ⟨true, 0, 1, false⟩

/-- One snap that ends with other registers, its report, and the deadline. -/
def lateAlarm : List Event :=
  [.runSnap, .snapExit false true true, .judge, .report ⟨none, none⟩, .timer .alrm]

theorem reported_failure_hidden : ¬ ∀ options events p trace exitCode result,
    run options events = some (p, trace) → p.phase = .exited exitCode → p.Reported →
      handleRunnerOutput (fun _ => "") "" (Proto.RunnerOutput.ofFields p.stdout)
        (.exited exitCode) [] = some result → result.success = false := by
  intro always
  have lost := always oneSnap lateAlarm
    ⟨.exited 2, false, [.failedSnapshotExecution ⟨none, none⟩]⟩ _ 2 .successful rfl rfl
    ⟨⟨none, none⟩, List.mem_singleton.mpr rfl⟩ rfl
  cases lost

/-- The same snap when the deadline has not come. -/
def inTime : List Event :=
  [.runSnap, .snapExit false true true, .judge, .report ⟨none, none⟩, .conclude, .exit]

/-- The same report when the terminal hangs up behind it. -/
def hungUp : List Event :=
  [.runSnap, .snapExit false true true, .judge, .report ⟨none, none⟩, .kill SIGHUP]

theorem reported_failure_iff_inTime :
    let p : Process := ⟨.exited 1, false,
      [.failedSnapshotExecution ⟨none, none⟩, .executionResult ⟨some .kSnapshotFailed, none⟩]⟩
    let hung : Process := ⟨.killed SIGHUP, false, [.failedSnapshotExecution ⟨none, none⟩]⟩
    run oneSnap inTime = some (p, []) ∧
      ((p.Reported → ∀ result, handleRunnerOutput (fun _ => "") ""
        (Proto.RunnerOutput.ofFields p.stdout) (.exited 1) [] = some result →
          result.success = false) ↔ ¬ AfterReport []) ∧
      ∃ trace, run oneSnap hungUp = some (hung, trace) ∧ trace ≠ [] ∧
        ((hung.Reported → ∀ result, handleRunnerOutput (fun _ => "") ""
          (Proto.RunnerOutput.ofFields hung.stdout) (.signaled SIGHUP) [] = some result →
            result.success = false) ↔ ¬ AfterReport trace) := by
  intro p hung
  have ran : run oneSnap inTime = some (p, []) := rfl
  refine ⟨ran, reported_failure_iff ran rfl _ _, ?_⟩
  have hungRan : run oneSnap hungUp = some (hung, [⟨SIGHUP, _⟩]) := rfl
  exact ⟨_, hungRan, List.cons_ne_nil _ _, reported_failure_iff hungRan rfl _ _⟩

end Silifuzz.Runner
