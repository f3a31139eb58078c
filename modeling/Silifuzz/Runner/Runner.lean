import Silifuzz.Runner.Driver.RunnerDriver
import Silifuzz.Library.Schedules

/-!
# The runner process

`RunnerMain`, `RunnerMainSequential` and `SigAction` of `runner/runner.cc` as a state
machine: where the process stands, what it has written to stdout, and whether its signal
mask blocks the timers. A step is one of the process, of the snap that runs or of a
signal, with the handler of `InstallSigHandler` or without one. Every handler that leaves
through `RunnerReentryFromSignal` does not return to the kernel, so the timers in its
`sa_mask` stay blocked.
-/

namespace Silifuzz

inductive RunSnapOutcome where
  | kAsExpected
  | kPlatformMismatch
  | kMemoryMismatch
  | kRegisterStateMismatch
  | kEndpointMismatch
  | kExecutionRunaway
  | kExecutionMisbehave
  deriving DecidableEq, Repr

namespace Runner

def SIGHUP : Nat := 1
def SIGKILL : Nat := 9
def SIGALRM : Nat := 14
def SIGSTOP : Nat := 19
def SIGXCPU : Nat := 24
def SIGWINCH : Nat := 28

/-- `_NSIG` -/
def NSIG : Nat := 65

/-- The signals that `InstallSigHandler` leaves to their default action. -/
def unhandledSignals : List Nat :=
  [SIGKILL, SIGSTOP, SIGWINCH, SIGHUP, RunnerDriver.SIGINT]

/-- `SigAction` is installed for the signal. -/
def Handled (signum : Nat) : Prop :=
  1 ≤ signum ∧ signum < NSIG ∧ signum ∉ unhandledSignals

instance : DecidablePred Handled := fun _ => inferInstanceAs (Decidable (_ ∧ _))

/-- The default action of the others that ends the process. `SIGSYS` is the one of the seccomp
filter, which the kernel does not leave to the handler. -/
def fatalSignals : List Nat := [SIGHUP, RunnerDriver.SIGINT, SIGKILL, RunnerDriver.SIGSYS]

/-- The system-defined signals from number 1 on. -/
def systemSignals : List String :=
  ["SIGHUP", "SIGINT", "SIGQUIT", "SIGILL", "SIGTRAP", "SIGABRT", "SIGBUS", "SIGFPE", "SIGKILL",
    "SIGUSR1", "SIGSEGV", "SIGUSR2", "SIGPIPE", "SIGALRM", "SIGTERM", "SIGSTKFLT", "SIGCHLD",
    "SIGCONT", "SIGSTOP", "SIGTSTP", "SIGTTIN", "SIGTTOU", "SIGURG", "SIGXCPU", "SIGXFSZ",
    "SIGVTALRM", "SIGPROF", "SIGWINCH", "SIGIO", "SIGPWR", "SIGSYS"]

def signalNameStr (signal : Nat) : String :=
  if 32 ≤ signal ∧ signal ≤ 64 then "__SIGRTMIN+" ++ toString (signal - 32)
  else (("UNKNOWN SIGNAL" :: systemSignals)[signal]?).getD "UNKNOWN SIGNAL"

/-- Where a snap stopped, and how its state there compares to the expected one. -/
structure EndSpot where
  signum : Nat
  registersMatch : Bool
  checksumMatches : Bool
  memoryMatches : Bool
  deriving DecidableEq, Repr

def endSpotToOutcome (endSpot : EndSpot) : RunSnapOutcome :=
  if endSpot.signum ≠ 0 then
    if endSpot.signum = SIGXCPU ∨ endSpot.signum = SIGALRM then .kExecutionRunaway
    else .kExecutionMisbehave
  else if !endSpot.registersMatch then .kRegisterStateMismatch
  else if !endSpot.checksumMatches then .kRegisterStateMismatch
  else if !endSpot.memoryMatches then .kMemoryMismatch
  else .kAsExpected

structure RunnerMainOptions where
  sequentialMode : Bool
  numIterations : Nat
  /-- The number of snaps in the corpus. -/
  corpusSize : Nat
  skipEndStateCheck : Bool

/-- How many snaps the main loop runs. -/
def RunnerMainOptions.runs (options : RunnerMainOptions) : Nat :=
  if options.sequentialMode then options.corpusSize else options.numIterations

inductive Phase where
  /-- In the main loop, outside of a snap. -/
  | loop (left : Nat)
  /-- `IsInsideSnap()` -/
  | inside (left : Nat)
  /-- The snap has been left. -/
  | ended (left : Nat) (endSpot : EndSpot)
  | failed (outcome : RunSnapOutcome)
  /-- `LogSnapRunResult` has returned. -/
  | reported
  /-- `LogPostfailureChecksumStatus` has returned. -/
  | verified
  /-- `LogExecutionResult` has returned, and the process is about to exit. -/
  | concluded (exitCode : Nat)
  | exited (exitCode : Nat)
  /-- The default action of a signal has ended the process. -/
  | killed (termSig : Nat)
  deriving DecidableEq, Repr

/-- What the parent is told of a process that has ended. -/
def Phase.status : Phase → Option RunnerDriver.ProcessStatus
  | .exited exitCode => some (.exited exitCode)
  | .killed termSig => some (.signaled termSig)
  | _ => none

structure Process where
  phase : Phase
  /-- The timers are in the signal mask. -/
  blocked : Bool
  stdout : List Proto.RunnerOutput.Field

inductive Timer where
  | alrm
  | xcpu
  deriving DecidableEq, Repr

inductive Event where
  | runSnap
  /-- The snap runs into its exit sequence. -/
  | snapExit (registersMatch checksumMatches memoryMatches : Bool)
  /-- A signal that the handler blames on the snap. -/
  | snapSignal (signum : Nat)
  | judge
  | report (result : Proto.SnapshotExecutionResult)
  | verifySnapChecksums (ok : Bool)
  | conclude
  | exit
  /-- A timer signal is sent to the process. -/
  | timer (timer : Timer)
  /-- Any other signal with a handler while no snap runs. -/
  | fault (signum : Nat)
  /-- A signal that ends the process without a handler. -/
  | kill (signum : Nat)
  /-- A `CHECK` of the runner fails. -/
  | fatal

def Timer.signum : Timer → Nat
  | .alrm => SIGALRM
  | .xcpu => SIGXCPU

/-- A timer signal or one without a handler that the process received, and how it stood
then. -/
structure Delivery where
  signum : Nat
  process : Process

def logExecutionResult (p : Process) (code : RunnerExecutionStatusCode)
    (message : Option String) : Process :=
  { p with stdout := p.stdout ++ [.executionResult ⟨some code, message⟩] }

/-- `RunnerReentryFromSignal`, with the timers masked by the handler. -/
def reentryFromSignal (p : Process) (left signum : Nat) : Process :=
  { p with phase := .ended left ⟨signum, false, false, false⟩, blocked := true }

/-- `SigAction` for a timer that the mask lets through. -/
def timerAction (p : Process) : Timer → Process
  | .alrm => { p with phase := .exited 2 }
  | .xcpu =>
    match p.phase with
    | .inside left => reentryFromSignal p left SIGXCPU
    | _ => { p with phase := .exited 2 }

/-- A timer that is blocked stays pending, and nobody unblocks it. -/
def deliver (p : Process) (timer : Timer) : Process × List Delivery :=
  if p.blocked then (p, []) else (timerAction p timer, [⟨timer.signum, p⟩])

/-- `SigAction` for any other signal outside of a snap: `LOG_FATAL` exits with 1. -/
def unhandledSignal (p : Process) (signum : Nat) : Process :=
  { logExecutionResult p .kUnhandledSignal (some (signalNameStr signum)) with
    phase := .concluded 1, blocked := true }

/-- The signals that reach the end of `SigAction`. -/
def NoTimer (signum : Nat) : Prop := Handled signum ∧ signum ≠ SIGALRM ∧ signum ≠ SIGXCPU

instance : DecidablePred NoTimer := fun _ => inferInstanceAs (Decidable (_ ∧ _))

/-- The outcome of `RunSnap`. -/
def outcomeOf (options : RunnerMainOptions) (endSpot : EndSpot) : RunSnapOutcome :=
  if options.skipEndStateCheck then .kAsExpected else endSpotToOutcome endSpot

def step (options : RunnerMainOptions) (p : Process) :
    Event → Option (Process × List Delivery)
  | .timer timer =>
    match p.phase with
    | .exited _ | .killed _ => none
    | _ => some (deliver p timer)
  | .fault signum =>
    match p.phase with
    | .exited _ | .killed _ | .inside _ => none
    | _ => if NoTimer signum then some (unhandledSignal p signum, []) else none
  | .kill signum =>
    match p.phase with
    | .exited _ | .killed _ => none
    | _ =>
      if signum ∈ fatalSignals then some ({ p with phase := .killed signum }, [⟨signum, p⟩])
      else none
  | .fatal =>
    match p.phase with
    | .exited _ | .killed _ | .inside _ => none
    | _ => some ({ p with phase := .concluded 1 }, [])
  | .runSnap =>
    match p.phase with
    | .loop (left + 1) => some ({ p with phase := .inside left }, [])
    | _ => none
  | .snapExit registersMatch checksumMatches memoryMatches =>
    match p.phase with
    | .inside left =>
      some ({ p with phase := .ended left ⟨0, registersMatch, checksumMatches, memoryMatches⟩ },
        [])
    | _ => none
  | .snapSignal signum =>
    match p.phase with
    | .inside left =>
      if NoTimer signum then some (reentryFromSignal p left signum, []) else none
    | _ => none
  | .judge =>
    match p.phase with
    | .ended left endSpot =>
      let outcome := outcomeOf options endSpot
      some ({ p with
        phase := if outcome ≠ .kAsExpected then .failed outcome else .loop left }, [])
    | _ => none
  | .report result =>
    match p.phase with
    | .failed _ =>
      some ({ p with phase := .reported, stdout := p.stdout ++ [.failedSnapshotExecution result] },
        [])
    | _ => none
  | .verifySnapChecksums ok =>
    match p.phase with
    | .reported =>
      if options.sequentialMode then none
      else
        let status := if ok then .kMatch else .kMismatch
        some ({ p with
          phase := .verified, stdout := p.stdout ++ [.postfailureChecksumStatus status] }, [])
    | _ => none
  | .conclude =>
    match p.phase with
    | .loop 0 => some ({ logExecutionResult p .kOk none with phase := .concluded 0 }, [])
    | .reported =>
      if options.sequentialMode then
        some ({ logExecutionResult p .kSnapshotFailed none with phase := .concluded 1 }, [])
      else none
    | .verified =>
      some ({ logExecutionResult p .kSnapshotFailed none with phase := .concluded 1 }, [])
    | _ => none
  | .exit =>
    match p.phase with
    | .concluded exitCode => some ({ p with phase := .exited exitCode }, [])
    | _ => none

/-- After `CommonMain`. -/
def start (options : RunnerMainOptions) : Process := ⟨.loop options.runs, false, []⟩

/-- A run of the process, with the deliveries to it. -/
def run (options : RunnerMainOptions) (events : List Event) : Option (Process × List Delivery) :=
  Schedules.run (step options) (start options) events

end Runner

end Silifuzz
