import Silifuzz.Common.HarnessTracer
import Silifuzz.Library.Schedules

/-!
# A process under the tracer

What a tracee executes between the stops at which the tracer resumes it. The processor may
delay the trap of a single step beyond the next instruction, as it does after a load of the
stack segment.
-/

namespace Silifuzz.HarnessTracer

inductive Tracee where
  | running
  /-- To execute the instruction at which it was stopped. -/
  | stepping (stop : PtraceStop)
  /-- The trap of a single step is due. -/
  | trapping

inductive Tracee.Event where
  /-- An instruction that no stop came before. -/
  | execute (regs : UserRegs) (memory : TraceeMemory)
  | singleStep
  | stop (stop : PtraceStop)

/-- What can be seen of a run. -/
inductive Tracee.Entry where
  /-- An executed instruction, with the stop that it was stepped from. -/
  | executed (regs : UserRegs) (memory : TraceeMemory) (origin : Option PtraceStop)
  | stopped (stop : PtraceStop) (isActive : Bool)
  | injected (stop : PtraceStop) (signal : Nat)

/-- A tracer with its tracee. -/
structure Traced (σ : Type) where
  callbackState : σ
  isActive : Bool
  tracee : Tracee

/-- A signal that is injected with a step stops the tracee at its handler. -/
def Resume.tracee (resume : Resume) (stop : PtraceStop) : Tracee :=
  if resume.steps then if resume.signal = 0 then .stepping stop else .trapping else .running

def Resume.entries (resume : Resume) (stop : PtraceStop) : List Tracee.Entry :=
  if resume.signal = 0 then [] else [.injected stop resume.signal]

section Run

variable {σ : Type} (arch : Architecture) (mode : Mode) (callback : Callback σ)

def Traced.step (s : Traced σ) : Tracee.Event → Option (Traced σ × List Tracee.Entry)
  | .execute regs memory =>
    match s.tracee with
    | .stepping _ => none
    | .running | .trapping => some (s, [.executed regs memory none])
  | .singleStep =>
    match s.tracee with
    | .stepping stop =>
      some ({ s with tracee := .trapping }, [.executed stop.regs stop.memory (some stop)])
    | .running | .trapping => none
  | .stop stop =>
    (trace arch mode callback s.callbackState s.isActive stop).map fun next =>
      (⟨next.1, next.2.1, next.2.2.tracee stop⟩,
        .stopped stop s.isActive :: next.2.2.entries stop)

/-- The tracer attaches to a process that runs. -/
def Traced.start (s : σ) : Traced σ := ⟨s, false, .running⟩

def Traced.run (s : σ) (events : List Tracee.Event) : Option (Traced σ × List Tracee.Entry) :=
  Schedules.run (Traced.step arch mode callback) (Traced.start s) events

variable {arch mode callback}

/-- An instruction that is stepped executes as the stop has found it. -/
theorem run_origin {s : σ} {events : List Tracee.Event} {last : Traced σ × List Tracee.Entry}
    (ran : Traced.run arch mode callback s events = some last) {regs : UserRegs}
    {memory : TraceeMemory} {stop : PtraceStop}
    (mem : .executed regs memory (some stop) ∈ last.2) :
    regs = stop.regs ∧ memory = stop.memory := by
  revert regs memory stop
  suffices all : ∀ regs memory stop, Tracee.Entry.executed regs memory (some stop) ∈ last.2 →
      regs = stop.regs ∧ memory = stop.memory by
    intro regs memory stop mem
    exact all regs memory stop mem
  apply Schedules.run_after (P := fun _ trace => ∀ regs memory stop,
    Tracee.Entry.executed regs memory (some stop) ∈ trace →
      regs = stop.regs ∧ memory = stop.memory) ?_ ?_ ran
  · intro regs memory stop mem
    cases mem
  · intro s trace event s' new known next regs memory stop mem
    cases List.mem_append.mp mem with
    | inl old => exact known regs memory stop old
    | inr here =>
      cases event with
      | execute =>
        simp only [Traced.step] at next
        split at next
        · cases next
        all_goals
          cases next
          cases List.mem_singleton.mp here
      | singleStep =>
        simp only [Traced.step] at next
        split at next
        · cases next
          cases List.mem_singleton.mp here
          exact ⟨rfl, rfl⟩
        all_goals cases next
      | stop stop' =>
        obtain ⟨after, traced, next⟩ := Option.map_eq_some_iff.mp next
        cases next
        unfold Resume.entries at here
        split at here
        all_goals simp at here

end Run

/-- A stop with which the callback is called for the sake of an instruction. -/
def examined (arch : Architecture) (mode : Mode) (stop : PtraceStop) (isActive : Bool) : Bool :=
  isActive && stop.stopSig != SIGSTOP &&
    callbackReason arch mode stop != some .kSignalStop

end Silifuzz.HarnessTracer
