import Silifuzz.Library.Schedules
import Silifuzz.Orchestrator.ResultCollector

/-!
# ExecutionContext

`ExecutionContext<RunResultT>` of `orchestrator/execution_context.h`, and the threads of the
orchestrator around it:

* `Worker`, `Main`: where a `RunnerThread` and the main thread are, between two atomic
  actions of theirs; what `mu_` guards is one action;
* `step`: the action that a schedule picks, and the calls that it shows. The deadline is a
  clock that may read either way at any moment, and `Stop()` may be called from outside.
-/

namespace Silifuzz

structure ExecutionContext (R : Type) where
  stopExecution : Bool
  invocationResults : List R
  /-- An `int` in the source, so this is its value for fewer than `2 ^ 31` dropped results. -/
  numDroppedResults : Nat
  deriving DecidableEq, Repr

/-- `OfferRunResult()` of a result, or of a status that is not OK. -/
def ExecutionContext.offerRunResult {R : Type} (ctx : ExecutionContext R) (numThreads : Nat) :
    Option R → Bool × ExecutionContext R
  | none => (true, ctx)
  | some result =>
    if ctx.invocationResults.length ≥ numThreads then
      (false, { ctx with numDroppedResults := ctx.numDroppedResults + 1 })
    else (true, { ctx with invocationResults := ctx.invocationResults ++ [result] })

def ExecutionContext.stop {R : Type} (ctx : ExecutionContext R) : ExecutionContext R :=
  { ctx with stopExecution := true }

namespace Orchestrator

/-- A `RunnerThread`: in its loop, about to offer a result, past the loop, or done. -/
inductive Worker (R : Type) where
  | running
  | offering (result : Option R)
  | stopping
  | finished
  deriving DecidableEq, Repr

/-- The caller of `ProcessResultQueueImpl()`. -/
inductive Caller where
  | eventLoop
  | processResultQueue
  deriving DecidableEq, Repr

/-- The main thread. `processing` has the results that the callback has still to see, and
`stopping` is between a callback that returned true and the `Stop()` that follows it. -/
inductive Main (R : Type) where
  | looping
  | waiting
  | processing (caller : Caller) (results : List R)
  | stopping (caller : Caller) (results : List R)
  | joining
  | finished
  deriving DecidableEq, Repr

/-- The context, the clock, the threads, and what the callback captures. -/
structure State (R σ : Type) where
  ctx : ExecutionContext R
  expired : Bool
  workers : List (Worker R)
  main : Main R
  collector : σ
  deriving DecidableEq, Repr

/-- `OfferRunResult()` with what it returned, and the callback's calls. -/
inductive Event (R : Type) where
  | offered (result : Option R) (accepted : Bool)
  | handed (result : R)
  deriving DecidableEq, Repr

inductive Action (R : Type) where
  | workerRuns (thread : Nat) (result : Option R)
  | workerOffers (thread : Nat)
  | workerBreaks (thread : Nat)
  | workerStops (thread : Nat)
  | mainLoops
  | mainWakes
  | mainHands
  | mainStops
  | mainReturns
  | mainJoins
  | stop
  | clock (expired : Bool)
  deriving DecidableEq, Repr

variable {R σ : Type}

def start (workers : Nat) (collector : σ) : State R σ :=
  ⟨⟨false, [], 0⟩, false, List.replicate workers .running, .looping, collector⟩

def State.shouldStop (s : State R σ) : Bool := s.ctx.stopExecution || s.expired

/-- The atomic actions of `RunnerThread()`. -/
def stepWorker (numThreads : Nat) (s : State R σ) (thread : Nat) :
    Worker R → Action R → Option (State R σ × List (Event R))
  | .running, .workerRuns _ result =>
    if s.shouldStop then none
    else some ({ s with workers := s.workers.set thread (.offering result) }, [])
  | .offering result, .workerOffers _ =>
    let offer := s.ctx.offerRunResult numThreads result
    some ({ s with ctx := offer.2, workers := s.workers.set thread .running },
      [.offered result offer.1])
  -- the loop also ends at the deadline, and at the end of a sequential stream
  | .running, .workerBreaks _ => some ({ s with workers := s.workers.set thread .stopping }, [])
  | .stopping, .workerStops _ =>
    some ({ s with ctx := s.ctx.stop, workers := s.workers.set thread .finished }, [])
  | _, _ => none

/-- The atomic actions of `EventLoop()`, the joins and `ProcessResultQueue()`. -/
def stepMain (callback : σ → R → Bool × σ) (s : State R σ) :
    Main R → Action R → Option (State R σ × List (Event R))
  | .looping, .mainLoops =>
    some ({ s with main := if s.shouldStop then .joining else .waiting }, [])
  -- the wait for `ShouldWakeUp` may time out, so it ends at any moment
  | .waiting, .mainWakes =>
    some ({ s with ctx.invocationResults := []
                   main := .processing .eventLoop s.ctx.invocationResults }, [])
  | .processing caller (result :: rest), .mainHands =>
    let answer := callback s.collector result
    some ({ s with main := if answer.1 then .stopping caller rest else .processing caller rest
                   collector := answer.2 }, [.handed result])
  | .stopping caller rest, .mainStops =>
    some ({ s with ctx := s.ctx.stop, main := .processing caller rest }, [])
  | .processing .eventLoop [], .mainReturns => some ({ s with main := .looping }, [])
  | .joining, .mainJoins =>
    if s.workers.all fun w => w matches .finished then
      some ({ s with main := .processing .processResultQueue s.ctx.invocationResults }, [])
    else none
  | .processing .processResultQueue [], .mainReturns =>
    some ({ s with ctx.invocationResults := [], main := .finished }, [])
  | _, _ => none

/-- The thread that an action is of; the last two are of neither. -/
def step (numThreads : Nat) (callback : σ → R → Bool × σ) (s : State R σ) (action : Action R) :
    Option (State R σ × List (Event R)) :=
  match action with
  | .workerRuns thread _ | .workerOffers thread | .workerBreaks thread | .workerStops thread => do
    stepWorker numThreads s thread (← s.workers[thread]?) action
  | .stop => some ({ s with ctx := s.ctx.stop }, [])
  | .clock expired => some ({ s with expired }, [])
  | _ => stepMain callback s s.main action

end Orchestrator

end Silifuzz
