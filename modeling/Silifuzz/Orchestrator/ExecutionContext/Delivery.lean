import Silifuzz.Orchestrator.ExecutionContext
import Mathlib.Tactic.Common

/-!
# Every result is dropped or delivered

What the bounded queue, the batch that the event loop has swapped out and the callback's
calls hold together, in every state of every interleaving.
-/

namespace Silifuzz.Orchestrator

open Schedules

variable {R σ : Type} {numThreads : Nat} {callback : σ → R → Bool × σ}

def accepted (trace : List (Event R)) : List R :=
  trace.filterMap fun
    | .offered (some result) true => some result
    | _ => none

def dropped (trace : List (Event R)) : List R :=
  trace.filterMap fun
    | .offered (some result) false => some result
    | _ => none

def handed (trace : List (Event R)) : List R :=
  trace.filterMap fun
    | .handed result => some result
    | _ => none

/-- The OK results offered. -/
def offeredOk (trace : List (Event R)) : List R :=
  trace.filterMap fun
    | .offered result _ => result
    | _ => none

/-- The accepted results that the callback has still to see, in its order. -/
def State.inFlight (s : State R σ) : List R :=
  match s.main with
  | .processing .eventLoop rest | .stopping .eventLoop rest => rest ++ s.ctx.invocationResults
  | .processing .processResultQueue rest | .stopping .processResultQueue rest => rest
  | _ => s.ctx.invocationResults

/-- The main thread has joined the workers. -/
def Main.joined : Main R → Bool
  | .processing .processResultQueue _ | .stopping .processResultQueue _ | .finished => true
  | _ => false

/-- What holds of the results offered so far. -/
structure Delivered (numThreads : Nat) (s : State R σ) (trace : List (Event R)) : Prop where
  bounded : s.ctx.invocationResults.length ≤ numThreads
  counted : s.ctx.numDroppedResults = (dropped trace).length
  inOrder : accepted trace = handed trace ++ s.inFlight
  joined : s.main.joined = true → ∀ w ∈ s.workers, w = .finished
  cleared : s.main = .finished → s.ctx.invocationResults = []

@[simp] theorem accepted_append (a b : List (Event R)) :
    accepted (a ++ b) = accepted a ++ accepted b := List.filterMap_append ..

@[simp] theorem dropped_append (a b : List (Event R)) :
    dropped (a ++ b) = dropped a ++ dropped b := List.filterMap_append ..

@[simp] theorem handed_append (a b : List (Event R)) :
    handed (a ++ b) = handed a ++ handed b := List.filterMap_append ..

@[simp] theorem accepted_offered (result : Option R) (ok : Bool) :
    accepted [.offered result ok] = if ok then result.toList else [] := by
  cases result <;> cases ok <;> rfl

@[simp] theorem dropped_offered (result : Option R) (ok : Bool) :
    dropped [.offered result ok] = if ok then [] else result.toList := by
  cases result <;> cases ok <;> rfl

@[simp] theorem handed_offered (result : Option R) (ok : Bool) :
    handed [.offered result ok] = [] := rfl

@[simp] theorem accepted_handed (result : R) : accepted [.handed result] = [] := rfl

@[simp] theorem dropped_handed (result : R) : dropped [.handed result] = [] := rfl

@[simp] theorem handed_handed (result : R) : handed [.handed result] = [result] := rfl

theorem offeredOk_length (trace : List (Event R)) :
    (offeredOk trace).length = (accepted trace).length + (dropped trace).length := by
  induction trace with
  | nil => rfl
  | cons event trace ih =>
    simp only [offeredOk, accepted, dropped, List.filterMap_cons] at ih ⊢
    rcases event with ⟨_ | result, _ | _⟩ | result <;> simp only [List.length_cons] <;> omega

theorem start_delivered (workers : Nat) (collector : σ) :
    Delivered numThreads (start workers collector : State R σ) [] := by
  constructor
  · exact Nat.zero_le _
  · rfl
  · rfl
  · intro h
    contradiction
  · intro h
    contradiction

/-- A worker that is not done has not been joined. -/
theorem Delivered.not_joined {s : State R σ} {trace : List (Event R)} {thread : Nat}
    {w : Worker R} (inv : Delivered numThreads s trace) (here : s.workers[thread]? = some w)
    (busy : w ≠ .finished) : s.main.joined = false := by
  by_contra joined
  apply busy
  exact inv.joined (by simpa using joined) w (List.mem_of_getElem? here)

theorem not_finished {main : Main R} (h : main.joined = false) : main ≠ .finished := by
  rintro rfl
  contradiction

/-- Before the joins, what a worker adds to the queue is behind what is in flight. -/
theorem inFlight_offered {s : State R σ} {result : R} {workers : List (Worker R)}
    (h : s.main.joined = false) :
    State.inFlight { s with ctx.invocationResults := s.ctx.invocationResults ++ [result]
                            workers } = s.inFlight ++ [result] := by
  rcases s with ⟨ctx, expired, ws, main, collector⟩
  cases main with
  | processing caller rest | stopping caller rest =>
    cases caller with
    | eventLoop => exact (List.append_assoc _ _ _).symm
    | processResultQueue => contradiction
  | finished => contradiction
  | looping | waiting | joining => rfl

theorem offer_delivered {s : State R σ} {trace : List (Event R)} {thread : Nat}
    {result : Option R} (inv : Delivered numThreads s trace)
    (here : s.workers[thread]? = some (.offering result)) :
    Delivered numThreads { s with ctx := (s.ctx.offerRunResult numThreads result).2
                                  workers := s.workers.set thread .running }
      (trace ++ [.offered result (s.ctx.offerRunResult numThreads result).1]) := by
  have early : s.main.joined = false := inv.not_joined here (by simp)
  have joined : s.main.joined = true → ∀ w ∈ s.workers.set thread .running, w = .finished := by
    intro joined
    rw [early] at joined
    contradiction
  cases result with
  | none =>
    constructor
    · exact inv.bounded
    · simpa [ExecutionContext.offerRunResult] using inv.counted
    · rw [accepted_append, handed_append, inv.inOrder]
      simp [ExecutionContext.offerRunResult, State.inFlight]
    · exact joined
    · exact inv.cleared
  | some result =>
    by_cases full : s.ctx.invocationResults.length ≥ numThreads
    · simp only [ExecutionContext.offerRunResult, if_pos full]
      constructor
      · exact inv.bounded
      · simpa using inv.counted
      · rw [accepted_append, handed_append, inv.inOrder]
        simp [State.inFlight]
      · exact joined
      · exact inv.cleared
    · simp only [ExecutionContext.offerRunResult, if_neg full]
      constructor
      · simp only [List.length_append, List.length_singleton]
        omega
      · simpa using inv.counted
      · rw [inFlight_offered early, accepted_append, handed_append, inv.inOrder]
        simp
      · exact joined
      · intro finished
        exact absurd finished (not_finished early)

theorem stepWorker_delivered {s s' : State R σ} {trace new : List (Event R)} {thread : Nat}
    {w : Worker R} {action : Action R} (inv : Delivered numThreads s trace)
    (here : s.workers[thread]? = some w)
    (h : stepWorker numThreads s thread w action = some (s', new)) :
    Delivered numThreads s' (trace ++ new) := by
  have changed : ∀ w' : Worker R, w ≠ .finished → s.main.joined = true →
      ∀ v ∈ s.workers.set thread w', v = .finished := by
    intro w' busy joined
    rw [inv.not_joined here busy] at joined
    contradiction
  unfold stepWorker at h
  split at h
  · split at h
    · contradiction
    · obtain ⟨rfl, rfl⟩ := Prod.mk.inj (Option.some.inj h)
      rw [List.append_nil]
      exact ⟨inv.bounded, inv.counted, inv.inOrder, changed _ (by simp), inv.cleared⟩
  · obtain ⟨rfl, rfl⟩ := Prod.mk.inj (Option.some.inj h)
    exact offer_delivered inv here
  · obtain ⟨rfl, rfl⟩ := Prod.mk.inj (Option.some.inj h)
    rw [List.append_nil]
    exact ⟨inv.bounded, inv.counted, inv.inOrder, changed _ (by simp), inv.cleared⟩
  · obtain ⟨rfl, rfl⟩ := Prod.mk.inj (Option.some.inj h)
    rw [List.append_nil]
    exact ⟨inv.bounded, inv.counted, inv.inOrder, changed _ (by simp), inv.cleared⟩
  · contradiction

/-- The callback sees the first result in flight. -/
theorem hand_delivered {s : State R σ} {trace : List (Event R)} {caller : Caller} {result : R}
    {rest : List R} (inv : Delivered numThreads s trace)
    (here : s.main = .processing caller (result :: rest)) :
    Delivered numThreads
      { s with main := if (callback s.collector result).1 then .stopping caller rest
                       else .processing caller rest
               collector := (callback s.collector result).2 } (trace ++ [.handed result]) := by
  have order := inv.inOrder
  have joined := inv.joined
  simp only [State.inFlight, here, Main.joined] at order joined
  constructor
  · exact inv.bounded
  · simpa using inv.counted
  · cases caller <;> split <;> simpa [State.inFlight] using order
  · intro after
    cases caller with
    | eventLoop => split at after <;> contradiction
    | processResultQueue => exact joined rfl
  · intro finished
    split at finished <;> contradiction

theorem stepMain_delivered {s s' : State R σ} {trace new : List (Event R)} {action : Action R}
    (inv : Delivered numThreads s trace)
    (h : stepMain callback s s.main action = some (s', new)) :
    Delivered numThreads s' (trace ++ new) := by
  have order := inv.inOrder
  have joined := inv.joined
  unfold stepMain at h
  split at h
  · next here =>
    obtain ⟨rfl, rfl⟩ := Prod.mk.inj (Option.some.inj h)
    simp only [State.inFlight, here] at order
    rw [List.append_nil]
    refine ⟨inv.bounded, inv.counted, ?_, ?_, ?_⟩
    · split <;> simpa [State.inFlight] using order
    · split <;> simp [Main.joined]
    · split <;> simp
  · next here =>
    obtain ⟨rfl, rfl⟩ := Prod.mk.inj (Option.some.inj h)
    simp only [State.inFlight, here] at order
    rw [List.append_nil]
    exact ⟨Nat.zero_le _, inv.counted, by simpa [State.inFlight] using order,
      by simp [Main.joined], by simp⟩
  · next here =>
    obtain ⟨rfl, rfl⟩ := Prod.mk.inj (Option.some.inj h)
    exact hand_delivered inv here
  · next caller rest here =>
    obtain ⟨rfl, rfl⟩ := Prod.mk.inj (Option.some.inj h)
    simp only [State.inFlight, here, Main.joined] at order joined
    rw [List.append_nil]
    refine ⟨inv.bounded, inv.counted, ?_, ?_, by simp⟩
    · cases caller <;> simpa [State.inFlight, ExecutionContext.stop] using order
    · intro after
      cases caller with
      | eventLoop => contradiction
      | processResultQueue => exact joined rfl
  · next here =>
    obtain ⟨rfl, rfl⟩ := Prod.mk.inj (Option.some.inj h)
    simp only [State.inFlight, here] at order
    rw [List.append_nil]
    exact ⟨inv.bounded, inv.counted, by simpa [State.inFlight] using order,
      by simp [Main.joined], by simp⟩
  · next here =>
    split at h
    · next done =>
      obtain ⟨rfl, rfl⟩ := Prod.mk.inj (Option.some.inj h)
      simp only [State.inFlight, here] at order
      rw [List.append_nil]
      refine ⟨inv.bounded, inv.counted, by simpa [State.inFlight] using order, ?_, by simp⟩
      intro _ w hw
      have ended := List.all_eq_true.mp done w hw
      cases w with
      | finished => rfl
      | running | offering _ | stopping => contradiction
    · contradiction
  · next here =>
    obtain ⟨rfl, rfl⟩ := Prod.mk.inj (Option.some.inj h)
    simp only [State.inFlight, here, Main.joined] at order joined
    rw [List.append_nil]
    exact ⟨Nat.zero_le _, inv.counted, by simpa [State.inFlight] using order,
      fun _ => joined trivial, fun _ => rfl⟩
  · contradiction

theorem step_delivered {s s' : State R σ} {trace new : List (Event R)} {action : Action R}
    (inv : Delivered numThreads s trace)
    (h : step numThreads callback s action = some (s', new)) :
    Delivered numThreads s' (trace ++ new) := by
  unfold step at h
  split at h
  · obtain ⟨w, here, h⟩ := Option.bind_eq_some_iff.mp h
    exact stepWorker_delivered inv here h
  · obtain ⟨w, here, h⟩ := Option.bind_eq_some_iff.mp h
    exact stepWorker_delivered inv here h
  · obtain ⟨w, here, h⟩ := Option.bind_eq_some_iff.mp h
    exact stepWorker_delivered inv here h
  · obtain ⟨w, here, h⟩ := Option.bind_eq_some_iff.mp h
    exact stepWorker_delivered inv here h
  · obtain ⟨rfl, rfl⟩ := Prod.mk.inj (Option.some.inj h)
    rw [List.append_nil]
    exact ⟨inv.bounded, inv.counted, inv.inOrder, inv.joined, inv.cleared⟩
  · obtain ⟨rfl, rfl⟩ := Prod.mk.inj (Option.some.inj h)
    rw [List.append_nil]
    exact ⟨inv.bounded, inv.counted, inv.inOrder, inv.joined, inv.cleared⟩
  · exact stepMain_delivered inv h

/-- In every interleaving. -/
theorem run_delivered {workers : Nat} {collector : σ} {schedule : List (Action R)}
    {s : State R σ} {trace : List (Event R)}
    (h : run (step numThreads callback) (start workers collector) schedule = some (s, trace)) :
    Delivered numThreads s trace :=
  run_after (P := Delivered numThreads) (start_delivered workers collector)
    (fun _ _ _ _ _ inv next => step_delivered inv next) h

/-- The main thread is at the `Stop()` that the callback has asked for. -/
def Main.requestsStop : Main R → Bool
  | .stopping _ _ => true
  | _ => false

/-- What the collector knows of the results handed to it. -/
structure Collected (reportRunawaysAsErrors : Bool) (failAfterNErrors : Int)
    (s : State RunResult ResultCollector) (trace : List (Event RunResult)) : Prop where
  options : s.collector.reportRunawaysAsErrors = reportRunawaysAsErrors
  played : s.collector.summary.playCount = (handed trace).length
  left : s.collector.failAfterNErrors =
    failAfterNErrors - (handed trace).countP (ResultCollector.countable reportRunawaysAsErrors)
  stops : 0 < (handed trace).countP (ResultCollector.countable reportRunawaysAsErrors) →
    s.collector.failAfterNErrors ≤ 0 →
    s.ctx.stopExecution = true ∨ s.main.requestsStop = true

section
variable {reports : Bool} {limit : Int} {s s' : State RunResult ResultCollector}
  {trace new : List (Event RunResult)} {action : Action RunResult}

/-- An action that hands nothing over, and neither takes a stop back nor forgets one. -/
theorem Collected.quiet (inv : Collected reports limit s trace)
    (collector : s'.collector = s.collector) (none : handed new = [])
    (stop : s.ctx.stopExecution = true ∨ s.main.requestsStop = true →
      s'.ctx.stopExecution = true ∨ s'.main.requestsStop = true) :
    Collected reports limit s' (trace ++ new) := by
  have same : handed (trace ++ new) = handed trace := by rw [handed_append, none, List.append_nil]
  constructor
  · rw [collector, inv.options]
  · rw [collector, same, inv.played]
  · rw [collector, same, inv.left]
  · rw [collector, same]
    exact fun some low => stop (inv.stops some low)

theorem hand_collected {caller : Caller} {result : RunResult} {rest : List RunResult}
    (inv : Collected reports limit s trace)
    (here : s.main = .processing caller (result :: rest)) :
    Collected reports limit
      { s with main := if (s.collector.call result).1 then .stopping caller rest
                       else .processing caller rest
               collector := (s.collector.call result).2 } (trace ++ [.handed result]) := by
  have before := inv.stops
  have left := inv.left
  simp only [here, Main.requestsStop, Bool.false_eq_true, or_false] at before
  cases counts : ResultCollector.countable reports result with
  | true =>
    obtain ⟨less, stops⟩ := ResultCollector.call_countable (inv.options ▸ counts)
    constructor
    · rw [ResultCollector.call_reports, inv.options]
    · rw [ResultCollector.call_playCount, inv.played, handed_append, List.length_append]
      rfl
    · simp only [less, handed_append, handed_handed, List.countP_append, List.countP_singleton,
        counts, ↓reduceIte]
      omega
    · intro _ low
      rw [if_pos (stops.mpr (less ▸ low))]
      exact Or.inr rfl
  | false =>
    obtain ⟨same, goes⟩ := ResultCollector.call_other (inv.options ▸ counts)
    have none : (handed (trace ++ [.handed result])).countP (ResultCollector.countable reports) =
        (handed trace).countP (ResultCollector.countable reports) := by
      simp [List.countP_append, counts]
    constructor
    · rw [ResultCollector.call_reports, inv.options]
    · rw [ResultCollector.call_playCount, inv.played, handed_append, List.length_append]
      rfl
    · rw [none, same, left]
    · rw [none, same]
      exact fun some low => Or.inl (before some low)

theorem offerRunResult_stop {R : Type} (ctx : ExecutionContext R) (result : Option R) :
    (ctx.offerRunResult numThreads result).2.stopExecution = ctx.stopExecution := by
  unfold ExecutionContext.offerRunResult
  split
  · rfl
  · split <;> rfl

theorem stepWorker_collected {thread : Nat} {w : Worker RunResult}
    (inv : Collected reports limit s trace)
    (h : stepWorker numThreads s thread w action = some (s', new)) :
    Collected reports limit s' (trace ++ new) := by
  unfold stepWorker at h
  split at h
  · split at h
    · contradiction
    · obtain ⟨rfl, rfl⟩ := Prod.mk.inj (Option.some.inj h)
      exact inv.quiet rfl rfl id
  · obtain ⟨rfl, rfl⟩ := Prod.mk.inj (Option.some.inj h)
    refine inv.quiet rfl rfl fun stop => ?_
    rw [offerRunResult_stop]
    exact stop
  · obtain ⟨rfl, rfl⟩ := Prod.mk.inj (Option.some.inj h)
    exact inv.quiet rfl rfl id
  · obtain ⟨rfl, rfl⟩ := Prod.mk.inj (Option.some.inj h)
    exact inv.quiet rfl rfl fun _ => Or.inl rfl
  · contradiction

theorem stepMain_collected (inv : Collected reports limit s trace)
    (h : stepMain ResultCollector.call s s.main action = some (s', new)) :
    Collected reports limit s' (trace ++ new) := by
  -- only at its `Stop()` does the main thread have a stop of its own to forget
  have kept : s.main.requestsStop = false →
      s.ctx.stopExecution = true ∨ s.main.requestsStop = true → s.ctx.stopExecution = true := by
    intro idle stop
    simpa [idle] using stop
  unfold stepMain at h
  split at h
  · next here =>
    obtain ⟨rfl, rfl⟩ := Prod.mk.inj (Option.some.inj h)
    exact inv.quiet rfl rfl fun stop => Or.inl (kept (here ▸ rfl) stop)
  · next here =>
    obtain ⟨rfl, rfl⟩ := Prod.mk.inj (Option.some.inj h)
    exact inv.quiet rfl rfl fun stop => Or.inl (kept (here ▸ rfl) stop)
  · next here =>
    obtain ⟨rfl, rfl⟩ := Prod.mk.inj (Option.some.inj h)
    exact hand_collected inv here
  · obtain ⟨rfl, rfl⟩ := Prod.mk.inj (Option.some.inj h)
    exact inv.quiet rfl rfl fun _ => Or.inl rfl
  · next here =>
    obtain ⟨rfl, rfl⟩ := Prod.mk.inj (Option.some.inj h)
    exact inv.quiet rfl rfl fun stop => Or.inl (kept (here ▸ rfl) stop)
  · next here =>
    split at h
    · obtain ⟨rfl, rfl⟩ := Prod.mk.inj (Option.some.inj h)
      exact inv.quiet rfl rfl fun stop => Or.inl (kept (here ▸ rfl) stop)
    · contradiction
  · next here =>
    obtain ⟨rfl, rfl⟩ := Prod.mk.inj (Option.some.inj h)
    exact inv.quiet rfl rfl fun stop => Or.inl (kept (here ▸ rfl) stop)
  · contradiction

theorem step_collected (inv : Collected reports limit s trace)
    (h : step numThreads ResultCollector.call s action = some (s', new)) :
    Collected reports limit s' (trace ++ new) := by
  unfold step at h
  split at h
  · obtain ⟨w, here, h⟩ := Option.bind_eq_some_iff.mp h
    exact stepWorker_collected inv h
  · obtain ⟨w, here, h⟩ := Option.bind_eq_some_iff.mp h
    exact stepWorker_collected inv h
  · obtain ⟨w, here, h⟩ := Option.bind_eq_some_iff.mp h
    exact stepWorker_collected inv h
  · obtain ⟨w, here, h⟩ := Option.bind_eq_some_iff.mp h
    exact stepWorker_collected inv h
  · obtain ⟨rfl, rfl⟩ := Prod.mk.inj (Option.some.inj h)
    exact inv.quiet rfl rfl fun _ => Or.inl rfl
  · obtain ⟨rfl, rfl⟩ := Prod.mk.inj (Option.some.inj h)
    exact inv.quiet rfl rfl id
  · exact stepMain_collected inv h

theorem run_collected {workers : Nat} {schedule : List (Action RunResult)}
    (h : run (step numThreads ResultCollector.call)
      (start workers (ResultCollector.create reports limit)) schedule = some (s, trace)) :
    Collected reports limit s trace := by
  apply run_after (P := Collected reports limit) _
    (fun _ _ _ _ _ inv next => step_collected inv next) h
  constructor
  · rfl
  · rfl
  · exact (Int.sub_zero limit).symm
  · intro some
    contradiction

end

/--
**Every result is dropped or delivered.**

In every interleaving, with any callback: the queue holds at most `num_threads` results,
`num_dropped_results` counts the OK results refused, and the accepted ones, in the order of
their acceptance, are those handed to the callback followed by those in flight, of which
there are none when the main thread is done. So the `play_count` of a `ResultCollector`
and the dropped results are then the OK results offered, and once `fail_after_n_errors`
countable results have been handed to it, a stop is requested before the next one is.
-/
theorem results_delivered (numThreads workers : Nat) :
    (∀ {R σ : Type} (callback : σ → R → Bool × σ) (collector : σ) (schedule : List (Action R))
      (s : State R σ) (trace : List (Event R)),
      run (step numThreads callback) (start workers collector) schedule = some (s, trace) →
      s.ctx.invocationResults.length ≤ numThreads ∧
      s.ctx.numDroppedResults = (dropped trace).length ∧
      accepted trace = handed trace ++ s.inFlight ∧
      (s.main = .finished → accepted trace = handed trace)) ∧
    (∀ (reports : Bool) (limit : Int) (schedule : List (Action RunResult))
      (s : State RunResult ResultCollector) (trace : List (Event RunResult)),
      run (step numThreads ResultCollector.call)
        (start workers (ResultCollector.create reports limit)) schedule = some (s, trace) →
      (s.main = .finished →
        s.collector.summary.playCount + s.ctx.numDroppedResults = (offeredOk trace).length) ∧
      (max 1 limit ≤ (handed trace).countP (ResultCollector.countable reports) →
        s.ctx.stopExecution = true ∨ s.main.requestsStop = true)) := by
  constructor
  · intro R σ callback collector schedule s trace h
    have inv := run_delivered h
    refine ⟨inv.bounded, inv.counted, inv.inOrder, fun finished => ?_⟩
    have all := inv.inOrder
    simp only [State.inFlight, finished, inv.cleared finished, List.append_nil] at all
    exact all
  · intro reports limit schedule s trace h
    have inv := run_delivered h
    have collected := run_collected h
    constructor
    · intro finished
      have all := inv.inOrder
      simp only [State.inFlight, finished, inv.cleared finished, List.append_nil] at all
      rw [offeredOk_length, all, collected.played, inv.counted]
    · intro reached
      have left := collected.left
      exact collected.stops (by omega) (by omega)

def failing : RunResult := ⟨false, some .kMemoryMismatch⟩

/-- One slot: the second result is dropped, and the first one stops the loop. -/
def fullQueue : List (Action RunResult) :=
  [.mainLoops, .workerRuns 0 (some failing), .workerRuns 1 (some failing), .workerOffers 1,
    .workerOffers 0, .mainWakes, .mainHands, .mainStops, .mainReturns, .mainLoops,
    .workerBreaks 0, .workerStops 0, .workerBreaks 1, .workerStops 1, .mainJoins, .mainReturns]

def fullQueueLast : State RunResult ResultCollector :=
  ⟨⟨true, [], 1⟩, false, [.finished, .finished], .finished, ⟨false, 0, ⟨1, 1, 0⟩⟩⟩

def fullQueueTrace : List (Event RunResult) :=
  [.offered (some failing) true, .offered (some failing) false, .handed failing]

theorem results_delivered_fullQueue :
    accepted fullQueueTrace = handed fullQueueTrace ∧
      fullQueueLast.collector.summary.playCount + fullQueueLast.ctx.numDroppedResults =
        (offeredOk fullQueueTrace).length ∧
      (fullQueueLast.ctx.stopExecution = true ∨ fullQueueLast.main.requestsStop = true) :=
  ⟨((results_delivered 1 2).1 ResultCollector.call (.create false 1) fullQueue fullQueueLast
      fullQueueTrace rfl).2.2.2 rfl,
    ((results_delivered 1 2).2 false 1 fullQueue fullQueueLast fullQueueTrace rfl).1 rfl,
    ((results_delivered 1 2).2 false 1 fullQueue fullQueueLast fullQueueTrace rfl).2 (by decide)⟩

end Silifuzz.Orchestrator
