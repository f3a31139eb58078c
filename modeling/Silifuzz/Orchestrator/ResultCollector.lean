import Silifuzz.Player.PlayerResultProto

/-!
# ResultCollector

`ResultCollector::operator()` of `orchestrator/result_collector.cc`: what it reads of a
`RunnerDriver::RunResult`, and the counts that it keeps. Logging changes none of them.
-/

namespace Silifuzz

/-- `RunnerDriver::RunResult`: `success()`, and `failed_player_result()` if there is one. -/
structure RunResult where
  success : Bool
  failedPlayerResult : Option PlaybackOutcome
  deriving DecidableEq, Repr

structure Summary where
  numFailedSnapshots : Nat
  playCount : Nat
  numRunawaySnapshots : Nat
  deriving DecidableEq, Repr

structure ResultCollector where
  reportRunawaysAsErrors : Bool
  /-- An `int` in the source, so this is its value as long as it is not below `-2 ^ 31`. -/
  failAfterNErrors : Int
  summary : Summary
  deriving DecidableEq, Repr

namespace ResultCollector

def create (reportRunawaysAsErrors : Bool) (failAfterNErrors : Int) : ResultCollector :=
  ⟨reportRunawaysAsErrors, failAfterNErrors, ⟨0, 0, 0⟩⟩

/-- `--options_.fail_after_n_errors <= 0`. -/
def countError (c : ResultCollector) : Bool × ResultCollector :=
  let c := { c with failAfterNErrors := c.failAfterNErrors - 1 }
  (decide (c.failAfterNErrors ≤ 0), c)

/-- `operator()`, whose `bool` asks for a stop. -/
def call (c : ResultCollector) (result : RunResult) : Bool × ResultCollector :=
  let c := { c with summary.playCount := c.summary.playCount + 1 }
  if result.success then (false, c)
  else
    match result.failedPlayerResult with
    | none => c.countError
    | some outcome =>
      if outcome = .kExecutionRunaway then
        let c := { c with summary.numRunawaySnapshots := c.summary.numRunawaySnapshots + 1 }
        if !c.reportRunawaysAsErrors then (false, c)
        else countError
          { c with summary.numFailedSnapshots := c.summary.numFailedSnapshots + 1 }
      else countError { c with summary.numFailedSnapshots := c.summary.numFailedSnapshots + 1 }

/-- A failing result that counts towards `fail_after_n_errors`. -/
def countable (reportRunawaysAsErrors : Bool) (result : RunResult) : Bool :=
  !result.success &&
    (reportRunawaysAsErrors || result.failedPlayerResult != some .kExecutionRunaway)

theorem call_reports (c : ResultCollector) (result : RunResult) :
    (c.call result).2.reportRunawaysAsErrors = c.reportRunawaysAsErrors := by
  unfold call
  grind [countError]

theorem call_playCount (c : ResultCollector) (result : RunResult) :
    (c.call result).2.summary.playCount = c.summary.playCount + 1 := by
  unfold call
  grind [countError]

/-- A countable result brings the collector one closer to its limit, and at the limit it
asks for a stop. -/
theorem call_countable {c : ResultCollector} {result : RunResult}
    (h : countable c.reportRunawaysAsErrors result = true) :
    (c.call result).2.failAfterNErrors = c.failAfterNErrors - 1 ∧
      ((c.call result).1 = true ↔ c.failAfterNErrors - 1 ≤ 0) := by
  simp only [countable] at h
  unfold call
  grind [countError]

theorem call_other {c : ResultCollector} {result : RunResult}
    (h : countable c.reportRunawaysAsErrors result = false) :
    (c.call result).2.failAfterNErrors = c.failAfterNErrors ∧ (c.call result).1 = false := by
  simp only [countable] at h
  unfold call
  grind [countError]

end ResultCollector

end Silifuzz
