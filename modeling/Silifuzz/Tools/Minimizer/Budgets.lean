import Mathlib.Data.List.Infix
import Mathlib.Data.List.ModifyLast
import Silifuzz.Tools.Minimizer.Passes

/-!
# Budgets

How often `run_iterative_pass` calls back: a pass over any callbacks, of which the rounds and
the attempts are noted as they are made, keeps to the budgets of its configuration.
-/

open Effects

namespace Silifuzz.Minimizer

/-- What `run_iterative_pass` calls: the tracer, the order of the candidates that are found,
and the attempt to modify one. -/
structure Callbacks (m : Type → Type) (Candidate : Type) where
  traceInsns : m (Option (List Insn))
  findCandidatesFn : List Insn → List Candidate
  ordered : List Candidate → m (List Candidate)
  mutateCandidateFn : Candidate → m Bool

namespace Callbacks

section

variable {m : Type → Type} [Monad m] {Candidate : Type} (calls : Callbacks m Candidate)
  (config : PassConfig) (mutationInvalidatesCandidates : Bool)

def tryCandidate (round : Round Candidate) (victim : Candidate) : m (Bool × Round Candidate) := do
  if ← calls.mutateCandidateFn victim then
    return (true, { round with
      modifiedInRound := true
      successCount := round.successCount + 1
      consecutiveFailures := 0 })
  else return (false, { round with consecutiveFailures := round.consecutiveFailures + 1 })

def tryCandidates : List Candidate → Round Candidate → m (Round Candidate)
  | [], round => return round
  | victim :: rest, round =>
    if round.successCount ≥ config.maxSuccesses then return round
    else if round.consecutiveFailures ≥ config.maxConsecutiveFailures then return round
    else do
      let (modified, next) ← calls.tryCandidate round victim
      if modified && mutationInvalidatesCandidates then return next else tryCandidates rest next

def runRounds : Nat → Counters → m Counters
  | 0, counters => return counters
  | rounds + 1, counters => do
    match ← calls.traceInsns with
    | none => return counters
    | some insns =>
      if (calls.findCandidatesFn insns).isEmpty then return counters
      else
        let candidates ← calls.ordered (calls.findCandidatesFn insns)
        let round ← calls.tryCandidates config mutationInvalidatesCandidates candidates
          ⟨insns, candidates, counters.successCount, counters.consecutiveFailures, false⟩
        let counters : Counters := ⟨round.successCount, round.consecutiveFailures⟩
        if round.successCount ≥ config.maxSuccesses then return counters
        else if round.consecutiveFailures ≥ config.maxConsecutiveFailures then return counters
        else if !round.modifiedInRound then return counters
        else runRounds rounds counters

def runIterativePass : m Bool := do
  let counters ← calls.runRounds config mutationInvalidatesCandidates config.maxIterations.toNat
    ⟨0, 0⟩
  return decide (counters.successCount > 0)

end

end Callbacks

section

variable {Candidate : Type} (engine : DifferentialEngine) (config : PassConfig)
  (findCandidatesFn : List Insn → List Candidate) (mutateCandidateFn : Candidate → EngineM Bool)
  (passDefaultOrder : CandidateOrder) (mutationInvalidatesCandidates : Bool)

/-- The callbacks of a pass with the engine. -/
def engineCalls : Callbacks EngineM Candidate where
  traceInsns := exceptRuntimeError engine.traceInsns
  findCandidatesFn := findCandidatesFn
  ordered := ordered engine config passDefaultOrder
  mutateCandidateFn := mutateCandidateFn

theorem tryCandidates_calls (candidates : List Candidate) (round : Round Candidate) :
    tryCandidates config mutateCandidateFn mutationInvalidatesCandidates candidates round =
      (engineCalls engine config findCandidatesFn mutateCandidateFn passDefaultOrder).tryCandidates
        config mutationInvalidatesCandidates candidates round := by
  induction candidates generalizing round with
  | nil => rfl
  | cons victim rest ih =>
    rw [tryCandidates, Callbacks.tryCandidates]
    simp only [ih]
    rfl

theorem runRounds_calls (rounds : Nat) (counters : Counters) :
    runRounds engine config findCandidatesFn mutateCandidateFn passDefaultOrder
        mutationInvalidatesCandidates rounds counters =
      (engineCalls engine config findCandidatesFn mutateCandidateFn passDefaultOrder).runRounds
        config mutationInvalidatesCandidates rounds counters := by
  induction rounds generalizing counters with
  | zero => rfl
  | succ rounds ih =>
    rw [runRounds, Callbacks.runRounds]
    simp only [ih, tryCandidates_calls engine config findCandidatesFn mutateCandidateFn
      passDefaultOrder]
    rfl

/-- The pass with the engine is the pass over its callbacks. -/
theorem runIterativePass_calls :
    runIterativePass engine config findCandidatesFn mutateCandidateFn passDefaultOrder
        mutationInvalidatesCandidates =
      (engineCalls engine config findCandidatesFn mutateCandidateFn
        passDefaultOrder).runIterativePass config mutationInvalidatesCandidates := by
  rw [runIterativePass, runRounds_calls]
  rfl

end

/-! ## The record of a pass -/

/-- A round, from the trace on: its candidates in their order, and which were modified. -/
structure RoundLog (Candidate : Type) where
  candidates : List Candidate
  attempts : List (Candidate × Bool)

section

variable {σ Candidate : Type}

/-- Every trace begins a round of the record. -/
def Callbacks.watched (calls : Callbacks (ExceptT PyException (StateM σ)) Candidate) :
    Callbacks (ExceptT PyException (StateM (σ × List (RoundLog Candidate)))) Candidate where
  traceInsns := noting calls.traceInsns fun _ rounds => rounds ++ [⟨[], []⟩]
  findCandidatesFn := calls.findCandidatesFn
  ordered candidates := noting (calls.ordered candidates) fun candidates rounds =>
    rounds.modifyLast fun round => { round with candidates }
  mutateCandidateFn victim := noting (calls.mutateCandidateFn victim) fun modified rounds =>
    rounds.modifyLast fun round => { round with attempts := round.attempts ++ [(victim, modified)] }

theorem Callbacks.watched_traceInsns
    (calls : Callbacks (ExceptT PyException (StateM σ)) Candidate) :
    calls.watched.traceInsns = noting calls.traceInsns fun _ rounds => rounds ++ [⟨[], []⟩] := rfl

def attempts (rounds : List (RoundLog Candidate)) : List (Candidate × Bool) :=
  rounds.flatMap RoundLog.attempts

def RoundLog.Modified (round : RoundLog Candidate) : Prop := ∃ a ∈ round.attempts, a.2 = true

/-- A row of attempts that all failed. -/
def Failed (row : List (Candidate × Bool)) : Prop := ∀ a ∈ row, a.2 = false

/-- The victims of a round are its first candidates, and where a modification invalidates the
candidates there is one at most. -/
structure RoundLog.Proper (mutationInvalidatesCandidates : Bool) (round : RoundLog Candidate) :
    Prop where
  inOrder : round.attempts.map Prod.fst <+: round.candidates
  once : mutationInvalidatesCandidates = true → round.attempts.countP Prod.snd ≤ 1

/-- The record of a pass that keeps to its budgets. A budget below zero allows nothing. -/
structure Budgeted (config : PassConfig) (mutationInvalidatesCandidates : Bool)
    (rounds : List (RoundLog Candidate)) : Prop where
  iterations : (rounds.length : Int) ≤ max 0 config.maxIterations
  successes : ((attempts rounds).countP Prod.snd : Int) ≤ max 0 config.maxSuccesses
  failures : ∀ row, row <:+: attempts rounds → Failed row →
    (row.length : Int) ≤ max 0 config.maxConsecutiveFailures
  proper : ∀ round ∈ rounds, round.Proper mutationInvalidatesCandidates
  goesOn : ∀ round ∈ rounds.dropLast, round.candidates ≠ [] ∧ round.Modified

/-! ## What the counters count -/

structure Counted (config : PassConfig) (rounds : List (RoundLog Candidate))
    (successCount consecutiveFailures : Nat) : Prop where
  count : (attempts rounds).countP Prod.snd = successCount
  successes : (successCount : Int) ≤ max 0 config.maxSuccesses
  failures : ∀ row, row <:+: attempts rounds → Failed row →
    (row.length : Int) ≤ max 0 config.maxConsecutiveFailures
  last : ∀ row, row <:+ attempts rounds → Failed row → row.length ≤ consecutiveFailures

variable {config : PassConfig} {rounds rounds' : List (RoundLog Candidate)}
  {successCount consecutiveFailures : Nat}

theorem counted_start : Counted config ([] : List (RoundLog Candidate)) 0 0 where
  count := rfl
  successes := Int.le_max_left 0 _
  failures row none _ := by
    rw [List.infix_nil.mp none]
    exact Int.le_max_left 0 _
  last row none _ := by
    rw [List.suffix_nil.mp none]
    exact Nat.le_refl 0

/-- A round without attempts changes no count. -/
theorem Counted.same (counted : Counted config rounds successCount consecutiveFailures)
    (same : attempts rounds' = attempts rounds) :
    Counted config rounds' successCount consecutiveFailures :=
  ⟨same ▸ counted.count, counted.successes, same ▸ counted.failures, same ▸ counted.last⟩

theorem Counted.success (counted : Counted config rounds successCount consecutiveFailures)
    {victim : Candidate} (more : attempts rounds' = attempts rounds ++ [(victim, true)])
    (left : successCount < config.maxSuccesses) :
    Counted config rounds' (successCount + 1) 0 := by
  have ends (row : List (Candidate × Bool)) (end' : row <:+ attempts rounds')
      (failed : Failed row) : row = [] := by
    rw [more, List.suffix_concat_iff] at end'
    rcases end' with none | ⟨before, rfl, -⟩
    · exact none
    · exact nomatch failed (victim, true) (List.mem_append_right _ (List.mem_singleton.mpr rfl))
  constructor
  · rw [more, List.countP_append, counted.count]
    rfl
  · omega
  · intro row inside failed
    rw [more, List.infix_concat_iff, ← more] at inside
    rcases inside with last | before
    · rw [ends row last failed]
      exact Int.le_max_left 0 _
    · exact counted.failures row before failed
  · intro row last failed
    rw [ends row last failed]
    exact Nat.le_refl 0

theorem Counted.failure (counted : Counted config rounds successCount consecutiveFailures)
    {victim : Candidate} (more : attempts rounds' = attempts rounds ++ [(victim, false)])
    (left : consecutiveFailures < config.maxConsecutiveFailures) :
    Counted config rounds' successCount (consecutiveFailures + 1) := by
  have ends (row : List (Candidate × Bool)) (end' : row <:+ attempts rounds')
      (failed : Failed row) : row.length ≤ consecutiveFailures + 1 := by
    rw [more, List.suffix_concat_iff] at end'
    rcases end' with rfl | ⟨before, rfl, last⟩
    · exact Nat.zero_le _
    · have fewer := counted.last before last fun a member =>
        failed a (List.mem_append_left _ member)
      rw [List.length_append]
      exact Nat.succ_le_succ fewer
  constructor
  · rw [more, List.countP_append, counted.count]
    rfl
  · exact counted.successes
  · intro row inside failed
    rw [more, List.infix_concat_iff, ← more] at inside
    rcases inside with last | before
    · have := ends row last failed
      omega
    · exact counted.failures row before failed
  · exact ends

/-! ## The loops -/

/-- The rounds that are over, each with a modification. -/
structure Closed (mutationInvalidatesCandidates : Bool) (done : List (RoundLog Candidate)) :
    Prop where
  proper : ∀ round ∈ done, round.Proper mutationInvalidatesCandidates
  modified : ∀ round ∈ done, round.Modified

/-- The record in a round, after which `left` more may come. -/
structure InRound (config : PassConfig) (mutationInvalidatesCandidates : Bool) (left : Nat)
    (done : List (RoundLog Candidate)) (current : RoundLog Candidate) (round : Round Candidate) :
    Prop where
  closed : Closed mutationInvalidatesCandidates done
  iterations : done.length + 1 + left = config.maxIterations.toNat
  counted : Counted config (done ++ [current]) round.successCount round.consecutiveFailures
  proper : current.Proper mutationInvalidatesCandidates
  modified : round.modifiedInRound = true → current.Modified

theorem Closed.goesOn {mutationInvalidatesCandidates : Bool} {done : List (RoundLog Candidate)}
    (closed : Closed mutationInvalidatesCandidates done) :
    ∀ round ∈ done, round.candidates ≠ [] ∧ round.Modified := by
  intro round member
  have ⟨a, tried, modified⟩ := closed.modified round member
  constructor
  · intro none
    have inOrder := (closed.proper round member).inOrder
    rw [none, List.prefix_nil, List.map_eq_nil_iff] at inOrder
    rw [inOrder] at tried
    cases tried
  · exact ⟨a, tried, modified⟩

variable {mutationInvalidatesCandidates : Bool} {left : Nat} {done : List (RoundLog Candidate)}
  {current : RoundLog Candidate} {round : Round Candidate}

theorem InRound.budgeted
    (inRound : InRound config mutationInvalidatesCandidates left done current round) :
    Budgeted config mutationInvalidatesCandidates (done ++ [current]) where
  iterations := by
    have := inRound.iterations
    rw [List.length_append, List.length_singleton]
    omega
  successes := by
    rw [inRound.counted.count]
    exact inRound.counted.successes
  failures := inRound.counted.failures
  proper := List.forall_mem_append.mpr
    ⟨inRound.closed.proper, List.forall_mem_singleton.mpr inRound.proper⟩
  goesOn := by
    rw [List.dropLast_concat]
    exact inRound.closed.goesOn

/-- Between two rounds, of which `left` more may come. -/
structure Between (config : PassConfig) (mutationInvalidatesCandidates : Bool) (left : Nat)
    (counters : Counters) (rounds : List (RoundLog Candidate)) : Prop where
  closed : Closed mutationInvalidatesCandidates rounds
  iterations : rounds.length + left = config.maxIterations.toNat
  counted : Counted config rounds counters.successCount counters.consecutiveFailures

theorem Between.budgeted {counters : Counters}
    (between : Between config mutationInvalidatesCandidates left counters rounds) :
    Budgeted config mutationInvalidatesCandidates rounds where
  iterations := by
    have := between.iterations
    omega
  successes := by
    rw [between.counted.count]
    exact between.counted.successes
  failures := between.counted.failures
  proper := between.closed.proper
  goesOn round member := between.closed.goesOn round (List.dropLast_subset rounds member)

theorem attempts_concat (done : List (RoundLog Candidate)) (current : RoundLog Candidate) :
    attempts (done ++ [current]) = attempts done ++ current.attempts := by
  rw [attempts, List.flatMap_append, List.flatMap_singleton]
  rfl

/-- A traced round, of which no candidate has been tried. -/
theorem Between.begins {counters : Counters}
    (between : Between config mutationInvalidatesCandidates (left + 1) counters rounds)
    (insns : List Insn) (candidates candidates' : List Candidate) :
    InRound config mutationInvalidatesCandidates left rounds ⟨candidates, []⟩
      ⟨insns, candidates', counters.successCount, counters.consecutiveFailures, false⟩ where
  closed := between.closed
  iterations := by
    have := between.iterations
    omega
  counted := by
    apply between.counted.same
    rw [attempts_concat, List.append_nil]
  proper := ⟨List.nil_prefix, fun _ => Nat.zero_le 1⟩
  modified impossible := by cases impossible

/-- The next candidate is tried. -/
theorem InRound.tries {victim : Candidate} {rest : List Candidate}
    (inRound : InRound config mutationInvalidatesCandidates left done current round)
    (modified : Bool)
    (next : current.candidates = current.attempts.map Prod.fst ++ victim :: rest)
    (clean : mutationInvalidatesCandidates = true → current.attempts.countP Prod.snd = 0)
    (success : round.successCount < config.maxSuccesses)
    (failure : round.consecutiveFailures < config.maxConsecutiveFailures) :
    InRound config mutationInvalidatesCandidates left done
      { current with attempts := current.attempts ++ [(victim, modified)] }
      (if modified then { round with
        modifiedInRound := true
        successCount := round.successCount + 1
        consecutiveFailures := 0 }
      else { round with consecutiveFailures := round.consecutiveFailures + 1 }) := by
  have more : attempts (done ++ [{ current with
      attempts := current.attempts ++ [(victim, modified)] }]) =
      attempts (done ++ [current]) ++ [(victim, modified)] := by
    rw [attempts_concat, attempts_concat, List.append_assoc]
  have proper : RoundLog.Proper mutationInvalidatesCandidates
      { current with attempts := current.attempts ++ [(victim, modified)] } := by
    constructor
    · rw [List.map_append, next]
      exact ⟨rest, by rw [List.append_assoc]; rfl⟩
    · intro invalid
      rw [List.countP_append, clean invalid, Nat.zero_add]
      exact List.countP_le_length
  cases modified with
  | true => exact {
      closed := inRound.closed
      iterations := inRound.iterations
      counted := inRound.counted.success more success
      proper := proper
      modified := fun _ =>
        ⟨(victim, true), List.mem_append_right _ (List.mem_singleton.mpr rfl), rfl⟩ }
  | false => exact {
      closed := inRound.closed
      iterations := inRound.iterations
      counted := inRound.counted.failure more failure
      proper := proper
      modified := fun before =>
        have ⟨a, tried, modified⟩ := inRound.modified before
        ⟨a, List.mem_append_left _ tried, modified⟩ }

/-- The candidates that are left in a round, none of which is stale. -/
structure Ready (mutationInvalidatesCandidates : Bool) (rest : List Candidate)
    (current : RoundLog Candidate) : Prop where
  next : current.candidates = current.attempts.map Prod.fst ++ rest
  clean : mutationInvalidatesCandidates = true → current.attempts.countP Prod.snd = 0

theorem Ready.tried {victim : Candidate} {rest : List Candidate} {modified : Bool}
    (ready : Ready mutationInvalidatesCandidates (victim :: rest) current)
    (more : (modified && mutationInvalidatesCandidates) = false) :
    Ready mutationInvalidatesCandidates rest
      { current with attempts := current.attempts ++ [(victim, modified)] } where
  next := by
    rw [ready.next, List.map_append, List.append_assoc]
    rfl
  clean invalid := by
    rw [invalid, Bool.and_true] at more
    rw [List.countP_append, ready.clean invalid, more]
    rfl

variable {calls : Callbacks (ExceptT PyException (StateM σ)) Candidate}

theorem tryCandidate_records (victim : Candidate) (rest : List Candidate)
    (success : round.successCount < config.maxSuccesses)
    (failure : round.consecutiveFailures < config.maxConsecutiveFailures) :
    Records
      (fun rounds => ∃ done current, rounds = done ++ [current] ∧
        InRound config mutationInvalidatesCandidates left done current round ∧
        Ready mutationInvalidatesCandidates (victim :: rest) current)
      (calls.watched.tryCandidate round victim)
      (fun next rounds => ∃ done current, rounds = done ++ [current] ∧
        InRound config mutationInvalidatesCandidates left done current next.2 ∧
        ((next.1 && mutationInvalidatesCandidates) = false →
          Ready mutationInvalidatesCandidates rest current))
      (Budgeted config mutationInvalidatesCandidates) := by
  apply Records.bind (Q := fun modified rounds => ∃ done current,
    rounds = done ++ [{ current with attempts := current.attempts ++ [(victim, modified)] }] ∧
      InRound config mutationInvalidatesCandidates left done current round ∧
      Ready mutationInvalidatesCandidates (victim :: rest) current)
  · apply records_noting
    · rintro modified rounds ⟨done, current, rfl, inRound, ready⟩
      exact ⟨done, current, List.modifyLast_concat _ _ _, inRound, ready⟩
    · rintro rounds ⟨done, current, rfl, inRound, -⟩
      exact inRound.budgeted
  · intro modified
    cases modified with
    | true =>
      apply records_pure
      rintro rounds ⟨done, current, rfl, inRound, ready⟩
      exact ⟨done, _, rfl, inRound.tries true ready.next ready.clean success failure,
        ready.tried⟩
    | false =>
      apply records_pure
      rintro rounds ⟨done, current, rfl, inRound, ready⟩
      exact ⟨done, _, rfl,
        inRound.tries false ready.next ready.clean success failure, ready.tried⟩

theorem tryCandidates_records (rest : List Candidate) (round : Round Candidate) :
    Records
      (fun rounds => ∃ done current, rounds = done ++ [current] ∧
        InRound config mutationInvalidatesCandidates left done current round ∧
        Ready mutationInvalidatesCandidates rest current)
      (calls.watched.tryCandidates config mutationInvalidatesCandidates rest round)
      (fun next rounds => ∃ done current, rounds = done ++ [current] ∧
        InRound config mutationInvalidatesCandidates left done current next)
      (Budgeted config mutationInvalidatesCandidates) := by
  have stop {rest : List Candidate} {round : Round Candidate}
      (rounds : List (RoundLog Candidate)) :
      (∃ done current, rounds = done ++ [current] ∧
        InRound config mutationInvalidatesCandidates left done current round ∧
        Ready mutationInvalidatesCandidates rest current) →
      ∃ done current, rounds = done ++ [current] ∧
        InRound config mutationInvalidatesCandidates left done current round :=
    fun ⟨done, current, same, inRound, _⟩ => ⟨done, current, same, inRound⟩
  induction rest generalizing round with
  | nil => exact records_pure stop
  | cons victim rest ih =>
    rw [Callbacks.tryCandidates]
    split
    · exact records_pure stop
    split
    · exact records_pure stop
    rename_i success failure
    apply Records.bind (tryCandidate_records victim rest (by omega) (by omega))
    rintro ⟨modified, next⟩
    dsimp only
    split
    · apply records_pure
      rintro rounds ⟨done, current, same, inRound, -⟩
      exact ⟨done, current, same, inRound⟩
    · rename_i more
      intro s rounds ⟨done, current, same, inRound, ready⟩
      exact ih next s rounds
        ⟨done, current, same, inRound, ready (Bool.eq_false_iff.mpr more)⟩

/-- What a pass leaves. -/
def Ended (config : PassConfig) (mutationInvalidatesCandidates : Bool) (counters : Counters)
    (rounds : List (RoundLog Candidate)) : Prop :=
  Budgeted config mutationInvalidatesCandidates rounds ∧
    (attempts rounds).countP Prod.snd = counters.successCount

theorem runRounds_records (left : Nat) (counters : Counters) :
    Records (Between config mutationInvalidatesCandidates left counters)
      (calls.watched.runRounds config mutationInvalidatesCandidates left counters)
      (Ended config mutationInvalidatesCandidates)
      (Budgeted config mutationInvalidatesCandidates) := by
  induction left generalizing counters with
  | zero => exact records_pure fun rounds between => ⟨between.budgeted, between.counted.count⟩
  | succ left ih =>
    rw [Callbacks.runRounds]
    apply Records.bind (Q := fun _ rounds => ∃ done, rounds = done ++ [⟨[], []⟩] ∧
      Between config mutationInvalidatesCandidates (left + 1) counters done)
    · rw [Callbacks.watched_traceInsns]
      apply records_noting
      · exact fun _ rounds between => ⟨rounds, rfl, between⟩
      · exact fun rounds between => between.budgeted
    intro traced
    have stop (rounds : List (RoundLog Candidate)) :
        (∃ done, rounds = done ++ [⟨[], []⟩] ∧
          Between config mutationInvalidatesCandidates (left + 1) counters done) →
        Ended config mutationInvalidatesCandidates counters rounds := by
      rintro ⟨done, rfl, between⟩
      have inRound := between.begins [] [] []
      exact ⟨inRound.budgeted, inRound.counted.count⟩
    cases traced with
    | none => exact records_pure stop
    | some insns =>
      dsimp only
      split
      · exact records_pure stop
      apply Records.bind (Q := fun candidates rounds => ∃ done, rounds = done ++ [⟨candidates, []⟩] ∧
        Between config mutationInvalidatesCandidates (left + 1) counters done)
      · apply records_noting
        · rintro candidates rounds ⟨done, rfl, between⟩
          exact ⟨done, List.modifyLast_concat _ _ _, between⟩
        · intro rounds known
          exact (stop rounds known).1
      intro candidates
      apply Records.bind (Q := fun next rounds => ∃ done current, rounds = done ++ [current] ∧
        InRound config mutationInvalidatesCandidates left done current next)
      · rintro s rounds ⟨done, rfl, between⟩
        exact tryCandidates_records candidates _ s _
          ⟨done, _, rfl, between.begins insns candidates candidates, rfl, fun _ => rfl⟩
      intro round
      have ended (rounds : List (RoundLog Candidate)) :
          (∃ done current, rounds = done ++ [current] ∧
            InRound config mutationInvalidatesCandidates left done current round) →
          Ended config mutationInvalidatesCandidates
            ⟨round.successCount, round.consecutiveFailures⟩ rounds := by
        rintro ⟨done, current, rfl, inRound⟩
        exact ⟨inRound.budgeted, inRound.counted.count⟩
      split
      · exact records_pure ended
      split
      · exact records_pure ended
      split
      · exact records_pure ended
      · rename_i modified
        rintro s rounds ⟨done, current, rfl, inRound⟩
        apply ih
        exact {
          closed := {
            proper := List.forall_mem_append.mpr
              ⟨inRound.closed.proper, List.forall_mem_singleton.mpr inRound.proper⟩
            modified := List.forall_mem_append.mpr ⟨inRound.closed.modified,
              List.forall_mem_singleton.mpr (inRound.modified (by simpa using modified))⟩ }
          iterations := by
            rw [List.length_append, List.length_singleton]
            exact inRound.iterations
          counted := inRound.counted }

theorem runIterativePass_records :
    Records (fun rounds => rounds = [])
      (calls.watched.runIterativePass config mutationInvalidatesCandidates)
      (fun success rounds => Budgeted config mutationInvalidatesCandidates rounds ∧
        success = decide (0 < (attempts rounds).countP Prod.snd))
      (Budgeted config mutationInvalidatesCandidates) := by
  apply Records.bind (Q := Ended config mutationInvalidatesCandidates)
  · rintro s _ rfl
    apply runRounds_records
    exact ⟨⟨nofun, nofun⟩, Nat.zero_add _, counted_start⟩
  · intro counters
    apply records_pure
    intro rounds ended
    exact ⟨ended.1, by rw [ended.2]⟩

/-! ## The record changes nothing -/

variable (config) (mutationInvalidatesCandidates) (calls)

theorem tryCandidates_watches (candidates : List Candidate) (round : Round Candidate) :
    Watches (calls.watched.tryCandidates config mutationInvalidatesCandidates candidates round)
      (calls.tryCandidates config mutationInvalidatesCandidates candidates round) := by
  induction candidates generalizing round with
  | nil => exact pure_watches round
  | cons victim rest ih =>
    rw [Callbacks.tryCandidates, Callbacks.tryCandidates]
    split
    · exact pure_watches round
    split
    · exact pure_watches round
    apply Watches.bind
    · apply Watches.bind (noting_watches _ _)
      intro modified
      cases modified with
      | true => exact pure_watches _
      | false => exact pure_watches _
    · rintro ⟨modified, next⟩
      dsimp only
      split
      · exact pure_watches next
      · exact ih next

theorem runRounds_watches (left : Nat) (counters : Counters) :
    Watches (calls.watched.runRounds config mutationInvalidatesCandidates left counters)
      (calls.runRounds config mutationInvalidatesCandidates left counters) := by
  induction left generalizing counters with
  | zero => exact pure_watches counters
  | succ left ih =>
    rw [Callbacks.runRounds, Callbacks.runRounds, Callbacks.watched_traceInsns]
    apply Watches.bind (noting_watches _ _)
    intro traced
    cases traced with
    | none => exact pure_watches counters
    | some insns =>
      change Watches (if (calls.findCandidatesFn insns).isEmpty = true then _ else _) _
      dsimp only
      split
      · exact pure_watches counters
      apply Watches.bind (noting_watches _ _)
      intro candidates
      apply Watches.bind (tryCandidates_watches config mutationInvalidatesCandidates calls _ _)
      intro round
      split
      · exact pure_watches _
      split
      · exact pure_watches _
      split
      · exact pure_watches _
      · exact ih _

theorem runIterativePass_watches :
    Watches (calls.watched.runIterativePass config mutationInvalidatesCandidates)
      (calls.runIterativePass config mutationInvalidatesCandidates) :=
  (runRounds_watches config mutationInvalidatesCandidates calls _ _).bind fun _ => pure_watches _

end

/-- **An iterative pass keeps to its budgets**, for every way to find candidates, every outcome
of the attempts and every exception: the pass that notes its rounds does the same, and its
record shows how many rounds there were, how many modifications were accepted, which attempts
failed in a row, and that a round goes on to another only with a modification. -/
theorem runIterativePass_budgeted {Candidate : Type} (engine : DifferentialEngine)
    (config : PassConfig) (findCandidatesFn : List Insn → List Candidate)
    (mutateCandidateFn : Candidate → EngineM Bool) (passDefaultOrder : CandidateOrder)
    (mutationInvalidatesCandidates : Bool) (session : Session) :
    let ran := runFrom (runIterativePass engine config findCandidatesFn mutateCandidateFn
      passDefaultOrder mutationInvalidatesCandidates) session
    let calls := engineCalls engine config findCandidatesFn mutateCandidateFn passDefaultOrder
    ∃ rounds : List (RoundLog Candidate),
      runFrom (calls.watched.runIterativePass config mutationInvalidatesCandidates)
        (session, []) = (ran.1, ran.2, rounds) ∧
      Budgeted config mutationInvalidatesCandidates rounds ∧
      ((∃ e, ran.1 = .error e) ∨
        ran.1 = .ok (decide (0 < (attempts rounds).countP Prod.snd))) := by
  intro ran calls
  have same := runIterativePass_watches config mutationInvalidatesCandidates calls session []
  have records := @runIterativePass_records _ _ config mutationInvalidatesCandidates calls
    session [] rfl
  rw [← runIterativePass_calls] at same
  rcases watched : runFrom (calls.watched.runIterativePass config mutationInvalidatesCandidates)
    (session, []) with ⟨result, session', rounds⟩
  rw [watched] at same records
  change (result, session') = ran at same
  rw [← same]
  cases result with
  | ok success => exact ⟨rounds, rfl, records.1, .inr (congrArg Except.ok records.2)⟩
  | error e => exact ⟨rounds, rfl, records, .inl ⟨e, rfl⟩⟩

end Silifuzz.Minimizer
