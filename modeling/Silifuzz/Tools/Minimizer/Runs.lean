import Silifuzz.Tools.Minimizer.Attempts
import Silifuzz.Tools.Minimizer.Passes

/-!
# What the minimizer exports

A pass reports success exactly if an attempt of it was accepted, and so the active
snapshot at the end of a schedule is the original one, or was reproduced.
-/

open Effects

namespace Silifuzz.Minimizer

section
variable {engine : DifferentialEngine}

theorem setBytes_runsTools (addr : Int) (data : ByteData) : RunsTools (setBytes addr data) := by
  intro candidate
  unfold setBytes
  split <;> exact grows_pure ran_history trivial

theorem deleteBytes_runsTools (addr dataSize : Int) : RunsTools (deleteBytes addr dataSize) := by
  intro candidate
  unfold deleteBytes
  split <;> exact grows_pure ran_history trivial

theorem setPc_runsTools (pc : Int) : RunsTools (engine.setPc pc) := by
  intro candidate
  apply grows_bind ran_history (grows_exceptRuntimeError ran_history (runSnapTool_ran _ _))
  intro result new _
  split
  · exact grows_pure ran_history trivial
  split
  · exact grows_throw ran_history
  split
  · exact grows_throw ran_history
  · exact grows_pure ran_history trivial

section
variable {Candidate : Type} {config : PassConfig} {findCandidatesFn : List Insn → List Candidate}
  {mutateCandidateFn : Candidate → EngineM Bool} {passDefaultOrder : CandidateOrder}
  {mutationInvalidatesCandidates : Bool}

/-- A candidate that is not modified only counts as a failure. -/
theorem tryCandidate_reports (reports : ∀ victim, Reports engine (mutateCandidateFn victim))
    (round : Round Candidate) (victim : Candidate) :
    Grows (Extends engine) (tryCandidate mutateCandidateFn round victim) fun next new =>
      (next.1 = true ↔ Accepted new) ∧
      next.2.successCount = round.successCount + next.1.toNat ∧
      (next.1 = false → next.2 =
        { round with consecutiveFailures := round.consecutiveFailures + 1 }) := by
  apply grows_bind (extends_history engine) (reports victim)
  intro success new accepted
  cases success with
  | true => exact grows_pure (extends_history engine) ⟨by simpa using accepted, rfl, nofun⟩
  | false => exact grows_pure (extends_history engine) ⟨by simpa using accepted, rfl, fun _ => rfl⟩

/-- The count of successes grows exactly if a modification is accepted. -/
def Counts (before after : Nat) (new : List Event) : Prop :=
  before ≤ after ∧ (before < after ↔ Accepted new)

theorem counts_none (count : Nat) {new : List Event} (none : ¬ Accepted new) :
    Counts count count new :=
  ⟨le_rfl, iff_of_false (lt_irrefl count) none⟩

theorem Counts.append {a b c : Nat} {new later : List Event} (h : Counts a b new)
    (h' : Counts b c later) : Counts a c (new ++ later) := by
  refine ⟨h.1.trans h'.1, ?_⟩
  rw [accepted_append, ← h.2, ← h'.2]
  have := h.1
  have := h'.1
  omega

theorem counts_stop {α : Type} (count : α → Nat) (a : α) :
    Grows (Extends engine) (return a : EngineM α) fun b new => Counts (count a) (count b) new :=
  grows_pure (extends_history engine) (counts_none _ accepted_nil)

theorem tryCandidates_counts (reports : ∀ victim, Reports engine (mutateCandidateFn victim))
    (candidates : List Candidate) (round : Round Candidate) :
    Grows (Extends engine)
      (tryCandidates config mutateCandidateFn mutationInvalidatesCandidates candidates round)
      fun next new => Counts round.successCount next.successCount new := by
  induction candidates generalizing round with
  | nil => exact counts_stop Round.successCount round
  | cons victim rest ih =>
    unfold tryCandidates
    split
    · exact counts_stop Round.successCount round
    split
    · exact counts_stop Round.successCount round
    apply grows_bind (extends_history engine) (tryCandidate_reports reports round victim)
    rintro ⟨modified, next⟩ new ⟨accepted, count, -⟩
    have counts : Counts round.successCount next.successCount new := by
      dsimp only at accepted count
      rw [Counts, count, ← accepted]
      cases modified <;> simp
    dsimp only
    split
    · apply grows_pure (extends_history engine)
      simpa using counts
    · apply grows_post (ih next)
      intro last later counts'
      exact counts.append counts'

theorem ordered_quiet (candidates : List Candidate) :
    Grows Quiet (ordered engine config passDefaultOrder candidates) fun _ _ => True := by
  unfold ordered
  dsimp only
  split
  · exact grows_pure quiet_history trivial
  · exact grows_pure quiet_history trivial
  · exact grows_pure quiet_history trivial
  · apply grows_bind quiet_history exportSnapshot_quiet
    intro snapshot _ _
    exact grows_pure quiet_history trivial

theorem runRounds_counts (reports : ∀ victim, Reports engine (mutateCandidateFn victim))
    (rounds : Nat) (counters : Counters) :
    Grows (Extends engine)
      (runRounds engine config findCandidatesFn mutateCandidateFn passDefaultOrder
        mutationInvalidatesCandidates rounds counters)
      fun last new => Counts counters.successCount last.successCount new := by
  induction rounds generalizing counters with
  | zero => exact counts_stop Counters.successCount counters
  | succ rounds ih =>
    unfold runRounds
    apply grows_bind (extends_history engine)
      (quiet_extends (grows_exceptRuntimeError quiet_history traceInsns_quiet))
    rintro traced new ⟨-, none⟩
    have counts := counts_none counters.successCount none
    have stop : ∀ {new : List Event} {last : Counters},
        Counts counters.successCount last.successCount new →
        Grows (Extends engine) (return last : EngineM Counters) fun last later =>
          Counts counters.successCount last.successCount (new ++ later) := by
      intro new last counts
      apply grows_pure (extends_history engine)
      simpa using counts
    split
    · exact stop counts
    split
    · exact stop counts
    apply grows_bind (extends_history engine) (quiet_extends (ordered_quiet _))
    rintro candidates ordering ⟨-, none⟩
    apply grows_bind (extends_history engine) (tryCandidates_counts reports candidates _)
    intro round tried counts'
    have counts := counts.append ((counts_none _ none).append counts')
    simp only [← List.append_assoc] at counts ⊢
    split
    · exact stop counts
    split
    · exact stop counts
    split
    · exact stop counts
    · apply grows_post (ih _)
      intro last later counts'
      exact counts.append counts'

/-- **An iterative pass reports success exactly if a modification was accepted**, for any
candidates and any way to modify them that reports so itself. -/
theorem runIterativePass_reports (reports : ∀ victim, Reports engine (mutateCandidateFn victim)) :
    Reports engine (runIterativePass engine config findCandidatesFn mutateCandidateFn
      passDefaultOrder mutationInvalidatesCandidates) := by
  apply grows_bind (extends_history engine) (runRounds_counts reports _ _)
  intro counters new counts
  apply grows_pure (extends_history engine)
  simpa using counts.2

end

theorem nopPassMutate_reports (arch : ProtoArchitecture) (victim : Insn) :
    Reports engine (nopPassMutate engine arch victim) := by
  unfold nopPassMutate
  split
  · exact reports_false
  · exact tryModify_reports (setBytes_runsTools _ _)

/-- One attempt after another, until one succeeds. -/
theorem reports_orElse {x y : EngineM Bool} (hx : Reports engine x) (hy : Reports engine y) :
    Reports engine (do if ← x then return true else y) := by
  apply grows_bind (extends_history engine) hx
  intro success new accepted
  cases success with
  | true =>
    apply grows_pure (extends_history engine)
    simpa using accepted
  | false =>
    apply grows_post hy
    intro success later accepted'
    rw [accepted_append, ← accepted, ← accepted']
    simp

theorem fusePassMutate_reports (arch : ProtoArchitecture) (minNopLen maxNopLen : Int)
    (victim : NopSequence) :
    Reports engine (fusePassMutate engine arch minNopLen maxNopLen victim) := by
  unfold fusePassMutate
  generalize downFrom (min maxNopLen victim.len) minNopLen = fillerLens
  induction fillerLens with
  | nil => exact reports_false
  | cons fillerLen rest ih =>
    unfold tryFillers
    split
    · exact ih
    · exact reports_orElse (tryModify_reports (setBytes_runsTools _ _)) ih

theorem grows_exceptValueError {α : Type} {x : EngineM α} (h : Grows Quiet x fun _ _ => True) :
    Grows Quiet (exceptValueError x) fun _ _ => True := by
  apply grows_tryCatch quiet_history
  · exact grows_map quiet_history h fun _ _ _ => trivial
  · intro e new
    split
    · exact grows_pure quiet_history trivial
    · exact grows_throw quiet_history

theorem getBytes_quiet (addr dataSize : Int) :
    Grows Quiet (getBytes addr dataSize) fun _ _ => True := by
  apply grows_bind quiet_history exportSnapshot_quiet
  intro snapshot _ _
  split
  · exact grows_throw quiet_history
  split
  · exact grows_throw quiet_history
  · exact grows_pure quiet_history trivial

theorem swapPassMutate_reports (victim : Insn × Insn) :
    Reports engine (swapPassMutate engine victim) := by
  apply reports_after (grows_exceptValueError (getBytes_quiet _ _))
  intro rawData
  split
  · exact reports_false
  · exact tryModify_reports (setBytes_runsTools _ _)

theorem elidePass_reports (config : PassConfig) : Reports engine (elidePass engine config) := by
  apply reports_after (grows_post
    (grows_exceptRuntimeError quiet_history traceInsns_quiet) fun _ _ _ => trivial)
  intro insns
  split
  · exact reports_false
  split
  · split
    · exact reports_false
    · exact tryModify_reports (setPc_runsTools _)
  · exact reports_false

theorem raiseError_quiet {α : Type} (x : Except PyException α) :
    Grows Quiet (raiseError x : EngineM α) fun _ _ => True := by
  cases x with
  | ok a => exact grows_pure quiet_history trivial
  | error e => exact grows_throw quiet_history

theorem passFnByKind_reports (kind : PassKind) (config : PassConfig) :
    Reports engine (passFnByKind engine kind config) := by
  cases kind with
  | NOP =>
    apply reports_after exportSnapshot_quiet
    intro snapshot
    exact runIterativePass_reports (nopPassMutate_reports _)
  | FUSE =>
    apply reports_after exportSnapshot_quiet
    intro snapshot
    apply reports_after (raiseError_quiet _)
    intro minNopLen
    apply reports_after (raiseError_quiet _)
    intro maxNopLen
    exact runIterativePass_reports (fusePassMutate_reports _ _ _)
  | SWAP => exact runIterativePass_reports swapPassMutate_reports
  | ELIDE => exact elidePass_reports config
  | OMIT =>
    exact runIterativePass_reports fun victim => tryModify_reports (deleteBytes_runsTools _ _)

end

/-! ## Schedules -/

/-- A modification of a candidate by any callback that runs nothing but tools. -/
structure Mutation where
  mutationFn : MutationFn
  runsTools : RunsTools mutationFn

/-- Tries the modifications one after another. -/
def tryEach (engine : DifferentialEngine) : List Mutation → EngineM Bool
  | [] => return false
  | mutation :: rest => do
    if ← engine.tryModify mutation.mutationFn then return true else tryEach engine rest

/-- A pass of the minimizer, or an iterative pass with any candidates, each of which is
modified in the ways that `mutations` plans for it and the active snapshot. -/
inductive Pass : Type 1 where
  | byKind (kind : PassKind) (config : PassConfig)
  | iterative {Candidate : Type} (config : PassConfig)
      (findCandidates : List Insn → List Candidate)
      (mutations : Candidate → Proto.Snapshot → List Mutation) (passDefaultOrder : CandidateOrder)
      (mutationInvalidatesCandidates : Bool)

def mutateAsPlanned {Candidate : Type} (engine : DifferentialEngine)
    (mutations : Candidate → Proto.Snapshot → List Mutation) (victim : Candidate) :
    EngineM Bool := do
  let snapshot ← exportSnapshot
  tryEach engine (mutations victim snapshot)

def Pass.run (engine : DifferentialEngine) : Pass → EngineM Bool
  | .byKind kind config => passFnByKind engine kind config
  | .iterative config findCandidates mutations passDefaultOrder mutationInvalidatesCandidates =>
    runIterativePass engine config findCandidates (mutateAsPlanned engine mutations)
      passDefaultOrder mutationInvalidatesCandidates

section
variable {engine : DifferentialEngine}

theorem mutateAsPlanned_reports {Candidate : Type}
    (mutations : Candidate → Proto.Snapshot → List Mutation) (victim : Candidate) :
    Reports engine (mutateAsPlanned engine mutations victim) := by
  apply reports_after exportSnapshot_quiet
  intro snapshot
  induction mutations victim snapshot with
  | nil => exact reports_false
  | cons mutation rest ih => exact reports_orElse (tryModify_reports mutation.runsTools) ih

theorem pass_reports (pass : Pass) : Reports engine (pass.run engine) := by
  cases pass with
  | byKind kind config => exact passFnByKind_reports kind config
  | iterative config findCandidates mutations order invalidates =>
    exact runIterativePass_reports (mutateAsPlanned_reports mutations)

theorem forM_extends (passes : List Pass) :
    Grows (Extends engine) ((passes.map (Pass.run engine)).forM fun pass => discard pass)
      fun _ _ => True := by
  induction passes with
  | nil => exact grows_pure (extends_history engine) trivial
  | cons pass rest ih =>
    have first : Grows (Extends engine) (discard (pass.run engine)) fun _ _ => True :=
      grows_map (extends_history engine) (pass_reports pass) fun _ _ _ => trivial
    exact grows_bind (extends_history engine) first fun _ _ _ => ih

theorem runSchedule_extends (passes : List Pass) :
    Grows (Extends engine) (runSchedule (passes.map (Pass.run engine))) fun _ _ => True := by
  apply grows_bind (extends_history engine) (forM_extends passes)
  intro _ new _
  exact grows_post (quiet_extends exportSnapshot_quiet) fun _ _ _ => trivial

/-- The export is the active snapshot that the passes leave. -/
theorem runSchedule_exported {passes : List (EngineM Bool)} {s : Session}
    {exported : Proto.Snapshot} (run : (runFrom (runSchedule passes) s).1 = .ok exported) :
    (runFrom (runSchedule passes) s).2.activeSnapshot = exported := by
  unfold runSchedule at run ⊢
  rw [runFrom_bind] at run ⊢
  revert run
  rcases runFrom (passes.forM fun pass => discard pass) s with ⟨_ | _, s'⟩ <;> intro run
  · cases run
  · exact Except.ok.inj run

theorem make_eq_ok {env : Environment} {snapshot : Proto.Snapshot}
    {goodCpu badCpu maxGoodIterations maxBadIterations : Int} {made : DifferentialEngine × Session}
    (h : DifferentialEngine.make env snapshot goodCpu badCpu maxGoodIterations maxBadIterations =
      .ok made) :
    made = (⟨env, goodCpu, badCpu, maxGoodIterations, maxBadIterations⟩,
      ⟨snapshot, ⟨none, []⟩⟩) := by
  unfold DifferentialEngine.make at h
  split at h
  · cases h
  split at h
  · cases h
  split at h
  · cases h
  split at h
  · cases h
  · exact (Except.ok.inj h).symm

/-- The passes of the flags are a schedule. -/
theorem minimize_exported {env : Environment} {flags : Flags} {snapshot exported : Proto.Snapshot}
    (run : minimize env flags snapshot = .ok exported) :
    exported = snapshot ∨ ∃ log, Reproduced
      ⟨env, flags.goodCpu, flags.badCpu, flags.maxGoodIterations, flags.maxBadIterations⟩
      log exported := by
  unfold minimize at run
  split at run
  · cases run
  · cases run
  next engine session made =>
  obtain ⟨rfl, rfl⟩ := Prod.mk.inj (make_eq_ok made)
  cases scheduled : flags.schedulePasses snapshot with
  | error e =>
    rw [scheduled] at run
    cases run
  | ok passes =>
    rw [scheduled] at run
    generalize eq : (DifferentialEngine.mk env flags.goodCpu flags.badCpu flags.maxGoodIterations
      flags.maxBadIterations) = engine at run ⊢
    have schedule : passes.map (passFnByKind engine · flags.passConfig) =
        (passes.map (Pass.byKind · flags.passConfig)).map (Pass.run engine) := by
      rw [List.map_map]
      rfl
    have run : (runFrom (runSchedule (passes.map (passFnByKind engine · flags.passConfig)))
      (⟨snapshot, ⟨none, []⟩⟩ : Session)).1 = .ok exported := run
    rw [schedule] at run
    obtain ⟨new, step, -⟩ := @runSchedule_extends engine
      (passes.map (Pass.byKind · flags.passConfig)) ⟨snapshot, ⟨none, []⟩⟩
    rw [← runSchedule_exported run]
    exact step.active.imp_right fun reproduced => ⟨new, reproduced⟩

end

/-- **The snapshot that a schedule exports is the original one, or one that was remade and
seen to pass on the good CPU and to fail on the bad one.** An attempt that is not accepted
leaves the active snapshot as it was, and a rejected candidate the instructions of its round
too. A pass succeeds exactly if a modification was accepted. -/
theorem runSchedule_exports (engine : DifferentialEngine) (snapshot : Proto.Snapshot)
    (passes : List Pass) :
    let run := runFrom (runSchedule (passes.map (Pass.run engine))) ⟨snapshot, ⟨none, []⟩⟩
    (∀ exported, run.1 = .ok exported →
      exported = snapshot ∨ Reproduced engine run.2.tools.log exported) ∧
    (∀ before after, .tried false before after ∈ run.2.tools.log → after = before) ∧
    (∀ (Candidate : Type) (mutateCandidateFn : Candidate → EngineM Bool),
      (∀ victim, Reports engine (mutateCandidateFn victim)) →
      ∀ (round next : Round Candidate) (victim : Candidate) (s s' : Session),
        runFrom (tryCandidate mutateCandidateFn round victim) s = (.ok (false, next), s') →
        next.insns = round.insns ∧ next.candidates = round.candidates ∧
          s'.activeSnapshot = s.activeSnapshot) ∧
    ∀ (pass : Pass) (s : Session), ∃ new,
      (runFrom (pass.run engine) s).2.tools.log = s.tools.log ++ new ∧
      ∀ success, (runFrom (pass.run engine) s).1 = .ok success →
        (success = true ↔ Accepted new) := by
  intro run
  obtain ⟨new, step, -⟩ := @runSchedule_extends engine passes ⟨snapshot, ⟨none, []⟩⟩
  have log : run.2.tools.log = new := step.log
  refine ⟨?_, ?_, ?_, ?_⟩
  · intro exported eq
    rw [← runSchedule_exported eq, log]
    exact step.active
  · rw [log]
    exact step.rejected
  · intro Candidate mutateCandidateFn reports round next victim s s' eq
    obtain ⟨new, step, value⟩ := tryCandidate_reports reports round victim s
    rw [eq] at step value
    obtain ⟨accepted, -, same⟩ := value _ rfl
    have rejected : ¬ Accepted new := by simpa using accepted
    rw [show next = _ from same rfl]
    exact ⟨rfl, rfl, step.unaccepted rejected⟩
  · intro pass s
    obtain ⟨new, step, value⟩ := @pass_reports engine pass s
    exact ⟨new, step.log, value⟩

end Silifuzz.Minimizer
