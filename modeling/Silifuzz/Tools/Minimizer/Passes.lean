import Silifuzz.Tools.Minimizer.Engine

/-!
# Minimization passes

`tools/minimizer/passes.py`, with the flags and the schedule of
`tools/minimizer/minimizer.py`.
-/

namespace Silifuzz.Minimizer

inductive PassKind where
  | NOP
  | FUSE
  | SWAP
  | ELIDE
  | OMIT
  deriving DecidableEq, Repr

inductive CandidateOrder where
  | default
  | forward
  | reverse
  | random
  deriving DecidableEq, Repr

/-- `schedule_pb2.PassConfig`. -/
structure PassConfig where
  maxSuccesses : Int
  maxConsecutiveFailures : Int
  maxIterations : Int
  candidateOrder : CandidateOrder
  seed : Option Int

def maxBudget : Int := 2147483647

def defaultMaxConsecutiveFailures : Int := 10

def defaultPassConfig : PassConfig where
  maxSuccesses := maxBudget
  maxConsecutiveFailures := defaultMaxConsecutiveFailures
  maxIterations := maxBudget
  candidateOrder := .default
  seed := none

/-! ## run_iterative_pass -/

/-- The variables of `run_iterative_pass` in a round. -/
structure Round (Candidate : Type) where
  insns : List Insn
  candidates : List Candidate
  successCount : Nat
  consecutiveFailures : Nat
  modifiedInRound : Bool

/-- The counters that outlive a round. -/
structure Counters where
  successCount : Nat
  consecutiveFailures : Nat

/-- `rng.shuffle`. -/
def shuffled {Candidate : Type} (env : Environment) (seed : Seed) (candidates : List Candidate) :
    List Candidate :=
  List.ofFn fun i => candidates.get (env.shuffle seed candidates.length i)

section
variable {Candidate : Type} (engine : DifferentialEngine) (config : PassConfig)
  (findCandidatesFn : List Insn → List Candidate) (mutateCandidateFn : Candidate → EngineM Bool)
  (passDefaultOrder : CandidateOrder) (mutationInvalidatesCandidates : Bool)

def ordered (candidates : List Candidate) : EngineM (List Candidate) := do
  let order :=
    if config.candidateOrder ≠ .default then config.candidateOrder else passDefaultOrder
  match order with
  | .default => return candidates
  | .forward => return candidates
  | .reverse => return candidates.reverse
  | .random =>
    let snapshot ← exportSnapshot
    let seed := match config.seed with
      | some seed => Seed.int seed
      | none => Seed.str snapshot.id
    return shuffled engine.env seed candidates

/-- One candidate of a round, and whether it was modified. -/
def tryCandidate (round : Round Candidate) (victim : Candidate) :
    EngineM (Bool × Round Candidate) := do
  if ← mutateCandidateFn victim then
    return (true, { round with
      modifiedInRound := true
      successCount := round.successCount + 1
      consecutiveFailures := 0 })
  else return (false, { round with consecutiveFailures := round.consecutiveFailures + 1 })

/-- The loop over the candidates of a round. -/
def tryCandidates : List Candidate → Round Candidate → EngineM (Round Candidate)
  | [], round => return round
  | victim :: rest, round =>
    if round.successCount ≥ config.maxSuccesses then return round
    else if round.consecutiveFailures ≥ config.maxConsecutiveFailures then return round
    else do
      let (modified, next) ← tryCandidate mutateCandidateFn round victim
      if modified && mutationInvalidatesCandidates then return next else tryCandidates rest next

/-- The rounds that are left. -/
def runRounds : Nat → Counters → EngineM Counters
  | 0, counters => return counters
  | rounds + 1, counters => do
    match ← exceptRuntimeError engine.traceInsns with
    | none => return counters
    | some insns =>
      if (findCandidatesFn insns).isEmpty then return counters
      else
        let candidates ← ordered engine config passDefaultOrder (findCandidatesFn insns)
        let round ← tryCandidates config mutateCandidateFn mutationInvalidatesCandidates candidates
          ⟨insns, candidates, counters.successCount, counters.consecutiveFailures, false⟩
        let counters : Counters := ⟨round.successCount, round.consecutiveFailures⟩
        if round.successCount ≥ config.maxSuccesses then return counters
        else if round.consecutiveFailures ≥ config.maxConsecutiveFailures then return counters
        else if !round.modifiedInRound then return counters
        else runRounds rounds counters

def runIterativePass : EngineM Bool := do
  let counters ← runRounds engine config findCandidatesFn mutateCandidateFn passDefaultOrder
    mutationInvalidatesCandidates config.maxIterations.toNat ⟨0, 0⟩
  return decide (counters.successCount > 0)

end

/-! ## The passes -/

section
variable (engine : DifferentialEngine)

/-- `_mutate` of `nop_pass`. -/
def nopPassMutate (arch : ProtoArchitecture) (victim : Insn) : EngineM Bool :=
  match nopSequenceBytes arch victim.len with
  | .error _ => return false
  | .ok filler => engine.tryModify (setBytes victim.addr filler)

def nopPass (config : PassConfig) : EngineM Bool := do
  let snapshot ← exportSnapshot
  runIterativePass engine config (List.filter fun x => !x.isNop)
    (nopPassMutate engine (architecture snapshot)) .random false

/-- `_find_candidates` of `fuse_pass`, the last sequence first. -/
def nopSequences (arch : ProtoArchitecture) (insns : List Insn) : List NopSequence :=
  insns.foldl (fun nopSequences x =>
    if !x.isSimpleNop arch then nopSequences
    else
      match nopSequences with
      | [] => [⟨x.addr, x.len⟩]
      | last :: rest =>
        if last.addr + last.len ≠ x.addr then ⟨x.addr, x.len⟩ :: last :: rest
        else { last with len := last.len + x.len } :: rest) []

def fusePassCandidates (arch : ProtoArchitecture) (minNopLen : Int) (insns : List Insn) :
    List NopSequence :=
  (nopSequences arch insns).reverse.filter fun x => x.len > minNopLen

/-- The fillers of `fuse_pass` for the lengths from `fillerLen` down to `minNopLen`, without
the latter. -/
def tryFillers (arch : ProtoArchitecture) (victim : NopSequence) : List Int → EngineM Bool
  | [] => return false
  | fillerLen :: rest =>
    match singleNopBytes arch fillerLen with
    | .error _ => tryFillers arch victim rest
    | .ok filler => do
      if ← engine.tryModify (setBytes victim.addr filler) then return true
      else tryFillers arch victim rest

/-- `range(start, stop, -1)`. -/
def downFrom (start stop : Int) : List Int :=
  (List.range (start - stop).toNat).map fun i => start - (i : Int)

/-- `_mutate` of `fuse_pass`. -/
def fusePassMutate (arch : ProtoArchitecture) (minNopLen maxNopLen : Int) (victim : NopSequence) :
    EngineM Bool :=
  tryFillers engine arch victim (downFrom (min maxNopLen victim.len) minNopLen)

def fusePass (config : PassConfig) : EngineM Bool := do
  let snapshot ← exportSnapshot
  let arch := architecture snapshot
  let minNopLen ← raiseError (minNopLenByArch arch)
  let maxNopLen ← raiseError (maxNopLenByArch arch)
  runIterativePass engine config (fusePassCandidates arch minNopLen)
    (fusePassMutate engine arch minNopLen maxNopLen) .random false

/-- `_find_candidates` of `swap_pass`. -/
def swapPassCandidates (insns : List Insn) : List (Insn × Insn) :=
  (insns.zip insns.tail).filter fun (lInsn, rInsn) =>
    !lInsn.isNop && rInsn.isNop && decide (lInsn.addr + lInsn.len = rInsn.addr)

/-- `except ValueError`. -/
def exceptValueError {α : Type} (x : EngineM α) : EngineM (Option α) :=
  tryCatch (some <$> x) fun e => if e = .valueError then pure none else throw e

/-- `_mutate` of `swap_pass`. -/
def swapPassMutate (victim : Insn × Insn) : EngineM Bool := do
  let (lInsn, rInsn) := victim
  match ← exceptValueError (getBytes lInsn.addr (lInsn.len + rInsn.len)) with
  | none => return false
  | some rawData =>
    let swappedData := sliceFrom rawData lInsn.len ++ sliceTo rawData lInsn.len
    engine.tryModify (setBytes lInsn.addr swappedData)

def swapPass (config : PassConfig) : EngineM Bool :=
  runIterativePass engine config swapPassCandidates (swapPassMutate engine) .random false

/-- `elide_pass`, which reads no budget. -/
def elidePass (_config : PassConfig) : EngineM Bool := do
  match ← exceptRuntimeError engine.traceInsns with
  | none => return false
  | some insns =>
    match insns, insns.find? fun x => !x.isNop with
    | first :: _, some nextEffectiveInsn =>
      if first.addr = nextEffectiveInsn.addr then return false
      else engine.tryModify (engine.setPc nextEffectiveInsn.addr)
    | _, _ => return false

/-- `_mutate` of `omit_pass`. -/
def omitPassMutate (victim : Insn) : EngineM Bool :=
  engine.tryModify (deleteBytes victim.addr victim.len)

def omitPass (config : PassConfig) : EngineM Bool :=
  runIterativePass engine config (List.filter Insn.isNop) (omitPassMutate engine) .forward true

/-- `PASS_FN_BY_KIND`. -/
def passFnByKind : PassKind → PassConfig → EngineM Bool
  | .NOP => nopPass engine
  | .FUSE => fusePass engine
  | .SWAP => swapPass engine
  | .ELIDE => elidePass engine
  | .OMIT => omitPass engine

end

/-- `DEFAULT_PASSES_BY_ARCH`. -/
def defaultPassesByArch : ProtoArchitecture → Option (List PassKind)
  | .known .kX86_64 => some [.NOP, .FUSE, .SWAP, .ELIDE]
  | .known .kAArch64 => some [.NOP, .SWAP, .OMIT, .ELIDE]
  | .undefined => none

/-! ## The minimizer -/

/-- A schedule of any passes, each of which reports whether it succeeded. -/
def runSchedule (passes : List (EngineM Bool)) : EngineM Proto.Snapshot := do
  passes.forM fun pass => discard pass
  exportSnapshot

structure Flags where
  goodCpu : Int
  badCpu : Int
  maxGoodIterations : Int
  maxBadIterations : Int
  passes : Option (List PassKind)
  maxSuccesses : Option Int
  maxConsecutiveFailures : Option Int
  maxIterations : Option Int
  candidateOrder : CandidateOrder
  seed : Option Int

def resolveFlagBudget (val : Option Int) (defaultVal : Int) : Int :=
  match val with
  | none => defaultVal
  | some val => if val < 0 then maxBudget else min val maxBudget

def Flags.passConfig (flags : Flags) : PassConfig where
  maxSuccesses := resolveFlagBudget flags.maxSuccesses defaultPassConfig.maxSuccesses
  maxConsecutiveFailures :=
    resolveFlagBudget flags.maxConsecutiveFailures defaultPassConfig.maxConsecutiveFailures
  maxIterations := resolveFlagBudget flags.maxIterations defaultPassConfig.maxIterations
  candidateOrder := flags.candidateOrder
  seed := flags.seed

def Flags.schedulePasses (flags : Flags) (snapshot : Proto.Snapshot) :
    Except PyException (List PassKind) :=
  match flags.passes with
  | some passes => .ok passes
  | none =>
    match defaultPassesByArch (architecture snapshot) with
    | some passes => .ok passes
    | none => .error .usageError

/-- `main`, from the snapshot that was loaded to the one that is saved. -/
def minimize (env : Environment) (flags : Flags) (snapshot : Proto.Snapshot) :
    Except PyException Proto.Snapshot :=
  match DifferentialEngine.make env snapshot flags.goodCpu flags.badCpu flags.maxGoodIterations
    flags.maxBadIterations with
  | .error .valueError => .error .usageError
  | .error e => .error e
  | .ok (engine, session) => do
    let passes ← flags.schedulePasses snapshot
    (Effects.runFrom (runSchedule (passes.map (passFnByKind engine · flags.passConfig))) session).1

end Silifuzz.Minimizer
