import Silifuzz.Library.Effects
import Silifuzz.Tools.Minimizer.Insn
import Mathlib.Logic.Equiv.Defs

/-!
# The differential engine

`tools/minimizer/engine.py`. What the tools answer is any function of what was run
before; the files in the temporary directory of an attempt are given to the tools by
their contents. The log of all commands, and of what each attempt to modify the snapshot
came to, is not part of the source.
-/

namespace Silifuzz.Minimizer

/-- `RunnerOutput.ExecutionResult.StatusCode`. -/
inductive StatusCode where
  | internalError
  | ok
  | unhandledSignal
  | mmapFailed
  | overlappingMappings
  | initialChecksumMismatch
  | snapshotFailed
  deriving DecidableEq, Repr

/-- `PlayerResult.Outcome`. -/
inductive Outcome where
  | asExpected
  | platformMismatch
  | memoryMismatch
  | registerStateMismatch
  | endpointMismatch
  | executionRunaway
  | executionMisbehave
  deriving DecidableEq, Repr

structure PlayerResult where
  outcome : Outcome
  cpuId : Int

/-- `RunnerOutput`. -/
structure RunnerOutput where
  code : StatusCode
  failedSnapshotExecution : Option PlayerResult

structure RunResult where
  outcome : Outcome

def RunResult.asExpected (r : RunResult) : Bool := decide (r.outcome = .asExpected)

/-- The commands of `snap_tool`, with what their input files hold. -/
inductive SnapTool where
  | make (modifiedPb : ByteData)
  | generateCorpus (targetPlatform : Str) (remadePb : Option ByteData)
  | trace (snapPb : ByteData)
  | setPc (tmpIn : ByteData) (pc : Int)

inductive Command where
  | platformId
  | snapTool (cpuId : Int) (command : SnapTool)
  | runner (cpuId maxIterations : Int) (corpus : Option ByteData)

/-- `subprocess.CompletedProcess`, and what the output file then holds, if there is one. -/
structure CompletedProcess where
  returncode : Int
  stdout : Str
  stderrLines : List Str
  output : Option ByteData

inductive Event where
  | ran (command : Command) (outcome : Except PyException CompletedProcess)
  | tried (accepted : Bool) (before after : Proto.Snapshot)

/-- The seed of `random.Random`. -/
inductive Seed where
  | int (seed : Int)
  | str (snapshotId : Option Id)

/-- What is outside the repository: the host, its processes, the protobuf library and the
random number generator. -/
structure Environment where
  machine : String
  subprocess : List Event → Command → Except PyException CompletedProcess
  serializeToString : Proto.Snapshot → ByteData
  fromString : ByteData → Option Proto.Snapshot
  parseRunnerOutput : Str → Option RunnerOutput
  shuffle : Seed → (n : Nat) → Equiv.Perm (Fin n)

/-- `DifferentialEngine`, but for the state. -/
structure DifferentialEngine where
  env : Environment
  goodCpu : Int
  badCpu : Int
  maxGoodIterations : Int
  maxBadIterations : Int

structure Tools where
  platformId : Option Str
  log : List Event

/-- What the tools may do, which never see the active snapshot. -/
abbrev ToolM := ExceptT PyException (StateM Tools)

/-- The state of a `DifferentialEngine`. -/
structure Session where
  activeSnapshot : Proto.Snapshot
  tools : Tools

abbrev EngineM := ExceptT PyException (StateM Session)

/-- `try: x except RuntimeError`, with `none` for the exception. -/
def exceptRuntimeError {σ α : Type} (x : ExceptT PyException (StateM σ) α) :
    ExceptT PyException (StateM σ) (Option α) :=
  tryCatch (some <$> x) fun e => if e = .runtimeError then pure none else throw e

def raiseError {σ α : Type} : Except PyException α → ExceptT PyException (StateM σ) α
  | .ok a => pure a
  | .error e => throw e

/-- A run of the tools, inside the engine. -/
def EngineM.ofTools {α : Type} (x : ToolM α) : EngineM α :=
  ExceptT.mk fun s =>
    let run := Effects.runFrom x s.tools
    (run.1, { s with tools := run.2 })

/-- `host_platform`. -/
def hostPlatform (machine : String) : Except PyException Architecture :=
  if machine.toLower = "x86_64" ∨ machine.toLower = "amd64" then .ok .kX86_64
  else if machine.toLower = "aarch64" ∨ machine.toLower = "arm64" then .ok .kAArch64
  else .error .runtimeError

def architecture (snapshot : Proto.Snapshot) : ProtoArchitecture :=
  snapshot.architecture.getD .undefined

namespace DifferentialEngine

/-- `check_compatibility`. -/
def checkCompatibility (env : Environment) (snapshot : Proto.Snapshot) :
    Except PyException Unit := do
  let hostArch ← hostPlatform env.machine
  if architecture snapshot = .known hostArch then .ok () else .error .valueError

/-- The constructor. -/
def make (env : Environment) (snapshot : Proto.Snapshot)
    (goodCpu badCpu maxGoodIterations maxBadIterations : Int) :
    Except PyException (DifferentialEngine × Session) :=
  if goodCpu = badCpu then .error .valueError
  else if goodCpu < 0 ∨ badCpu < 0 then .error .valueError
  else if maxGoodIterations ≤ 0 ∨ maxBadIterations ≤ 0 then .error .valueError
  else
    match checkCompatibility env snapshot with
    | .error e => .error e
    | .ok () =>
      .ok (⟨env, goodCpu, badCpu, maxGoodIterations, maxBadIterations⟩, ⟨snapshot, ⟨none, []⟩⟩)

variable (engine : DifferentialEngine)

/-! ## The tools -/

def subprocessRun (command : Command) : ToolM CompletedProcess := do
  let tools ← get
  let outcome := engine.env.subprocess tools.log command
  set { tools with log := tools.log ++ [Event.ran command outcome] }
  raiseError outcome

def runPlatformIdTool : ToolM Str := do
  let result ← engine.subprocessRun .platformId
  if result.returncode ≠ 0 then throw .runtimeError else return strip result.stdout

def runSnapTool (cpuId : Int) (command : SnapTool) : ToolM CompletedProcess := do
  let result ← engine.subprocessRun (.snapTool cpuId command)
  if result.returncode ≠ 0 then throw .runtimeError else return result

/-- What `execute_runner` makes of the end of the runner. -/
def runResult (cpuId : Int) (result : CompletedProcess) : Except PyException RunResult :=
  if result.returncode = 0 then .ok ⟨.asExpected⟩
  else
    match engine.env.parseRunnerOutput result.stdout with
    | none => .error .runtimeError
    | some runnerOutput =>
      match runnerOutput.code, runnerOutput.failedSnapshotExecution with
      | .snapshotFailed, some playerResult =>
        if playerResult.cpuId ≠ cpuId then .error .runtimeError else .ok ⟨playerResult.outcome⟩
      | _, _ => .error .runtimeError

def executeRunner (cpuId : Int) (corpus : Option ByteData) (maxIterations : Int) :
    ToolM RunResult := do
  let result ← engine.subprocessRun (.runner cpuId maxIterations corpus)
  raiseError (engine.runResult cpuId result)

def getPlatformId : ToolM Str := do
  let tools ← get
  match tools.platformId with
  | some platformId => return platformId
  | none =>
    let platformId ← engine.runPlatformIdTool
    modify fun tools => { tools with platformId := some platformId }
    return platformId

/-! ## Attempts -/

/-- The first `try` block of `try_modify`: the remade snapshot and the corpus. -/
def generateCorpus (candidate : Proto.Snapshot) : ToolM (Option ByteData × Option ByteData) := do
  let made ← engine.runSnapTool engine.goodCpu (.make (engine.env.serializeToString candidate))
  let platformId ← engine.getPlatformId
  let generated ← engine.runSnapTool engine.goodCpu (.generateCorpus platformId made.output)
  return (made.output, generated.output)

/-- The second `try` block of `try_modify`: the good result and the bad one. -/
def runCorpus (corpus : Option ByteData) : ToolM (RunResult × RunResult) := do
  let goodResult ← engine.executeRunner engine.goodCpu corpus engine.maxGoodIterations
  let badResult ← engine.executeRunner engine.badCpu corpus engine.maxBadIterations
  return (goodResult, badResult)

/-- The remake of a candidate, if the good CPU runs it as expected and the bad one does
not: the temporary directory of `try_modify`. -/
def reproduce (candidate : Proto.Snapshot) : ToolM (Option Proto.Snapshot) := do
  let generated ← exceptRuntimeError (engine.generateCorpus candidate)
  match generated with
  | none => return none
  | some (remadePb, corpus) =>
    let results ← exceptRuntimeError (engine.runCorpus corpus)
    match results with
    | none => return none
    | some (goodResult, badResult) =>
      if !goodResult.asExpected then return none
      else if badResult.asExpected then return none
      else
        match remadePb with
        | none => throw .osError
        | some pb =>
          match engine.env.fromString pb with
          | none => throw .decodeError
          | some snapshot => return some snapshot

end DifferentialEngine

def exportSnapshot : EngineM Proto.Snapshot := do
  let session ← get
  return session.activeSnapshot

/-- What an attempt reports, if it ends with a report. -/
def reported : Except PyException Bool → Bool
  | .ok success => success
  | .error _ => false

/-- Logs what an attempt came to. -/
def logged (attempt : EngineM Bool) : EngineM Bool :=
  ExceptT.mk fun s =>
    let run := Effects.runFrom attempt s
    let event := .tried (reported run.1) s.activeSnapshot run.2.activeSnapshot
    (run.1, { run.2 with tools.log := run.2.tools.log ++ [event] })

/-- A modification of a candidate, which is `false` where it does not apply. -/
abbrev MutationFn := Proto.Snapshot → ToolM (Bool × Proto.Snapshot)

namespace DifferentialEngine

variable (engine : DifferentialEngine)

/-- `try_modify` up to its last step: the remade snapshot that takes the place of the active
one. -/
def remake (mutationFn : MutationFn) (candidate : Proto.Snapshot) :
    ToolM (Option Proto.Snapshot) := do
  let (modified, candidate) ← mutationFn candidate
  if modified then engine.reproduce candidate else return none

/-- `try_modify`, without the log. -/
def attempt (mutationFn : MutationFn) : EngineM Bool := do
  let candidate ← exportSnapshot
  match ← EngineM.ofTools (engine.remake mutationFn candidate) with
  | none => return false
  | some remade =>
    modify fun s => { s with activeSnapshot := remade }
    return true

def tryModify (mutationFn : MutationFn) : EngineM Bool := logged (engine.attempt mutationFn)

/-! ## Traces -/

def trace : EngineM (List Str) := do
  let snapshot ← exportSnapshot
  let command := .trace (engine.env.serializeToString snapshot)
  match ← exceptRuntimeError (EngineM.ofTools (engine.runSnapTool engine.goodCpu command)) with
  | none => throw .runtimeError
  | some result => return result.stderrLines

/-- `trace_insns`, without the last instruction, which leaves the snapshot. -/
def traceInsns : EngineM (List Insn) := do
  let lines ← engine.trace
  let snapshot ← exportSnapshot
  match parseTrace lines (architecture snapshot) with
  | .error _ => throw .runtimeError
  | .ok insns => if insns.isEmpty then throw .runtimeError else return insns.dropLast

end DifferentialEngine

/-! ## Bytes of a snapshot -/

/-- `bytes[i:]`, where a negative `i` counts from the end. -/
def sliceFrom (bytes : ByteData) (i : Int) : ByteData :=
  bytes.drop (if i < 0 then bytes.length + i else i).toNat

/-- `bytes[:i]`, where a negative `i` counts from the end. -/
def sliceTo (bytes : ByteData) (i : Int) : ByteData :=
  bytes.take (if i < 0 then bytes.length + i else i).toNat

/-- The block holds the range. -/
def holdsRange (addr size : Int) (memoryBlock : Proto.MemoryBytes) : Bool :=
  let start : Int := memoryBlock.startAddress.getD 0
  decide (start ≤ addr) &&
    decide (start + (memoryBlock.byteValues.getD []).length ≥ addr + size)

/-- Puts `data` in the place of the range in the first block that holds it. -/
def spliceBytes (addr size : Int) (data : ByteData) :
    List Proto.MemoryBytes → Option (List Proto.MemoryBytes)
  | [] => none
  | memoryBlock :: rest =>
    if holdsRange addr size memoryBlock then
      let byteValues := memoryBlock.byteValues.getD []
      let offset := addr - memoryBlock.startAddress.getD 0
      let byteValues := sliceTo byteValues offset ++ data ++ sliceFrom byteValues (offset + size)
      some ({ memoryBlock with byteValues := some byteValues } :: rest)
    else (spliceBytes addr size data rest).map (memoryBlock :: ·)

/-- `set_bytes`. -/
def setBytes (addr : Int) (data : ByteData) : MutationFn := fun snapshot =>
  match spliceBytes addr data.length data snapshot.memoryBytes with
  | some memoryBytes => pure (true, { snapshot with memoryBytes := memoryBytes })
  | none => pure (false, snapshot)

/-- `delete_bytes`. -/
def deleteBytes (addr dataSize : Int) : MutationFn := fun snapshot =>
  match spliceBytes addr dataSize [] snapshot.memoryBytes with
  | some memoryBytes => pure (true, { snapshot with memoryBytes := memoryBytes })
  | none => pure (false, snapshot)

/-- `get_bytes`. -/
def getBytes (addr dataSize : Int) : EngineM ByteData := do
  let snapshot ← exportSnapshot
  if dataSize ≤ 0 then throw .valueError
  else
    match snapshot.memoryBytes.find? (holdsRange addr dataSize) with
    | none => throw .valueError
    | some memoryBlock =>
      let offset := addr - memoryBlock.startAddress.getD 0
      return ((memoryBlock.byteValues.getD []).drop offset.toNat).take dataSize.toNat

/-- `set_pc`. -/
def DifferentialEngine.setPc (engine : DifferentialEngine) (pc : Int) : MutationFn :=
  fun snapshot => do
    let command := .setPc (engine.env.serializeToString snapshot) pc
    match ← exceptRuntimeError (engine.runSnapTool engine.goodCpu command) with
    | none => return (false, snapshot)
    | some result =>
      match result.output with
      | none => throw .osError
      | some tmpOut =>
        match engine.env.fromString tmpOut with
        | none => throw .decodeError
        | some snapshot => return (true, snapshot)

end Silifuzz.Minimizer
