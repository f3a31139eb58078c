import Silifuzz.Player.PlayerResultProto

/-!
# The runner's output

`HandleRunnerOutput` of `runner/driver/runner_driver.cc`: what the driver makes of the
stdout of a runner and of the way it terminated.
-/

namespace Silifuzz

inductive RunnerExecutionStatusCode where
  | kInternalError
  | kOk
  | kUnhandledSignal
  | kMmapFailed
  | kOverlappingMappings
  | kInitialChecksumMismatch
  | kSnapshotFailed
  deriving DecidableEq, Repr

inductive RunnerPostfailureChecksumStatus where
  | kNotChecked
  | kMatch
  | kMismatch
  deriving DecidableEq, Repr

namespace Proto

structure ExecutionResult where
  code : Option RunnerExecutionStatusCode
  msg : Option String

structure SnapshotExecutionResult where
  snapshotId : Option Id
  playerResult : Option PlayerResult

structure RunnerOutput where
  executionResult : Option ExecutionResult
  failedSnapshotExecution : Option SnapshotExecutionResult
  postfailureChecksumStatus : Option RunnerPostfailureChecksumStatus

/-- A field of the `RunnerOutput`, as it stands in its text. -/
inductive RunnerOutput.Field where
  | executionResult (value : ExecutionResult)
  | failedSnapshotExecution (value : SnapshotExecutionResult)
  | postfailureChecksumStatus (value : RunnerPostfailureChecksumStatus)

namespace RunnerOutput

/-- A field that is not repeated must not occur twice. -/
def set {α : Type} (field : Option α) (value : α) : Option (Option α) :=
  match field with
  | none => some (some value)
  | some _ => none

def add (output : RunnerOutput) : Field → Option RunnerOutput
  | .executionResult value => do
    return { output with executionResult := ← set output.executionResult value }
  | .failedSnapshotExecution value => do
    return { output with failedSnapshotExecution := ← set output.failedSnapshotExecution value }
  | .postfailureChecksumStatus value => do
    return { output with
      postfailureChecksumStatus := ← set output.postfailureChecksumStatus value }

/-- What the parser makes of the fields. -/
def ofFields (fields : List Field) : Option RunnerOutput :=
  fields.foldlM add ⟨none, none, none⟩

end RunnerOutput

end Proto

namespace RunnerDriver

/-- The `status` that `wait4` reports. -/
inductive ProcessStatus where
  | exited (exitStatus : Nat)
  | signaled (termSig : Nat)
  | other (status : Nat)
  deriving DecidableEq, Repr

def SIGINT : Nat := 2
def SIGSYS : Nat := 31

/-- `ExitCode` -/
def kSuccess : Nat := 0
def kTimeout : Nat := 2

structure ExecutionResult where
  code : RunnerExecutionStatusCode
  message : String
  deriving DecidableEq, Repr

def ExecutionResult.ok (result : ExecutionResult) : Bool := result.code == .kOk

structure RunResult where
  executionResult : ExecutionResult
  playerResult : Option PlayerResult
  snapshotId : Id
  postfailureChecksumStatus : RunnerPostfailureChecksumStatus

namespace RunResult

def success (result : RunResult) : Bool := result.executionResult.ok

def fromExecutionResult (executionResult : ExecutionResult) : RunResult :=
  ⟨executionResult, none, [], .kNotChecked⟩

def successful : RunResult := fromExecutionResult ⟨.kOk, ""⟩

def internalError (errorMessage : String) : RunResult :=
  fromExecutionResult ⟨.kInternalError, errorMessage⟩

end RunResult

/-- The number that the message texts show. -/
def ProcessStatus.text : ProcessStatus → String
  | .exited exitStatus => toString (exitStatus * 256)
  | .signaled termSig => toString termSig
  | .other status => toString status

/-- The `RunResult` of a failed snapshot. -/
def handleFailedSnapshot (debugString : Proto.SnapshotExecutionResult → String)
    (info : ProcessStatus) (snapshotId : Id) (executionResult : ExecutionResult)
    (status : Option RunnerPostfailureChecksumStatus)
    (execResult : Proto.SnapshotExecutionResult) : Option RunResult :=
  let id := execResult.snapshotId.getD []
  if snapshotId ≠ [] ∧ id ≠ snapshotId then
    some (.internalError ("Runner misbehaved: got id [" ++ text id ++ "] expected " ++
      text snapshotId ++ ". Exit status = " ++ info.text))
  else
    match PlayerResultProto.fromProto
        (execResult.playerResult.getD ⟨none, none, none, none, none⟩) with
    | .error .abort => none
    | .error (.status message) =>
      some (.internalError ("PlayerResultProto::FromProto: " ++ message))
    | .ok playerResult =>
      if playerResult.actualEndState.isNone then
        some (.internalError (debugString execResult ++ " has no actual_end_state"))
      else some ⟨executionResult, some playerResult, id, status.getD .kNotChecked⟩
where
  text (id : Id) : String := String.ofList (id.map fun c => Char.ofNat c.toNat)

/-- `HandleRunnerOutput`, with `parsed` what the parser of the text format makes of
`runnerStdout`; none is a failed `CHECK`. -/
def handleRunnerOutput (debugString : Proto.SnapshotExecutionResult → String)
    (runnerStdout : String) (parsed : Option Proto.RunnerOutput) (info : ProcessStatus)
    (snapshotId : Id) : Option RunResult :=
  match info with
  | .signaled sigNum =>
    if sigNum = SIGINT then some .successful
    else if sigNum = SIGSYS then some (.internalError "Snapshot made a syscall")
    else some (.internalError ("Runner killed by signal " ++ toString sigNum))
  | .exited exitCode =>
    if exitCode = kSuccess then some .successful
    else if exitCode = kTimeout ∧ snapshotId = [] then some .successful
    else
      match parsed with
      | none => some (.internalError ("couldn't parse [" ++ runnerStdout ++
          "] as proto::RunnerOutput. Exit status = " ++ info.text))
      | some output =>
        match output.executionResult with
        | none => some (.internalError "Missing required execution_result")
        | some result =>
          let executionResult : ExecutionResult :=
            ⟨result.code.getD .kInternalError, result.msg.getD ""⟩
          match output.failedSnapshotExecution with
          | none => some (.fromExecutionResult executionResult)
          | some execResult => handleFailedSnapshot debugString info snapshotId executionResult
              output.postfailureChecksumStatus execResult
  | .other _ => some (.internalError ("Unknown runner exit status " ++ info.text))

end RunnerDriver

end Silifuzz
