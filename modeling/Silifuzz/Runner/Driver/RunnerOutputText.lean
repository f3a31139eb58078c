import Silifuzz.Runner.Driver.RunnerDriver
import Silifuzz.Library.TextFormat

/-!
# The text of a RunnerOutput

What `TextFormat::Parser` makes of the text of a `RunnerOutput`: a field that a message does
not have, a value that its type does not have and a second value for a field that is not
repeated are errors. Known are the fields of the messages that the other modules read, but
for `cpu_usage`, which the runner does not print.
-/

namespace Silifuzz.Proto

open TextFormat
open RunnerOutput (set)

def uint64 (word : Text) : Option Nat := do
  let n ← unsigned word
  guard (n < 2 ^ 64)
  return n

def int64 (word : Text) : Option Int := do
  let n ← signed word
  guard (-2 ^ 63 ≤ n ∧ n < 2 ^ 63)
  return n

def int32 (word : Text) : Option Int := do
  let n ← signed word
  guard (-2 ^ 31 ≤ n ∧ n < 2 ^ 31)
  return n

/-- A value of an enum, given by its name or its number. -/
def enumValue {α : Type} (values : List (String × Nat × α)) (word : Text) : Option α :=
  (values.find? fun v => String.ofList word = v.1 || signed word = some (v.2.1 : Int)).map
    (·.2.2)

def sigNumValues : List (String × Nat × Enum SigNum) := [
  ("UNDEFINED_SIG_NUM", 0, .undefined), ("SIG_SEGV", 1, .known .kSigSegv),
  ("SIG_TRAP", 2, .known .kSigTrap), ("SIG_FPE", 3, .known .kSigFPE),
  ("SIG_ILL", 4, .known .kSigIll), ("SIG_BUS", 5, .known .kSigBus)]

def sigCauseValues : List (String × Nat × Enum SigCause) := [
  ("UNDEFINED_SIG_CAUSE", 0, .undefined), ("GENERIC_SIG_CAUSE", 1, .known .kGenericSigCause),
  ("SEGV_CANT_EXEC", 2, .known .kSegvCantExec), ("SEGV_CANT_WRITE", 3, .known .kSegvCantWrite),
  ("SEGV_CANT_READ", 4, .known .kSegvCantRead), ("SEGV_OVERFLOW", 5, .known .kSegvOverflow),
  ("SEGV_GENERAL_PROTECTION", 6, .known .kSegvGeneralProtection)]

def outcomeValues : List (String × Nat × PlaybackOutcome) := [
  ("AS_EXPECTED", 0, .kAsExpected), ("PLATFORM_MISMATCH", 1, .kPlatformMismatch),
  ("MEMORY_MISMATCH", 2, .kMemoryMismatch),
  ("REGISTER_STATE_MISMATCH", 3, .kRegisterStateMismatch),
  ("ENDPOINT_MISMATCH", 4, .kEndpointMismatch), ("EXECUTION_RUNAWAY", 5, .kExecutionRunaway),
  ("EXECUTION_MISBEHAVE", 6, .kExecutionMisbehave)]

def statusCodeValues : List (String × Nat × RunnerExecutionStatusCode) := [
  ("INTERNAL_ERROR", 0, .kInternalError), ("OK", 1, .kOk),
  ("UNHANDLED_SIGNAL", 2, .kUnhandledSignal), ("MMAP_FAILED", 3, .kMmapFailed),
  ("OVERLAPPING_MAPPINGS", 4, .kOverlappingMappings),
  ("INITIAL_CHECKSUM_MISMATCH", 5, .kInitialChecksumMismatch),
  ("SNAPSHOT_FAILED", 6, .kSnapshotFailed)]

def checksumStatusValues : List (String × Nat × RunnerPostfailureChecksumStatus) := [
  ("NOT_CHECKED", 0, .kNotChecked), ("MATCH", 1, .kMatch), ("MISMATCH", 2, .kMismatch)]

def MemoryBytes.addField (m : MemoryBytes) : Field → Option MemoryBytes
  | .scalar name word =>
    if String.ofList name = "start_address" then do
      return { m with startAddress := ← set m.startAddress (← uint64 word) }
    else none
  | .string name value =>
    if String.ofList name = "byte_values" then do
      return { m with byteValues := ← set m.byteValues value }
    else none
  | .message _ _ => none

def MemoryBytes.ofText (fields : List Field) : Option MemoryBytes :=
  fields.foldlM addField ⟨none, none⟩

def RegisterState.addField (m : RegisterState) : Field → Option RegisterState
  | .string name value =>
    if String.ofList name = "gregs" then do return { m with gregs := ← set m.gregs value }
    else if String.ofList name = "fpregs" then do return { m with fpregs := ← set m.fpregs value }
    else none
  | _ => none

def RegisterState.ofText (fields : List Field) : Option RegisterState :=
  fields.foldlM addField ⟨none, none⟩

def Signal.addField (m : Signal) : Field → Option Signal
  | .scalar name word =>
    if String.ofList name = "sig_num" then do
      return { m with sigNum := ← set m.sigNum (← enumValue sigNumValues word) }
    else if String.ofList name = "sig_cause" then do
      return { m with sigCause := ← set m.sigCause (← enumValue sigCauseValues word) }
    else if String.ofList name = "sig_address" then do
      return { m with sigAddress := ← set m.sigAddress (← uint64 word) }
    else if String.ofList name = "sig_instruction_address" then do
      return { m with sigInstructionAddress := ← set m.sigInstructionAddress (← uint64 word) }
    else none
  | _ => none

def Signal.ofText (fields : List Field) : Option Signal :=
  fields.foldlM addField ⟨none, none, none, none⟩

def Endpoint.addField (m : Endpoint) : Field → Option Endpoint
  | .scalar name word =>
    if String.ofList name = "instruction_address" then do
      return { m with event := ← set m.event (.instructionAddress (← uint64 word)) }
    else none
  | .message name fields =>
    if String.ofList name = "signal" then do
      return { m with event := ← set m.event (.signal (← Signal.ofText fields)) }
    else none
  | .string _ _ => none

def Endpoint.ofText (fields : List Field) : Option Endpoint := fields.foldlM addField ⟨none⟩

def EndState.addField (m : EndState) : Field → Option EndState
  | .message name fields =>
    if String.ofList name = "endpoint" then do
      return { m with endpoint := ← set m.endpoint (← Endpoint.ofText fields) }
    else if String.ofList name = "registers" then do
      return { m with registers := ← set m.registers (← RegisterState.ofText fields) }
    else if String.ofList name = "memory_bytes" then do
      return { m with memoryBytes := m.memoryBytes ++ [← MemoryBytes.ofText fields] }
    else none
  | .scalar name word =>
    if String.ofList name = "platforms" then do
      return { m with platforms := ← set m.platforms (BitVec.ofNat 64 (← uint64 word)) }
    else none
  | .string name value =>
    if String.ofList name = "register_checksum" then do
      return { m with registerChecksum := ← set m.registerChecksum value }
    else none

def EndState.ofText (fields : List Field) : Option EndState :=
  fields.foldlM addField ⟨none, none, [], none, none⟩

def PlayerResult.addField (m : PlayerResult) : Field → Option PlayerResult
  | .scalar name word =>
    if String.ofList name = "outcome" then do
      return { m with outcome := ← set m.outcome (← enumValue outcomeValues word) }
    else if String.ofList name = "end_state_index" then do
      return { m with endStateIndex := ← set m.endStateIndex (← int32 word) }
    else if String.ofList name = "cpu_id" then do
      return { m with cpuId := ← set m.cpuId (← int64 word) }
    else none
  | .message name fields =>
    if String.ofList name = "actual_end_state" then do
      return { m with actualEndState := ← set m.actualEndState (← EndState.ofText fields) }
    else none
  | .string _ _ => none

def PlayerResult.ofText (fields : List Field) : Option PlayerResult :=
  fields.foldlM addField ⟨none, none, none, none, none⟩

def SnapshotExecutionResult.addField (m : SnapshotExecutionResult) :
    Field → Option SnapshotExecutionResult
  | .string name value =>
    if String.ofList name = "snapshot_id" then do
      return { m with snapshotId := ← set m.snapshotId value }
    else none
  | .message name fields =>
    if String.ofList name = "player_result" then do
      return { m with playerResult := ← set m.playerResult (← PlayerResult.ofText fields) }
    else none
  | .scalar _ _ => none

def SnapshotExecutionResult.ofText (fields : List Field) : Option SnapshotExecutionResult :=
  fields.foldlM addField ⟨none, none⟩

def ExecutionResult.addField (m : ExecutionResult) : Field → Option ExecutionResult
  | .scalar name word =>
    if String.ofList name = "code" then do
      return { m with code := ← set m.code (← enumValue statusCodeValues word) }
    else none
  | .string name value =>
    if String.ofList name = "msg" then do
      return { m with msg := ← set m.msg (String.ofList (value.map fun c => Char.ofNat c.toNat)) }
    else none
  | .message _ _ => none

def ExecutionResult.ofText (fields : List Field) : Option ExecutionResult :=
  fields.foldlM addField ⟨none, none⟩

namespace RunnerOutput

def fieldOfText : TextFormat.Field → Option RunnerOutput.Field
  | .message name fields =>
    if String.ofList name = "execution_result" then
      (ExecutionResult.ofText fields).map .executionResult
    else if String.ofList name = "failed_snapshot_execution" then
      (SnapshotExecutionResult.ofText fields).map .failedSnapshotExecution
    else none
  | .scalar name word =>
    if String.ofList name = "postfailure_checksum_status" then
      (enumValue checksumStatusValues word).map .postfailureChecksumStatus
    else none
  | .string _ _ => none

/-- `TextFormat::Parser::ParseFromString` -/
def ofText (text : Text) : Option RunnerOutput := do
  let fields ← TextFormat.parse text
  ofFields (← fields.mapM fieldOfText)

end RunnerOutput

end Silifuzz.Proto
