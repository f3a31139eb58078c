import Silifuzz.Runner.Runner.LogSnapRunResult
import Silifuzz.Runner.Driver.RunnerOutputText

/-!
# Reading the report

The text that the runner logs is the text of one `RunnerOutput`: with the end state of the
process, whatever bytes its registers and its memory hold.
-/

namespace Silifuzz.Report

open TextFormat Serialize RunnerUtil TextProtoPrinter

/-! ## The fields of the report -/

def memoryField {snap : Snap} (memory : LiveMemory snap) (chunk : Address × Nat) : Field :=
  .message "memory_bytes".toList
    [.scalar "start_address".toList (Itoa.hexStr chunk.1),
      .string "byte_values".toList (memory.bytes chunk.1 chunk.2)]

def eventFields : Endpoint → List Field
  | .kSignal sigNum sigCause sigAddress sigInstructionAddress =>
    [.message "signal".toList
      [.scalar "sig_num".toList sigNum.enumStr.toList,
        .scalar "sig_cause".toList sigCause.enumStr.toList,
        .scalar "sig_address".toList (Itoa.hexStr sigAddress),
        .scalar "sig_instruction_address".toList (Itoa.hexStr sigInstructionAddress)]]
  | .kInstruction instructionAddress =>
    [.scalar "instruction_address".toList (Itoa.hexStr instructionAddress)]

section

variable {arch : Architecture} {snap : Snap} (memory : LiveMemory snap)
  (runResult : RunSnapResult arch) (endpoint : Endpoint)

def registersField : Field :=
  .message "registers".toList
    [.string "gregs".toList (serializeGRegs arch runResult.endSpot.gregs),
      .string "fpregs".toList (serializeFPRegs arch runResult.endSpot.fpregs)]

def endStateFields : List Field :=
  [.string "register_checksum".toList (runResult.endSpot.registerChecksum.serialize arch),
    .message "endpoint".toList (eventFields endpoint)] ++ memory.chunks.map (memoryField memory) ++
      [registersField runResult]

def playerResultFields : List Field :=
  [.scalar "outcome".toList (Itoa.intStr runResult.outcome.toInt),
    .scalar "cpu_id".toList (Itoa.intStr runResult.cpuId.toInt),
    .message "actual_end_state".toList (endStateFields memory runResult endpoint)]

def reportField : Field :=
  .message "failed_snapshot_execution".toList
    [.string "snapshot_id".toList snap.id,
      .message "player_result".toList (playerResultFields memory runResult endpoint)]

end

def executionResultEvents (statusCode : RunnerExecutionStatusCode) : List Event :=
  .openMessage "execution_result".toList ::
    ([.scalar "code".toList (Itoa.intStr statusCode.toInt)] ++ [.closeMessage])

def executionResultField (statusCode : RunnerExecutionStatusCode) : Field :=
  .message "execution_result".toList [.scalar "code".toList (Itoa.intStr statusCode.toInt)]

theorem logExecutionResult_eq_some {statusCode : RunnerExecutionStatusCode}
    {q : TextProtoPrinter} : logExecutionResult statusCode = some q ↔
      q.buf = printed (executionResultEvents statusCode) := by
  have code := appends_word "code" (Itoa.intStr statusCode.toInt)
  have logged := appends_message code "execution_result" TextProtoPrinter.new q
  refine logged.trans ?_
  rw [true_and]
  rfl

variable {arch : Architecture} {snap : Snap} (memory : LiveMemory snap)
  (runResult : RunSnapResult arch) (endpoint : Endpoint)

theorem memoryEvents_denote (chunks : List (Address × Nat)) :
    Denotes (chunks.flatMap (memoryBytesEvents memory)) (chunks.map (memoryField memory)) := by
  induction chunks with
  | nil => exact .nil
  | cons chunk chunks ih => exact .message _ (.scalar _ _ (.string _ _ .nil)) ih

theorem endpointEvents_denote :
    Denotes (endpointEvents endpoint) [.message "endpoint".toList (eventFields endpoint)] := by
  have inside : Denotes (eventEvents endpoint) (eventFields endpoint) := by
    cases endpoint with
    | kInstruction instructionAddress => exact .scalar _ _ .nil
    | kSignal sigNum sigCause sigAddress sigInstructionAddress =>
      exact .message _ (.scalar _ _ (.scalar _ _ (.scalar _ _ (.scalar _ _ .nil)))) .nil
  exact .message _ inside .nil

theorem registersEvents_denote : Denotes (registersEvents runResult) [registersField runResult] :=
  .message _ (.string _ _ (.string _ _ .nil)) .nil

theorem reportEvents_denote :
    Denotes (reportEvents memory runResult endpoint) [reportField memory runResult endpoint] := by
  have chunks := memoryEvents_denote memory memory.chunks
  have state := ((Denotes.string "register_checksum".toList
    (runResult.endSpot.registerChecksum.serialize arch) .nil).append
      ((endpointEvents_denote endpoint).append chunks)).append (registersEvents_denote runResult)
  have player : Denotes (playerResultEvents memory runResult endpoint)
      [.message "player_result".toList (playerResultFields memory runResult endpoint)] := by
    have last := Denotes.message "actual_end_state".toList state .nil
    exact .message _ (.scalar _ _ (.scalar _ _ last)) .nil
  exact .message _ (.string _ _ player) .nil

/-- All of the events are plain. -/
def AllPlain (es : List Event) : Prop := ∀ e ∈ es, e.Plain

theorem AllPlain.append {es es' : List Event} (h : AllPlain es) (h' : AllPlain es') :
    AllPlain (es ++ es') :=
  List.forall_mem_append.mpr ⟨h, h'⟩

theorem AllPlain.message {name : Text} {es : List Event} (h : AllPlain es) (word : IsWord name) :
    AllPlain (.openMessage name :: (es ++ [.closeMessage])) :=
  List.forall_mem_cons.mpr ⟨word, h.append fun _ close => List.mem_singleton.mp close ▸ trivial⟩

theorem plain_string {name : Text} (word : IsWord name) (value : List Byte) :
    AllPlain [.string name value] :=
  List.forall_mem_singleton.mpr word

theorem plain_scalar {name value : Text} (word : IsWord name) (plain : IsWord value) :
    AllPlain [.scalar name value] :=
  List.forall_mem_singleton.mpr ⟨word, plain⟩

theorem memoryEvents_plain (chunks : List (Address × Nat)) :
    AllPlain (chunks.flatMap (memoryBytesEvents memory)) := by
  induction chunks with
  | nil =>
    intro e none
    cases none
  | cons chunk chunks ih =>
    have start : AllPlain [.scalar "start_address".toList (Itoa.hexStr chunk.1)] :=
      plain_scalar (by decide) (Itoa.isWord_hexStr _)
    have bytes := plain_string (show IsWord "byte_values".toList by decide)
      (memory.bytes chunk.1 chunk.2)
    exact AllPlain.append ((start.append bytes).message (by decide)) ih

theorem endpointEvents_plain : AllPlain (endpointEvents endpoint) := by
  have hex (name : Text) (word : IsWord name) (n : Nat) :
      AllPlain [.scalar name (Itoa.hexStr n)] := plain_scalar word (Itoa.isWord_hexStr n)
  have event : AllPlain (eventEvents endpoint) := by
    cases endpoint with
    | kInstruction instructionAddress => exact hex _ (by decide) instructionAddress
    | kSignal sigNum sigCause sigAddress sigInstructionAddress =>
      have num : AllPlain [.scalar "sig_num".toList sigNum.enumStr.toList] :=
        plain_scalar (by decide) (by cases sigNum <;> decide)
      have cause : AllPlain [.scalar "sig_cause".toList sigCause.enumStr.toList] :=
        plain_scalar (by decide) (by cases sigCause <;> decide)
      have address := hex "sig_address".toList (by decide) sigAddress
      have instruction := hex "sig_instruction_address".toList (by decide) sigInstructionAddress
      exact (num.append (cause.append (address.append instruction))).message (by decide)
  exact event.message (by decide)

theorem reportEvents_plain : AllPlain (reportEvents memory runResult endpoint) := by
  have string (name : Text) (word : IsWord name) (value : List Byte) :=
    plain_string word value
  have int (name : Text) (word : IsWord name) (n : Int) : AllPlain [.scalar name (Itoa.intStr n)] :=
    plain_scalar word (Itoa.isWord_intStr n)
  have registers : AllPlain (registersEvents runResult) :=
    ((string "gregs".toList (by decide) _).append (string "fpregs".toList (by decide) _)).message
      (by decide)
  have state : AllPlain (endStateEvents memory runResult endpoint) :=
    (string "register_checksum".toList (by decide) _).append
      ((endpointEvents_plain endpoint).append (memoryEvents_plain memory memory.chunks))
  have outcome : AllPlain (outcomeEvents runResult) :=
    (int "outcome".toList (by decide) _).append (int "cpu_id".toList (by decide) _)
  have player : AllPlain (playerResultEvents memory runResult endpoint) :=
    (outcome.append ((state.append registers).message (by decide))).message (by decide)
  exact ((string "snapshot_id".toList (by decide) _).append player).message (by decide)

theorem executionResultEvents_plain (statusCode : RunnerExecutionStatusCode) :
    AllPlain (executionResultEvents statusCode) := by
  have code : AllPlain [.scalar "code".toList (Itoa.intStr statusCode.toInt)] :=
    plain_scalar (by decide) (Itoa.isWord_intStr _)
  exact code.message (by decide)

/-- The two texts after one another are parsed to the two fields. -/
theorem parse_report (statusCode : RunnerExecutionStatusCode) :
    parse (printed (reportEvents memory runResult endpoint) ++
        printed (executionResultEvents statusCode)) =
      some [reportField memory runResult endpoint, executionResultField statusCode] := by
  have denotes := (reportEvents_denote memory runResult endpoint).append
    (.message "execution_result".toList
      (.scalar "code".toList (Itoa.intStr statusCode.toInt) .nil) .nil)
  have plain := (reportEvents_plain memory runResult endpoint).append
    (executionResultEvents_plain statusCode)
  rw [← printed_append]
  exact parse_print quotes_escape plain denotes

/-! ## The message -/

def protoBytes (chunk : Address × Nat) : Proto.MemoryBytes :=
  ⟨some chunk.1, some (memory.bytes chunk.1 chunk.2)⟩

def protoEndState : Proto.EndState where
  endpoint := some (SnapshotProto.endpointToProto endpoint)
  registers := some ⟨some (serializeGRegs arch runResult.endSpot.gregs),
    some (serializeFPRegs arch runResult.endSpot.fpregs)⟩
  memoryBytes := memory.chunks.map (protoBytes memory)
  platforms := none
  registerChecksum := some (runResult.endSpot.registerChecksum.serialize arch)

/-- The outcome of the player with the number of the outcome of the runner. -/
def playbackOutcome : RunSnapOutcome → PlaybackOutcome
  | .kAsExpected => .kAsExpected
  | .kPlatformMismatch => .kPlatformMismatch
  | .kMemoryMismatch => .kMemoryMismatch
  | .kRegisterStateMismatch => .kRegisterStateMismatch
  | .kEndpointMismatch => .kEndpointMismatch
  | .kExecutionRunaway => .kExecutionRunaway
  | .kExecutionMisbehave => .kExecutionMisbehave

def protoResult : Proto.SnapshotExecutionResult where
  snapshotId := some snap.id
  playerResult := some {
    outcome := some (playbackOutcome runResult.outcome)
    endStateIndex := none
    actualEndState := some (protoEndState memory runResult endpoint)
    cpuUsage := none
    cpuId := some runResult.cpuId.toInt }

theorem uint64_hexStr {n : Nat} (bound : n < 2 ^ 64) : Proto.uint64 (Itoa.hexStr n) = some n := by
  rw [Proto.uint64, Itoa.unsigned_hexStr, Option.bind_eq_bind, Option.bind_some, guard,
    if_pos bound]
  rfl

theorem int64_intStr (n : BitVec 64) : Proto.int64 (Itoa.intStr n.toInt) = some n.toInt := by
  have low := n.le_toInt
  have high := n.toInt_lt
  have bounds : -2 ^ 63 ≤ n.toInt ∧ n.toInt < 2 ^ 63 := ⟨low, high⟩
  rw [Proto.int64, Itoa.signed_intStr, Option.bind_eq_bind, Option.bind_some, guard,
    if_pos bounds]
  rfl

theorem ofText_memoryField {chunk : Address × Nat} (bound : chunk.1 < 2 ^ 64) :
    Proto.MemoryBytes.ofText [.scalar "start_address".toList (Itoa.hexStr chunk.1),
      .string "byte_values".toList (memory.bytes chunk.1 chunk.2)] =
        some (protoBytes memory chunk) := by
  simp [Proto.MemoryBytes.ofText, Proto.MemoryBytes.addField, uint64_hexStr bound,
    Proto.RunnerOutput.set, protoBytes]

theorem ofText_eventFields {endpoint : Endpoint} (fit : AddressesFit endpoint) :
    Proto.Endpoint.ofText (eventFields endpoint) =
      some (SnapshotProto.endpointToProto endpoint) := by
  cases endpoint with
  | kInstruction instructionAddress =>
    simp [eventFields, Proto.Endpoint.ofText, Proto.Endpoint.addField, uint64_hexStr fit,
      Proto.RunnerOutput.set, SnapshotProto.endpointToProto]
  | kSignal sigNum sigCause sigAddress sigInstructionAddress =>
    have num : Proto.enumValue Proto.sigNumValues sigNum.enumStr.toList = some (.known sigNum) := by
      cases sigNum <;> rfl
    have cause : Proto.enumValue Proto.sigCauseValues sigCause.enumStr.toList =
        some (.known sigCause) := by
      cases sigCause <;> rfl
    simp [eventFields, Proto.Endpoint.ofText, Proto.Endpoint.addField, Proto.Signal.ofText,
      Proto.Signal.addField, num, cause, uint64_hexStr fit.1, uint64_hexStr fit.2,
      Proto.RunnerOutput.set, SnapshotProto.endpointToProto]

/-- The memory bytes are added to those before them. -/
theorem foldlM_memoryFields (chunks : List (Address × Nat)) (m : Proto.EndState)
    (bound : ∀ c ∈ chunks, c.1 < 2 ^ 64) :
    (chunks.map (memoryField memory)).foldlM Proto.EndState.addField m =
      some { m with memoryBytes := m.memoryBytes ++ chunks.map (protoBytes memory) } := by
  induction chunks generalizing m with
  | nil => simp
  | cons chunk chunks ih =>
    have first : Proto.EndState.addField m (memoryField memory chunk) =
        some { m with memoryBytes := m.memoryBytes ++ [protoBytes memory chunk] } := by
      change (Proto.MemoryBytes.ofText [.scalar "start_address".toList (Itoa.hexStr chunk.1),
        .string "byte_values".toList (memory.bytes chunk.1 chunk.2)]).bind (fun b =>
          some ({ m with memoryBytes := m.memoryBytes ++ [b] } : Proto.EndState)) = _
      rw [ofText_memoryField memory (bound chunk List.mem_cons_self), Option.bind_some]
    rw [List.map_cons, List.foldlM_cons, first, Option.bind_eq_bind, Option.bind_some,
      ih _ fun c member => bound c (List.mem_cons_of_mem _ member)]
    simp

theorem addField_endpoint {endpoint : Endpoint} (fit : AddressesFit endpoint)
    {m : Proto.EndState} (unset : m.endpoint = none) :
    m.addField (.message "endpoint".toList (eventFields endpoint)) =
      some { m with endpoint := some (SnapshotProto.endpointToProto endpoint) } := by
  change (Proto.Endpoint.ofText (eventFields endpoint)).bind (fun e =>
    (Proto.RunnerOutput.set m.endpoint e).bind fun x =>
      some ({ m with endpoint := x } : Proto.EndState)) = _
  rw [ofText_eventFields fit, Option.bind_some, unset, Proto.RunnerOutput.set, Option.bind_some]

theorem addField_registers {m : Proto.EndState} (unset : m.registers = none) :
    m.addField (registersField runResult) =
      some { m with registers := some ⟨some (serializeGRegs arch runResult.endSpot.gregs),
        some (serializeFPRegs arch runResult.endSpot.fpregs)⟩ } := by
  change (Proto.RunnerOutput.set m.registers ⟨some (serializeGRegs arch runResult.endSpot.gregs),
    some (serializeFPRegs arch runResult.endSpot.fpregs)⟩).bind (fun x =>
      some ({ m with registers := x } : Proto.EndState)) = _
  rw [unset, Proto.RunnerOutput.set, Option.bind_some]

theorem ofText_endStateFields {endpoint : Endpoint} (fit : AddressesFit endpoint)
    (bound : ∀ c ∈ memory.chunks, c.1 < 2 ^ 64) :
    Proto.EndState.ofText (endStateFields memory runResult endpoint) =
      some (protoEndState memory runResult endpoint) := by
  have checksum : Proto.EndState.addField ⟨none, none, [], none, none⟩
      (.string "register_checksum".toList (runResult.endSpot.registerChecksum.serialize arch)) =
        some ⟨none, none, [], none,
          some (runResult.endSpot.registerChecksum.serialize arch)⟩ := rfl
  rw [Proto.EndState.ofText, endStateFields, List.foldlM_append, List.foldlM_append]
  simp only [List.foldlM_cons, List.foldlM_nil, checksum, Option.bind_eq_bind, Option.bind_some]
  rw [addField_endpoint fit rfl]
  simp only [Option.pure_def, Option.bind_some, foldlM_memoryFields memory _ _ bound]
  rw [addField_registers runResult rfl]
  rfl

theorem ofText_playerResultFields {endpoint : Endpoint} (fit : AddressesFit endpoint)
    (bound : ∀ c ∈ memory.chunks, c.1 < 2 ^ 64) :
    Proto.PlayerResult.ofText (playerResultFields memory runResult endpoint) =
      some ⟨some (playbackOutcome runResult.outcome), none,
        some (protoEndState memory runResult endpoint), none, some runResult.cpuId.toInt⟩ := by
  have outcome : Proto.enumValue Proto.outcomeValues (Itoa.intStr runResult.outcome.toInt) =
      some (playbackOutcome runResult.outcome) := by
    rw [Itoa.intStr_of_lt (by cases runResult.outcome <;> decide)]
    cases runResult.outcome <;> rfl
  change ((Proto.enumValue Proto.outcomeValues (Itoa.intStr runResult.outcome.toInt)).bind
    fun outcome => some (⟨some outcome, none, none, none, none⟩ : Proto.PlayerResult)).bind
      (fun m => List.foldlM Proto.PlayerResult.addField m
        (.scalar "cpu_id".toList (Itoa.intStr runResult.cpuId.toInt) ::
          [.message "actual_end_state".toList (endStateFields memory runResult endpoint)])) = _
  rw [outcome, Option.bind_some, Option.bind_some]
  change ((Proto.int64 (Itoa.intStr runResult.cpuId.toInt)).bind fun cpuId =>
    some (⟨some (playbackOutcome runResult.outcome), none, none, none, some cpuId⟩ :
      Proto.PlayerResult)).bind (fun m => List.foldlM Proto.PlayerResult.addField m
        [.message "actual_end_state".toList (endStateFields memory runResult endpoint)]) = _
  rw [int64_intStr, Option.bind_some, Option.bind_some]
  change ((Proto.EndState.ofText (endStateFields memory runResult endpoint)).bind fun endState =>
    some (⟨some (playbackOutcome runResult.outcome), none, some endState, none,
      some runResult.cpuId.toInt⟩ : Proto.PlayerResult)).bind some = _
  rw [ofText_endStateFields memory runResult fit bound]
  rfl

/-- **The text of a report and an execution result is that of the message.** -/
theorem ofText_report {endpoint : Endpoint} (fit : AddressesFit endpoint)
    (bound : ∀ c ∈ memory.chunks, c.1 < 2 ^ 64) :
    Proto.RunnerOutput.ofText (printed (reportEvents memory runResult endpoint) ++
        printed (executionResultEvents .kSnapshotFailed)) =
      some ⟨some ⟨some .kSnapshotFailed, none⟩, some (protoResult memory runResult endpoint),
        none⟩ := by
  have result : Proto.RunnerOutput.fieldOfText (executionResultField .kSnapshotFailed) =
      some (.executionResult ⟨some .kSnapshotFailed, none⟩) := by
    rw [executionResultField, Itoa.intStr_of_lt (by decide)]
    rfl
  have report : Proto.RunnerOutput.fieldOfText (reportField memory runResult endpoint) =
      some (.failedSnapshotExecution (protoResult memory runResult endpoint)) := by
    change (((Proto.PlayerResult.ofText (playerResultFields memory runResult endpoint)).bind
      fun player => some (⟨some snap.id, some player⟩ : Proto.SnapshotExecutionResult)).bind
        some).map Proto.RunnerOutput.Field.failedSnapshotExecution = _
    rw [ofText_playerResultFields memory runResult fit bound]
    rfl
  rw [Proto.RunnerOutput.ofText, parse_report]
  simp only [Option.bind_eq_bind, Option.bind_some, List.mapM_cons, List.mapM_nil, report, result]
  rfl

end Silifuzz.Report
