import Silifuzz.Runner.RunnerUtil
import Silifuzz.Util.TextProtoPrinter

/-!
# The report of a failed snap

`LogSnapRunResult` and `LogExecutionResult` of `runner/runner.cc`: the result of a snap and
the memory it left, printed to buffers of fixed size, and the events of the text that they
print when there is room for it.
-/

namespace Silifuzz

def RunSnapOutcome.toInt : RunSnapOutcome → Nat
  | kAsExpected => 0
  | kPlatformMismatch => 1
  | kMemoryMismatch => 2
  | kRegisterStateMismatch => 3
  | kEndpointMismatch => 4
  | kExecutionRunaway => 5
  | kExecutionMisbehave => 6

def RunnerExecutionStatusCode.toInt : RunnerExecutionStatusCode → Nat
  | kInternalError => 0
  | kOk => 1
  | kUnhandledSignal => 2
  | kMmapFailed => 3
  | kOverlappingMappings => 4
  | kInitialChecksumMismatch => 5
  | kSnapshotFailed => 6

/-- `EnumStr` -/
def SigNum.enumStr : SigNum → String
  | kSigSegv => "SIG_SEGV"
  | kSigTrap => "SIG_TRAP"
  | kSigFPE => "SIG_FPE"
  | kSigIll => "SIG_ILL"
  | kSigBus => "SIG_BUS"

def SigCause.enumStr : SigCause → String
  | kGenericSigCause => "GENERIC_SIG_CAUSE"
  | kSegvCantExec => "SEGV_CANT_EXEC"
  | kSegvCantWrite => "SEGV_CANT_WRITE"
  | kSegvCantRead => "SEGV_CANT_READ"
  | kSegvOverflow => "SEGV_OVERFLOW"
  | kSegvGeneralProtection => "SEGV_GENERAL_PROTECTION"

namespace Report

open TextFormat Serialize RunnerUtil

/-- The page size of the runner, `kPageSize`, whatever that of the kernel is. -/
def kPageSize : Nat := 4096

/-- What the report reads of a snap. Its mappings are those of a snapshot. -/
structure Snap where
  id : Id
  memoryMappings : List MemoryMapping
  disjoint : memoryMappings.Pairwise MemoryMapping.Disjoint

structure RunSnapResult (arch : Architecture) where
  endSpot : EndSpot arch
  outcome : RunSnapOutcome
  cpuId : BitVec 64

/-- The process after a snap: the page size of its kernel, its memory, and the addresses of
the pages that were mapped while it ran, none of which was mapped before. -/
structure LiveMemory (snap : Snap) where
  pageSize : Nat
  byteAt : Address → BitVec 8
  addedPageAddresses : List Address
  page : kPageSize ≤ pageSize
  bounded : ∀ p ∈ addedPageAddresses, p + pageSize ≤ kMaxAddress
  apart : addedPageAddresses.Pairwise fun p q => p + pageSize ≤ q ∨ q + pageSize ≤ p
  unmapped : ∀ p ∈ addedPageAddresses, ∀ m ∈ snap.memoryMappings,
    p + pageSize ≤ m.startAddress ∨ m.limitAddress ≤ p

namespace LiveMemory

variable {snap : Snap}

def bytes (memory : LiveMemory snap) (startAddress size : Nat) : ByteData :=
  (List.range size).map fun i => memory.byteAt (startAddress + i)

theorem length_bytes (memory : LiveMemory snap) (startAddress size : Nat) :
    (memory.bytes startAddress size).length = size := by
  rw [bytes, List.length_map, List.length_range]

end LiveMemory

open TextProtoPrinter

/-- The turns of the loop: where one starts, and how many bytes it logs. -/
def pageChunks (pageSize startAddress left : Nat) : List (Address × Nat) :=
  if 0 < left ∧ 0 < pageSize then
    (startAddress, min pageSize left) ::
      pageChunks pageSize (startAddress + pageSize) (left - pageSize)
  else []
termination_by left

section

variable {snap : Snap} (memory : LiveMemory snap)

/-- One turn of a loop over the memory. -/
def logMemoryBytes (endState : TextProtoPrinter) (chunk : Address × Nat) :
    Option TextProtoPrinter :=
  (message "memory_bytes").bind fun m =>
    ((m.hex "start_address" chunk.1).bind fun m =>
      m.bytes "byte_values" (memory.bytes chunk.1 chunk.2)).bind fun m =>
        m.commit endState

/-- `LogSnapMemoryBytes` for one of the mappings. -/
def logSnapMemoryMapping (endState : TextProtoPrinter) (memoryMapping : MemoryMapping) :
    Option TextProtoPrinter :=
  if memoryMapping.perms.has .kWritable then
    (pageChunks memory.pageSize memoryMapping.startAddress memoryMapping.numBytes).foldlM
      (logMemoryBytes memory) endState
  else some endState

def logSnapMemoryBytes (endState : TextProtoPrinter) : Option TextProtoPrinter :=
  snap.memoryMappings.foldlM (logSnapMemoryMapping memory) endState

/-- The pages mapped during making. -/
def logAddedPages (endState : TextProtoPrinter) : Option TextProtoPrinter :=
  (memory.addedPageAddresses.map fun p => (p, kPageSize)).foldlM (logMemoryBytes memory) endState

end

/-- The fields of a signal. -/
def logSignal (sigNum : SigNum) (sigCause : SigCause) (sigAddress sigInstructionAddress : Address)
    (signal : TextProtoPrinter) : Option TextProtoPrinter :=
  (signal.enum "sig_num" sigNum.enumStr).bind fun signal =>
    (signal.enum "sig_cause" sigCause.enumStr).bind fun signal =>
      (signal.hex "sig_address" sigAddress).bind fun signal =>
        signal.hex "sig_instruction_address" sigInstructionAddress

/-- The fields of an endpoint. -/
def logEvent (endpoint : Endpoint) (m : TextProtoPrinter) : Option TextProtoPrinter :=
  match endpoint with
  | .kSignal sigNum sigCause sigAddress sigInstructionAddress =>
    (message "signal").bind fun signal =>
      (logSignal sigNum sigCause sigAddress sigInstructionAddress signal).bind fun signal =>
        signal.commit m
  | .kInstruction instructionAddress => m.hex "instruction_address" instructionAddress

def logEndpoint (endpoint : Option Endpoint) (endState : TextProtoPrinter) :
    Option TextProtoPrinter :=
  match endpoint with
  | none => some endState
  | some endpoint =>
    (message "endpoint").bind fun m => (logEvent endpoint m).bind fun m => m.commit endState

/-- The fields of the player's result that are numbers. -/
def logOutcome {arch : Architecture} (runResult : RunSnapResult arch)
    (playerResult : TextProtoPrinter) : Option TextProtoPrinter :=
  (playerResult.int "outcome" runResult.outcome.toInt).bind fun playerResult =>
    playerResult.int "cpu_id" runResult.cpuId.toInt

def logRegisters {arch : Architecture} (endSpot : EndSpot arch) (registers : TextProtoPrinter) :
    Option TextProtoPrinter :=
  (registers.bytes "gregs" (serializeGRegs arch endSpot.gregs)).bind fun registers =>
    registers.bytes "fpregs" (serializeFPRegs arch endSpot.fpregs)

/-- The fields of the end state, but for the registers. -/
def logEndState {arch : Architecture} {snap : Snap} (memory : LiveMemory snap)
    (endSpot : EndSpot arch) (endpoint : Option Endpoint) (actualEndState : TextProtoPrinter) :
    Option TextProtoPrinter :=
  (actualEndState.bytes "register_checksum" (endSpot.registerChecksum.serialize arch)).bind
    fun actualEndState =>
      (logEndpoint endpoint actualEndState).bind fun actualEndState =>
        (logSnapMemoryBytes memory actualEndState).bind fun actualEndState =>
          logAddedPages memory actualEndState

/-- `LogSnapRunResult`, to stdout. What goes to stderr is left out. None is a `LOG_FATAL`
or a write past the end of a buffer. -/
def logSnapRunResult {arch : Architecture} (debug : Bool) (snap : Snap) (memory : LiveMemory snap)
    (runResult : RunSnapResult arch) : Option TextProtoPrinter := do
  let failedSnapshotExecution ← message "failed_snapshot_execution"
  let failedSnapshotExecution ← failedSnapshotExecution.string "snapshot_id" snap.id
  let playerResult ← message "player_result"
  let actualEndState ← message "actual_end_state"
  let playerResult ← logOutcome runResult playerResult
  let registers ← message "registers"
  let registers ← logRegisters runResult.endSpot registers
  let endpoint ← endSpotToEndpoint debug runResult.endSpot
  let actualEndState ← logEndState memory runResult.endSpot endpoint actualEndState
  -- The destructors, the last message first.
  let actualEndState ← registers.commit actualEndState
  let playerResult ← actualEndState.commit playerResult
  let failedSnapshotExecution ← playerResult.commit failedSnapshotExecution
  failedSnapshotExecution.commit TextProtoPrinter.new

/-- `LogExecutionResult` without a message. -/
def logExecutionResult (statusCode : RunnerExecutionStatusCode) : Option TextProtoPrinter :=
  (message "execution_result").bind fun m =>
    (m.int "code" statusCode.toInt).bind fun m => m.commit TextProtoPrinter.new

/-! ## The events of the report -/

/-- The chunks that are logged of a mapping. -/
def mappingChunks (pageSize : Nat) (memoryMapping : MemoryMapping) : List (Address × Nat) :=
  if memoryMapping.perms.has .kWritable then
    pageChunks pageSize memoryMapping.startAddress memoryMapping.numBytes
  else []

/-- All chunks that are logged. -/
def LiveMemory.chunks {snap : Snap} (memory : LiveMemory snap) : List (Address × Nat) :=
  snap.memoryMappings.flatMap (mappingChunks memory.pageSize) ++
    memory.addedPageAddresses.map fun p => (p, kPageSize)

def memoryBytesEvents {snap : Snap} (memory : LiveMemory snap) (chunk : Address × Nat) :
    List Event :=
  .openMessage "memory_bytes".toList ::
    ([.scalar "start_address".toList (Itoa.hexStr chunk.1),
      .string "byte_values".toList (memory.bytes chunk.1 chunk.2)] ++ [.closeMessage])

def signalEvents (sigNum : SigNum) (sigCause : SigCause)
    (sigAddress sigInstructionAddress : Address) : List Event :=
  [.scalar "sig_num".toList sigNum.enumStr.toList,
    .scalar "sig_cause".toList sigCause.enumStr.toList,
    .scalar "sig_address".toList (Itoa.hexStr sigAddress),
    .scalar "sig_instruction_address".toList (Itoa.hexStr sigInstructionAddress)]

def eventEvents : Endpoint → List Event
  | .kSignal sigNum sigCause sigAddress sigInstructionAddress =>
    .openMessage "signal".toList ::
      (signalEvents sigNum sigCause sigAddress sigInstructionAddress ++ [.closeMessage])
  | .kInstruction instructionAddress =>
    [.scalar "instruction_address".toList (Itoa.hexStr instructionAddress)]

def endpointEvents (endpoint : Endpoint) : List Event :=
  .openMessage "endpoint".toList :: (eventEvents endpoint ++ [.closeMessage])

section

variable {arch : Architecture} {snap : Snap} (memory : LiveMemory snap)
  (runResult : RunSnapResult arch) (endpoint : Endpoint)

def registerFields : List Event :=
  [.string "gregs".toList (serializeGRegs arch runResult.endSpot.gregs),
    .string "fpregs".toList (serializeFPRegs arch runResult.endSpot.fpregs)]

def registersEvents : List Event :=
  .openMessage "registers".toList :: (registerFields runResult ++ [.closeMessage])

def endStateEvents : List Event :=
  [.string "register_checksum".toList (runResult.endSpot.registerChecksum.serialize arch)] ++
    (endpointEvents endpoint ++ memory.chunks.flatMap (memoryBytesEvents memory))

def outcomeEvents : List Event :=
  [.scalar "outcome".toList (Itoa.intStr runResult.outcome.toInt),
    .scalar "cpu_id".toList (Itoa.intStr runResult.cpuId.toInt)]

def playerResultEvents : List Event :=
  .openMessage "player_result".toList ::
    (outcomeEvents runResult ++ .openMessage "actual_end_state".toList ::
      (endStateEvents memory runResult endpoint ++ registersEvents runResult ++
        [.closeMessage]) ++ [.closeMessage])

/-- What the report says. -/
def reportEvents : List Event :=
  .openMessage "failed_snapshot_execution".toList :: ([.string "snapshot_id".toList snap.id] ++
    playerResultEvents memory runResult endpoint ++ [.closeMessage])

end

theorem Appends.congr {op : TextProtoPrinter → Option TextProtoPrinter} {F G : Prop} {t u : Text}
    (h : Appends op F t) (fits : F ↔ G) (text : t = u) : Appends op G u := by
  intro p q
  rw [h p q, fits, text]

variable {arch : Architecture} {snap : Snap} (memory : LiveMemory snap)
  (runResult : RunSnapResult arch) (endpoint : Endpoint)

/-- The bytes of a chunk fit into the buffer of a field. -/
def ChunkFits (chunk : Address × Nat) : Prop := BytesFit (memory.bytes chunk.1 chunk.2)

variable {memory} in
/-- Larger pages never fit, whatever they hold. -/
theorem size_of_fits {chunk : Address × Nat} (fits : ChunkFits memory chunk) :
    chunk.2 < kMaxBytesFieldCapacity := by
  have bounds := escapedLength_bounds (memory.bytes chunk.1 chunk.2)
  rw [memory.length_bytes] at bounds
  exact Nat.lt_of_le_of_lt bounds.1 fits

theorem appends_logMemoryBytes (chunk : Address × Nat) :
    Appends (logMemoryBytes memory · chunk) (ChunkFits memory chunk)
      (printed (memoryBytesEvents memory chunk)) := by
  apply appends_message
  have fields := (appends_word "start_address" (Itoa.hexStr chunk.1)).bind
    (appends_bytes "byte_values" (memory.bytes chunk.1 chunk.2))
  apply Appends.congr fields
  · rw [true_and, ChunkFits]
  · rw [← printed_append]
    rfl

theorem printed_flatMap {α : Type} (xs : List α) (f : α → List Event) :
    printed (xs.flatMap f) = xs.flatMap fun x => printed (f x) := by
  rw [printed, List.flatMap_assoc]
  rfl

theorem appends_logChunks (chunks : List (Address × Nat)) :
    Appends (fun endState => chunks.foldlM (logMemoryBytes memory) endState)
      (∀ c ∈ chunks, ChunkFits memory c)
      (printed (chunks.flatMap (memoryBytesEvents memory))) := by
  rw [printed_flatMap]
  exact Appends.foldlM (appends_logMemoryBytes memory) chunks

theorem appends_logSnapMemoryMapping (m : MemoryMapping) :
    Appends (logSnapMemoryMapping memory · m)
      (∀ c ∈ mappingChunks memory.pageSize m, ChunkFits memory c)
      (printed ((mappingChunks memory.pageSize m).flatMap (memoryBytesEvents memory))) := by
  unfold logSnapMemoryMapping mappingChunks
  by_cases writable : m.perms.has .kWritable = true
  · simp only [writable, if_true]
    exact appends_logChunks memory _
  · simp only [writable]
    apply Appends.congr appends_self
    · simp
    · rfl

theorem appends_logMemory :
    Appends (fun endState => (logSnapMemoryBytes memory endState).bind (logAddedPages memory))
      (∀ c ∈ memory.chunks, ChunkFits memory c)
      (printed (memory.chunks.flatMap (memoryBytesEvents memory))) := by
  have mappings := Appends.foldlM (appends_logSnapMemoryMapping memory) snap.memoryMappings
  have added := appends_logChunks memory (memory.addedPageAddresses.map fun p => (p, kPageSize))
  apply Appends.congr (mappings.bind added)
  · simp only [LiveMemory.chunks, List.mem_append, List.mem_flatMap, or_imp, forall_and]
    constructor
    · rintro ⟨inMappings, inAdded⟩
      constructor
      · rintro c ⟨m, hm, hc⟩
        exact inMappings m hm c hc
      · exact inAdded
    · rintro ⟨inMappings, inAdded⟩
      constructor
      · intro m hm c hc
        exact inMappings c ⟨m, hm, hc⟩
      · exact inAdded
  · rw [LiveMemory.chunks, List.flatMap_append, printed_append, List.flatMap_assoc]
    rw [printed_flatMap snap.memoryMappings]

theorem appends_logSignal (sigNum : SigNum) (sigCause : SigCause)
    (sigAddress sigInstructionAddress : Address) :
    Appends (logSignal sigNum sigCause sigAddress sigInstructionAddress) True
      (printed (signalEvents sigNum sigCause sigAddress sigInstructionAddress)) := by
  have fields := (appends_word "sig_num" sigNum.enumStr.toList).bind
    ((appends_word "sig_cause" sigCause.enumStr.toList).bind
      ((appends_word "sig_address" (Itoa.hexStr sigAddress)).bind
        (appends_word "sig_instruction_address" (Itoa.hexStr sigInstructionAddress))))
  apply Appends.congr fields
  · simp
  · rw [← printed_append, ← printed_append, ← printed_append]
    rfl

theorem appends_logEvent : Appends (logEvent endpoint) True (printed (eventEvents endpoint)) := by
  cases endpoint with
  | kInstruction instructionAddress =>
    exact appends_word "instruction_address" (Itoa.hexStr instructionAddress)
  | kSignal sigNum sigCause sigAddress sigInstructionAddress =>
    exact appends_message (appends_logSignal _ _ _ _) "signal"

theorem appends_logEndpoint :
    Appends (logEndpoint (some endpoint)) True (printed (endpointEvents endpoint)) :=
  appends_message (appends_logEvent endpoint) "endpoint"

theorem appends_logOutcome :
    Appends (logOutcome runResult) True (printed (outcomeEvents runResult)) := by
  have fields := (appends_word "outcome" (Itoa.intStr runResult.outcome.toInt)).bind
    (appends_word "cpu_id" (Itoa.intStr runResult.cpuId.toInt))
  apply Appends.congr fields
  · simp
  · rw [← printed_append]
    rfl

/-- What is shorter than the buffer of a field even with all bytes escaped. -/
theorem bytesFit_of_length {value : List Byte} (short : value.length ≤ 4096) : BytesFit value := by
  have bounds := escapedLength_bounds value
  have capacity : kMaxBytesFieldCapacity = 16385 := rfl
  rw [BytesFit]
  omega

theorem gregs_fit (endSpot : EndSpot arch) : BytesFit (serializeGRegs arch endSpot.gregs) := by
  apply bytesFit_of_length
  rw [serializeGRegs, length_simpleSerialize, endSpot.gregs_size]
  cases arch <;> decide

theorem fpregs_fit (endSpot : EndSpot arch) : BytesFit (serializeFPRegs arch endSpot.fpregs) := by
  apply bytesFit_of_length
  rw [serializeFPRegs, length_simpleSerialize, endSpot.fpregs_size]
  cases arch <;> decide

theorem checksum_fits (endSpot : EndSpot arch) :
    BytesFit (endSpot.registerChecksum.serialize arch) := by
  apply bytesFit_of_length
  rw [RegisterChecksum.length_serialize]
  decide

theorem appends_logRegisters :
    Appends (logRegisters runResult.endSpot) True (printed (registerFields runResult)) := by
  have fields := (appends_bytes "gregs" (serializeGRegs arch runResult.endSpot.gregs)).bind
    (appends_bytes "fpregs" (serializeFPRegs arch runResult.endSpot.fpregs))
  apply Appends.congr fields
  · simp [gregs_fit, fpregs_fit]
  · rw [← printed_append]
    rfl

theorem appends_logEndState :
    Appends (logEndState memory runResult.endSpot (some endpoint))
      (∀ c ∈ memory.chunks, ChunkFits memory c)
      (printed (endStateEvents memory runResult endpoint)) := by
  have checksum := appends_bytes "register_checksum"
    (runResult.endSpot.registerChecksum.serialize arch)
  apply Appends.congr
    (checksum.bind ((appends_logEndpoint endpoint).bind (appends_logMemory memory)))
  · simp [checksum_fits]
  · rw [← printed_append, ← printed_append]
    rfl

/-- **The report is logged exactly if its fields and its text fit into the buffers.** -/
theorem logSnapRunResult_eq_some {debug : Bool} {q : TextProtoPrinter}
    (ends : endSpotToEndpoint debug runResult.endSpot = some (some endpoint)) :
    logSnapRunResult debug snap memory runResult = some q ↔
      (BytesFit snap.id ∧ ∀ c ∈ memory.chunks, ChunkFits memory c) ∧
        q.buf = printed (reportEvents memory runResult endpoint) := by
  have idField := appends_bytes "snapshot_id" snap.id
  have outcome := appends_logOutcome runResult
  have registers := appends_logRegisters runResult
  have endState := appends_logEndState memory runResult endpoint
  have text : printed (reportEvents memory runResult endpoint) =
      printed [.openMessage "failed_snapshot_execution".toList] ++
        (printed [.string "snapshot_id".toList snap.id] ++
          (printed [.openMessage "player_result".toList] ++
            (printed (outcomeEvents runResult) ++
              (printed [.openMessage "actual_end_state".toList] ++
                (printed (endStateEvents memory runResult endpoint) ++
                  (printed [.openMessage "registers".toList] ++
                    (printed (registerFields runResult) ++ (printed [.closeMessage] ++
                      (printed [.closeMessage] ++ (printed [.closeMessage] ++
                        printed [.closeMessage])))))))))) := by
    simp only [← printed_append]
    simp [reportEvents, playerResultEvents, registersEvents, registerFields]
  simp only [logSnapRunResult, TextProtoPrinter.string, Option.bind_eq_bind,
    Option.bind_eq_some_iff, ends, Option.some_inj, exists_eq_left']
  constructor
  · rintro ⟨failed, hfailed, failed', hid, player, hplayer, state, hstate, player', houtcome,
      regs, hregs, regs', hfields, state', hends, state'', hcommit, player'', hcommit', failed'',
      hcommit'', hlast⟩
    have one := (idField failed failed').mp hid
    have two := (outcome player player').mp houtcome
    have three := (registers regs regs').mp hfields
    have four := (endState state state').mp hends
    have five := (appends_commit regs' state' state'').mp hcommit
    have six := (appends_commit state'' player' player'').mp hcommit'
    have seven := (appends_commit player'' failed' failed'').mp hcommit''
    have eight := (appends_commit failed'' TextProtoPrinter.new q).mp hlast
    refine ⟨⟨one.1, four.1⟩, ?_⟩
    rw [eight.2, seven.2, six.2, five.2, four.2, three.2, two.2, one.2,
      message_eq_some.mp hfailed, message_eq_some.mp hplayer, message_eq_some.mp hstate,
      message_eq_some.mp hregs, text]
    simp [TextProtoPrinter.new]
  · rintro ⟨⟨id, chunks⟩, whole⟩
    rw [text] at whole
    have length := congrArg List.length whole
    simp only [List.length_append] at length
    have part (text : Text) (h : text.length ≤ q.buf.length) := q.exists_part text h
    obtain ⟨failed, hfailed⟩ := part (printed [.openMessage "failed_snapshot_execution".toList])
      (by omega)
    obtain ⟨failed', hid⟩ := part (failed.buf ++ printed [.string "snapshot_id".toList snap.id])
      (by rw [List.length_append, hfailed]; omega)
    obtain ⟨player, hplayer⟩ := part (printed [.openMessage "player_result".toList]) (by omega)
    obtain ⟨player', houtcome⟩ := part (player.buf ++ printed (outcomeEvents runResult))
      (by rw [List.length_append, hplayer]; omega)
    obtain ⟨state, hstate⟩ := part (printed [.openMessage "actual_end_state".toList]) (by omega)
    obtain ⟨state', hends⟩ := part (state.buf ++ printed (endStateEvents memory runResult endpoint))
      (by rw [List.length_append, hstate]; omega)
    obtain ⟨regs, hregs⟩ := part (printed [.openMessage "registers".toList]) (by omega)
    obtain ⟨regs', hfields⟩ := part (regs.buf ++ printed (registerFields runResult))
      (by rw [List.length_append, hregs]; omega)
    obtain ⟨state'', hcommit⟩ := part (state'.buf ++ (regs'.buf ++ printed [.closeMessage])) (by
      simp only [List.length_append, hends, hstate, hfields, hregs]
      omega)
    obtain ⟨player'', hcommit'⟩ := part (player'.buf ++ (state''.buf ++ printed [.closeMessage])) (by
      simp only [List.length_append, hcommit, hends, hstate, hfields, hregs, houtcome, hplayer]
      omega)
    obtain ⟨failed'', hcommit''⟩ := part (failed'.buf ++ (player''.buf ++ printed [.closeMessage]))
      (by
        simp only [List.length_append, hcommit', hcommit, hends, hstate, hfields, hregs, houtcome,
          hplayer, hid, hfailed]
        omega)
    refine ⟨failed, message_eq_some.mpr hfailed, failed', (idField _ _).mpr ⟨id, hid⟩,
      player, message_eq_some.mpr hplayer, state, message_eq_some.mpr hstate,
      player', (outcome _ _).mpr ⟨trivial, houtcome⟩, regs, message_eq_some.mpr hregs,
      regs', (registers _ _).mpr ⟨trivial, hfields⟩, state', (endState _ _).mpr ⟨chunks, hends⟩,
      state'', (appends_commit _ _ _).mpr ⟨trivial, hcommit⟩,
      player'', (appends_commit _ _ _).mpr ⟨trivial, hcommit'⟩,
      failed'', (appends_commit _ _ _).mpr ⟨trivial, hcommit''⟩,
      (appends_commit _ _ _).mpr ⟨trivial, ?_⟩⟩
    rw [whole, hcommit'', hcommit', hcommit, hends, hstate, hfields, hregs, houtcome, hplayer, hid,
      hfailed]
    simp [TextProtoPrinter.new]

end Report

end Silifuzz
