import Silifuzz.Runner.Runner.ReportedMemory

/-!
# The report of a failed snap at the driver

When the driver has the result of a snap as it was at the end spot: the text has to fit into
the buffers it is printed to, the endpoint has to be one that the driver takes, and the pages
that were added must not be larger than those of the runner.
-/

namespace Silifuzz.Report

open TextFormat Serialize RunnerUtil TextProtoPrinter RunnerDriver SnapshotProto Checked

section

variable {arch : Architecture} {snap : Snap} (memory : LiveMemory snap)
  (runResult : RunSnapResult arch) (endpoint : Endpoint)

/-- An end state is the one of the process: with its endpoint, registers and checksum, and
with each byte of its writable memory once. -/
structure SameEndState (endState : EndState) : Prop where
  endpoint : endState.endpoint = endpoint
  gregs : deserializeGRegs arch endState.registers.gregs = some runResult.endSpot.gregs
  fpregs : deserializeFPRegs arch endState.registers.fpregs = some runResult.endSpot.fpregs
  checksum : RegisterChecksum.deserialize arch endState.registerChecksum =
    some (endState.registerChecksum.length, runResult.endSpot.registerChecksum)
  memoryBytes : Contents endState.memoryBytes (memory.on memory.area)

/-- What the driver makes of the text of a runner that exits with 1 after a failed snap. -/
def driverResult (debugString : Proto.SnapshotExecutionResult → String) (stdout : Text)
    (snapshotId : Id) : Option RunnerDriver.RunResult :=
  handleRunnerOutput debugString (String.ofList stdout) (Proto.RunnerOutput.ofText stdout)
    (.exited 1) snapshotId

/-- The report is logged, and the driver that reads it has the result of the snap. -/
def Reported (debugString : Proto.SnapshotExecutionResult → String) (debug : Bool)
    (snapshotId : Id) : Prop :=
  ∃ report executionResult result playerResult endState,
    logSnapRunResult debug snap memory runResult = some report ∧
    logExecutionResult .kSnapshotFailed = some executionResult ∧
    driverResult debugString (report.buf ++ executionResult.buf) snapshotId = some result ∧
    result.snapshotId = snap.id ∧ result.playerResult = some playerResult ∧
    playerResult.outcome.toInt = runResult.outcome.toInt ∧
    playerResult.actualEndState = some endState ∧
    SameEndState memory runResult endpoint endState

/-- What one entry of `memory_bytes` takes of a buffer. -/
def memoryBytesSize (chunk : Address × Nat) : Nat :=
  47 + (Itoa.hexStr chunk.1).length + escapedLength (memory.bytes chunk.1 chunk.2)

def endpointSize : Endpoint → Nat
  | .kInstruction instructionAddress => 34 + (Itoa.hexStr instructionAddress).length
  | .kSignal sigNum sigCause sigAddress sigInstructionAddress =>
    82 + sigNum.enumStr.toList.length + sigCause.enumStr.toList.length +
      (Itoa.hexStr sigAddress).length + (Itoa.hexStr sigInstructionAddress).length

/-- What all of the report takes of a buffer. -/
def reportSize : Nat :=
  156 + escapedLength snap.id + (Itoa.intStr runResult.cpuId.toInt).length +
    escapedLength (serializeGRegs arch runResult.endSpot.gregs) +
    escapedLength (serializeFPRegs arch runResult.endSpot.fpregs) +
    escapedLength (runResult.endSpot.registerChecksum.serialize arch) + endpointSize endpoint +
    (memory.chunks.map (memoryBytesSize memory)).sum

/-- When the report reaches the driver. -/
structure Loggable : Prop where
  id : BytesFit snap.id
  chunks : ∀ c ∈ memory.chunks, BytesFit (memory.bytes c.1 c.2)
  room : reportSize memory runResult endpoint + 1 < sizeofBuf
  pages : memory.addedPageAddresses = [] ∨ memory.pageSize = kPageSize
  valid : endpoint.Valid

end

variable {arch : Architecture} {snap : Snap} {memory : LiveMemory snap}
  {runResult : RunSnapResult arch} {endpoint : Endpoint}

/-- What an event takes of a buffer. -/
def printedSize : Event → Nat
  | .openMessage name => name.length + 3
  | .closeMessage => 2
  | .string name value => name.length + escapedLength value + 4
  | .scalar name word => name.length + word.length + 2

theorem length_printed (es : List Event) : (printed es).length = (es.map printedSize).sum := by
  induction es with
  | nil => rfl
  | cons e es ih =>
    have first : (e.print escape).length = printedSize e := by
      cases e <;> simp only [Event.print, printedSize, ← length_escaped, List.length_append,
        List.length_cons, List.length_nil] <;> omega
    rw [printed, List.flatMap_cons, List.length_append, first, List.map_cons, List.sum_cons, ← ih]
    rfl

theorem size_memoryEvents (memory : LiveMemory snap) (chunks : List (Address × Nat)) :
    ((chunks.flatMap (memoryBytesEvents memory)).map printedSize).sum =
      (chunks.map (memoryBytesSize memory)).sum := by
  induction chunks with
  | nil => rfl
  | cons chunk chunks ih =>
    have first : ((memoryBytesEvents memory chunk).map printedSize).sum =
        memoryBytesSize memory chunk := by
      simp [memoryBytesEvents, printedSize, memoryBytesSize]
      omega
    rw [List.flatMap_cons, List.map_append, List.sum_append, first, ih, List.map_cons,
      List.sum_cons]

theorem size_endpointEvents (endpoint : Endpoint) :
    ((endpointEvents endpoint).map printedSize).sum = endpointSize endpoint := by
  cases endpoint <;> simp [endpointEvents, eventEvents, signalEvents, printedSize, endpointSize] <;>
    omega

theorem length_report : (printed (reportEvents memory runResult endpoint)).length =
    reportSize memory runResult endpoint := by
  have outcome : Itoa.intStr runResult.outcome.toInt = [hexDigit runResult.outcome.toInt] :=
    Itoa.intStr_of_lt (by cases runResult.outcome <;> decide)
  have memoryBytes := size_memoryEvents memory memory.chunks
  have ends := size_endpointEvents endpoint
  rw [length_printed]
  simp [reportEvents, playerResultEvents, outcomeEvents, endStateEvents, registersEvents,
    registerFields, printedSize, reportSize, memoryBytes, ends, outcome]
  omega

/-- The chunks start at addresses that 64 bits have. -/
theorem chunks_lt (memory : LiveMemory snap) : ∀ c ∈ memory.chunks, c.1 < 2 ^ 64 := by
  obtain ⟨bs, toProto, -⟩ := logged_chunks memory
  intro c hc
  have member : protoBytes memory c ∈ bs.map memoryBytesToProto := by
    rw [toProto]
    exact List.mem_map_of_mem hc
  obtain ⟨b, -, same⟩ := List.mem_map.mp member
  have start : b.startAddress = c.1 := Option.some.inj (congrArg Proto.MemoryBytes.startAddress same)
  have bound := b.bounded
  have max : kMaxAddress = 2 ^ 64 - 1 := rfl
  rw [← start]
  lia

variable (memory runResult) in
/-- **The end state of the message is read as one with the endpoint, the registers, the
checksum and the logged memory of the process.** -/
theorem endStateFromProto_report (valid : endpoint.Valid) :
    ∃ endState, endStateFromProto (protoEndState memory runResult endpoint) = .ok endState ∧
      endState.endpoint = endpoint ∧
      endState.registers = ⟨serializeGRegs arch runResult.endSpot.gregs,
        serializeFPRegs arch runResult.endSpot.fpregs⟩ ∧
      endState.registerChecksum = runResult.endSpot.registerChecksum.serialize arch ∧
      Contents endState.memoryBytes (memory.on memory.loggedArea) := by
  obtain ⟨bs, toProto, contents⟩ := logged_chunks memory
  obtain ⟨m, changed⟩ := contents.exists_represents
  let e : EndState := ⟨m, endpoint, ⟨serializeGRegs arch runResult.endSpot.gregs,
    serializeFPRegs arch runResult.endSpot.fpregs⟩, bs, fun _ => false,
    runResult.endSpot.registerChecksum.serialize arch⟩
  have wellFormed : e.WellFormed := ⟨valid, _, contents, changed⟩
  have empty : e.emptyPlatforms = true := by simp [EndState.emptyPlatforms, e]
  have same : protoEndState memory runResult endpoint = endStateToProto e := by
    simp only [endStateToProto, empty, if_true, e, toProto]
    rfl
  refine ⟨e, ?_, rfl, rfl, rfl, contents⟩
  rw [same]
  exact (endStateFromProto_toProto wellFormed).mpr ⟨rfl, rfl⟩

variable (memory runResult) in
/-- An endpoint that is not valid is refused. -/
theorem endStateFromProto_invalid (invalid : ¬ endpoint.Valid) :
    ∃ text, endStateFromProto (protoEndState memory runResult endpoint) =
      .error (.status text) := by
  have refused : ∃ text, endpointFromProto (endpointToProto endpoint) = .error (.status text) := by
    cases endpoint with
    | kInstruction instructionAddress => exact absurd trivial invalid
    | kSignal sigNum sigCause sigAddress sigInstructionAddress =>
      have different : ¬ (sigCause != .kGenericSigCause) = (sigNum == .kSigSegv) := by
        intro same
        apply invalid
        rw [Bool.eq_iff_iff, bne_iff_ne, beq_iff_eq] at same
        exact same
      simp [endpointFromProto, endpointToProto, signalFromProto, mustHaveField, orStatus, ensure,
        different, invalidArgument]
  obtain ⟨text, refused⟩ := refused
  exact ⟨"Bad Endpoint: " ++ text, by
    simp [endStateFromProto, endStateDataFromProto, protoEndState, mustHaveField, orStatus,
      refused, plus]⟩

section

variable (debugString : Proto.SnapshotExecutionResult → String) {snapshotId : Id}
  (expects : snapshotId = [] ∨ snapshotId = snap.id) (fit : AddressesFit endpoint)

include expects fit

/-- What the driver has when the end state is read. -/
theorem driverResult_ok {endState : EndState}
    (read : endStateFromProto (protoEndState memory runResult endpoint) = .ok endState) :
    driverResult debugString (printed (reportEvents memory runResult endpoint) ++
        printed (executionResultEvents .kSnapshotFailed)) snapshotId =
      some ⟨⟨.kSnapshotFailed, ""⟩, some ⟨playbackOutcome runResult.outcome, none, some endState, 0,
        runResult.cpuId.toInt⟩, snap.id, .kNotChecked⟩ := by
  have same : ¬ (snapshotId ≠ [] ∧ snap.id ≠ snapshotId) := by
    rintro ⟨some, other⟩
    cases expects with
    | inl none => exact some none
    | inr id => exact other id.symm
  rw [driverResult, ofText_report memory runResult fit (chunks_lt memory)]
  simp [handleRunnerOutput, handleFailedSnapshot, protoResult, kSuccess, kTimeout, same, read,
    PlayerResultProto.fromProto, mustHaveField, orStatus, ensure]

theorem driverResult_refused {message : String}
    (read : endStateFromProto (protoEndState memory runResult endpoint) =
      .error (.status message)) {result : RunnerDriver.RunResult}
    (made : driverResult debugString (printed (reportEvents memory runResult endpoint) ++
      printed (executionResultEvents .kSnapshotFailed)) snapshotId = some result) :
    result.playerResult = none := by
  have same : ¬ (snapshotId ≠ [] ∧ snap.id ≠ snapshotId) := by
    rintro ⟨some, other⟩
    cases expects with
    | inl none => exact some none
    | inr id => exact other id.symm
  rw [driverResult, ofText_report memory runResult fit (chunks_lt memory)] at made
  simp [handleRunnerOutput, handleFailedSnapshot, protoResult, kSuccess, kTimeout, same, read,
    PlayerResultProto.fromProto, mustHaveField, orStatus, ensure, plus] at made
  rw [← made]
  rfl

end

theorem playbackOutcome_toInt (outcome : RunSnapOutcome) :
    (playbackOutcome outcome).toInt = outcome.toInt := by
  cases outcome <;> rfl

/-- The text of the execution result fits into a buffer. -/
theorem logExecutionResult_logged : ∃ q, logExecutionResult .kSnapshotFailed = some q ∧
    q.buf = printed (executionResultEvents .kSnapshotFailed) := by
  have short : (printed (executionResultEvents .kSnapshotFailed)).length + 1 < sizeofBuf := by
    rw [length_printed, executionResultEvents, Itoa.intStr_of_lt (by decide)]
    decide
  exact ⟨⟨_, short⟩, logExecutionResult_eq_some.mpr rfl, rfl⟩

/-- **The driver has the result of a failed snap exactly if its report is loggable.** -/
theorem logSnapRunResult_reported {debugString : Proto.SnapshotExecutionResult → String}
    {debug : Bool} {snapshotId : Id} (expects : snapshotId = [] ∨ snapshotId = snap.id)
    (ends : endSpotToEndpoint debug runResult.endSpot = some (some endpoint)) :
    Reported memory runResult endpoint debugString debug snapshotId ↔
      Loggable memory runResult endpoint := by
  have fit := endSpotToEndpoint_fits ends
  obtain ⟨executionResult, hexecution, last⟩ := logExecutionResult_logged
  constructor
  · rintro ⟨report, executionResult', result, playerResult, endState, hreport, hexecution', made,
      hid, hplayer, houtcome, hstate, same⟩
    have ⟨⟨id, chunks⟩, text⟩ := (logSnapRunResult_eq_some memory runResult endpoint ends).mp hreport
    rw [text, logExecutionResult_eq_some.mp hexecution'] at made
    have valid : endpoint.Valid := by
      by_contra invalid
      have ⟨message, refused⟩ := endStateFromProto_invalid memory runResult invalid
      rw [driverResult_refused debugString expects fit refused made] at hplayer
      cases hplayer
    obtain ⟨e, read, -, -, -, contents⟩ :=
      endStateFromProto_report memory runResult valid
    rw [driverResult_ok debugString expects fit read] at made
    cases made
    cases hplayer
    cases hstate
    have pages := loggedArea_eq_area.mp (memory.on_injective (contents.unique same.memoryBytes))
    have room := report.terminated
    rw [text, length_report] at room
    exact ⟨id, chunks, room, pages, valid⟩
  · intro h
    have room : (printed (reportEvents memory runResult endpoint)).length + 1 < sizeofBuf := by
      rw [length_report]
      exact h.room
    obtain ⟨e, read, hends, hregisters, hchecksum, contents⟩ :=
      endStateFromProto_report memory runResult h.valid
    have logged := (logSnapRunResult_eq_some memory runResult endpoint ends
      (q := ⟨_, room⟩)).mpr ⟨⟨h.id, h.chunks⟩, rfl⟩
    have same : SameEndState memory runResult endpoint e := by
      constructor
      · exact hends
      · rw [hregisters]
        exact deserializeGRegs_serializeGRegs runResult.endSpot.gregs_size
      · rw [hregisters]
        exact deserializeFPRegs_serializeFPRegs runResult.endSpot.fpregs_size
      · rw [hchecksum, RegisterChecksum.length_serialize]
        exact RegisterChecksum.deserialize_serialize arch runResult.endSpot.registerChecksum
      · rw [← loggedArea_eq_area.mpr h.pages]
        exact contents
    have made := driverResult_ok debugString expects fit read
    rw [← last] at made
    exact ⟨_, executionResult, _, _, e, logged, hexecution, made, rfl, rfl,
      playbackOutcome_toInt runResult.outcome, rfl, same⟩

/-- A snap with a writable page, which is left with bytes of all values. -/
def pageSnap : Snap :=
  ⟨[0x61], [⟨0x10000, 0x1000, .rw, by decide, by decide, MemoryPerms.proper_rw,
    MemoryPerms.unmapped_rw⟩],
    List.pairwise_singleton _ _⟩

def pageMemory : LiveMemory pageSnap :=
  ⟨0x1000, fun address => BitVec.ofNat 8 address, [], by decide, by simp, .nil, by simp⟩

theorem page_gregs_size : (List.replicate 128 (0x5a : BitVec 8) ++ [8, 0, 1, 0, 0, 0, 0, 0] ++
    List.replicate 40 0xa5).length = gRegSetSize .kX86_64 := by
  rw [List.length_append, List.length_append, List.length_replicate, List.length_replicate]
  rfl

/-- It stops in the page, with other values in all registers. -/
def pageResult : RunSnapResult .kX86_64 where
  endSpot := {
    signum := 0
    sigAddress := 0
    sigregs := (⟨0, 0, 0⟩ : TrapRegSet)
    gregs := List.replicate 128 0x5a ++ [8, 0, 1, 0, 0, 0, 0, 0] ++ List.replicate 40 0xa5
    fpregs := List.replicate 512 0x7f
    registerChecksum := ⟨0, 0⟩
    gregs_size := page_gregs_size
    fpregs_size := List.length_replicate }
  outcome := .kMemoryMismatch
  cpuId := 3

theorem pageMemory_chunks : pageMemory.chunks = [(0x10000, 0x1000)] := by
  have chunks : pageChunks 0x1000 0x10000 0x1000 = [(0x10000, 0x1000)] := by
    rw [pageChunks, if_pos (by decide), Nat.sub_self, pageChunks, if_neg (by decide)]
    rfl
  have writable : mappingChunks 0x1000 ⟨0x10000, 0x1000, .rw, by decide, by decide,
      MemoryPerms.proper_rw, MemoryPerms.unmapped_rw⟩ = pageChunks 0x1000 0x10000 0x1000 :=
    if_pos (by decide)
  rw [LiveMemory.chunks]
  show mappingChunks 0x1000 _ ++ [] ++ [] = _
  rw [List.append_nil, List.append_nil, writable, chunks]

theorem length_hexStr_page {n : Nat} (low : 0x10000 ≤ n) (high : n < 0x100000) :
    (Itoa.hexStr n).length = 7 := by
  have step : ∀ m, 16 ≤ m → (digits 16 m).length = (digits 16 (m / 16)).length + 1 := by
    intro m long
    rw [digits, if_pos ⟨by decide, long⟩, List.length_append, List.length_singleton]
  rw [Itoa.hexStr, List.length_cons, List.length_cons, step n (by omega), step _ (by omega),
    step _ (by omega), step _ (by omega), digits_of_lt (by omega), List.length_singleton]

theorem logSnapRunResult_reported_page :
    Reported pageMemory pageResult (.kInstruction 0x10008) (fun _ => "") false [0x61] := by
  have cpu : (Itoa.intStr (pageResult.cpuId.toInt)).length = 1 := by
    have three : pageResult.cpuId.toInt = ((3 : Nat) : Int) := by decide
    rw [three, Itoa.intStr_of_lt (by decide)]
    rfl
  have ends : endSpotToEndpoint false pageResult.endSpot = some (some (.kInstruction 0x10008)) := by
    decide +kernel
  have size : reportSize pageMemory pageResult (.kInstruction 0x10008) + 1 < sizeofBuf := by
    rw [reportSize, endpointSize, cpu, pageMemory_chunks, length_hexStr_page (by decide) (by decide)]
    rw [List.map_singleton, memoryBytesSize, length_hexStr_page (by decide) (by decide)]
    decide +kernel
  apply (logSnapRunResult_reported (.inr rfl) ends).mpr
  constructor
  · exact bytesFit_of_length (by decide)
  · intro c chunk
    rw [pageMemory_chunks, List.mem_singleton] at chunk
    rw [chunk]
    apply bytesFit_of_length
    rw [LiveMemory.length_bytes]
  · exact size
  · exact .inl rfl
  · trivial

/-- A snap with one writable mapping of a page of 64 KB. -/
def largeSnap : Snap :=
  ⟨[0x61], [⟨0x10000, 0x10000, .rw, by decide, by decide, MemoryPerms.proper_rw,
    MemoryPerms.unmapped_rw⟩],
    List.pairwise_singleton _ _⟩

def largeMemory : LiveMemory largeSnap :=
  ⟨0x10000, fun _ => 0, [], by decide, by simp, .nil, by simp⟩

/-- An AArch64 stops at the address 0 with all registers 0. -/
def zeroResult : RunSnapResult .kAArch64 where
  endSpot := {
    signum := 0
    sigAddress := 0
    sigregs := (0 : ESR)
    gregs := List.replicate 288 0
    fpregs := List.replicate 528 0
    registerChecksum := ⟨0, 0⟩
    gregs_size := List.length_replicate
    fpregs_size := List.length_replicate }
  outcome := .kRegisterStateMismatch
  cpuId := 0

theorem logSnapRunResult_unreported :
    ¬ ∀ (arch : Architecture) (snap : Snap) (memory : LiveMemory snap)
      (runResult : RunSnapResult arch) (endpoint : Endpoint)
      (debugString : Proto.SnapshotExecutionResult → String) (debug : Bool) (snapshotId : Id),
      (snapshotId = [] ∨ snapshotId = snap.id) →
      endSpotToEndpoint debug runResult.endSpot = some (some endpoint) →
      Reported memory runResult endpoint debugString debug snapshotId := by
  intro all
  have ends : endSpotToEndpoint false zeroResult.endSpot = some (some (.kInstruction 0)) := by
    decide +kernel
  obtain ⟨report, _, _, _, _, logged, -⟩ := all .kAArch64 largeSnap largeMemory zeroResult
    (.kInstruction 0) (fun _ => "") false [] (.inl rfl) ends
  have fits := ((logSnapRunResult_eq_some largeMemory zeroResult _ ends).mp logged).1.2
  have member : (0x10000, 0x10000) ∈ largeMemory.chunks := by
    apply List.mem_append_left
    apply List.mem_flatMap_of_mem (List.mem_singleton_self _)
    rw [mappingChunks, if_pos (by decide), pageChunks, if_pos (by decide)]
    exact List.mem_cons_self
  exact absurd (size_of_fits (fits _ member)) (by decide)

end Silifuzz.Report
