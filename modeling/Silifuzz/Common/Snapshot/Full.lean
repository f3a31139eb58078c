import Silifuzz.Common.Snapshot.EndState
import Silifuzz.Util.Ucontext.Serialize

/-!
# The whole Snapshot

The memory of a snapshot with its id, registers, end states, metadata and trace data,
and the checks of `common/snapshot.cc` that read them.
-/

namespace Silifuzz

open Checked Serialize

/-- `std::string`. -/
abbrev Id := ByteData

/-- `UnsetId`: `has_not_been_set`. -/
def unsetId : Id :=
  [0x68, 0x61, 0x73, 0x5f, 0x6e, 0x6f, 0x74, 0x5f, 0x62, 0x65, 0x65, 0x6e, 0x5f, 0x73, 0x65, 0x74]

/-- `absl::ascii_isalnum`. -/
def isAlnum (c : BitVec 8) : Bool :=
  (0x30 ≤ c && c ≤ 0x39) || (0x41 ≤ c && c ≤ 0x5a) || (0x61 ≤ c && c ≤ 0x7a)

/-- The characters of an id beside letters and digits: `_` and `-`. -/
def isIdChar (c : BitVec 8) : Bool := isAlnum c || c == 0x5f || c == 0x2d

/-- `absl::Hex`. -/
def hex (num : Nat) : String := String.ofList (Nat.toDigits 16 num)

def isValidId (id : Id) : Checked Unit :=
  if id = unsetId then .ok ()
  else if id.isEmpty then invalidArgument "Snapshot.id cannot be empty"
  else match id.find? (!isIdChar ·) with
    | some c => invalidArgument ("[0x" ++ hex c.toNat ++ "] is not a valid Snapshot.id character")
    | none => .ok ()

structure Snapshot extends SnapshotMemory where
  id : Id
  registers : Option RegisterState
  expectedEndStates : List EndState
  metadata : Metadata
  traceMetadata : List TraceData

/-- `MemoryMapping::CanMakeSized`. The code takes `num_bytes`, which is at most
`kMaxAddress`, to the other side. -/
def MemoryMapping.checkSized (startAddress numBytes : Nat) : Checked Unit := do
  ensure (0 < numBytes) SnapshotError.nonPositiveSize.text
  ensure (startAddress + numBytes ≤ kMaxAddress) (SnapshotError.tooLarge startAddress numBytes).text

/-- Both kinds of endpoint keep their address in the same place. -/
def Endpoint.instructionAddress : Endpoint → Address
  | .kInstruction instructionAddress => instructionAddress
  | .kSignal _ _ _ sigInstructionAddress => sigInstructionAddress

namespace SnapshotMemory

/-- `ExtractRip`; none is a failed `CHECK`. -/
def extractRip (s : SnapshotMemory) (x : RegisterState) : Option Address :=
  if x.gregs.isEmpty then some 0
  else (deserializeGRegs s.architecture x.gregs).map (instructionPointer s.architecture)

def requiredStackSize (s : SnapshotMemory) : Nat :=
  match s.architecture with
  | .kX86_64 => 8 * 2
  | .kAArch64 => 32

def isExecutable (s : SnapshotMemory) (addr size : Nat) : Checked Bool := do
  MemoryMapping.checkSized addr size
  let perms ← orAbort (s.mappedMemoryMap.perms addr (addr + size) .kAnd)
  return perms.has .kExecutable

/-- All of the range is writable. -/
def isWritable (s : SnapshotMemory) (start limit : Address) : Checked Bool := do
  let perms ← orAbort (s.mappedMemoryMap.perms start limit .kAnd)
  return perms.has .kWritable

/-- The last part of `can_set_registers`, which end states are spared. -/
def canStart (s : SnapshotMemory) (gregs : ByteData) : Checked Unit := do
  let ip := instructionPointer s.architecture gregs
  let executable ← s.isExecutable ip 1
  ensure executable
    ("instruction pointer (0x" ++ hex ip ++ ") is not in an existing executable MemoryMapping")
  let sp := stackPointer s.architecture gregs
  let stackBytes := s.requiredStackSize
  let writable ← (if sp < stackBytes then .ok false else s.isWritable (sp - stackBytes) sp)
  ensure writable ("stack pointer (0x" ++ hex sp ++ ") and " ++ toString stackBytes ++
    " bytes before it must be within a writable MemoryMapping")

def canSetRegisters (s : SnapshotMemory) (x : RegisterState) (isEndState : Bool) :
    Checked Unit := do
  let gregs ← orStatus "Failed to deserialize gregs" (deserializeGRegs s.architecture x.gregs)
  let _ ← orStatus "Failed to deserialize fpregs" (deserializeFPRegs s.architecture x.fpregs)
  if isEndState then .ok () else s.canStart gregs

def registersMatchArch (s : SnapshotMemory) (x : RegisterState) : Bool :=
  mayBeSerializedGRegs s.architecture x.gregs && mayBeSerializedFPRegs s.architecture x.fpregs

/-- An address of a signal endpoint is mapped; for a SEGV, also negatively. The last
address of all has no mapping of its own. -/
def hasSignalMapping (s : SnapshotMemory) (isSegv : Bool) (address : Address) : Bool :=
  s.mappedMemoryMap.contains address ||
    (isSegv && (s.negativeMappedMemoryMap.contains address ||
      (address == kMaxAddress && s.negativeMappedMemoryMap.contains (kMaxAddress - 1))))

/-- What `can_add_expected_end_state` checks of an endpoint. -/
def canEndAt (s : SnapshotMemory) (unmappedEndpointOk : Bool) : Endpoint → Checked Unit
  | .kInstruction instructionAddress => do
    let executable ← s.isExecutable instructionAddress 1
    ensure (unmappedEndpointOk || executable) ("endpoint instruction_address 0x" ++
      hex instructionAddress ++ " is not in an existing executable MemoryMapping")
  | .kSignal sigNum _ sigAddress sigInstructionAddress => do
    let isSegv := sigNum == .kSigSegv
    ensure (sigAddress == 0 || s.hasSignalMapping isSegv sigAddress)
      ("sig_address 0x" ++ hex sigAddress ++ " is not in an existing MemoryMapping")
    ensure (unmappedEndpointOk || s.hasSignalMapping isSegv sigInstructionAddress)
      ("signal instruction address 0x" ++ hex sigInstructionAddress ++
        " is not in an existing MemoryMapping")

/-- What `can_add_expected_end_state` checks of the registers and the memory bytes. -/
def canEndWith (s : SnapshotMemory) (x : EndState) : Checked Unit := do
  if x.registers.isUnset then
    -- the end state is undetermined yet
    ensure x.memoryBytes.isEmpty "memory_bytes must be empty if registers are"
  else plus "Bad RegisterState: " (s.canSetRegisters x.registers true)
  x.memoryBytes.forM fun r => do
    let writable ← s.isWritable r.startAddress r.limitAddress
    ensure writable ("memory_bytes at [" ++ hexStr r.startAddress ++ "; " ++
      hexStr r.limitAddress ++ ") is not in an existing writable MemoryMapping")
  ensure (x.registerChecksum.isEmpty ||
    isValidRegisterChecksumForArch s.architecture x.registerChecksum) "Bad register checksum"

end SnapshotMemory

namespace Snapshot

/-- The constructor. -/
def new (architecture : Architecture) (id : Id) : Snapshot :=
  { SnapshotMemory.new architecture with
    id := id, registers := none, expectedEndStates := [], metadata := .default,
    traceMetadata := [] }

def setRegisters (s : Snapshot) (x : RegisterState) : Checked Snapshot :=
  if s.registersMatchArch x then .ok { s with registers := some x } else .error .abort

/-- No end state has the data of `x`, except when that is not asked. -/
def checkDuplicate (s : Snapshot) (x : EndState) : Checked Unit :=
  match s.expectedEndStates.findIdx? x.dataEquals with
  | some i => invalidArgument ("Is a dup of " ++ toString i ++ "-th existing EndState")
  | none => .ok ()

def canAddExpectedEndState (s : Snapshot) (x : EndState) (unmappedEndpointOk duplicateOk : Bool) :
    Checked Unit := do
  s.canEndAt unmappedEndpointOk x.endpoint
  s.canEndWith x
  if duplicateOk then .ok () else s.checkDuplicate x

def addExpectedEndState (s : Snapshot) (x : EndState) : Snapshot :=
  { s with expectedEndStates := s.expectedEndStates ++ [x] }

def addPlatformToExpectedEndState (s : Snapshot) (i : Nat) (platform : PlatformId) : Snapshot :=
  { s with expectedEndStates := s.expectedEndStates.modify i (·.addPlatform platform) }

def addPlatformsToExpectedEndState (s : Snapshot) (i : Nat) (x : EndState) : Snapshot :=
  { s with expectedEndStates := s.expectedEndStates.modify i fun e =>
    { e with platforms := fun p => e.platforms p || x.platforms p } }

/-- `set_expected_end_states`, with its REQUIRES: each of `xs` can be added in its turn. -/
def setExpectedEndStates (s : Snapshot) (xs : List EndState) : Checked Snapshot :=
  xs.foldlM (fun s x => do
    s.canAddExpectedEndState x false false
    return s.addExpectedEndState x) { s with expectedEndStates := [] }

/-- `remove_expected_end_state` of the `i`-th one. -/
def removeExpectedEndState (s : Snapshot) (i : Nat) : Snapshot :=
  { s with expectedEndStates := s.expectedEndStates.eraseIdx i }

def limitEndStatesToPlatform (s : Snapshot) (platform : PlatformId) : Snapshot :=
  { s with expectedEndStates := s.expectedEndStates.filter (·.hasPlatform platform) }

/-- `TryRemoveUndefinedEndStates`. -/
def tryRemoveUndefinedEndStates (s : Snapshot) : Snapshot :=
  if s.expectedEndStates.any fun x => x.isComplete .kNormalState = .ok () then
    { s with expectedEndStates :=
      s.expectedEndStates.filter fun x => x.isComplete .kUndefinedEndState ≠ .ok () }
  else s

/-- `can_set_memory_mappings`: rebuilding the snapshot with `xs` in place of its mappings. -/
def canSetMemoryMappings (s : Snapshot) (xs : List MemoryMapping) : Checked Unit := do
  let copy ← ofStatus (SnapshotMemory.addWhileOk SnapshotMemory.canAddMemoryMapping
    SnapshotMemory.addMemoryMapping (SnapshotMemory.new s.architecture) xs)
  let copy ← ofStatus (SnapshotMemory.addWhileOk (SnapshotMemory.canAddNegativeMemoryMapping · ·)
    SnapshotMemory.addNegativeMemoryMapping copy s.negativeMemoryMappings)
  let copy ← ofStatus (SnapshotMemory.addWhileOk SnapshotMemory.canAddMemoryBytes
    SnapshotMemory.addMemoryBytes copy s.memoryBytes)
  let copy := { Snapshot.new s.architecture s.id with toSnapshotMemory := copy }
  let copy ← (match s.registers with
    | some registers => do
      copy.canSetRegisters registers false
      copy.setRegisters registers
    | none => .ok copy)
  let _ ← copy.setExpectedEndStates s.expectedEndStates

/-- `NormalizeMemoryBytes`, for the initial bytes and for those of the end states. -/
def normalizeMemoryBytes (s : Snapshot) : Option Snapshot := do
  let memory ← s.toSnapshotMemory.normalizeMemoryBytes
  let states ← s.expectedEndStates.mapM fun e => do
    return { e with
      memoryBytes := ← SnapshotMemory.normalizeBytes s.mappedMemoryMap e.memoryBytes }
  return { s with toSnapshotMemory := memory, expectedEndStates := states }

def normalizeAll (s : Snapshot) : Option Snapshot := do
  let memory ← s.toSnapshotMemory.normalizeMemoryMappings
  normalizeMemoryBytes { s with toSnapshotMemory := memory }

/-- An end state whose replay depends on a mapping that must not be there. -/
def needsNegativeMapping (e : EndState) : Bool :=
  match e.endpoint with
  | .kSignal .kSigSegv cause _ _ =>
    cause == .kSegvCantRead || cause == .kSegvCantWrite || cause == .kSegvCantExec
  | _ => false

/-- What `IsComplete` checks of the `i`-th end state. -/
def isCompleteEndState (s : Snapshot) (state : State) (x : EndState × Nat) : Checked Unit :=
  plus ("In end-state " ++ toString x.2 ++ ": ") do
    x.1.isComplete state
    if state = .kMakingState then .ok () else s.canAddExpectedEndState x.1 false true

def isComplete (s : Snapshot) (state : State) : Checked Unit := do
  ensure (!s.memoryMappings.isEmpty) "No memory_mappings"
  let needs := s.expectedEndStates.any needsNegativeMapping
  let has := !s.negativeMemoryMappings.isEmpty
  ensure (!(needs && !has)) "Missing negative_memory_mappings"
  ensure (!(!needs && has)) "Unnecessary negative_memory_mappings"
  ensure (!s.memoryBytes.isEmpty) "No memory_bytes"
  ensure s.registers.isSome "No registers"
  ensure (!(s.expectedEndStates.isEmpty && state == .kNormalState)) "No expected_end_states"
  s.expectedEndStates.zipIdx.forM (s.isCompleteEndState state)

def isCompleteSomeState (s : Snapshot) : Checked Unit := do
  if ← isOk (s.isComplete .kNormalState) then .ok ()
  else if ← isOk (s.isComplete .kUndefinedEndState) then .ok ()
  else s.isComplete .kMakingState

end Snapshot

end Silifuzz
