import Silifuzz.Common.Snapshot.Full

/-!
# Snapshots as protos

The messages of `proto/snapshot.proto` and the conversions of
`common/snapshot_proto.cc`. A field that may be missing is an `Option`, with the
default of the message where the code reads it anyway. The integers of an enum that a
message does not declare are not kept in its field.
-/

namespace Silifuzz

namespace Proto

/-- An enum with the values of `α`, as the `static_assert`s say, and an undefined one. -/
inductive Enum (α : Type) where
  | undefined
  | known (value : α)
  deriving DecidableEq, Repr

structure MemoryMapping where
  startAddress : Option Nat
  numBytes : Option Nat
  permissions : Option (BitVec 32)

structure MemoryBytes where
  startAddress : Option Nat
  byteValues : Option ByteData

structure RegisterState where
  gregs : Option ByteData
  fpregs : Option ByteData

structure Signal where
  sigNum : Option (Enum SigNum)
  sigCause : Option (Enum SigCause)
  sigAddress : Option Nat
  sigInstructionAddress : Option Nat

/-- The `oneof` of an `Endpoint`. -/
inductive Event where
  | instructionAddress (instructionAddress : Nat)
  | signal (signal : Signal)

structure Endpoint where
  event : Option Event

structure EndState where
  endpoint : Option Endpoint
  registers : Option RegisterState
  memoryBytes : List MemoryBytes
  platforms : Option (BitVec 64)
  registerChecksum : Option ByteData

structure SnapshotTraceData where
  platforms : Option (BitVec 64)
  numInstructions : Option Nat
  humanReadableDisassembly : Option ByteData

structure SnapshotMetadata where
  origin : Option Origin
  originString : Option ByteData

structure Snapshot where
  id : Option Id
  architecture : Option (Enum Architecture)
  metadata : Option SnapshotMetadata
  memoryMappings : List MemoryMapping
  negativeMemoryMappings : List MemoryMapping
  memoryBytes : List MemoryBytes
  registers : Option RegisterState
  expectedEndStates : List EndState
  traceData : List SnapshotTraceData

end Proto

def SigNum.toInt : SigNum → Nat
  | kSigSegv => 1
  | kSigTrap => 2
  | kSigFPE => 3
  | kSigIll => 4
  | kSigBus => 5

def SigCause.toInt : SigCause → Nat
  | kGenericSigCause => 1
  | kSegvCantExec => 2
  | kSegvCantWrite => 3
  | kSegvCantRead => 4
  | kSegvOverflow => 5
  | kSegvGeneralProtection => 6

namespace SnapshotProto

open Checked

/-- `PROTO_MUST_HAVE_FIELD`. -/
def mustHaveField {α : Type} (fieldName : String) : Option α → Checked α :=
  orStatus ("Missing field: " ++ fieldName)

/-! ## FromProto -/

def memoryMappingFromProto (proto : Proto.MemoryMapping) : Checked MemoryMapping := do
  let startAddress ← mustHaveField "start_address" proto.startAddress
  let numBytes ← mustHaveField "num_bytes" proto.numBytes
  let permissions ← mustHaveField "permissions" proto.permissions
  MemoryMapping.checkSized startAddress numBytes
  ensure (permissions &&& ~~~7 == 0) ("Unknown permissions bits: " ++ hex permissions.toNat)
  orAbort (MemoryMapping.makeSized startAddress numBytes ⟨permissions⟩)

def memoryBytesFromProto (proto : Proto.MemoryBytes) : Checked MemoryBytes := do
  let startAddress ← mustHaveField "start_address" proto.startAddress
  let byteValues ← mustHaveField "byte_values" proto.byteValues
  ensure (!byteValues.isEmpty) "Empty byte_values"
  ensure (startAddress + byteValues.length ≤ kMaxAddress)
    "start_address + byte_values.size is too large"
  orAbort (MemoryBytes.make startAddress byteValues)

def registerStateFromProto (proto : Proto.RegisterState) : Checked RegisterState := do
  let gregs ← mustHaveField "gregs" proto.gregs
  let fpregs ← mustHaveField "fpregs" proto.fpregs
  return ⟨gregs, fpregs⟩

def signalFromProto (p : Proto.Signal) : Checked Endpoint := do
  let sigNum ← mustHaveField "sig_num" p.sigNum
  let sigCause ← mustHaveField "sig_cause" p.sigCause
  let sigAddress ← mustHaveField "sig_address" p.sigAddress
  let sigInstructionAddress ← mustHaveField "sig_instruction_address" p.sigInstructionAddress
  match sigNum, sigCause with
  | .undefined, _ => invalidArgument "Undefined sig_num"
  | .known _, .undefined => invalidArgument "Undefined sig_cause"
  | .known sigNum, .known sigCause =>
    ensure ((sigCause != .kGenericSigCause) == (sigNum == .kSigSegv))
      ("sig_cause " ++ toString sigCause.toInt ++ " is incompatible with sig_num " ++
        toString sigNum.toInt)
    return .kSignal sigNum sigCause sigAddress sigInstructionAddress

def endpointFromProto (proto : Proto.Endpoint) : Checked Endpoint :=
  match proto.event with
  | some (.instructionAddress instructionAddress) => .ok (.kInstruction instructionAddress)
  | some (.signal p) => signalFromProto p
  | none => invalidArgument "no known Endpoint case"

def bitmaskToPlatforms (bitmask : BitVec 64) : List PlatformId :=
  (List.finRange _).filter fun p => bitmask.getLsbD p.val

/-- One turn of the loop over the memory bytes of an end state. -/
def addEndStateBytes (endState : EndState) (p : Proto.MemoryBytes) : Checked EndState := do
  let b ← plus "Bad MemoryBytes: " (memoryBytesFromProto p)
  plus "Can't add MemoryBytes: " (endState.canAddMemoryBytes b)
  endState.addMemoryBytes b

/-- `FromProto` of an end state, up to its platforms. -/
def endStateDataFromProto (proto : Proto.EndState) : Checked EndState := do
  let endpoint ← mustHaveField "endpoint" proto.endpoint
  let registers ← mustHaveField "registers" proto.registers
  let e ← plus "Bad Endpoint: " (endpointFromProto endpoint)
  let r ← plus "Bad RegisterState: " (registerStateFromProto registers)
  proto.memoryBytes.foldlM addEndStateBytes (EndState.new e r)

def endStateFromProto (proto : Proto.EndState) : Checked EndState := do
  let endState ← endStateDataFromProto proto
  let endState ← (match proto.platforms with
    | some bitmask => endState.setPlatforms (bitmaskToPlatforms bitmask)
    | none => .ok endState)
  return match proto.registerChecksum with
    | some value => endState.setRegisterChecksum value
    | none => endState

def metadataFromProto (proto : Proto.SnapshotMetadata) : Metadata :=
  ⟨proto.origin.getD .kUndefined, proto.originString.getD []⟩

def traceDataFromProto (debug : Bool) (proto : Proto.SnapshotTraceData) : Checked TraceData :=
  let t := TraceData.new (proto.numInstructions.getD 0) (proto.humanReadableDisassembly.getD [])
  match proto.platforms with
  | some bitmask => (bitmaskToPlatforms bitmask).foldlM (TraceData.addPlatform debug) t
  | none => .ok t

/-- One turn of the loop over the mappings. -/
def addMappingFromProto (s : SnapshotMemory) (p : Proto.MemoryMapping) : Checked SnapshotMemory := do
  let m ← plus "Bad MemoryMapping: " (memoryMappingFromProto p)
  plus "Can't add MemoryMapping: " (ofStatus (s.canAddMemoryMapping m))
  orAbort (s.addMemoryMapping m)

def addNegativeFromProto (s : SnapshotMemory) (p : Proto.MemoryMapping) :
    Checked SnapshotMemory := do
  let m ← plus "Bad negative MemoryMapping: " (memoryMappingFromProto p)
  plus "Can't add negative MemoryMapping: " (ofStatus (s.canAddNegativeMemoryMapping m))
  orAbort (s.addNegativeMemoryMapping m)

def addBytesFromProto (s : SnapshotMemory) (p : Proto.MemoryBytes) : Checked SnapshotMemory := do
  let b ← plus "Bad MemoryBytes: " (memoryBytesFromProto p)
  plus "Can't add MemoryBytes: " (ofStatus (s.canAddMemoryBytes b))
  orAbort (s.addMemoryBytes b)

/-- The loops over the mappings, the negative mappings and the bytes. -/
def memoryFromProto (architecture : Architecture) (proto : Proto.Snapshot) :
    Checked SnapshotMemory := do
  let s ← proto.memoryMappings.foldlM addMappingFromProto (SnapshotMemory.new architecture)
  let s ← proto.negativeMemoryMappings.foldlM addNegativeFromProto s
  proto.memoryBytes.foldlM addBytesFromProto s

/-- `FromProto` of a snapshot, up to its end states. -/
def beforeEndStatesFromProto (proto : Proto.Snapshot) : Checked Snapshot := do
  let architecture ← mustHaveField "architecture" proto.architecture
  let registers ← mustHaveField "registers" proto.registers
  let id := proto.id.getD unsetId
  isValidId id
  match architecture with
  | .undefined => invalidArgument "Undefined architecture"
  | .known architecture =>
    let memory ← memoryFromProto architecture proto
    let snap := { Snapshot.new architecture id with toSnapshotMemory := memory }
    let r ← plus "Bad RegisterState: " (registerStateFromProto registers)
    plus "Can't set RegisterState: " (snap.canSetRegisters r false)
    snap.setRegisters r

/-- One turn of the loop over the end states. -/
def addEndStateFromProto (snap : Snapshot) (p : Proto.EndState) : Checked Snapshot := do
  let x ← plus "Bad EndState: " (endStateFromProto p)
  plus "Can't add EndState: " (snap.canAddExpectedEndState x false false)
  return snap.addExpectedEndState x

/-- `FromProto`. The `DCHECK`s of a debug build repeat checks just made, but for those of
the platforms of trace data. -/
def fromProto (debug : Bool) (proto : Proto.Snapshot) : Checked Snapshot := do
  let snap ← beforeEndStatesFromProto proto
  let snap ← proto.expectedEndStates.foldlM addEndStateFromProto snap
  let traceMetadata ← proto.traceData.mapM fun m => plus "Bad TraceData: " (traceDataFromProto debug m)
  let snap := { snap with
    metadata := metadataFromProto (proto.metadata.getD ⟨none, none⟩), traceMetadata := traceMetadata }
  plus "Snapshot is incomplete: " snap.isCompleteSomeState
  return snap

/-! ## ToProto -/

def memoryMappingToProto (snap : MemoryMapping) : Proto.MemoryMapping :=
  ⟨some snap.startAddress, some snap.numBytes, some snap.perms.permissionBits⟩

def memoryBytesToProto (snap : MemoryBytes) : Proto.MemoryBytes :=
  ⟨some snap.startAddress, some snap.byteValues⟩

def registerStateToProto (snap : RegisterState) : Proto.RegisterState :=
  ⟨some snap.gregs, some snap.fpregs⟩

def endpointToProto : Endpoint → Proto.Endpoint
  | .kInstruction instructionAddress => ⟨some (.instructionAddress instructionAddress)⟩
  | .kSignal sigNum sigCause sigAddress sigInstructionAddress => ⟨some (.signal
    ⟨some (.known sigNum), some (.known sigCause), some sigAddress, some sigInstructionAddress⟩)⟩

def platformsToBitmask (platforms : List PlatformId) : BitVec 64 :=
  platforms.foldl (fun result p => result ||| ((1 : BitVec 64) <<< p.val)) 0

def endStateToProto (snap : EndState) : Proto.EndState where
  endpoint := some (endpointToProto snap.endpoint)
  registers := some (registerStateToProto snap.registers)
  memoryBytes := snap.memoryBytes.map memoryBytesToProto
  platforms := if snap.emptyPlatforms then none else some (platformsToBitmask snap.platformList)
  registerChecksum := some snap.registerChecksum

def metadataToProto (metadata : Metadata) : Proto.SnapshotMetadata :=
  ⟨some metadata.origin,
    if metadata.origin = .kUseString then some metadata.originString else none⟩

def traceDataToProto (metadata : TraceData) : Proto.SnapshotTraceData :=
  ⟨some (platformsToBitmask metadata.platforms), some metadata.numInstructions,
    some metadata.humanReadableDisassembly⟩

def architectureToProto (architecture : Architecture) : Proto.Enum Architecture :=
  .known architecture

/-- `ToProto`, which requires registers. -/
def toProto (snap : Snapshot) : Option Proto.Snapshot := do
  let registers ← snap.registers
  return {
    id := some snap.id
    architecture := some (architectureToProto snap.architecture)
    metadata := some (metadataToProto snap.metadata)
    memoryMappings := snap.memoryMappings.map memoryMappingToProto
    negativeMemoryMappings := snap.negativeMemoryMappings.map memoryMappingToProto
    memoryBytes := snap.memoryBytes.map memoryBytesToProto
    registers := some (registerStateToProto registers)
    expectedEndStates := snap.expectedEndStates.map endStateToProto
    traceData := snap.traceMetadata.map traceDataToProto }

end SnapshotProto

end Silifuzz
