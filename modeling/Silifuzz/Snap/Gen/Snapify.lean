import Silifuzz.Common.MemoryState.Filled
import Silifuzz.Common.RawInsnsUtil
import Silifuzz.Snap.Gen.RepeatingByteRuns
import Silifuzz.Snap.Gen.ReservedMemoryMappings

/-!
# Snapify

`snap/gen/snapify.cc`, which brings a snapshot into the form of a snap: one end state, the
exit sequence at its endpoint, and memory bytes for all that is mapped. The instructions of the
exit sequence (`snap/x86_64/exit_sequence.cc` and `snap/aarch64/exit_sequence.cc`) call the code at
`kSnapExitAddress`.
-/

namespace Silifuzz

namespace ExitSequence

open LittleEndian

/-- `call *(%rip)`, to be followed by the address. -/
def kCallnsnBytes : ByteData := [0xff, 0x15, 0x00, 0x00, 0x00, 0x00]

/-- `stp x0, x30, [sp, #-16]`, `mov x0, #0xabcd0000` and `blr x0`. -/
def kExitSequence : List Nat := [0xa93f7be0, 0xd2b579a0, 0xd63f0000]

def getSnapExitSequenceSize : Architecture → Nat
  | .kX86_64 => kCallnsnBytes.length + 8
  | .kAArch64 => kExitSequence.length * 4

/-- `WriteSnapExitSequence`: what it leaves in the buffer. -/
def writeSnapExitSequence : Architecture → ByteData
  | .kX86_64 => kCallnsnBytes ++ encode 8 RawInsns.kSnapExitAddress
  | .kAArch64 => encodeAll 4 kExitSequence

@[simp] theorem length_writeSnapExitSequence (arch : Architecture) :
    (writeSnapExitSequence arch).length = getSnapExitSequenceSize arch := by
  cases arch with
  | kX86_64 => simp [writeSnapExitSequence, getSnapExitSequenceSize]
  | kAArch64 => simp [writeSnapExitSequence, getSnapExitSequenceSize]

theorem getSnapExitSequenceSize_pos (arch : Architecture) : 0 < getSnapExitSequenceSize arch := by
  cases arch <;> decide

end ExitSequence

open Checked RawInsns ExitSequence RepeatingByteRuns ReservedMemoryMappings

/-- `EnumNameMap<PlatformId>` -/
def platformNames : List String :=
  ["UNDEFINED-PLATFORM-ID", "intel-skylake", "intel-haswell", "intel-broadwell",
    "intel-ivybridge", "intel-cascadelake", "amd-rome", "intel-icelake", "amd-milan",
    "intel-sapphirerapids", "amd-genoa", "intel-coffeelake", "intel-alderlake",
    "arm-neoverse-n1", "ampere-one", "intel-emeraldrapids", "reserved-16", "amd-ryzen-v3000"] ++
  (List.range 23).map (fun i => "reserved-" ++ toString (18 + i)) ++
  ["intel-graniterapids", "amd-siena", "arm-neoverse-v2", "amd-turin", "arm-neoverse-n3",
    "arm-neoverse-n2", "amd-venice", "arm-kunpeng920", "ANY-PLATFORM", "NON-EXISTENT-PLATFORM"]

/-- `EnumStr` -/
def PlatformId.enumStr (platform : PlatformId) : String :=
  platformNames.getD platform.val "NO-ENUM-NAME-DEFINED"

structure SnapifyOptions where
  allowUndefinedEndState : Bool := false
  platformId : PlatformId := .kAny
  compressRepeatingBytes : Bool := true
  supportDirectMmap : Bool := false

/-- `ExtractRsp`; none is a failed `CHECK`. -/
def SnapshotMemory.extractRsp (s : SnapshotMemory) (x : RegisterState) : Option Address :=
  if x.gregs.isEmpty then some 0
  else (Serialize.deserializeGRegs s.architecture x.gregs).map (Serialize.stackPointer s.architecture)

/-- `MemoryState::SetMemoryBytes` of a list. -/
def MemoryState.setMemoryBytesList (s : MemoryState) (bytes : List MemoryBytes) :
    Option MemoryState := bytes.foldlM setMemoryBytes s

/-- `Snapshot::ReplaceMemoryBytes` -/
def Snapshot.replaceMemoryBytes (s : Snapshot) (xs : List MemoryBytes) : Checked Snapshot := do
  let memory ← ofStatus (s.toSnapshotMemory.replaceMemoryBytes xs)
  return { s with toSnapshotMemory := memory }

namespace Snapify

/-- The end state that goes with the options. The last error is a `NotFoundError`. -/
def pickEndState (snapshot : Snapshot) (options : SnapifyOptions) : Checked EndState :=
  if options.allowUndefinedEndState then
    match snapshot.expectedEndStates with
    | [es] => do
      snapshot.isCompleteSomeState
      return es
    | states => invalidArgument ("want exactly 1 undefined expected endstate, found " ++
        toString states.length)
  else
    match snapshot.expectedEndStates.find? fun es =>
      es.hasPlatform options.platformId || options.platformId == .kAny with
    | some es => do
      es.isComplete .kNormalState
      return es
    | none => invalidArgument ("no expected end state for platform " ++ options.platformId.enumStr)

abbrev CompressionQuery := MemoryState → MemoryBytes → Bool

def shouldAlwaysCompress : CompressionQuery := fun _ _ => true

def shouldCompressNonExecutable : CompressionQuery := fun memoryState bytes =>
  !(memoryState.mappedMemoryMap.permsAt bytes.startAddress).has .kExecutable

def shouldNeverCompress : CompressionQuery := fun _ _ => false

def snapifyMemoryByteList (memoryState : MemoryState) (shouldCompress : CompressionQuery) :
    Checked (List MemoryBytes) := do
  let memoryBytesList ← orAbort (memoryState.memoryBytesList memoryState.writtenMemorySet)
  let memoryBytesList ←
    orAbort (SnapshotMemory.normalizeBytes memoryState.mappedMemoryMap memoryBytesList)
  let result ← memoryBytesList.mapM fun memoryBytes =>
    if shouldCompress memoryState memoryBytes then getRepeatingByteRuns memoryBytes
    else .ok [memoryBytes]
  return result.flatten

def shouldCompressInitial (opts : SnapifyOptions) : CompressionQuery :=
  if opts.compressRepeatingBytes then
    if opts.supportDirectMmap then shouldCompressNonExecutable else shouldAlwaysCompress
  else shouldNeverCompress

def shouldCompressEndState (opts : SnapifyOptions) : CompressionQuery :=
  if opts.compressRepeatingBytes then shouldAlwaysCompress else shouldNeverCompress

/-- Keeps just the writable ranges of `mappedMemoryMap`. -/
def keepWritable (mappedMemoryMap : MappedMemoryMap) (memoryState : MemoryState) :
    Option MemoryState :=
  mappedMemoryMap.rep.foldlM (fun s i =>
    if i.value.has .kWritable then some s else s.removeMemoryMapping i.start i.limit) memoryState

/-- The end state with all bytes of the writable memory, where it had those that changed. -/
def snapifyEndState (debug : Bool) (snapshot : Snapshot) (opts : SnapifyOptions)
    (endState : EndState) : Checked EndState := do
  if ← isOk (endState.isComplete .kNormalState) then
    let memoryState ←
      orAbort (MemoryState.makeInitial snapshot.toSnapshotMemory .kZeroMappedBytes)
    let memoryState ← orAbort (memoryState.setMemoryBytesList endState.memoryBytes)
    let memoryState ← orAbort (keepWritable snapshot.mappedMemoryMap memoryState)
    let memoryBytesList ← snapifyMemoryByteList memoryState (shouldCompressEndState opts)
    endState.replaceMemoryBytes memoryBytesList
  else if debug && !opts.allowUndefinedEndState then .error .abort
  else return endState

def snapifyMemoryBytes (debug : Bool) (snapshot : Snapshot) (opts : SnapifyOptions) :
    Checked Snapshot := do
  let memoryState ← orAbort (MemoryState.makeInitial snapshot.toSnapshotMemory .kZeroMappedBytes)
  let memoryBytesList ← snapifyMemoryByteList memoryState (shouldCompressInitial opts)
  let snapshot ← snapshot.replaceMemoryBytes memoryBytesList
  snapshot.expectedEndStates.foldlM (fun snapshot endState => do
    let endState ← snapifyEndState debug snapshot opts endState
    snapshot.canAddExpectedEndState endState false false
    return snapshot.addExpectedEndState endState) { snapshot with expectedEndStates := [] }

def mergeExitSequence (snapshot : Snapshot) (address : Address) : Checked Snapshot := do
  MemoryBytes.canConstruct address
    (List.replicate (getSnapExitSequenceSize snapshot.architecture) 0)
  let snapExitMemoryBytes ←
    orAbort (MemoryBytes.make address (writeSnapExitSequence snapshot.architecture))
  let room ← orAbort (snapshot.mappedMemoryMap.containsRange snapExitMemoryBytes.startAddress
    snapExitMemoryBytes.limitAddress)
  ensure room "InsertExitSequence(): no room for the exit sequence"
  let memoryState ← orAbort (MemoryState.makeInitial snapshot.toSnapshotMemory .kZeroMappedBytes)
  let memoryState ← orAbort (memoryState.setMemoryBytes snapExitMemoryBytes)
  let memoryBytesList ← orAbort (memoryState.memoryBytesList memoryState.writtenMemorySet)
  snapshot.replaceMemoryBytes memoryBytesList

/-- The eight bytes below the stack pointer are mapped, for the return address. -/
def hasStack (snapshot : Snapshot) (endState : EndState) : Checked Unit := do
  let endingRsp ← orAbort (snapshot.extractRsp endState.registers)
  let mapped ← if endingRsp < 8 then .ok false
    else orAbort (snapshot.mappedMemoryMap.containsRange (endingRsp - 8) endingRsp)
  ensure mapped "need at least 8 bytes on stack"

/-- `CanSnapify` in code that is compiled for `host`. -/
def canSnapify (host : Architecture) (snapshot : Snapshot) (opts : SnapifyOptions) :
    Checked Unit := do
  let endState ← pickEndState snapshot opts
  match endState.endpoint with
  | .kSignal .. => invalidArgument "endpoint isn't kInstruction"
  | .kInstruction endingRip =>
    let overlap ← orAbort (overlapReservedMemoryMappings host snapshot.memoryMappings)
    ensure (!overlap) "memory mappings overlap reserved memory mappings"
    -- the sum is one of 64 bits
    let exitSequenceSize := getSnapExitSequenceSize snapshot.architecture
    let room ← orAbort (snapshot.mappedMemoryMap.containsRange endingRip
      ((endingRip + exitSequenceSize) % 2 ^ 64))
    ensure room "CanSnapify: no room for the exit sequence"
    -- the registers of an undefined end state are not known
    let isUndefined ← isOk (endState.isComplete .kUndefinedEndState)
    if opts.allowUndefinedEndState && isUndefined then .ok ()
    else hasStack snapshot endState

/-- `Snapify`. A debug build checks the end state once more when it replaces the others. -/
def snapify (debug : Bool) (host : Architecture) (snapshot : Snapshot) (opts : SnapifyOptions) :
    Checked Snapshot := do
  canSnapify host snapshot opts
  let endState ← pickEndState snapshot opts
  let memory ← orAbort snapshot.toSnapshotMemory.normalizeMemoryMappings
  let snapified := { snapshot with toSnapshotMemory := memory, expectedEndStates := [] }
  let snapified ← snapified.checkedAddExpectedEndState debug endState
  let snapified ← mergeExitSequence snapified endState.endpoint.instructionAddress
  snapifyMemoryBytes debug snapified opts

end Snapify

end Silifuzz
