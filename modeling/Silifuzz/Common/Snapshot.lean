import Silifuzz.Common.MemoryBytesSet
import Mathlib.Data.List.Sort

/-!
# The memory of a Snapshot

The mappings, negative mappings and memory bytes of a `Snapshot`, with the checks
and mutators of `common/snapshot.cc` that read or write them. The other parts of a
snapshot (id, registers, end states, metadata) do not appear in these functions.

`none` is a failed `CHECK` or `LOG_FATAL`, `.error` the returned `absl::Status`.
-/

namespace Silifuzz

inductive Architecture where
  | kX86_64
  | kAArch64
  deriving DecidableEq, Repr

abbrev ByteData := List (BitVec 8)

/-- `Snapshot::MemoryBytes`, with what `CanConstruct` requires. -/
structure MemoryBytes where
  startAddress : Address
  byteValues : ByteData
  nonempty : byteValues ≠ []
  bounded : startAddress + byteValues.length ≤ kMaxAddress
  deriving DecidableEq

def MemoryBytes.limitAddress (b : MemoryBytes) : Address := b.startAddress + b.byteValues.length

namespace MemoryBytes

theorem two_nonempty : ([1, 2] : ByteData) ≠ [] := by decide

theorem start_lt_limit (b : MemoryBytes) : b.startAddress < b.limitAddress :=
  Nat.lt_add_of_pos_right (List.length_pos_iff.mpr b.nonempty)

/-- The constructor of `MemoryBytes`, with what it requires. -/
def make (start : Address) (bytes : ByteData) : Option MemoryBytes :=
  if h : bytes ≠ [] ∧ start + bytes.length ≤ kMaxAddress then some ⟨start, bytes, h.1, h.2⟩
  else none

/-- `operator<`: by start, then by limit. -/
def less (x y : MemoryBytes) : Bool :=
  decide (x.startAddress < y.startAddress) ||
    (x.startAddress == y.startAddress && decide (x.limitAddress < y.limitAddress))

def appendBytes (b : MemoryBytes) (bytes : ByteData) : Option MemoryBytes :=
  make b.startAddress (b.byteValues ++ bytes)

def range (b : MemoryBytes) (start limit : Address) : Option MemoryBytes := do
  guard (b.startAddress ≤ start)
  guard (limit ≤ b.limitAddress)
  make start ((b.byteValues.drop (start - b.startAddress)).take (limit - start))

/-- The bytes have the address `k`. -/
def Covers (b : MemoryBytes) (k : Address) : Prop := b.startAddress ≤ k ∧ k < b.limitAddress

instance (b : MemoryBytes) (k : Address) : Decidable (b.Covers k) :=
  inferInstanceAs (Decidable (_ ∧ _))

/-- The byte at the address `k` of the bytes. -/
def byteAt (b : MemoryBytes) (k : Address) : BitVec 8 := b.byteValues.getD (k - b.startAddress) 0

end MemoryBytes

inductive SigNum where
  | kSigSegv
  | kSigTrap
  | kSigFPE
  | kSigIll
  | kSigBus
  deriving DecidableEq, Repr

inductive SigCause where
  | kGenericSigCause
  | kSegvCantExec
  | kSegvCantWrite
  | kSegvCantRead
  | kSegvOverflow
  | kSegvGeneralProtection
  deriving DecidableEq, Repr

inductive Endpoint where
  | kInstruction (instructionAddress : Address)
  | kSignal (sigNum : SigNum) (sigCause : SigCause) (sigAddress sigInstructionAddress : Address)
  deriving DecidableEq, Repr

/-- `Endpoint` has a cause exactly for a `kSigSegv`. -/
def Endpoint.Valid : Endpoint → Prop
  | .kInstruction _ => True
  | .kSignal sigNum sigCause _ _ => sigCause ≠ .kGenericSigCause ↔ sigNum = .kSigSegv

/-- The errors of the checks below; each is one `absl::InvalidArgumentError`. -/
inductive SnapshotError where
  | emptyPerms
  | isEmpty
  | notPageAligned (start limit : Address)
  | overlapsMappings
  | conflictsNegative
  | negativeNotPageAligned (start limit : Address)
  | overlapsNegative
  | conflictsMappings
  | bytesNotMapped
  | bytesOverlap
  | nonPositiveSize
  | tooLarge (start numBytes : Nat)
  deriving DecidableEq, Repr

/-- `HexStr`. -/
def hexStr (num : Nat) : String := "0x" ++ String.ofList (Nat.toDigits 16 num)

def SnapshotError.text : SnapshotError → String
  | emptyPerms => "Has empty perms"
  | isEmpty => "Is empty"
  | notPageAligned start limit =>
    "Is not page-aligned: " ++ hexStr start ++ ".." ++ hexStr limit
  | overlapsMappings => "Overlaps with existing memory_mappings"
  | conflictsNegative => "Conflicts with existing negative_memory_mappings"
  | negativeNotPageAligned start limit =>
    "Negative is not page-aligned: " ++ hexStr start ++ ".." ++ hexStr limit
  | overlapsNegative => "Overlaps with existing negative_memory_mappings"
  | conflictsMappings => "Conflicts with existing memory_mappings"
  | bytesNotMapped => "Not fully contained in existing memory_mappings"
  | bytesOverlap => "Overlaps with existing memory_bytes"
  | nonPositiveSize => "Non-positive num_bytes"
  | tooLarge start numBytes =>
    "start_address " ++ hexStr start ++ " + num_bytes " ++ hexStr numBytes ++ " is too large"

structure SnapshotMemory where
  architecture : Architecture
  mappedMemoryMap : MappedMemoryMap
  negativeMappedMemoryMap : MappedMemoryMap
  writtenMemorySet : MemoryBytesSet
  memoryMappings : List MemoryMapping
  negativeMemoryMappings : List MemoryMapping
  memoryBytes : List MemoryBytes

namespace SnapshotMemory

/-- A new snapshot. -/
def new (architecture : Architecture) : SnapshotMemory :=
  ⟨architecture, .empty, .empty, .empty, [], [], []⟩

/-- `page_size()` of the architecture's description. -/
def pageSize (s : SnapshotMemory) : Nat :=
  match s.architecture with
  | .kX86_64 => 4096
  | .kAArch64 => 4096

def canAddMemoryMapping (s : SnapshotMemory) (x : MemoryMapping) :
    Option (Except SnapshotError Unit) :=
  if x.perms.isEmpty then some (.error .emptyPerms)
  else if x.startAddress = x.limitAddress then some (.error .isEmpty)
  else if x.startAddress % s.pageSize ≠ 0 ∨ x.limitAddress % s.pageSize ≠ 0 then
    some (.error (.notPageAligned x.startAddress x.limitAddress))
  else do
    if ← s.mappedMemoryMap.overlaps x.startAddress x.limitAddress then
      return .error .overlapsMappings
    let negative ← s.negativeMappedMemoryMap.perms x.startAddress x.limitAddress .kOr
    if x.perms.hasSomeOf negative then return .error .conflictsNegative
    return .ok ()

def addMemoryMapping (s : SnapshotMemory) (x : MemoryMapping) : Option SnapshotMemory := do
  let m ← s.mappedMemoryMap.addNew x.startAddress x.limitAddress x.perms
  return { s with mappedMemoryMap := m, memoryMappings := s.memoryMappings ++ [x] }

def setMemoryMappingPerms (s : SnapshotMemory) (x : MemoryMapping) (index : Nat) :
    Option SnapshotMemory := do
  let m ← s.mappedMemoryMap.set x.startAddress x.limitAddress x.perms
  return { s with memoryMappings := s.memoryMappings.set index x, mappedMemoryMap := m }

def canAddNegativeMemoryMapping (s : SnapshotMemory) (x : MemoryMapping)
    (overlapOk : Bool := false) : Option (Except SnapshotError Unit) :=
  if x.perms.isEmpty then some (.error .emptyPerms)
  else if x.startAddress = x.limitAddress then some (.error .isEmpty)
  -- the very last page is mapped negatively without `kMaxAddress` itself
  else if x.startAddress % s.pageSize ≠ 0 ∨
      (x.limitAddress % s.pageSize ≠ 0 ∧ x.limitAddress ≠ kMaxAddress) then
    some (.error (.negativeNotPageAligned x.startAddress x.limitAddress))
  else do
    if !overlapOk then
      if ← s.negativeMappedMemoryMap.overlaps x.startAddress x.limitAddress then
        return .error .overlapsNegative
    let positive ← s.mappedMemoryMap.perms x.startAddress x.limitAddress .kOr
    if x.perms.hasSomeOf positive then return .error .conflictsMappings
    return .ok ()

def addNegativeMemoryMapping (s : SnapshotMemory) (x : MemoryMapping) :
    Option SnapshotMemory := do
  let m ← s.negativeMappedMemoryMap.addNew x.startAddress x.limitAddress x.perms
  return { s with
    negativeMappedMemoryMap := m, negativeMemoryMappings := s.negativeMemoryMappings ++ [x] }

/-- `SortedMemoryMappingList`. -/
def sortedMemoryMappingList (m : MappedMemoryMap) : Option (List MemoryMapping) :=
  m.rep.mapM fun i => MemoryMapping.makeRanged i.start i.limit i.value

def addNegativeMemoryMappingOverlapOk (s : SnapshotMemory) (x : MemoryMapping) :
    Option SnapshotMemory := do
  if ← s.negativeMappedMemoryMap.overlaps x.startAddress x.limitAddress then
    let m ← s.negativeMappedMemoryMap.add x.startAddress x.limitAddress x.perms
    return { s with
      negativeMappedMemoryMap := m, negativeMemoryMappings := ← sortedMemoryMappingList m }
  else
    s.addNegativeMemoryMapping x

def setNegativeMemoryMappings (s : SnapshotMemory) (xs : List MemoryMapping) :
    Option SnapshotMemory :=
  xs.foldlM addNegativeMemoryMapping
    { s with negativeMappedMemoryMap := .empty, negativeMemoryMappings := [] }

/-- The permissions whose absence an endpoint shows, `none` when it shows nothing. -/
def negativePerms : SigCause → Option (Option MemoryPerms)
  | .kSegvGeneralProtection | .kSegvOverflow => some none
  | .kSegvCantExec => some (some (.of .kExecutable))
  | .kSegvCantWrite => some (some (.of .kWritable))
  -- executable and writable memory is readable too
  | .kSegvCantRead =>
    some (some (((MemoryPerms.of .kReadable).plus (.of .kExecutable)).plus (.of .kWritable)))
  | .kGenericSigCause => none

/-- `AddNegativeMemoryMappingsFor` an end state with the given endpoint. -/
def addNegativeMemoryMappingsFor (s : SnapshotMemory) (endpoint : Endpoint) :
    Option (Except SnapshotError SnapshotMemory) :=
  match endpoint with
  | .kSignal .kSigSegv cause sigAddress _ => do
    match ← negativePerms cause with
    | none => return .ok s
    | some perms =>
      let isLastPage := sigAddress ≥ kMaxAddress - s.pageSize + 1
      let start := sigAddress / s.pageSize * s.pageSize
      let size := if isLastPage then s.pageSize - 1 else s.pageSize
      if size = 0 then return .error .nonPositiveSize
      if kMaxAddress - size < start then return .error (.tooLarge start size)
      let m ← MemoryMapping.makeSized start size perms
      match ← s.canAddNegativeMemoryMapping m true with
      | .error e => return .error e
      | .ok () => return .ok (← s.addNegativeMemoryMappingOverlapOk m)
  | _ => some (.ok s)

def canAddMemoryBytes (s : SnapshotMemory) (x : MemoryBytes) :
    Option (Except SnapshotError Unit) := do
  if !(← s.mappedMemoryMap.containsRange x.startAddress x.limitAddress) then
    return .error .bytesNotMapped
  if !(← s.writtenMemorySet.isDisjoint x.startAddress x.limitAddress) then
    return .error .bytesOverlap
  return .ok ()

def addMemoryBytes (s : SnapshotMemory) (x : MemoryBytes) : Option SnapshotMemory := do
  let w ← s.writtenMemorySet.add x.startAddress x.limitAddress
  return { s with writtenMemorySet := w, memoryBytes := s.memoryBytes ++ [x] }

/-- Adds the elements while the check is OK; the first error ends the loop. -/
def addWhileOk {α : Type} (can : SnapshotMemory → α → Option (Except SnapshotError Unit))
    (add : SnapshotMemory → α → Option SnapshotMemory) (s : SnapshotMemory) :
    List α → Option (Except SnapshotError SnapshotMemory)
  | [] => some (.ok s)
  | x :: xs => do
    match ← can s x with
    | .error e => return .error e
    | .ok () => addWhileOk can add (← add s x) xs

/-- `ReplaceMemoryBytes`. On an error the snapshot is left in an undefined state. -/
def replaceMemoryBytes (s : SnapshotMemory) (xs : List MemoryBytes) :
    Option (Except SnapshotError SnapshotMemory) :=
  addWhileOk canAddMemoryBytes addMemoryBytes
    { s with writtenMemorySet := .empty, memoryBytes := [] } xs

/-- The part of `can_set_memory_mappings` that concerns memory: rebuilding the
snapshot with `xs` in place of its mappings. -/
def canSetMemoryMappings (s : SnapshotMemory) (xs : List MemoryMapping) :
    Option (Except SnapshotError Unit) := do
  match ← addWhileOk canAddMemoryMapping addMemoryMapping (new s.architecture) xs with
  | .error e => return .error e
  | .ok copy =>
    match ← addWhileOk (canAddNegativeMemoryMapping · ·) addNegativeMemoryMapping copy
        s.negativeMemoryMappings with
    | .error e => return .error e
    | .ok copy =>
      match ← addWhileOk canAddMemoryBytes addMemoryBytes copy s.memoryBytes with
      | .error e => return .error e
      | .ok _ => return .ok ()

def setMemoryMappings (s : SnapshotMemory) (xs : List MemoryMapping) : Option SnapshotMemory := do
  let m ← xs.foldlM (fun m x => m.addNew x.startAddress x.limitAddress x.perms)
    MappedMemoryMap.empty
  return { s with mappedMemoryMap := m, memoryMappings := xs }

def normalizeMemoryMappings (s : SnapshotMemory) : Option SnapshotMemory := do
  return { s with
    memoryMappings := ← sortedMemoryMappingList s.mappedMemoryMap
    negativeMemoryMappings := ← sortedMemoryMappingList s.negativeMappedMemoryMap }

/-- The inner loop of `NormalizeMemoryBytes` from `start` on: the chunks of `b`, each
with the permissions of the mapping that holds it. A chunk has a byte at least, so
the number of bytes bounds the number of turns. -/
def splitChunks (memoryMap : MappedMemoryMap) (b : MemoryBytes) :
    Nat → Address → Option (List (MemoryBytes × MemoryPerms))
  | 0, start => if start < b.limitAddress then none else some []
  | fuel + 1, start =>
    if start < b.limitAddress then do
      let mapping ← memoryMap.mappingAt start
      let limit := min b.limitAddress mapping.limitAddress
      let chunk ← b.range start limit
      return (chunk, mapping.perms) :: (← splitChunks memoryMap b fuel limit)
    else some []

/-- `*memory_bytes` and `perms`, the permissions of its last element. -/
structure Normalized where
  memoryBytes : List MemoryBytes
  perms : MemoryPerms

/-- Appends a chunk to the last element when it continues it with equal permissions. -/
def addChunk (n : Normalized) (chunk : MemoryBytes × MemoryPerms) : Option Normalized :=
  match n.memoryBytes.getLast? with
  | some back =>
    if chunk.1.startAddress = back.limitAddress ∧ chunk.2 = n.perms then do
      let back ← back.appendBytes chunk.1.byteValues
      return { n with memoryBytes := n.memoryBytes.dropLast ++ [back] }
    else some ⟨n.memoryBytes ++ [chunk.1], chunk.2⟩
  | none => some ⟨n.memoryBytes ++ [chunk.1], chunk.2⟩

/-- The static `NormalizeMemoryBytes`. -/
def normalizeBytes (memoryMap : MappedMemoryMap) (memoryBytes : List MemoryBytes) :
    Option (List MemoryBytes) := do
  let sorted := memoryBytes.insertionSort fun x y => y.less x = false
  let chunks ← sorted.mapM fun b => splitChunks memoryMap b b.byteValues.length b.startAddress
  let n ← chunks.flatten.foldlM addChunk ⟨[], .none⟩
  return n.memoryBytes

def normalizeMemoryBytes (s : SnapshotMemory) : Option SnapshotMemory := do
  return { s with memoryBytes := ← normalizeBytes s.mappedMemoryMap s.memoryBytes }

/-- One call of a mutator with its REQUIRES met. -/
inductive Step : SnapshotMemory → SnapshotMemory → Prop where
  | addMemoryMapping {s s'} (x) : s.canAddMemoryMapping x = some (.ok ()) →
      s.addMemoryMapping x = some s' → Step s s'
  | setMemoryMappingPerms {s s'} (x m : MemoryMapping) (index) : x.perms.isEmpty = false →
      s.memoryMappings[index]? = some m → m.startAddress = x.startAddress →
      m.limitAddress = x.limitAddress → s.setMemoryMappingPerms x index = some s' → Step s s'
  | setMemoryMappings {s s'} (xs) : s.canSetMemoryMappings xs = some (.ok ()) →
      s.setMemoryMappings xs = some s' → Step s s'
  | addNegativeMemoryMapping {s s'} (x) : s.canAddNegativeMemoryMapping x = some (.ok ()) →
      s.addNegativeMemoryMapping x = some s' → Step s s'
  | setNegativeMemoryMappings {s s'} (xs) :
      addWhileOk (canAddNegativeMemoryMapping · ·) SnapshotMemory.addNegativeMemoryMapping
        { s with negativeMappedMemoryMap := .empty, negativeMemoryMappings := [] } xs =
          some (.ok s') →
      s.setNegativeMemoryMappings xs = some s' → Step s s'
  | addNegativeMemoryMappingsFor {s s'} (endpoint) :
      s.addNegativeMemoryMappingsFor endpoint = some (.ok s') → Step s s'
  | addMemoryBytes {s s'} (x) : s.canAddMemoryBytes x = some (.ok ()) →
      s.addMemoryBytes x = some s' → Step s s'
  | replaceMemoryBytes {s s'} (xs) : s.replaceMemoryBytes xs = some (.ok s') → Step s s'
  | normalizeMemoryMappings {s s'} : s.normalizeMemoryMappings = some s' → Step s s'
  | normalizeMemoryBytes {s s'} : s.normalizeMemoryBytes = some s' → Step s s'

inductive Reachable : SnapshotMemory → Prop where
  | new (architecture) : Reachable (.new architecture)
  | next {s s'} : Reachable s → Step s s' → Reachable s'

end SnapshotMemory

end Silifuzz
