import Silifuzz.Common.Snapshot

/-!
# MemoryState

The memory of a process that plays snapshots (`common/memory_state.cc`): what is
mapped, which bytes are known and their values; and the commands that take one
state of the mappings to another. The mapping commands are computed from ranges
of a `MappedMemoryMap`, in the order in which the source iterates over it.
-/

namespace Silifuzz

open Segments

/-- `MemoryBytesMethods`. An empty value stands for a removal. The class has no
`MakeDifference`, and nothing asks for one. -/
def memoryBytesMethods : Methods Address ByteData where
  slice start _ v s l := if v.isEmpty then v else (v.drop (s - start)).take (l - s)
  addTo dest v := ⟨v, dest ≠ v, false⟩
  removeFrom dest _ := ⟨dest, true, true⟩
  canMerge _ _ := true
  merge dest v := dest ++ v
  makeIntersection v₁ _ := some v₁
  makeDifference v₁ _ := some v₁
  usage i := 48 + i.value.length

structure MemoryState where
  mappedMemoryMap : MappedMemoryMap
  writtenMemorySet : MemoryBytesSet
  writtenMemoryBytes : RangeMap Address ByteData

inductive MappedZeroing where
  | kZeroMappedBytes
  | kIgnoreMappedBytes
  deriving DecidableEq, Repr

inductive Action where
  | kMap
  | kProtect
  | kUnmap
  deriving DecidableEq, Repr

structure MemoryMappingCmd where
  mapping : MemoryMapping
  action : Action
  deriving DecidableEq

inductive ExactnessMode where
  | kUnmapUnused
  | kProtectUnused
  deriving DecidableEq, Repr

namespace MemoryState

def empty : MemoryState := ⟨.empty, .empty, []⟩

def addNewMemoryMapping (s : MemoryState) (m : MemoryMapping) : Option MemoryState := do
  let perms := m.perms.plus (.of .kMapped)
  return { s with
    mappedMemoryMap := ← s.mappedMemoryMap.addNew m.startAddress m.limitAddress perms }

def setMemoryMappingEmptyPermsOk (s : MemoryState) (m : MemoryMapping) : Option MemoryState := do
  let perms := m.perms.plus (.of .kMapped)
  return { s with
    mappedMemoryMap := ← s.mappedMemoryMap.set m.startAddress m.limitAddress perms }

def setMemoryMapping (s : MemoryState) (m : MemoryMapping) : Option MemoryState :=
  s.setMemoryMappingEmptyPermsOk m

/-- `written_memory_bytes_.Add` or `.Remove`. -/
def changeBytes (s : MemoryState) (start limit : Address) (bytes : ByteData)
    (mode : ChangeMode) : Option (RangeMap Address ByteData) :=
  (RangeMap.change memoryBytesMethods s.writtenMemoryBytes start limit bytes mode true).map
    Changed.map

def removeMemoryMapping (s : MemoryState) (start limit : Address) : Option MemoryState := do
  return { mappedMemoryMap := ← s.mappedMemoryMap.remove start limit
           writtenMemorySet := ← s.writtenMemorySet.remove start limit
           writtenMemoryBytes := ← s.changeBytes start limit [] .remove }

def removeMemoryMappingsNotIn (s : MemoryState) (snapshot : SnapshotMemory) :
    Option MemoryState := do
  let extra ← s.mappedMemoryMap.removeRangesOf snapshot.mappedMemoryMap
  extra.rep.foldlM (fun s i => removeMemoryMapping s i.start i.limit) s

/-- `mapped_memory_map_.Remove`. -/
def removePerms (s : MemoryState) (start limit : Address) (perms : MemoryPerms) :
    Option MemoryState := do
  return { s with mappedMemoryMap := ← s.mappedMemoryMap.remove start limit perms }

def clearMemoryMappingsPermsNotIn (s : MemoryState) (snapshot : SnapshotMemory) :
    Option MemoryState := do
  let extra ← s.mappedMemoryMap.removeRangesOf snapshot.mappedMemoryMap
  extra.rep.foldlM (fun s i => removePerms s i.start i.limit .all) s

def setMemoryBytes (s : MemoryState) (bytes : MemoryBytes) : Option MemoryState := do
  return { s with
    writtenMemorySet := ← s.writtenMemorySet.add bytes.startAddress bytes.limitAddress
    writtenMemoryBytes :=
      ← s.changeBytes bytes.startAddress bytes.limitAddress bytes.byteValues .add }

def forgetMemoryBytes (s : MemoryState) (start limit : Address) : Option MemoryState := do
  return { s with writtenMemoryBytes := ← s.changeBytes start limit [] .remove }

/-- Zero bytes for the range. -/
def zeroBytes (s : MemoryState) (start limit : Address) : Option MemoryState := do
  s.setMemoryBytes (← MemoryBytes.make start (List.replicate (limit - start) 0))

def zeroMappedMemoryBytes (s : MemoryState) (m : MemoryMapping) : Option MemoryState :=
  s.zeroBytes m.startAddress m.limitAddress

def setInitialState (s : MemoryState) (snapshot : SnapshotMemory) (zeroing : MappedZeroing) :
    Option MemoryState := do
  let newMappings ← snapshot.mappedMemoryMap.removeRangesOf s.mappedMemoryMap
  let s ← snapshot.memoryMappings.foldlM setMemoryMapping s
  let filteredNegative ←
    snapshot.negativeMappedMemoryMap.removeRangesOf snapshot.mappedMemoryMap
  let delta ← MappedMemoryMap.empty.addIntersectionOf s.mappedMemoryMap filteredNegative
  let s ← delta.rep.foldlM (fun s i => removePerms s i.start i.limit i.value) s
  let s ← match zeroing with
    | .kZeroMappedBytes => newMappings.rep.foldlM (fun s i => zeroBytes s i.start i.limit) s
    | .kIgnoreMappedBytes => some s
  snapshot.memoryBytes.foldlM setMemoryBytes s

def deltaMemoryMapping (s : MemoryState) (mapping : MemoryMapping) (addedPerms : MemoryPerms) :
    Option (List MemoryMappingCmd) := do
  let m ← mapping.setPerms (mapping.perms.plus addedPerms)
  if s.mappedMemoryMap.isEmpty then return [⟨m, .kMap⟩]
  let mPerms := m.perms.plus (.of .kMapped)
  let delta ← MappedMemoryMap.empty.addDifferenceOf m.startAddress m.limitAddress mPerms
    s.mappedMemoryMap
  delta.rep.mapM fun i => do
    let d ← MemoryMapping.makeRanged i.start i.limit m.perms
    return ⟨d, if i.value = mPerms then .kMap else .kProtect⟩

/-- The `DeltaMemoryMapping` of every mapping of the snapshot. -/
def deltaPositive (s : MemoryState) (snapshot : SnapshotMemory) (addedPerms : MemoryPerms) :
    Option (List MemoryMappingCmd) :=
  snapshot.memoryMappings.foldlM
    (fun result m => do return result ++ (← s.deltaMemoryMapping m addedPerms)) []

/-- The command for the range `i` of `delta`, where `i.value` is to be taken away. -/
def negativeCmd (s : MemoryState) (i : Segment Address MemoryPerms) :
    Option MemoryMappingCmd := do
  let p ← s.mappedMemoryMap.perms i.start i.limit .kAnd
  let d ← MemoryMapping.makeRanged i.start i.limit ((p.clear i.value).clear (.of .kMapped))
  return ⟨d, .kProtect⟩

def deltaMemoryMappings (s : MemoryState) (snapshot : SnapshotMemory)
    (addedPerms : MemoryPerms) : Option (List MemoryMappingCmd) := do
  let result ← s.deltaPositive snapshot addedPerms
  if snapshot.negativeMemoryMappings.isEmpty || s.mappedMemoryMap.isEmpty then return result
  let filteredNegative ←
    snapshot.negativeMappedMemoryMap.removeRangesOf snapshot.mappedMemoryMap
  let delta ← MappedMemoryMap.empty.addIntersectionOf s.mappedMemoryMap filteredNegative
  return result ++ (← delta.rep.mapM s.negativeCmd)

/-- The command for the range `i` that the snapshot does not use. -/
def unusedCmd (mode : ExactnessMode) (i : Segment Address MemoryPerms) :
    Option (List MemoryMappingCmd) :=
  match mode with
  | .kUnmapUnused => do
    -- the permissions do not matter here
    let d ← MemoryMapping.makeRanged i.start i.limit .r
    return [⟨d, .kUnmap⟩]
  | .kProtectUnused =>
    if i.value.hasSomeOf .all then do
      let d ← MemoryMapping.makeRanged i.start i.limit .none
      return [⟨d, .kProtect⟩]
    else some []

def deltaMemoryMappingsExact (s : MemoryState) (snapshot : SnapshotMemory)
    (addedPerms : MemoryPerms) (mode : ExactnessMode) : Option (List MemoryMappingCmd) := do
  let result ← s.deltaPositive snapshot addedPerms
  if s.mappedMemoryMap.isEmpty then return result
  let toRemove ← s.mappedMemoryMap.removeRangesOf snapshot.mappedMemoryMap
  return result ++ (← toRemove.rep.mapM (unusedCmd mode)).flatten

/-- What a command means: its range is given its permissions, or is unmapped. -/
def execute (s : MemoryState) (cmd : MemoryMappingCmd) : Option MemoryState :=
  match cmd.action with
  | .kMap | .kProtect => s.setMemoryMappingEmptyPermsOk cmd.mapping
  | .kUnmap => s.removeMemoryMapping cmd.mapping.startAddress cmd.mapping.limitAddress

/-- One call of a mutator with its REQUIRES met. -/
inductive Step : MemoryState → MemoryState → Prop where
  | addNewMemoryMapping {s s'} (m : MemoryMapping) : m.perms.isEmpty = false →
      s.mappedMemoryMap.overlaps m.startAddress m.limitAddress = some false →
      s.addNewMemoryMapping m = some s' → Step s s'
  | setMemoryMapping {s s'} (m : MemoryMapping) : m.perms.isEmpty = false →
      s.setMemoryMapping m = some s' → Step s s'
  | setMemoryMappingEmptyPermsOk {s s'} (m) : s.setMemoryMappingEmptyPermsOk m = some s' →
      Step s s'
  | removeMemoryMapping {s s'} (start limit) : start < limit →
      s.removeMemoryMapping start limit = some s' → Step s s'
  | removeMemoryMappingsNotIn {s s'} (snapshot) : SnapshotMemory.Reachable snapshot →
      s.removeMemoryMappingsNotIn snapshot = some s' → Step s s'
  | clearMemoryMappingsPermsNotIn {s s'} (snapshot) : SnapshotMemory.Reachable snapshot →
      s.clearMemoryMappingsPermsNotIn snapshot = some s' → Step s s'
  | setMemoryBytes {s s'} (bytes : MemoryBytes) :
      s.mappedMemoryMap.containsRange bytes.startAddress bytes.limitAddress = some true →
      s.setMemoryBytes bytes = some s' → Step s s'
  | forgetMemoryBytes {s s'} (start limit) : start < limit →
      s.forgetMemoryBytes start limit = some s' → Step s s'
  | zeroMappedMemoryBytes {s s'} (m : MemoryMapping) : m.perms.isEmpty = false →
      s.mappedMemoryMap.containsRange m.startAddress m.limitAddress = some true →
      s.zeroMappedMemoryBytes m = some s' → Step s s'
  | setInitialState {s s'} (snapshot zeroing) : SnapshotMemory.Reachable snapshot →
      s.setInitialState snapshot zeroing = some s' → Step s s'

inductive Reachable : MemoryState → Prop where
  | empty : Reachable .empty
  | next {s s'} : Reachable s → Step s s' → Reachable s'

end MemoryState

end Silifuzz
