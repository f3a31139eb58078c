import Silifuzz.Common.SnapshotUtil
import Silifuzz.Library.Triples
import Silifuzz.Snap.Gen.RepeatingByteRuns
import Silifuzz.Snap.Snap
import Silifuzz.Snap.SnapChecksum
import Mathlib.Logic.Function.Basic

/-!
# The relocatable snap generator

`snap/gen/relocatable_data_block.cc` and `snap/gen/relocatable_snap_generator.cc`: a corpus is
made in two passes over the snapshots, of which the first finds the sizes of the blocks and the
second writes what is in them. A failed `CHECK` ends the process. Sizes are those of data in
memory, whose sums do not wrap.
-/

namespace Silifuzz

open LittleEndian Images Crc32c

/-- `ToMProtect` -/
def MemoryPerms.toMProtect (x : MemoryPerms) : Nat :=
  (if x.has .kReadable then 1 else 0) ||| (if x.has .kWritable then 2 else 0) |||
    (if x.has .kExecutable then 4 else 0)

/-- `DeserializeRegisterChecksum` -/
def deserializeRegisterChecksum (arch : Architecture) (data : ByteData) : Option RegisterChecksum :=
  if data.isEmpty then some ⟨0, 0⟩ else (RegisterChecksum.deserialize arch data).map (·.2)

structure CheckFailure where
  deriving DecidableEq, Repr

def checkCondition (c : Prop) [Decidable c] : Except CheckFailure Unit :=
  if c then .ok () else .error ⟨⟩

/-! ## Data blocks -/

/-- A block of the corpus. The addresses are those in the content buffer, which itself starts at a
page; without one, `contents` is null and `load_address` is `kInvalidAddress`. -/
structure RelocatableDataBlock where
  size : Nat
  requiredAlignment : Nat
  loadAddress : Option Nat
  contents : Option Nat
  maxContentsSize : Nat

namespace RelocatableDataBlock

def new : RelocatableDataBlock := ⟨0, 1, none, none, 0⟩

def resetSizeAndAlignment (block : RelocatableDataBlock) : RelocatableDataBlock :=
  { block with size := 0, requiredAlignment := 1 }

/-- `(size + mask) & ~mask` -/
def alignedOffset (size alignment : Nat) : Nat :=
  let mask := alignment - 1
  (size + mask) - ((size + mask) &&& mask)

def checkCapacity (block : RelocatableDataBlock) (limit : Nat) : Except CheckFailure Unit :=
  match block.contents with
  | some _ => checkCondition (limit ≤ block.maxContentsSize)
  | none => .ok ()

/-- `Allocate`: the offset of what is allocated, and the block with it. -/
def allocate (block : RelocatableDataBlock) (size alignment : Nat) :
    Except CheckFailure (Nat × RelocatableDataBlock) := do
  checkCondition (alignment &&& (alignment - 1) = 0)
  let offset := alignedOffset block.size alignment
  block.checkCapacity (offset + size)
  return (offset, { block with
    size := offset + size
    requiredAlignment := max block.requiredAlignment alignment })

/-- `load_address()` of a `Ref` with that offset. -/
def loadAddressAt (block : RelocatableDataBlock) (offset : Nat) : Except CheckFailure Nat :=
  match block.loadAddress with
  | none => .error ⟨⟩
  | some loadAddress => do
    checkCondition (offset ≤ block.size)
    return loadAddress + offset

/-- `contents()` of a `Ref` with that offset. -/
def contentsAt (block : RelocatableDataBlock) (offset : Nat) : Except CheckFailure Nat :=
  match block.contents with
  | none => .error ⟨⟩
  | some contents => do
    checkCondition (offset ≤ block.maxContentsSize)
    return contents + offset

end RelocatableDataBlock

/-! ## Traversal -/

namespace Traversal

/-- The blocks that are merged into the main block. -/
inductive Block where
  | snap
  | memoryBytes
  | memoryMapping
  | byteData
  | string
  | fpregs
  | gregs
  | pageData
  deriving DecidableEq, Repr

/-- In the order in which they are merged. -/
def Block.all : List Block :=
  [.snap, .memoryBytes, .memoryMapping, .byteData, .string, .fpregs, .gregs, .pageData]

/-- `RelocatableDataBlock::Ref` -/
structure Ref where
  block : Block
  byteOffset : Nat
  deriving DecidableEq, Repr

/-- Which map of deduplicated data: `byte_data_ref_map_`, `fpregs_ref_map_`, `gregs_ref_map_`. -/
inductive Data where
  | byteData
  | fpregs
  | gregs
  deriving DecidableEq, Repr

inductive PassType where
  | kLayout
  | kGeneration
  deriving DecidableEq, Repr

structure RelocatableSnapGeneratorOptions where
  compressRepeatingBytes : Bool := true

end Traversal

open Traversal

/-- The content buffer is what has been stored to it, in that order, at the offsets. -/
structure Traversal where
  mainBlock : RelocatableDataBlock
  blocks : Block → RelocatableDataBlock
  refMaps : Data → List (ByteData × Ref)
  stores : List (Nat × ByteData)

namespace Traversal

def new : Traversal := ⟨.new, fun _ => .new, fun _ => [], []⟩

/-- The bytes in the content buffer, which is zero at first. -/
def contents (t : Traversal) : ByteData :=
  t.stores.foldl (fun image (offset, bytes) => Buffers.write image offset bytes)
    (List.replicate t.mainBlock.maxContentsSize 0)

abbrev Traverse := StateT Traversal (Except CheckFailure)

def allocate (b : Block) (size alignment : Nat) : Traverse Ref := do
  let t ← get
  let (offset, block) ← (t.blocks b).allocate size alignment
  set { t with blocks := Function.update t.blocks b block }
  return ⟨b, offset⟩

def allocateObjectsOfType (b : Block) (type : CType) (n : Nat) : Traverse Ref :=
  allocate b (type.size * n) type.align

/-- `operator+` -/
def Ref.plus (ref : Ref) (addend : Nat) : Traverse Ref := do
  checkCondition (addend ≤ 2 ^ 64 - 1 - ref.byteOffset)
  return { ref with byteOffset := ref.byteOffset + addend }

def Ref.loadAddress (ref : Ref) : Traverse Nat := do
  let t ← get
  (t.blocks ref.block).loadAddressAt ref.byteOffset

def Ref.contents (ref : Ref) : Traverse Nat := do
  let t ← get
  (t.blocks ref.block).contentsAt ref.byteOffset

def Ref.contentsAsPointerOf (type : CType) (ref : Ref) : Traverse Nat := do
  let contents ← ref.contents
  checkCondition (contents % type.align = 0)
  return contents

def store (offset : Nat) (bytes : ByteData) : Traverse Unit :=
  modify fun t => { t with stores := t.stores ++ [(offset, bytes)] }

/-- A field of a struct is set. -/
def storeNumber (offset size v : Nat) : Traverse Unit := store offset (encode size v)

def storeArray (offset size elements : Nat) : Traverse Unit := do
  storeNumber (offset + Offset.SnapArray.size) 8 size
  storeNumber (offset + Offset.SnapArray.elements) 8 elements

def inGeneration (pass : PassType) (x : Traverse Unit) : Traverse Unit :=
  match pass with
  | .kLayout => pure ()
  | .kGeneration => x

/-- What has the data already, if anything. -/
def find (data : Data) (bytes : ByteData) : Traverse (Option Ref) := do
  let t ← get
  return (t.refMaps data).lookup bytes

def insert (data : Data) (bytes : ByteData) (ref : Ref) : Traverse Unit :=
  modify fun t => { t with
    refMaps := Function.update t.refMaps data ((bytes, ref) :: t.refMaps data) }

/-- The function for each element, which lie one after the other from `ref` on. -/
def forElements {α : Type} (size : Nat) (f : α → Ref → Traverse Unit) : List α → Ref → Traverse Unit
  | [], _ => pure ()
  | a :: l, ref => do
    f a ref
    let next ← ref.plus size
    forElements size f l next

/-! ### Memory bytes -/

def kPageSize : Nat := 4096

def isPageAligned (address : Nat) : Bool := address % kPageSize = 0

def allocateByteData (b : MemoryBytes) : Traverse Ref :=
  if isPageAligned b.startAddress && isPageAligned b.byteValues.length then
    allocate .pageData b.byteValues.length kPageSize
  else allocate .byteData b.byteValues.length 8

def processMemoryBytes (pass : PassType) (b : MemoryBytes) : Traverse Ref := do
  match ← find .byteData b.byteValues with
  | some ref => return ref
  | none => do
    let ref ← allocateByteData b
    insert .byteData b.byteValues ref
    inGeneration pass do
      let contents ← ref.contents
      store contents b.byteValues
    return ref

/-- The bytes are one byte all over, and are stored as a run of it. -/
def compresses (options : RelocatableSnapGeneratorOptions) (b : MemoryBytes) : Bool :=
  options.compressRepeatingBytes && RepeatingByteRuns.isRepeatingByteRun b.byteValues

def storeByteRun (b : MemoryBytes) (ref : Ref) : Traverse Unit := do
  let memoryBytes ← ref.contentsAsPointerOf .snapMemoryBytes
  storeNumber (memoryBytes + Offset.SnapMemoryBytes.startAddress) 8 b.startAddress
  storeNumber (memoryBytes + Offset.SnapMemoryBytes.flags) 1 Offset.SnapMemoryBytes.kRepeating
  storeNumber (memoryBytes + Offset.SnapMemoryBytes.byteRunValue) 1 (b.byteValues.headD 0).toNat
  storeNumber (memoryBytes + Offset.SnapMemoryBytes.byteRunSize) 8 b.byteValues.length

def storeByteValues (b : MemoryBytes) (ref elements : Ref) : Traverse Unit := do
  let memoryBytes ← ref.contentsAsPointerOf .snapMemoryBytes
  let elements ← elements.loadAddress
  storeNumber (memoryBytes + Offset.SnapMemoryBytes.startAddress) 8 b.startAddress
  storeNumber (memoryBytes + Offset.SnapMemoryBytes.flags) 1 0
  storeArray (memoryBytes + Offset.SnapMemoryBytes.byteValues) b.byteValues.length elements

/-- `ProcessAllocated`, of memory bytes. -/
def processAllocatedMemoryBytes (pass : PassType) (options : RelocatableSnapGeneratorOptions)
    (b : MemoryBytes) (ref : Ref) : Traverse Unit :=
  if compresses options b then inGeneration pass (storeByteRun b ref)
  else do
    let elements ← processMemoryBytes pass b
    inGeneration pass (storeByteValues b ref elements)

def processMemoryBytesList (pass : PassType) (options : RelocatableSnapGeneratorOptions)
    (l : List MemoryBytes) : Traverse Ref := do
  let ref ← allocateObjectsOfType .memoryBytes .snapMemoryBytes l.length
  forElements CType.snapMemoryBytes.size (processAllocatedMemoryBytes pass options) l ref
  return ref

/-! ### Memory mappings -/

/-- `MemoryChecksumCalculator`, of the data in this order. -/
def memoryChecksum (l : List MemoryBytes) : BitVec 32 :=
  l.foldl (fun checksum b => crc32cUnaccelerated checksum b.byteValues) 0

def storeMemoryMapping (mapping : MemoryMapping) (l : List MemoryBytes) (ref elements : Ref) :
    Traverse Unit := do
  let memoryMapping ← ref.contentsAsPointerOf .snapMemoryMapping
  let elements ← elements.loadAddress
  storeNumber (memoryMapping + Offset.SnapMemoryMapping.startAddress) 8 mapping.startAddress
  storeNumber (memoryMapping + Offset.SnapMemoryMapping.numBytes) 8 mapping.numBytes
  storeNumber (memoryMapping + Offset.SnapMemoryMapping.perms) 4 mapping.perms.toMProtect
  storeNumber (memoryMapping + Offset.SnapMemoryMapping.memoryChecksum) 4 (memoryChecksum l).toNat
  storeArray (memoryMapping + Offset.SnapMemoryMapping.memoryBytes) l.length elements

def processMemoryMapping (pass : PassType) (options : RelocatableSnapGeneratorOptions)
    (mapping : MemoryMapping × List MemoryBytes) (ref : Ref) : Traverse Unit := do
  let elements ← processMemoryBytesList pass options mapping.2
  inGeneration pass (storeMemoryMapping mapping.1 mapping.2 ref elements)

/-- Each mapping with its bytes. -/
def processMemoryMappings (pass : PassType) (options : RelocatableSnapGeneratorOptions)
    (mappings : List (MemoryMapping × List MemoryBytes)) : Traverse Ref := do
  let ref ← allocateObjectsOfType .memoryMapping .snapMemoryMapping mappings.length
  forElements CType.snapMemoryMapping.size (processMemoryMapping pass options) mappings ref
  return ref

/-! ### Registers -/

/-- `GRegSet` or `FPRegSet`. -/
inductive RegisterSet where
  | fpregs
  | gregs
  deriving DecidableEq, Repr

namespace RegisterSet

def data : RegisterSet → Data
  | fpregs => .fpregs
  | gregs => .gregs

def block : RegisterSet → Block
  | fpregs => .fpregs
  | gregs => .gregs

def type (arch : Architecture) : RegisterSet → CType
  | fpregs => .fpRegSet arch
  | gregs => .gRegSet arch

/-- `DeserializeRegs` -/
def deserialize (arch : Architecture) : RegisterSet → ByteData → Option ByteData
  | fpregs => Serialize.deserializeFPRegs arch
  | gregs => Serialize.deserializeGRegs arch

end RegisterSet

/-- What is stored for serialized registers. -/
def registerContents (arch : Architecture) (set : RegisterSet) (serialized : ByteData)
    (allowEmptyRegisterState : Bool) : Except CheckFailure ByteData :=
  if serialized ≠ [] then
    match set.deserialize arch serialized with
    | some registers => .ok registers
    | none => .error ⟨⟩
  else if allowEmptyRegisterState then .ok (List.replicate (set.type arch).size 0)
  else .error ⟨⟩

def storeRegisterSet (arch : Architecture) (set : RegisterSet) (serialized : ByteData)
    (allowEmptyRegisterState : Bool) (ref : Ref) : Traverse Unit := do
  let registerSet ← ref.contentsAsPointerOf (set.type arch)
  let registers ← registerContents arch set serialized allowEmptyRegisterState
  store registerSet registers

def processRegisterSet (pass : PassType) (arch : Architecture) (set : RegisterSet)
    (serialized : ByteData) (allowEmptyRegisterState : Bool) : Traverse Ref := do
  match ← find set.data serialized with
  | some ref => return ref
  | none => do
    let ref ← allocateObjectsOfType set.block (set.type arch) 1
    insert set.data serialized ref
    inGeneration pass (storeRegisterSet arch set serialized allowEmptyRegisterState ref)
    return ref

structure RegisterStateRefs where
  fpregs : Ref
  gregs : Ref

/-- `CalculateRegisterMemoryChecksum`, of what is in the content buffer. -/
def registerMemoryChecksum (arch : Architecture) (refs : RegisterStateRefs) :
    Traverse SnapRegisterMemoryChecksum := do
  let gregs ← refs.gregs.contentsAsPointerOf (.gRegSet arch)
  let fpregs ← refs.fpregs.contentsAsPointerOf (.fpRegSet arch)
  let t ← get
  let checksum (offset size : Nat) := (crc32cUnaccelerated 0 (piece t.contents offset size)).toNat
  return ⟨checksum fpregs (CType.fpRegSet arch).size, checksum gregs (CType.gRegSet arch).size⟩

/-- The checksums are not set in the layout pass. -/
def processRegisterState (pass : PassType) (arch : Architecture) (registers : RegisterState)
    (allowEmptyRegisterState : Bool) :
    Traverse (RegisterStateRefs × SnapRegisterMemoryChecksum) := do
  let gregs ← processRegisterSet pass arch .gregs registers.gregs allowEmptyRegisterState
  let fpregs ← processRegisterSet pass arch .fpregs registers.fpregs allowEmptyRegisterState
  match pass with
  | .kLayout => return (⟨fpregs, gregs⟩, ⟨0, 0⟩)
  | .kGeneration => do
    let checksum ← registerMemoryChecksum arch ⟨fpregs, gregs⟩
    return (⟨fpregs, gregs⟩, checksum)

/-! ### Snapshots -/

/-- What has been processed of a snapshot when the `Snap` is written. -/
structure SnapRefs where
  id : Ref
  memoryMappings : Ref
  endStateMemoryBytes : Ref
  registers : RegisterStateRefs
  registersMemoryChecksum : SnapRegisterMemoryChecksum
  endStateRegisters : RegisterStateRefs
  endStateRegistersMemoryChecksum : SnapRegisterMemoryChecksum

def storeRegisterState (offset : Nat) (refs : RegisterStateRefs) : Traverse Unit := do
  let fpregs ← refs.fpregs.loadAddress
  let gregs ← refs.gregs.loadAddress
  storeNumber (offset + Offset.RegisterState.fpregs) 8 fpregs
  storeNumber (offset + Offset.RegisterState.gregs) 8 gregs

def storeRegisterMemoryChecksum (offset : Nat) (checksum : SnapRegisterMemoryChecksum) :
    Traverse Unit := do
  storeNumber offset 4 checksum.fpregsChecksum
  storeNumber (offset + 4) 4 checksum.gregsChecksum

/-- A failure where a value is missing. -/
def orFail {α : Type} : Option α → Except CheckFailure α
  | some a => .ok a
  | none => .error ⟨⟩

def storeSnap (arch : Architecture) (snapshot : Snapshot) (endState : EndState) (refs : SnapRefs)
    (ref : Ref) : Traverse Unit := do
  let id ← refs.id.contents
  store id (snapshot.id ++ [0])
  let snap ← ref.contentsAsPointerOf .snap
  let registerChecksum ← orFail (deserializeRegisterChecksum arch endState.registerChecksum)
  let id ← refs.id.loadAddress
  storeNumber (snap + Offset.Snap.id) 8 id
  let elements ← refs.memoryMappings.loadAddress
  storeArray (snap + Offset.Snap.memoryMappings) snapshot.memoryMappings.length elements
  storeRegisterState (snap + Offset.Snap.registers) refs.registers
  storeNumber (snap + Offset.Snap.endStateInstructionAddress) 8 endState.endpoint.instructionAddress
  storeRegisterState (snap + Offset.Snap.endStateRegisters) refs.endStateRegisters
  let elements ← refs.endStateMemoryBytes.loadAddress
  storeArray (snap + Offset.Snap.endStateMemoryBytes) endState.memoryBytes.length elements
  storeNumber (snap + Offset.Snap.endStateRegisterChecksum) 8 registerChecksum.registerGroups.toNat
  storeNumber (snap + Offset.Snap.endStateRegisterChecksum + 8) 8 registerChecksum.checksum.toNat
  storeRegisterMemoryChecksum (snap + Offset.Snap.registersMemoryChecksum)
    refs.registersMemoryChecksum
  storeRegisterMemoryChecksum (snap + Offset.Snap.endStateRegistersMemoryChecksum)
    refs.endStateRegistersMemoryChecksum

/-- `ProcessAllocated`, of a snapshot. -/
def processAllocated (pass : PassType) (arch : Architecture)
    (options : RelocatableSnapGeneratorOptions) (snapshot : Snapshot) (ref : Ref) :
    Traverse Unit := do
  checkCondition (snapshot.architecture = arch)
  let id ← allocate .string (snapshot.id.length + 1) 1
  let bytesPerMapping ← orFail (splitBytesByMapping snapshot.memoryMappings snapshot.memoryBytes)
  let memoryMappings ←
    processMemoryMappings pass options (snapshot.memoryMappings.zip bytesPerMapping)
  let endState ← orFail snapshot.expectedEndStates.head?
  let endStateMemoryBytes ← processMemoryBytesList pass options endState.memoryBytes
  let registers ← orFail snapshot.registers
  let (registers, registersMemoryChecksum) ← processRegisterState pass arch registers false
  let (endStateRegisters, endStateRegistersMemoryChecksum) ←
    processRegisterState pass arch endState.registers true
  inGeneration pass (storeSnap arch snapshot endState ⟨id, memoryMappings, endStateMemoryBytes,
    registers, registersMemoryChecksum, endStateRegisters, endStateRegistersMemoryChecksum⟩ ref)

/-! ### The corpus -/

def storeCorpus (arch : Architecture) (n : Nat) (ref elements : Ref) : Traverse Unit := do
  let corpus ← ref.contents
  let t ← get
  storeNumber (corpus + Offset.SnapCorpus.magic) 8 kSnapCorpusMagic
  storeNumber (corpus + Offset.SnapCorpus.headerSize) 4 CType.snapCorpusHeader.size
  storeNumber (corpus + Offset.SnapCorpus.checksum) 4 0
  storeNumber (corpus + Offset.SnapCorpus.numBytes) 8 t.mainBlock.size
  storeNumber (corpus + Offset.SnapCorpus.corpusTypeSize) 4 CType.snapCorpus.size
  storeNumber (corpus + Offset.SnapCorpus.snapTypeSize) 4 CType.snap.size
  storeNumber (corpus + Offset.SnapCorpus.registerStateTypeSize) 4 CType.registerState.size
  storeNumber (corpus + Offset.SnapCorpus.architectureId) 1 arch.toInt
  storeNumber (corpus + Offset.SnapCorpus.padding) 3 0
  let elements ← elements.loadAddress
  storeArray (corpus + Offset.SnapCorpus.snaps) n elements

/-- An element of the array of pointers. -/
def storeSnapPointer (snaps elements : Ref) (i : Nat) : Traverse Unit := do
  let snap ← snaps.plus (i * CType.snap.size)
  let element ← elements.plus (i * CType.snapPointer.size)
  let pointer ← element.contentsAsPointerOf .snapPointer
  let snap ← snap.loadAddress
  storeNumber pointer 8 snap

/-- What `CorpusChecksumCalculator` gives for the corpus. -/
def storeChecksum (ref : Ref) : Traverse Unit := do
  let corpus ← ref.contents
  let t ← get
  let data := piece t.contents corpus t.mainBlock.size
  storeNumber (corpus + Offset.SnapCorpus.checksum) 4
    (crc32cUnaccelerated 0 (SnapChecksum.skipChecksum data)).toNat

/-- `main_block_.Allocate(block)` -/
def mergeBlock (t : Traversal) (main : RelocatableDataBlock) (b : Block) :
    Except CheckFailure RelocatableDataBlock := do
  let (_, main) ← main.allocate (t.blocks b).size (t.blocks b).requiredAlignment
  return main

def mergeBlocks (t : Traversal) : Except CheckFailure RelocatableDataBlock :=
  Block.all.foldlM t.mergeBlock t.mainBlock

def allocateBlocks : Traverse Unit := do
  let t ← get
  let main ← mergeBlocks t
  set { t with mainBlock := main }

def process (pass : PassType) (arch : Architecture) (options : RelocatableSnapGeneratorOptions)
    (snapshots : List Snapshot) : Traverse Unit := do
  let corpus ← allocateObjectsOfType .snap .snapCorpus 1
  let elements ← allocateObjectsOfType .snap .snapPointer snapshots.length
  let snaps ← allocateObjectsOfType .snap .snap snapshots.length
  snapshots.zipIdx.forM fun (snapshot, i) => do
    let ref ← snaps.plus (i * CType.snap.size)
    processAllocated pass arch options snapshot ref
  allocateBlocks
  inGeneration pass do
    storeCorpus arch snapshots.length corpus elements
    (List.range snapshots.length).forM (storeSnapPointer snaps elements)
    storeChecksum corpus

/-- The turn of `PrepareSnapGeneration` for one block: where it is in the main block. -/
def prepareSubDataBlock (t : Traversal) (b : Block) : Except CheckFailure Traversal := do
  let block := t.blocks b
  let (offset, main) ← t.mainBlock.allocate block.size block.requiredAlignment
  let loadAddress ← main.loadAddressAt offset
  let contents ← main.contentsAt offset
  return { t with
    mainBlock := main
    blocks := Function.update t.blocks b (RelocatableDataBlock.resetSizeAndAlignment
      { block with
        loadAddress := some loadAddress
        contents := some contents
        maxContentsSize := block.size }) }

def prepareSnapGeneration (t : Traversal) (contentBufferSize loadAddress : Nat) :
    Except CheckFailure Traversal := do
  let main := RelocatableDataBlock.resetSizeAndAlignment { t.mainBlock with
    contents := some 0
    maxContentsSize := contentBufferSize
    loadAddress := some loadAddress }
  let t ← Block.all.foldlM prepareSubDataBlock { t with mainBlock := main }
  return { t with mainBlock := t.mainBlock.resetSizeAndAlignment, refMaps := fun _ => [] }

end Traversal

/-- `GenerateRelocatableSnapsImpl`: the bytes of the corpus. -/
def generateRelocatableSnaps (arch : Architecture) (snapshots : List Snapshot)
    (options : RelocatableSnapGeneratorOptions) : Except CheckFailure ByteData := do
  let (_, t) ← process .kLayout arch options snapshots .new
  checkCondition (t.mainBlock.requiredAlignment ≤ kPageSize)
  let t ← t.prepareSnapGeneration t.mainBlock.size 0
  let (_, t) ← process .kGeneration arch options snapshots t
  return t.contents

end Silifuzz
