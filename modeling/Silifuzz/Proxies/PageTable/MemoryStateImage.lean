import Silifuzz.Common.MemoryState.Read
import Silifuzz.Library.Images
import Silifuzz.Library.LittleEndian
import Silifuzz.Proxies.PageTable.Requests

/-!
# MemoryStateImage

The contents of a virtual address space and the page table for it in one block of physical
memory (`proxies/page_table/memory_state_image.cc`). The table comes first, so its size has to
be known before the addresses in it are: it is built twice.
-/

namespace Silifuzz

namespace PageTable

open Segments BitStruct Checked Buffers LittleEndian

structure ExternalMapping where
  virtualMemoryMapping : MemoryMapping
  physicalStart : Nat
  deriving DecidableEq

def ExternalMapping.request (e : ExternalMapping) : MemoryMapping × Nat :=
  (e.virtualMemoryMapping, e.physicalStart)

structure MemoryStateImage where
  physicalAddress : Nat
  imageData : Bytes
  pageTableRoot : Nat
  deriving DecidableEq, Repr

/-- What `LayoutPageTable` has done so far. The creator is also `status`: once that has a
message the function returns it, whatever the later mappings do to the table. -/
structure Layout where
  creator : Checked PageTableCreator
  dataOffset : Nat
  memoryImageData : Bytes

namespace MemoryStateImage

/-- The mapping for an entry of `mapped_memory()`, without `kMapped`. -/
def mappingOf (i : Segment Address MemoryPerms) : Option MemoryMapping :=
  MemoryMapping.makeRanged i.start i.limit (i.value.clear (.of .kMapped))

/-- The copy of the contents of a mapping. -/
def copyMapping (memoryState : MemoryState) (mapping : MemoryMapping) (dataOffset : Nat)
    (memoryImageData : Bytes) : Checked Bytes := do
  let byteData ← orAbort (memoryState.memoryBytesIn mapping.startAddress mapping.numBytes)
  if dataOffset + byteData.length ≤ memoryImageData.length then
    .ok (write memoryImageData dataOffset byteData)
  else .error .abort

def layoutMapping (arch : Architecture) (memoryState : MemoryState) (physicalAddress : Nat)
    (copyData : Bool) (layout : Layout) (i : Segment Address MemoryPerms) : Checked Layout := do
  let mapping ← orAbort (mappingOf i)
  let creator := layout.creator >>= fun c =>
    c.addContiguousMapping arch mapping ((physicalAddress + layout.dataOffset) % 2 ^ 64)
  let memoryImageData ←
    if copyData then copyMapping memoryState mapping layout.dataOffset layout.memoryImageData
    else .ok layout.memoryImageData
  .ok ⟨creator, layout.dataOffset + mapping.numBytes, memoryImageData⟩

def layoutPageTable (arch : Architecture) (memoryState : MemoryState) (physicalAddress : Nat)
    (externalMappings : List ExternalMapping) (copyData : Bool) (dataOffset : Nat)
    (memoryImageData : Bytes) : Checked (PageTableCreator × Bytes) := do
  let creator ← PageTableCreator.create physicalAddress
  let layout ← memoryState.mappedMemoryMap.rep.foldlM
    (layoutMapping arch memoryState physicalAddress copyData)
    ⟨.ok creator, dataOffset, memoryImageData⟩
  let creator ← layout.creator
  let creator ← creator.addMappings arch (externalMappings.map ExternalMapping.request)
  if copyData ∧ layout.dataOffset ≠ layout.memoryImageData.length then .error .abort
  else .ok (creator, layout.memoryImageData)

/-- `GetBinaryData()` as it is in memory. -/
def binaryData (c : PageTableCreator) : Bytes := encodeAll 8 c.entries

def build (arch : Architecture) (memoryState : MemoryState) (physicalAddress : Nat)
    (externalMappings : List ExternalMapping) : Checked MemoryStateImage := do
  let (pageTableSizeMeasure, _) ←
    layoutPageTable arch memoryState physicalAddress externalMappings false 0 []
  let pageTableByteSize := pageTableSizeMeasure.entries.length * 8
  let memoryImageSize := pageTableByteSize + memoryState.numWrittenBytes
  let (pageTableCreator, memoryImageData) ←
    layoutPageTable arch memoryState physicalAddress externalMappings true pageTableByteSize
      (List.replicate memoryImageSize 0)
  if pageTableSizeMeasure.entries.length = pageTableCreator.entries.length then
    .ok ⟨physicalAddress, write memoryImageData 0 (binaryData pageTableCreator), physicalAddress⟩
  else .error .abort

/-- The 64-bit words of physical memory that are in the loaded image. -/
def memory (image : MemoryStateImage) (address : Nat) : Option Nat :=
  let bytes := (image.imageData.drop (address - image.physicalAddress)).take 8
  if image.physicalAddress ≤ address ∧ bytes.length = 8 then some (decode bytes) else none

end MemoryStateImage

end PageTable

end Silifuzz
