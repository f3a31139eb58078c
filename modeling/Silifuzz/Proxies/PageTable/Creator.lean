import Silifuzz.Common.MemoryMapping
import Silifuzz.Proxies.PageTable.Descriptors

/-!
# PageTableCreator

A four-level page table under construction (`proxies/page_table/page_table_creator.cc`): the
pages of all levels in one flat vector of entries, in the order in which they were needed,
and for each level the pages by the start of the interval of virtual addresses they are for.
-/

namespace Silifuzz

namespace PageTable

open BitStruct

def kTranslationGranule : Nat := 0x1000

def kAddressWidthBits : Nat := 48

def kNumLevels : Nat := 4

/-- The entries of a page: `kTranslationGranule / sizeof(uint64_t)`. -/
def entriesPerPage : Nat := 512

def checkAlignmentAndSize (value : Nat) (descriptor : String) : Checked Unit :=
  if value >>> kAddressWidthBits ≠ 0 then
    .error (.status (descriptor ++ " does not fit within a 48-bit address space: 0x" ++ hex value))
  else if value % kTranslationGranule ≠ 0 then
    .error (.status (descriptor ++
      " should be aligned to the translation granule (4KiB) but was 0x" ++ hex value))
  else .ok ()

/-- `DecodedVirtualAddress::entry_index` -/
def entryIndex (va level : Nat) : Nat := get va (VirtualAddress.tableIndexL level)

/-- `DecodedVirtualAddress::starting_interval` -/
def startingInterval (va level : Nat) : Nat :=
  (List.range' level (kNumLevels - level)).foldl
    (fun va l => set va (VirtualAddress.tableIndexL l) 0) (set va VirtualAddress.physicalAddressLsbs 0)

/-- `pageTables` has the maps of all levels: the key is the level and the interval. -/
structure PageTableCreator where
  entries : List Nat
  pageTables : List ((Nat × Nat) × Nat)
  pageTableAddr : Nat
  deriving DecidableEq, Repr

namespace PageTableCreator

def create (pageTableAddr : Nat) : Checked PageTableCreator :=
  match checkAlignmentAndSize pageTableAddr "page_table_addr" with
  | .ok () => .ok ⟨List.replicate entriesPerPage 0, [((0, 0), 0)], pageTableAddr⟩
  | .error _ => .error .abort

def getPageTableEntryIndex (c : PageTableCreator) (va level : Nat) : PageTableCreator × Nat :=
  match c.pageTables.lookup (level, startingInterval va level) with
  | some page => (c, page + entryIndex va level)
  | none =>
    ({ c with entries := c.entries ++ List.replicate entriesPerPage 0
              pageTables := ((level, startingInterval va level), c.entries.length) :: c.pageTables },
      c.entries.length + entryIndex va level)

/-- `page_tables_[level][starting_interval]`, where `operator[]` adds what is missing. -/
def pageTable (c : PageTableCreator) (va level : Nat) : PageTableCreator × Nat :=
  match c.pageTables.lookup (level, startingInterval va level) with
  | some page => (c, page)
  | none => ({ c with pageTables := ((level, startingInterval va level), 0) :: c.pageTables }, 0)

def setEntry (c : PageTableCreator) (entryIndex entry : Nat) : PageTableCreator :=
  { c with entries := c.entries.set entryIndex entry }

def setupPageDescriptor (arch : Architecture) (c : PageTableCreator) (va decodedPa : Nat)
    (writeable executable : Bool) : Checked PageTableCreator := do
  let (c, entryIndex) := c.getPageTableEntryIndex va 3
  let existingEntry := c.entries.getD entryIndex 0
  let newEntry ← Checked.plus ("Failed to map virtual_address=0x" ++ hex va)
    (createPageDescriptor arch existingEntry decodedPa writeable executable)
  .ok (c.setEntry entryIndex newEntry)

def setupTableDescriptor (arch : Architecture) (level : Nat) (c : PageTableCreator) (va : Nat)
    (writeable executable : Bool) : PageTableCreator :=
  let (c, entryIndex) := c.getPageTableEntryIndex va level
  let existingEntry := c.entries.getD entryIndex 0
  let (c, nextTableEntriesIndex) := c.pageTable va (level + 1)
  let nextTablePa := (nextTableEntriesIndex * 8 + c.pageTableAddr) % 2 ^ 64
  let modifiedEntry := updateTableDescriptor arch existingEntry nextTablePa writeable executable
  if existingEntry = modifiedEntry then c
  else
    let c := c.setEntry entryIndex modifiedEntry
    match level with
    | 0 => c
    | level + 1 => setupTableDescriptor arch level c va writeable executable

/-- One turn of the loop of `AddContiguousMapping`. -/
def addPage (arch : Architecture) (c : PageTableCreator) (va pa : Nat)
    (writeable executable : Bool) : Checked PageTableCreator := do
  let c ← c.setupPageDescriptor arch va pa writeable executable
  .ok (setupTableDescriptor arch 2 c va writeable executable)

def addContiguousMapping (arch : Architecture) (c : PageTableCreator) (mapping : MemoryMapping)
    (physicalAddr : Nat) : Checked PageTableCreator := do
  checkAlignmentAndSize mapping.startAddress "starting virtual_addr"
  checkAlignmentAndSize physicalAddr "starting physical_addr"
  checkAlignmentAndSize mapping.numBytes "size"
  checkAlignmentAndSize (mapping.startAddress + mapping.numBytes - kTranslationGranule)
    "ending virtual_addr"
  checkAlignmentAndSize (physicalAddr + mapping.numBytes - kTranslationGranule)
    "ending physical_addr"
  let writeable := mapping.perms.has .kWritable
  let executable := mapping.perms.has .kExecutable
  let pages := (mapping.numBytes + kTranslationGranule - 1) / kTranslationGranule
  (List.range pages).foldlM (fun c page =>
    let byteOffset := page * kTranslationGranule
    addPage arch c (mapping.startAddress + byteOffset) (physicalAddr + byteOffset)
      writeable executable) c

/-- `AddContiguousMapping` of several mappings, each with its physical address. -/
def addMappings (arch : Architecture) (c : PageTableCreator)
    (requests : List (MemoryMapping × Nat)) : Checked PageTableCreator :=
  requests.foldlM (fun c request => c.addContiguousMapping arch request.1 request.2) c

/-- The 64-bit words of physical memory, with `GetBinaryData()` at `page_table_addr_`. -/
def memory (c : PageTableCreator) (address : Nat) : Option Nat :=
  if c.pageTableAddr ≤ address ∧ (address - c.pageTableAddr) % 8 = 0 then
    c.entries[(address - c.pageTableAddr) / 8]?
  else none

end PageTableCreator

end PageTable

end Silifuzz
