import Silifuzz.Library.AddressSpaces
import Silifuzz.Library.Loops
import Silifuzz.Runner.Runner
import Silifuzz.Snap.SnapRelocator
import Silifuzz.Util.ProcMapsParser

/-!
# The memory of the runner process

`runner/runner.cc`: how the mappings of a corpus come into the memory of the process, how the memory
of a snap is prepared and checked. The kernel decides which calls it grants; a call that fails, a
failed `CHECK` and a fault end the process. A snap that runs may leave any bytes in its writable
mappings.
-/

namespace Silifuzz

def PROT_WRITE : Nat := 2

/-- A store to a page with this protection does not fault. -/
def allowsWrite (prot : Nat) : Bool := prot &&& PROT_WRITE != 0

def SnapMemoryMapping.writable (mapping : SnapMemoryMapping) : Bool := allowsWrite mapping.perms

namespace RunnerMemory

open AddressSpaces SnapReader Images

def kPageSize : Nat := 4096

/-- `PROT_READ | PROT_WRITE` -/
def kInitialMappingProtection : Nat := 3

abbrev Memory := Space Nat (BitVec 8)

inductive Call where
  | mmap (address length : Nat)
  | mprotect (address length : Nat)
  | munmap (address length : Nat)
  deriving DecidableEq, Repr

structure Kernel where
  grants : Call → Bool
  /-- A load from a page with this protection does not fault. -/
  readable : Nat → Bool

/-- The bytes of all pages that a length takes. -/
def pages (length : Nat) : Nat := (length + (kPageSize - 1)) / kPageSize * kPageSize

def isPageAligned (value : Nat) : Bool := value % kPageSize == 0

section

variable (kernel : Kernel)

/-- `mmap` with `MAP_FIXED`, of pages with no file behind them. -/
def mmapAnonymous (m : Memory) (address length prot : Nat) : Option Memory :=
  if isPageAligned address && decide (0 < length) && kernel.grants (.mmap address length) then
    some (mapRange m address (pages length) prot fun _ => 0)
  else none

/-- `mmap` with `MAP_FIXED`, of the pages of a file. There is nothing behind its last page. -/
def mmapFile (m : Memory) (address length prot : Nat) (file : ByteData) (offset : Nat) :
    Option Memory :=
  if isPageAligned address && decide (0 < length) && kernel.grants (.mmap address length) then
    let there := mapRange m address (pages length) prot fun i => file.getD (offset + i) 0
    some fun p =>
      if Within address (pages length) p ∧ pages file.length ≤ offset + (p - address) then none
      else there p
  else none

def mprotect (m : Memory) (address length prot : Nat) : Option Memory :=
  if isPageAligned address && kernel.grants (.mprotect address length) then
    some (protectRange m address (pages length) prot)
  else none

def munmap (m : Memory) (address length : Nat) : Option Memory :=
  if isPageAligned address && decide (0 < length) && kernel.grants (.munmap address length) then
    some (unmapRange m address (pages length))
  else none

end

/-- Where `SetupMemoryBytes` copies what. -/
def datum (b : SnapMemoryBytes) : Datum (BitVec 8) := ⟨b.startAddress, b.bytes⟩

def setupMemoryBytes (m : Memory) (b : SnapMemoryBytes) : Option Memory :=
  store allowsWrite m (datum b)

/-- Whether the memory is that of the memory bytes, or a fault. -/
def verifyMemoryBytes (kernel : Kernel) (m : Memory) (b : SnapMemoryBytes) : Option Bool := do
  let actual ← load kernel.readable m b.startAddress b.size
  return actual == b.bytes

/-! ## The corpus -/

/-- A corpus that is loaded at an address, with the bytes that it has there, and its file if there
is a `corpus_fd`. -/
structure LoadedCorpus where
  arch : Architecture
  address : Nat
  image : ByteData
  corpusFd : Option ByteData

namespace LoadedCorpus

variable (c : LoadedCorpus)

/-- The offsets of the snaps. -/
def snapOffsets : List Nat :=
  (elements c.address c.image .snapPointer Offset.SnapCorpus.snaps).map (pointee c.address c.image)

def snap (offset : Nat) : Snap := snapAt c.address c.image c.arch offset

/-- The offsets of the mappings of the snap at an offset. -/
def mappingOffsets (snap : Nat) : List Nat :=
  elements c.address c.image .snapMemoryMapping (snap + Offset.Snap.memoryMappings)

def mapping (offset : Nat) : SnapMemoryMapping := memoryMappingAt c.address c.image offset

/-- `&memory_mapping.memory_bytes[0]` -/
def firstMemoryBytes (mapping : Nat) : Nat :=
  pointee c.address c.image
    (mapping + Offset.SnapMemoryMapping.memoryBytes + Offset.SnapArray.elements)

/-- `memory_mapping.memory_bytes[0].data.byte_values.elements` -/
def firstElements (mapping : Nat) : Nat :=
  number c.image (c.firstMemoryBytes mapping + Offset.SnapMemoryBytes.byteValues +
    Offset.SnapArray.elements) 8

def isExpectedArch : Bool :=
  number c.image Offset.SnapCorpus.architectureId 1 == c.arch.toInt

def canDirectMap (mapping : Nat) : Bool :=
  let memoryMapping := c.mapping mapping
  let first := c.firstMemoryBytes mapping
  let memoryBytes := memoryBytesAt c.address c.image first
  if memoryMapping.writable then false
  else if number c.image
      (mapping + Offset.SnapMemoryMapping.memoryBytes + Offset.SnapArray.size) 8 != 1 then false
  else if memoryBytes.repeating then false
  else if memoryBytes.startAddress != memoryMapping.startAddress ||
      number c.image (first + Offset.SnapMemoryBytes.byteValues + Offset.SnapArray.size) 8 !=
        memoryMapping.numBytes then false
  else isPageAligned (c.firstElements mapping)

end LoadedCorpus

section

variable (kernel : Kernel) (c : LoadedCorpus)

/-- What is writable is initialized before each run. -/
def initializeContents (m : Memory) (mapping : SnapMemoryMapping) : Option Memory :=
  if mapping.writable then some m else mapping.memoryBytes.foldlM setupMemoryBytes m

/-- The branch of `CreateMemoryMapping` that copies. -/
def createCopiedMapping (m : Memory) (mapping : SnapMemoryMapping) : Option Memory := do
  let m ← mmapAnonymous kernel m mapping.startAddress mapping.numBytes kInitialMappingProtection
  let m ← initializeContents m mapping
  if mapping.perms != kInitialMappingProtection then
    mprotect kernel m mapping.startAddress mapping.numBytes mapping.perms
  else return m

/-- The branch that maps the file of the corpus. -/
def createDirectMapping (file : ByteData) (m : Memory) (mapping : Nat) : Option Memory :=
  let offset := c.firstElements mapping - c.address
  if isPageAligned offset then
    mmapFile kernel m (c.mapping mapping).startAddress (c.mapping mapping).numBytes
      (c.mapping mapping).perms file offset
  else none

def createMemoryMapping (m : Memory) (mapping : Nat) : Option Memory :=
  match c.corpusFd with
  | some file =>
    if c.canDirectMap mapping then createDirectMapping kernel c file m mapping
    else createCopiedMapping kernel m (c.mapping mapping)
  | none => createCopiedMapping kernel m (c.mapping mapping)

def mapSnap (m : Memory) (snap : Nat) : Option Memory :=
  (c.mappingOffsets snap).foldlM (createMemoryMapping kernel c) m

def rangesOverlap (start₁ limit₁ start₂ limit₂ : Nat) : Bool :=
  decide (max start₁ start₂ < min limit₁ limit₂)

def snapOverlapsWithProcMapsEntries (snap : Snap) (entries : List ProcMaps.ProcMapsEntry) : Bool :=
  snap.memoryMappings.any fun mapping => entries.any fun entry =>
    rangesOverlap mapping.startAddress ((mapping.startAddress + mapping.numBytes) % 2 ^ 64)
      entry.startAddress.toNat entry.limitAddress.toNat

/-- `[stack]`, `[vdso]` and `[vvar]`. -/
def stackName : List (BitVec 8) := [0x5b, 0x73, 0x74, 0x61, 0x63, 0x6b, 0x5d]

def vdsoName : List (BitVec 8) := [0x5b, 0x76, 0x64, 0x73, 0x6f, 0x5d]

def vvarName : List (BitVec 8) := [0x5b, 0x76, 0x76, 0x61, 0x72, 0x5d]

/-- What becomes of an entry, and of the memory. -/
def applyProcMapsFixup (stackLimit : BitVec 64)
    (s : List ProcMaps.ProcMapsEntry × Memory) (e : ProcMaps.ProcMapsEntry) :
    Option (List ProcMaps.ProcMapsEntry × Memory) :=
  if e.name.cString = stackName then
    let start := e.limitAddress - stackLimit
    if start ≤ e.startAddress then some (s.1 ++ [{ e with startAddress := start }], s.2) else none
  else if e.name.cString = vdsoName ∨ e.name.cString = vvarName then do
    let m ← munmap kernel s.2 e.startAddress.toNat (e.limitAddress - e.startAddress).toNat
    return (s.1 ++ [e], m)
  else some (s.1 ++ [e], s.2)

def applyProcMapsFixups (stackLimit : BitVec 64) (entries : List ProcMaps.ProcMapsEntry)
    (m : Memory) : Option (List ProcMaps.ProcMapsEntry × Memory) :=
  entries.foldlM (applyProcMapsFixup kernel stackLimit) ([], m)

/-- One turn of the loop of `MapCorpus`. -/
def mapNextSnap (entries : List ProcMaps.ProcMapsEntry) (m : Memory) (snap : Nat) :
    Option Memory :=
  if snapOverlapsWithProcMapsEntries (c.snap snap) entries then none else mapSnap kernel c m snap

def mapCorpus (stackLimit : BitVec 64) (entries : List ProcMaps.ProcMapsEntry) (m : Memory) :
    Option Memory := do
  guard c.isExpectedArch
  let (entries, m) ← applyProcMapsFixups kernel stackLimit entries m
  c.snapOffsets.foldlM (mapNextSnap kernel c entries) m

end

/-! ## Running a snap -/

section

variable (kernel : Kernel)

/-- `PrepareSnapMemory` of a mapping. -/
def prepareMapping (m : Memory) (mapping : SnapMemoryMapping) : Option Memory :=
  if mapping.writable then mapping.memoryBytes.foldlM setupMemoryBytes m else some m

def prepareSnapMemory (m : Memory) (snap : Snap) : Option Memory :=
  snap.memoryMappings.foldlM prepareMapping m

structure EndSpot where
  signum : Nat
  registers : SnapRegisterState
  registerChecksum : RegisterChecksum
  deriving DecidableEq

/-- `SILIFUZZ_INTEGER_INSTRUCTIONS_ONLY` leaves out the floating point registers. -/
def registersMatch (integerOnly : Bool) (snap : Snap) (endSpot : EndSpot) : Bool :=
  endSpot.registers.gregs == snap.endStateRegisters.gregs &&
    (integerOnly || endSpot.registers.fpregs == snap.endStateRegisters.fpregs)

def checksumDiffers (integerOnly : Bool) (snap : Snap) (endSpot : EndSpot) : Bool :=
  let snapChecksum := snap.endStateRegisterChecksum
  !integerOnly && (snapChecksum.registerGroups != 0 &&
    snapChecksum.registerGroups == endSpot.registerChecksum.registerGroups &&
    snapChecksum != endSpot.registerChecksum)

/-- The loop of `EndSpotToOutcome`: the first mismatch ends it. -/
def verifyEndState (m : Memory) : List SnapMemoryBytes → Option RunSnapOutcome
  | [] => some .kAsExpected
  | b :: l => do
    if ← verifyMemoryBytes kernel m b then verifyEndState m l else return .kMemoryMismatch

def endSpotToOutcome (integerOnly : Bool) (m : Memory) (snap : Snap) (endSpot : EndSpot) :
    Option RunSnapOutcome :=
  if endSpot.signum ≠ 0 then
    if endSpot.signum = Runner.SIGXCPU ∨ endSpot.signum = Runner.SIGALRM then
      some .kExecutionRunaway
    else some .kExecutionMisbehave
  else if !registersMatch integerOnly snap endSpot then some .kRegisterStateMismatch
  else if checksumDiffers integerOnly snap endSpot then some .kRegisterStateMismatch
  else verifyEndState kernel m snap.endStateMemoryBytes

/-- How a snap ran: where it ended, and what it left in its writable mappings. -/
structure Execution where
  endSpot : EndSpot
  left : Nat → BitVec 8

/-- The memory after the snap. -/
def executed (m : Memory) (snap : Snap) (e : Execution) : Memory := fun p =>
  if snap.memoryMappings.any fun mapping =>
      mapping.writable && decide (Within mapping.startAddress mapping.numBytes p) then
    (m p).map fun x => { x with value := e.left p }
  else m p

structure RunSnapOptions where
  skipEndStateCheck : Bool
  integerOnly : Bool

/-- What `RunSnap` comes to. -/
structure RunSnapResult where
  snap : Snap
  /-- The memory when the snap is entered. -/
  entered : Memory
  outcome : RunSnapOutcome

def outcomeOf (options : RunSnapOptions) (m : Memory) (snap : Snap) (endSpot : EndSpot) :
    Option RunSnapOutcome :=
  if options.skipEndStateCheck then some .kAsExpected
  else endSpotToOutcome kernel options.integerOnly m snap endSpot

/-- `RunSnap`, of a snap that runs like this from the memory that it finds. -/
def runSnap (options : RunSnapOptions) (m : Memory) (snap : Snap) (execute : Memory → Execution) :
    Option (Memory × RunSnapResult) := do
  let entered ← prepareSnapMemory m snap
  let e := execute entered
  let ended := executed entered snap e
  let outcome ← outcomeOf kernel options ended snap e.endSpot
  return (ended, ⟨snap, entered, outcome⟩)

/-- The snap with this index runs in this way. -/
structure Turn where
  snap : Nat
  execute : Snap → Memory → Execution

def turn (options : RunSnapOptions) (snaps : List Snap) (m : Memory) (t : Turn) :
    Option (Memory × List RunSnapResult) := do
  let snap ← snaps[t.snap]?
  let (m, result) ← runSnap kernel options m snap (t.execute snap)
  return (m, [result])

/-- Snaps that are run one after another, in any order. -/
def runTurns (options : RunSnapOptions) (snaps : List Snap) (m : Memory) (turns : List Turn) :
    Option (Memory × List RunSnapResult) :=
  Schedules.run (turn kernel options snaps) m turns

end

/-! ## The corpus in the memory -/

def data (mapping : SnapMemoryMapping) : List (Datum (BitVec 8)) := mapping.memoryBytes.map datum

end RunnerMemory

namespace SnapMemoryMapping

open AddressSpaces

def Covers (mapping : SnapMemoryMapping) (p : Nat) : Prop :=
  Within mapping.startAddress mapping.numBytes p

instance (mapping : SnapMemoryMapping) (p : Nat) : Decidable (mapping.Covers p) :=
  inferInstanceAs (Decidable (Within _ _ _))

/-- What a snap has at an address when it starts. -/
def byteAt (mapping : SnapMemoryMapping) (p : Nat) : BitVec 8 :=
  (lastAt (RunnerMemory.data mapping) p).getD 0

/-- Whole pages, with memory bytes inside of them. -/
structure Sound (mapping : SnapMemoryMapping) : Prop where
  aligned : mapping.startAddress % RunnerMemory.kPageSize = 0
  whole : mapping.numBytes % RunnerMemory.kPageSize = 0
  some : 0 < mapping.numBytes
  fits : mapping.startAddress + mapping.numBytes < 2 ^ 64
  inside : ∀ b ∈ mapping.memoryBytes, mapping.startAddress ≤ b.startAddress ∧
    b.startAddress + b.bytes.length ≤ mapping.startAddress + mapping.numBytes

theorem Sound.covers {mapping : SnapMemoryMapping} (sound : mapping.Sound)
    {d : Datum (BitVec 8)} (mem : d ∈ RunnerMemory.data mapping) {p : Nat} (here : d.Covers p) :
    mapping.Covers p := by
  obtain ⟨b, memB, rfl⟩ := List.mem_map.mp mem
  obtain ⟨low, high⟩ := sound.inside b memB
  obtain ⟨first, last⟩ := here
  change b.startAddress ≤ p at first
  change p < b.startAddress + b.bytes.length at last
  exact ⟨by omega, by omega⟩

end SnapMemoryMapping

namespace RunnerMemory

open AddressSpaces SnapReader Images

variable {kernel : Kernel} {c : LoadedCorpus} {m m' : Memory} {mapping : SnapMemoryMapping}
  {p : Nat}

/-- The mapping as `MapCorpus` leaves it: what is writable has no bytes yet. -/
def place (m : Memory) (mapping : SnapMemoryMapping) : Memory :=
  mapRange m mapping.startAddress mapping.numBytes mapping.perms fun i =>
    if mapping.writable then 0 else mapping.byteAt (mapping.startAddress + i)

theorem place_covered (covered : mapping.Covers p) : place m mapping p =
    some ⟨mapping.perms, if mapping.writable then 0 else mapping.byteAt p⟩ := by
  rw [place, mapRange_within covered, Nat.add_sub_cancel' covered.1]

theorem place_uncovered (uncovered : ¬mapping.Covers p) : place m mapping p = m p :=
  mapRange_outside uncovered

theorem pages_whole (whole : p % kPageSize = 0) : pages p = p := by
  unfold pages kPageSize at *
  omega

theorem foldlM_setup (m : Memory) (mapping : SnapMemoryMapping) :
    mapping.memoryBytes.foldlM setupMemoryBytes m = stores allowsWrite m (data mapping) := by
  rw [stores, data, List.foldlM_map]
  rfl

theorem mmapAnonymous_ok {address length prot : Nat} (whole : length % kPageSize = 0)
    (run : mmapAnonymous kernel m address length prot = some m') :
    m' = mapRange m address length prot fun _ => 0 := by
  unfold mmapAnonymous at run
  split at run
  · rw [pages_whole whole] at run
    exact (Option.some.inj run).symm
  · cases run

theorem mprotect_ok {address length prot : Nat} (whole : length % kPageSize = 0)
    (run : mprotect kernel m address length prot = some m') :
    m' = protectRange m address length prot := by
  unfold mprotect at run
  split at run
  · rw [pages_whole whole] at run
    exact (Option.some.inj run).symm
  · cases run

/-- The branch that copies places the mapping. -/
theorem createCopiedMapping_ok (sound : mapping.Sound)
    (run : createCopiedMapping kernel m mapping = some m') : m' = place m mapping := by
  obtain ⟨m₁, mapped, rest₁⟩ := Option.bind_eq_some_iff.mp run
  obtain ⟨m₂, filled, protects⟩ := Option.bind_eq_some_iff.mp rest₁
  obtain rfl := mmapAnonymous_ok sound.whole mapped
  have contents : m₂ = mapRange m mapping.startAddress mapping.numBytes kInitialMappingProtection
      fun i => if mapping.writable then 0 else mapping.byteAt (mapping.startAddress + i) := by
    unfold initializeContents at filled
    split at filled
    · next writable =>
      obtain rfl := Option.some.inj filled
      simp only [writable, if_true]
    · next fixed =>
      rw [foldlM_setup] at filled
      rw [stores_ok filled, written_mapRange fun d mem p => sound.covers mem]
      simp only [fixed]
      rfl
  rw [contents] at protects
  split at protects
  · rw [mprotect_ok sound.whole protects, protectRange_mapRange]
    rfl
  · next same =>
    obtain rfl := Option.some.inj protects
    have perms : mapping.perms = kInitialMappingProtection := by simpa using same
    rw [place, perms]

/-- A kernel that grants everything lets every mapping be made. -/
theorem createCopiedMapping_some (sound : mapping.Sound)
    (grants : ∀ call, kernel.grants call = true) :
    ∃ m', createCopiedMapping kernel m mapping = some m' := by
  have aligned : isPageAligned mapping.startAddress = true := beq_iff_eq.mpr sound.aligned
  have mapped : mmapAnonymous kernel m mapping.startAddress mapping.numBytes
      kInitialMappingProtection = some (mapRange m mapping.startAddress mapping.numBytes
        kInitialMappingProtection fun _ => 0) := by
    unfold mmapAnonymous
    rw [aligned, grants, decide_eq_true sound.some, pages_whole sound.whole]
    rfl
  have filled : ∃ m₁, initializeContents (mapRange m mapping.startAddress mapping.numBytes
      kInitialMappingProtection fun _ => 0) mapping = some m₁ := by
    unfold initializeContents
    split
    · exact ⟨_, rfl⟩
    · rw [foldlM_setup]
      exact ⟨_, stores_some fun d mem => storable_iff.mpr fun p here =>
        ⟨_, mapRange_within (sound.covers mem here), rfl⟩⟩
  obtain ⟨m₁, filled⟩ := filled
  unfold createCopiedMapping
  rw [mapped, Option.bind_eq_bind, Option.bind_some, filled, Option.bind_some]
  split
  · unfold mprotect
    rw [aligned, grants]
    exact ⟨_, rfl⟩
  · exact ⟨_, rfl⟩

/-! ## Mapped from the file -/

/-- The file has the bytes of the corpus at the only memory bytes of a mapping. -/
structure Backed (c : LoadedCorpus) (file : ByteData) (mapping : Nat) : Prop where
  same : piece file (c.firstElements mapping - c.address) (c.mapping mapping).numBytes =
    piece c.image (c.firstElements mapping - c.address) (c.mapping mapping).numBytes
  inside : c.firstElements mapping - c.address + (c.mapping mapping).numBytes ≤ file.length

/-- What can be mapped from the file, with its memory bytes. -/
structure Direct (c : LoadedCorpus) (mapping : Nat) : Prop where
  fixed : (c.mapping mapping).writable = false
  single : number c.image
    (mapping + Offset.SnapMemoryMapping.memoryBytes + Offset.SnapArray.size) 8 = 1
  plain : (memoryBytesAt c.address c.image (c.firstMemoryBytes mapping)).repeating = false
  size : number c.image (c.firstMemoryBytes mapping + Offset.SnapMemoryBytes.byteValues +
    Offset.SnapArray.size) 8 = (c.mapping mapping).numBytes
  memoryBytes : (c.mapping mapping).memoryBytes = [⟨(c.mapping mapping).startAddress, .byteValues
    (piece c.image (c.firstElements mapping - c.address) (c.mapping mapping).numBytes)⟩]
  aligned : c.firstElements mapping % kPageSize = 0

/-- The bytes that are not a run, as they lie in the corpus. -/
theorem memoryBytesAt_plain {base o : Nat} {image : ByteData}
    (plain : (memoryBytesAt base image o).repeating = false) :
    (memoryBytesAt base image o).data = .byteValues (piece image
      (number image (o + Offset.SnapMemoryBytes.byteValues + Offset.SnapArray.elements) 8 - base)
      (number image (o + Offset.SnapMemoryBytes.byteValues + Offset.SnapArray.size) 8)) := by
  unfold SnapMemoryBytes.repeating memoryBytesAt at *
  dsimp only at plain ⊢
  split
  · next repeats =>
    rw [if_pos repeats] at plain
    cases plain
  · rfl

theorem canDirectMap_iff {o : Nat} : c.canDirectMap o = true ↔ (c.mapping o).writable = false ∧
    number c.image (o + Offset.SnapMemoryMapping.memoryBytes + Offset.SnapArray.size) 8 = 1 ∧
    (memoryBytesAt c.address c.image (c.firstMemoryBytes o)).repeating = false ∧
    (memoryBytesAt c.address c.image (c.firstMemoryBytes o)).startAddress =
      (c.mapping o).startAddress ∧
    number c.image (c.firstMemoryBytes o + Offset.SnapMemoryBytes.byteValues +
      Offset.SnapArray.size) 8 = (c.mapping o).numBytes ∧
    isPageAligned (c.firstElements o) = true := by
  simp [LoadedCorpus.canDirectMap, and_assoc]

theorem canDirectMap_direct {o : Nat} (can : c.canDirectMap o = true) : Direct c o := by
  obtain ⟨fixed, single, plain, start, size, aligned⟩ := canDirectMap_iff.mp can
  have bytes := memoryBytesAt_plain plain
  rw [size] at bytes
  refine ⟨fixed, single, plain, size, ?_, eq_of_beq aligned⟩
  change (elements c.address c.image .snapMemoryBytes
    (o + Offset.SnapMemoryMapping.memoryBytes)).map (memoryBytesAt c.address c.image) = _
  unfold elements
  rw [single, List.range_one, List.map_singleton, List.map_singleton, Nat.zero_mul,
    Nat.add_zero, ← start]
  change [memoryBytesAt c.address c.image (c.firstMemoryBytes o)] = _
  exact congrArg (fun data => [SnapMemoryBytes.mk _ data]) bytes

theorem createDirectMapping_ok {o : Nat} {file : ByteData} (sound : (c.mapping o).Sound)
    (direct : Direct c o) (backed : Backed c file o)
    (run : createDirectMapping kernel c file m o = some m') : m' = place m (c.mapping o) := by
  have only (p : Nat) (covered : (c.mapping o).Covers p) : (c.mapping o).byteAt p =
      file.getD (c.firstElements o - c.address + (p - (c.mapping o).startAddress)) 0 := by
    have short : p - (c.mapping o).startAddress < (c.mapping o).numBytes := by
      obtain ⟨low, high⟩ := covered
      omega
    rw [SnapMemoryMapping.byteAt, data, direct.memoryBytes, List.map_singleton, lastAt_cons]
    change (Option.or none (Datum.valueAt ⟨_, SnapMemoryBytes.bytes ⟨_, .byteValues _⟩⟩ p)).getD 0 = _
    rw [Option.none_or, Datum.valueAt, if_pos covered.1]
    change (piece c.image _ _)[_]?.getD 0 = _
    rw [← backed.same, getElem?_piece short, List.getD_eq_getElem?_getD]
  have room : pages file.length = file.length ∨ file.length < pages file.length := by
    unfold pages kPageSize
    omega
  unfold createDirectMapping at run
  dsimp only at run
  split at run
  · unfold mmapFile at run
    split at run
    · rw [pages_whole sound.whole] at run
      obtain rfl := Option.some.inj run
      funext p
      by_cases covered : (c.mapping o).Covers p
      · have inside := backed.inside
        rw [place_covered covered, if_neg, mapRange_within covered, direct.fixed, only p covered]
        · rfl
        · rintro ⟨-, beyond⟩
          obtain ⟨low, high⟩ := covered
          omega
      · rw [place_uncovered covered, if_neg fun both => covered both.1, mapRange_outside covered]
    · cases run
  · cases run

/-- The mappings of a corpus are whole pages, and what can be mapped from its file is there. -/
structure LoadedCorpus.Sound (c : LoadedCorpus) : Prop where
  page : c.address % kPageSize = 0
  mappings : ∀ snap ∈ c.snapOffsets, ∀ o ∈ c.mappingOffsets snap, (c.mapping o).Sound
  backed : ∀ file, c.corpusFd = some file → ∀ snap ∈ c.snapOffsets, ∀ o ∈ c.mappingOffsets snap,
    c.canDirectMap o = true → Backed c file o

/-- The snaps of a corpus. -/
def LoadedCorpus.snaps (c : LoadedCorpus) : List Snap := c.snapOffsets.map c.snap

theorem LoadedCorpus.memoryMappings_snap (c : LoadedCorpus) (snap : Nat) :
    (c.snap snap).memoryMappings = (c.mappingOffsets snap).map c.mapping := rfl

theorem createMemoryMapping_ok {snap o : Nat} (sound : c.Sound) (mem : snap ∈ c.snapOffsets)
    (memO : o ∈ c.mappingOffsets snap) (run : createMemoryMapping kernel c m o = some m') :
    m' = place m (c.mapping o) := by
  have whole := sound.mappings snap mem o memO
  unfold createMemoryMapping at run
  cases fd : c.corpusFd with
  | none =>
    rw [fd] at run
    exact createCopiedMapping_ok whole run
  | some file =>
    rw [fd] at run
    dsimp only at run
    split at run
    · next can =>
      have backed := sound.backed file fd snap mem o memO can
      exact createDirectMapping_ok whole (canDirectMap_direct can) backed run
    · exact createCopiedMapping_ok whole run

theorem mapSnap_ok {snap : Nat} (sound : c.Sound) (mem : snap ∈ c.snapOffsets)
    (run : mapSnap kernel c m snap = some m') :
    m' = (c.snap snap).memoryMappings.foldl place m := by
  rw [c.memoryMappings_snap, List.foldl_map]
  exact Loops.foldlM_foldl (fun o memO _ _ => createMemoryMapping_ok sound mem memO) run

/-- The mappings of all snaps, in the order in which they are placed. -/
def mappings (snaps : List Snap) : List SnapMemoryMapping := snaps.flatMap (·.memoryMappings)

/-- **The mappings of the corpus are placed one after another**, none of them where an entry of the
process is, whether or not the file is used. -/
theorem mapCorpus_ok {stackLimit : BitVec 64} {entries : List ProcMaps.ProcMapsEntry}
    (sound : c.Sound) (run : mapCorpus kernel c stackLimit entries m = some m') :
    ∃ entries' m₀, applyProcMapsFixups kernel stackLimit entries m = some (entries', m₀) ∧
      m' = (mappings c.snaps).foldl place m₀ ∧
      ∀ snap ∈ c.snaps, snapOverlapsWithProcMapsEntries snap entries' = false := by
  obtain ⟨_, -, rest₁⟩ := Option.bind_eq_some_iff.mp run
  obtain ⟨⟨entries', m₀⟩, fixed, loop⟩ := Option.bind_eq_some_iff.mp rest₁
  refine ⟨entries', m₀, fixed, ?_, ?_⟩
  · rw [mappings, List.foldl_flatMap, LoadedCorpus.snaps, List.foldl_map]
    refine Loops.foldlM_foldl (fun snap mem m m' run => ?_) loop
    unfold mapNextSnap at run
    split at run
    · cases run
    · exact mapSnap_ok sound mem run
  · have all := Loops.foldlM_after (P := fun done (_ : Memory) => ∀ snap ∈ done,
      snapOverlapsWithProcMapsEntries (c.snap snap) entries' = false) (by simp)
      (fun done snap rest m m' _ before run => by
        unfold mapNextSnap at run
        split at run
        · cases run
        · next apart =>
          intro other mem
          rcases List.mem_append.mp mem with old | new
          · exact before other old
          · rw [List.mem_singleton.mp new]
            exact Bool.eq_false_of_not_eq_true apart) loop
    exact List.forall_mem_map.mpr all

theorem createMemoryMapping_direct {snap o : Nat} (sound : c.Sound) (mem : snap ∈ c.snapOffsets)
    (memO : o ∈ c.mappingOffsets snap)
    (run : createMemoryMapping kernel { c with corpusFd := none } m o = some m') :
    createMemoryMapping kernel c m o = some m' := by
  have whole := sound.mappings snap mem o memO
  change createCopiedMapping kernel m (c.mapping o) = some m' at run
  suffices runs : ∃ m₁, createMemoryMapping kernel c m o = some m₁ by
    obtain ⟨m₁, direct⟩ := runs
    rw [direct, createMemoryMapping_ok sound mem memO direct, createCopiedMapping_ok whole run]
  unfold createMemoryMapping
  cases fd : c.corpusFd with
  | none => exact ⟨m', run⟩
  | some file =>
    dsimp only
    split
    · next can =>
      have aligned := (canDirectMap_direct can).aligned
      have page := sound.page
      obtain ⟨_, granted, -⟩ := Option.bind_eq_some_iff.mp run
      unfold mmapAnonymous at granted
      unfold createDirectMapping mmapFile
      split at granted
      · next grants =>
        rw [if_pos, if_pos grants]
        · exact ⟨_, rfl⟩
        · unfold isPageAligned kPageSize at *
          rw [beq_iff_eq]
          omega
      · cases granted
    · exact ⟨m', run⟩

/-- **What is mapped from the file is what would be copied**: wherever the process can copy the
corpus, it has the very same memory if it takes what it can from the file. -/
theorem mapCorpus_direct {stackLimit : BitVec 64} {entries : List ProcMaps.ProcMapsEntry}
    (sound : c.Sound)
    (run : mapCorpus kernel { c with corpusFd := none } stackLimit entries m = some m') :
    mapCorpus kernel c stackLimit entries m = some m' := by
  obtain ⟨u, expected, rest₁⟩ := Option.bind_eq_some_iff.mp run
  obtain ⟨⟨entries', m₀⟩, fixed, loop⟩ := Option.bind_eq_some_iff.mp rest₁
  refine Option.bind_eq_some_iff.mpr ⟨u, expected, Option.bind_eq_some_iff.mpr
    ⟨(entries', m₀), fixed, Loops.foldlM_mono (fun snap mem m m' run => ?_) loop⟩⟩
  unfold mapNextSnap at run ⊢
  split at run
  · cases run
  · next apart =>
    refine (if_neg apart).trans ?_
    exact Loops.foldlM_mono (fun o memO _ _ => createMemoryMapping_direct sound mem memO) run

/-- **The corpus is mapped wherever nothing of the process is in its way**, by a kernel that grants
everything. -/
theorem mapCorpus_some {stackLimit : BitVec 64} {entries entries' : List ProcMaps.ProcMapsEntry}
    {m₀ : Memory} (sound : c.Sound) (expected : c.isExpectedArch = true)
    (grants : ∀ call, kernel.grants call = true)
    (fixed : applyProcMapsFixups kernel stackLimit entries m = some (entries', m₀))
    (apart : ∀ snap ∈ c.snaps, snapOverlapsWithProcMapsEntries snap entries' = false) :
    ∃ m', mapCorpus kernel c stackLimit entries m = some m' := by
  have next : ∀ snap ∈ c.snapOffsets, ∀ m,
      ∃ m', mapNextSnap kernel { c with corpusFd := none } entries' m snap = some m' := by
    intro snap mem m
    obtain ⟨m', run, -⟩ := Loops.foldlM_run (P := fun _ _ => True)
      (f := createMemoryMapping kernel { c with corpusFd := none }) (l := c.mappingOffsets snap)
      (s := m) trivial fun done o rest m whole _ => by
        have memO : o ∈ c.mappingOffsets snap :=
          whole ▸ List.mem_append_right done List.mem_cons_self
        obtain ⟨m', made⟩ :=
          createCopiedMapping_some (m := m) (sound.mappings snap mem o memO) grants
        exact ⟨m', made, trivial⟩
    have free : ¬snapOverlapsWithProcMapsEntries (c.snap snap) entries' = true := by
      rw [apart _ (List.mem_map_of_mem mem)]
      decide
    exact ⟨m', (if_neg free).trans run⟩
  obtain ⟨m', run, -⟩ := Loops.foldlM_run (P := fun _ _ => True)
    (f := mapNextSnap kernel { c with corpusFd := none } entries') (l := c.snapOffsets)
    (s := m₀) trivial fun done snap rest m whole _ => by
      obtain ⟨m', mapped⟩ := next snap (whole ▸ List.mem_append_right done List.mem_cons_self) m
      exact ⟨m', mapped, trivial⟩
  exact ⟨m', mapCorpus_direct sound (Option.bind_eq_some_iff.mpr ⟨(), if_pos expected,
    Option.bind_eq_some_iff.mpr ⟨_, fixed, run⟩⟩)⟩

theorem foldl_place_outside {l : List SnapMemoryMapping}
    (outside : ∀ mapping ∈ l, ¬mapping.Covers p) : l.foldl place m p = m p := by
  induction l generalizing m with
  | nil => rfl
  | cons mapping l ih =>
    rw [List.foldl_cons, ih fun other mem => outside other (List.mem_cons_of_mem _ mem),
      place_uncovered (outside mapping List.mem_cons_self)]

/-! ## Snaps that share addresses -/

/-- Two mappings have no address in common. -/
def Disjoint (a b : SnapMemoryMapping) : Prop :=
  Apart a.startAddress a.numBytes b.startAddress b.numBytes

instance : Std.Symm Disjoint := ⟨fun _ _ => Apart.symm⟩

/-- Two mappings that may be in the memory at once: only writable ones share addresses. -/
def Shares (a b : SnapMemoryMapping) : Prop :=
  Disjoint a b ∨ a.writable = true ∧ b.writable = true ∧ a.perms = b.perms

instance : Std.Symm Shares :=
  ⟨fun _ _ shares => shares.imp Apart.symm fun ⟨wa, wb, same⟩ => ⟨wb, wa, same.symm⟩⟩

theorem Disjoint.uncovered {a b : SnapMemoryMapping} (disjoint : Disjoint a b)
    (covered : a.Covers p) : ¬b.Covers p := by
  rintro ⟨low, high⟩
  obtain ⟨low', high'⟩ := covered
  rcases disjoint with before | after <;> omega

/-- Snaps that a process can run: a writable byte has its own memory bytes to start with, and what
is checked in the end is in the mappings. -/
structure Runnable (snaps : List Snap) : Prop where
  sound : ∀ mapping ∈ mappings snaps, mapping.Sound
  filled : ∀ mapping ∈ mappings snaps, mapping.writable = true → ∀ p, mapping.Covers p →
    ∃ d ∈ data mapping, d.Covers p
  apart : ∀ snap ∈ snaps, snap.memoryMappings.Pairwise Disjoint
  shares : (mappings snaps).Pairwise Shares
  ended : ∀ snap ∈ snaps, ∀ b ∈ snap.endStateMemoryBytes, ∀ p, (datum b).Covers p →
    ∃ mapping ∈ snap.memoryMappings, mapping.Covers p

section

variable {snaps : List Snap} {snap : Snap}

theorem mem_mappings (mem : snap ∈ snaps) (memM : mapping ∈ snap.memoryMappings) :
    mapping ∈ mappings snaps := List.mem_flatMap.mpr ⟨snap, mem, memM⟩

/-- A mapping that is only read shares no address with a writable one. -/
theorem Runnable.fixed (runnable : Runnable snaps) {a b : SnapMemoryMapping}
    (memA : a ∈ mappings snaps) (memB : b ∈ mappings snaps) (fixed : a.writable = false)
    (writable : b.writable = true) (covered : a.Covers p) : ¬b.Covers p := by
  have other : a ≠ b := by
    rintro rfl
    rw [writable] at fixed
    cases fixed
  rcases runnable.shares.forall memA memB other with disjoint | ⟨writableA, -⟩
  · exact disjoint.uncovered covered
  · rw [writableA] at fixed
    cases fixed

/-- Two mappings of a snap that cover the same address are one. -/
theorem Runnable.same (runnable : Runnable snaps) (mem : snap ∈ snaps) {a b : SnapMemoryMapping}
    (memA : a ∈ snap.memoryMappings) (memB : b ∈ snap.memoryMappings) (covered : a.Covers p)
    (covered' : b.Covers p) : a = b := by
  by_contra other
  exact ((runnable.apart snap mem).forall memA memB other).uncovered covered covered'

/-- The mapping is in the memory, with its bytes where nothing can be written. -/
def Held (m : Memory) (mapping : SnapMemoryMapping) : Prop :=
  ∀ p, mapping.Covers p → ∃ v, m p = some ⟨mapping.perms, v⟩ ∧
    (mapping.writable = false → v = mapping.byteAt p)

theorem place_held : Held (place m mapping) mapping := fun p covered =>
  ⟨_, place_covered covered, fun fixed => by rw [fixed]; rfl⟩

theorem Held.place {other : SnapMemoryMapping} (held : Held m mapping)
    (shares : Shares mapping other) : Held (place m other) mapping := by
  intro p covered
  by_cases there : other.Covers p
  · rcases shares with disjoint | ⟨writable, -, same⟩
    · exact absurd there (disjoint.uncovered covered)
    · refine ⟨_, by rw [place_covered there, same], fun fixed => ?_⟩
      rw [writable] at fixed
      cases fixed
  · rw [place_uncovered there]
    exact held p covered

theorem foldl_place_held {l : List SnapMemoryMapping} (shares : l.Pairwise Shares) :
    ∀ mapping ∈ l, Held (l.foldl place m) mapping := by
  have later (l : List SnapMemoryMapping) (mapping : SnapMemoryMapping) (m : Memory)
      (shares : ∀ other ∈ l, Shares mapping other) (held : Held m mapping) :
      Held (l.foldl place m) mapping := by
    induction l generalizing m with
    | nil => exact held
    | cons other l ih =>
      exact ih _ (fun x mem => shares x (List.mem_cons_of_mem _ mem))
        (held.place (shares other List.mem_cons_self))
  induction l generalizing m with
  | nil => exact fun _ none => absurd none List.not_mem_nil
  | cons first l ih =>
    obtain ⟨here, rest⟩ := List.pairwise_cons.mp shares
    intro mapping mem
    rcases List.mem_cons.mp mem with same | there
    · subst same
      exact later l mapping _ here place_held
    · exact ih rest mapping there

/-! ## Preparing and running -/

/-- All that `PrepareSnapMemory` copies. -/
def writableData (snap : Snap) : List (Datum (BitVec 8)) :=
  (snap.memoryMappings.filter (·.writable)).flatMap data

theorem prepareSnapMemory_eq : prepareSnapMemory m snap = stores allowsWrite m (writableData snap) := by
  unfold prepareSnapMemory writableData stores
  induction snap.memoryMappings generalizing m with
  | nil => rfl
  | cons mapping l ih =>
    rw [List.foldlM_cons, List.filter_cons]
    unfold prepareMapping at ih ⊢
    split
    · rw [List.flatMap_cons, List.foldlM_append, foldlM_setup]
      exact congrArg (stores allowsWrite m (data mapping)).bind (funext fun m => ih)
    · exact ih

theorem mem_writableData (runnable : Runnable snaps) (mem : snap ∈ snaps)
    {d : Datum (BitVec 8)} (memD : d ∈ writableData snap) (here : d.Covers p) :
    ∃ mapping ∈ snap.memoryMappings, mapping.writable = true ∧ mapping.Covers p := by
  obtain ⟨mapping, memF, memD⟩ := List.mem_flatMap.mp memD
  obtain ⟨memM, writable⟩ := List.mem_filter.mp memF
  exact ⟨mapping, memM, writable, (runnable.sound mapping (mem_mappings mem memM)).covers memD here⟩

/-- Preparing a snap whose mappings are in the memory does not fault. -/
theorem prepareSnapMemory_some (runnable : Runnable snaps) (mem : snap ∈ snaps)
    (held : ∀ mapping ∈ snap.memoryMappings, Held m mapping) :
    prepareSnapMemory m snap = some (written m (writableData snap)) := by
  rw [prepareSnapMemory_eq]
  refine stores_some fun d memD => storable_iff.mpr fun p here => ?_
  obtain ⟨mapping, memM, writable, covered⟩ := mem_writableData runnable mem memD here
  obtain ⟨v, is, -⟩ := held mapping memM p covered
  exact ⟨_, is, writable⟩

/-- Then the snap has its bytes. -/
theorem written_entered (runnable : Runnable snaps) (mem : snap ∈ snaps)
    (held : Held m mapping) (memM : mapping ∈ snap.memoryMappings) (covered : mapping.Covers p) :
    written m (writableData snap) p = some ⟨mapping.perms, mapping.byteAt p⟩ := by
  have memMs := mem_mappings mem memM
  obtain ⟨v, is, fixed⟩ := held p covered
  unfold written
  rw [is, Option.map_some]
  cases writable : mapping.writable with
  | false =>
    have none : lastAt (writableData snap) p = none := lastAt_outside fun d memD here => by
      obtain ⟨other, memO, writableO, coveredO⟩ := mem_writableData runnable mem memD here
      exact runnable.fixed memMs (mem_mappings mem memO) writable writableO covered coveredO
    rw [none, fixed writable]
    rfl
  | true =>
    have own : lastAt (writableData snap) p = lastAt (data mapping) p := by
      refine lastAt_flatMap (List.mem_filter.mpr ⟨memM, writable⟩) fun other memO => ?_
      have memO := (List.mem_filter.mp memO).1
      by_cases coveredO : other.Covers p
      · exact .inl (runnable.same mem memO memM coveredO covered)
      · exact .inr fun d memD here =>
          coveredO ((runnable.sound other (mem_mappings mem memO)).covers memD here)
    obtain ⟨d, memD, here⟩ := runnable.filled mapping memMs writable p covered
    obtain ⟨w, last⟩ := lastAt_within memD here
    rw [own, SnapMemoryMapping.byteAt, last]
    rfl

/-- New values where the writable mappings of a snap are, and nothing else. -/
structure Rewrites (snap : Snap) (m m' : Memory) : Prop where
  prots : ∀ p, (m' p).map Mapped.prot = (m p).map Mapped.prot
  others : ∀ p, (∀ mapping ∈ snap.memoryMappings, mapping.writable = true → ¬mapping.Covers p) →
    m' p = m p

theorem Rewrites.trans {m₁ m₂ m₃ : Memory} (h : Rewrites snap m₁ m₂) (h' : Rewrites snap m₂ m₃) :
    Rewrites snap m₁ m₃ :=
  ⟨fun p => (h'.prots p).trans (h.prots p),
    fun p outside => (h'.others p outside).trans (h.others p outside)⟩

theorem written_rewrites (runnable : Runnable snaps) (mem : snap ∈ snaps) :
    Rewrites snap m (written m (writableData snap)) := by
  refine ⟨fun p => prot_written, fun p outside => ?_⟩
  unfold written
  rw [lastAt_outside fun d memD here => by
    obtain ⟨mapping, memM, writable, covered⟩ := mem_writableData runnable mem memD here
    exact outside mapping memM writable covered]
  cases m p <;> rfl

theorem executed_rewrites (m : Memory) (snap : Snap) (e : Execution) :
    Rewrites snap m (executed m snap e) := by
  refine ⟨fun p => ?_, fun p outside => if_neg fun any => ?_⟩
  · unfold executed
    split
    · rw [Option.map_map]
      rfl
    · rfl
  · obtain ⟨mapping, memM, both⟩ := List.any_eq_true.mp any
    obtain ⟨writable, covered⟩ := Bool.and_eq_true_iff.mp both
    exact outside mapping memM writable (of_decide_eq_true covered)

/-- All of the corpus stays in the memory. -/
theorem Held.rewrites (runnable : Runnable snaps) (mem : snap ∈ snaps)
    (memM : mapping ∈ mappings snaps) (held : Held m mapping) (h : Rewrites snap m m') :
    Held m' mapping := by
  intro p covered
  obtain ⟨v, is, fixed⟩ := held p covered
  cases writable : mapping.writable with
  | false =>
    refine ⟨v, ?_, fun _ => fixed writable⟩
    rw [h.others p fun other memO writableO => runnable.fixed memM (mem_mappings mem memO)
      writable writableO covered, is]
  | true =>
    have prot := h.prots p
    rw [is] at prot
    obtain ⟨x, is', same⟩ := Option.map_eq_some_iff.mp prot
    exact ⟨x.value, is'.trans (congrArg (fun prot => some (Mapped.mk prot x.value)) same),
      fun impossible => by cases impossible⟩

/-- What a turn does. -/
theorem turn_ok {options : RunSnapOptions} {t : Turn} {results : List RunSnapResult}
    (runnable : Runnable snaps) (run : turn kernel options snaps m t = some (m', results)) :
    ∃ r, results = [r] ∧ snaps[t.snap]? = some r.snap ∧ Rewrites r.snap m m' ∧
      r.entered = written m (writableData r.snap) ∧
      outcomeOf kernel options (executed r.entered r.snap (t.execute r.snap r.entered)) r.snap
        (t.execute r.snap r.entered).endSpot = some r.outcome := by
  obtain ⟨snap, is, rest₁⟩ := Option.bind_eq_some_iff.mp run
  obtain ⟨⟨m₁, result⟩, ran, done⟩ := Option.bind_eq_some_iff.mp rest₁
  cases done
  obtain ⟨entered, prepared, rest₂⟩ := Option.bind_eq_some_iff.mp ran
  obtain ⟨outcome, judged, done⟩ := Option.bind_eq_some_iff.mp rest₂
  cases done
  rw [prepareSnapMemory_eq] at prepared
  obtain rfl := stores_ok prepared
  have mem := List.mem_of_getElem? is
  exact ⟨_, rfl, is, (written_rewrites runnable mem).trans (executed_rewrites _ _ _), rfl, judged⟩

/-- A snap that ran in its turn, from its own bytes with its own protections. -/
structure Ran (kernel : Kernel) (options : RunSnapOptions) (snaps : List Snap) (t : Turn)
    (r : RunSnapResult) : Prop where
  snap : snaps[t.snap]? = some r.snap
  entered : ∀ mapping ∈ r.snap.memoryMappings, ∀ p, mapping.Covers p →
    r.entered p = some ⟨mapping.perms, mapping.byteAt p⟩
  outcome : outcomeOf kernel options (executed r.entered r.snap (t.execute r.snap r.entered)) r.snap
    (t.execute r.snap r.entered).endSpot = some r.outcome

/-- Whatever runs, all of the corpus stays in the memory, and each snap is entered with its bytes. -/
theorem runTurns_held {options : RunSnapOptions} {turns : List Turn}
    {results : List RunSnapResult} (runnable : Runnable snaps)
    (held : ∀ mapping ∈ mappings snaps, Held m mapping)
    (run : runTurns kernel options snaps m turns = some (m', results)) :
    (∀ mapping ∈ mappings snaps, Held m' mapping) ∧
      List.Forall₂ (Ran kernel options snaps) turns results := by
  refine Schedules.run_each (P := fun m => ∀ mapping ∈ mappings snaps, Held m mapping) held ?_ run
  rintro m t m' new held step
  obtain ⟨r, rfl, is, rewrites, entered, judged⟩ := turn_ok runnable step
  have mem := List.mem_of_getElem? is
  refine ⟨fun mapping memM => (held mapping memM).rewrites runnable mem memM rewrites, r, rfl, is,
    fun mapping memM p covered => ?_, judged⟩
  rw [entered]
  exact written_entered runnable mem (held mapping (mem_mappings mem memM)) memM covered

theorem mapCorpus_held {stackLimit : BitVec 64} {entries : List ProcMaps.ProcMapsEntry}
    (sound : c.Sound) (runnable : Runnable c.snaps)
    (mapped : mapCorpus kernel c stackLimit entries m = some m') :
    ∀ mapping ∈ mappings c.snaps, Held m' mapping := by
  obtain ⟨_, m₀, -, rfl, -⟩ := mapCorpus_ok sound mapped
  exact foldl_place_held runnable.shares

/-- **Every run of a snap starts from the snap's own bytes**, with its own protections, in whatever
order the snaps of a corpus run, how often they do, and whatever they have left in their writable
mappings before. -/
theorem mapCorpus_runTurns {stackLimit : BitVec 64} {entries : List ProcMaps.ProcMapsEntry}
    {m₀ : Memory} {options : RunSnapOptions} {turns : List Turn} {results : List RunSnapResult}
    (sound : c.Sound) (runnable : Runnable c.snaps)
    (mapped : mapCorpus kernel c stackLimit entries m₀ = some m)
    (ran : runTurns kernel options c.snaps m turns = some (m', results)) :
    List.Forall₂ (Ran kernel options c.snaps) turns results :=
  (runTurns_held runnable (mapCorpus_held sound runnable mapped) ran).2

/-! ## The memory of the process itself -/

/-- The entries that `ApplyProcMapsFixups` unmaps. -/
def Unmapped (e : ProcMaps.ProcMapsEntry) : Prop :=
  e.name.cString = vdsoName ∨ e.name.cString = vvarName

theorem applyProcMapsFixups_keeps {stackLimit : BitVec 64}
    {entries entries' : List ProcMaps.ProcMapsEntry}
    (kept : ∀ e ∈ entries, Unmapped e →
      ¬Within e.startAddress.toNat (pages (e.limitAddress - e.startAddress).toNat) p)
    (fixed : applyProcMapsFixups kernel stackLimit entries m = some (entries', m')) :
    m' p = m p ∧ ∀ e ∈ entries, ∃ e' ∈ entries', e'.startAddress ≤ e.startAddress ∧
      e'.limitAddress = e.limitAddress := by
  have all := Loops.foldlM_after (P := fun done (s : List ProcMaps.ProcMapsEntry × Memory) =>
    s.2 p = m p ∧ ∀ e ∈ done, ∃ e' ∈ s.1, e'.startAddress ≤ e.startAddress ∧
      e'.limitAddress = e.limitAddress) ⟨rfl, by simp⟩ ?_ fixed
  · exact all
  rintro done e rest ⟨es, m₁⟩ ⟨es', m₂⟩ whole ⟨same, before⟩ turn
  have memE : e ∈ entries := whole ▸ List.mem_append_right done List.mem_cons_self
  have more (e' : ProcMaps.ProcMapsEntry) (low : e'.startAddress ≤ e.startAddress)
      (limit : e'.limitAddress = e.limitAddress) :
      ∀ x ∈ done ++ [e], ∃ x' ∈ es ++ [e'], x'.startAddress ≤ x.startAddress ∧
        x'.limitAddress = x.limitAddress := by
    intro x mem
    rcases List.mem_append.mp mem with old | new
    · obtain ⟨x', mem', both⟩ := before x old
      exact ⟨x', List.mem_append_left _ mem', both⟩
    · rw [List.mem_singleton.mp new]
      exact ⟨e', List.mem_append_right _ List.mem_cons_self, low, limit⟩
  unfold applyProcMapsFixup at turn
  split at turn
  · dsimp only at turn
    split at turn
    · next grows =>
      cases turn
      exact ⟨same, more _ grows rfl⟩
    · cases turn
  · split at turn
    · next unmapped =>
      obtain ⟨m₃, unmaps, done⟩ := Option.bind_eq_some_iff.mp turn
      cases done
      refine ⟨?_, more e (BitVec.le_refl _) rfl⟩
      unfold munmap at unmaps
      split at unmaps
      · cases unmaps
        exact (if_neg (kept e memE unmapped)).trans same
      · cases unmaps
    · cases turn
      exact ⟨same, more e (BitVec.le_refl _) rfl⟩

theorem runTurns_others {options : RunSnapOptions} {turns : List Turn}
    {results : List RunSnapResult} (runnable : Runnable snaps)
    (outside : ∀ mapping ∈ mappings snaps, ¬mapping.Covers p)
    (ran : runTurns kernel options snaps m turns = some (m', results)) : m' p = m p := by
  refine Schedules.run_after (P := fun m₁ _ => m₁ p = m p) rfl ?_ ran
  intro m₁ _ t m₂ new same step
  obtain ⟨r, -, is, rewrites, -⟩ := turn_ok runnable step
  rw [← same]
  exact rewrites.others p fun mapping memM _ =>
    outside mapping (mem_mappings (List.mem_of_getElem? is) memM)

/-- **The process never changes what it has itself**: an address of one of its own entries holds
the same after the corpus was mapped, and after any runs, unless it was unmapped on purpose. -/
theorem mapCorpus_runTurns_keeps {stackLimit : BitVec 64} {entries : List ProcMaps.ProcMapsEntry}
    {m₀ : Memory} {options : RunSnapOptions} {turns : List Turn} {results : List RunSnapResult}
    (sound : c.Sound) (runnable : Runnable c.snaps)
    (mapped : mapCorpus kernel c stackLimit entries m₀ = some m)
    (ran : runTurns kernel options c.snaps m turns = some (m', results))
    {e : ProcMaps.ProcMapsEntry} (mem : e ∈ entries) (low : e.startAddress.toNat ≤ p)
    (high : p < e.limitAddress.toNat)
    (kept : ∀ e ∈ entries, Unmapped e →
      ¬Within e.startAddress.toNat (pages (e.limitAddress - e.startAddress).toNat) p) :
    m' p = m₀ p := by
  obtain ⟨entries', m₁, fixed, rfl, apart⟩ := mapCorpus_ok sound mapped
  obtain ⟨same, grown⟩ := applyProcMapsFixups_keeps kept fixed
  obtain ⟨e', mem', low', limit⟩ := grown e mem
  have outside : ∀ mapping ∈ mappings c.snaps, ¬mapping.Covers p := by
    rintro mapping memM ⟨first, last⟩
    obtain ⟨snap, memS, memM⟩ := List.mem_flatMap.mp memM
    have fits := (runnable.sound mapping (mem_mappings memS memM)).fits
    have overlaps : snapOverlapsWithProcMapsEntries snap entries' = true := by
      refine List.any_eq_true.mpr ⟨mapping, memM, List.any_eq_true.mpr ⟨e', mem', ?_⟩⟩
      rw [Nat.mod_eq_of_lt fits, limit]
      have low' : e'.startAddress.toNat ≤ e.startAddress.toNat := low'
      refine decide_eq_true ?_
      omega
    rw [apart snap memS] at overlaps
    cases overlaps
  rw [runTurns_others runnable outside ran, foldl_place_outside outside, same]

/-! ## The verdict -/

theorem bytes_eq_iff (b : SnapMemoryBytes) (f : Nat → BitVec 8) :
    ((List.range b.size).map fun i => f (b.startAddress + i)) = b.bytes ↔
      ∀ p, (datum b).Covers p → (datum b).valueAt p = some (f p) := by
  have length := b.length_bytes
  constructor
  · rintro same p ⟨low, high⟩
    change b.startAddress ≤ p at low
    change p < b.startAddress + b.bytes.length at high
    have short : p - b.startAddress < b.size := by omega
    rw [Datum.valueAt, if_pos (show (datum b).start ≤ p from low)]
    change b.bytes[p - b.startAddress]? = _
    rw [← same, List.getElem?_map, List.getElem?_range short, Option.map_some,
      Nat.add_sub_cancel' low]
  · intro all
    refine List.ext_getElem (by rw [List.length_map, List.length_range, length]) fun i h h' => ?_
    have said := all (b.startAddress + i) ⟨Nat.le_add_right _ _, Nat.add_lt_add_left h' _⟩
    have low : (datum b).start ≤ b.startAddress + i := Nat.le_add_right _ _
    rw [Datum.valueAt, if_pos low] at said
    change b.bytes[b.startAddress + i - b.startAddress]? = _ at said
    rw [Nat.add_sub_cancel_left, List.getElem?_eq_getElem h'] at said
    rw [List.getElem_map, List.getElem_range]
    exact (Option.some.inj said).symm

/-- The end state is as expected if and only if all of its memory bytes are in the memory. -/
theorem verifyEndState_ok {l : List SnapMemoryBytes} {f : Nat → BitVec 8} {outcome : RunSnapOutcome}
    (holds : ∀ b ∈ l, ∀ p, (datum b).Covers p → ∃ prot, m p = some ⟨prot, f p⟩)
    (run : verifyEndState kernel m l = some outcome) :
    (outcome = .kAsExpected ∨ outcome = .kMemoryMismatch) ∧
      (outcome = .kAsExpected ↔
        ∀ b ∈ l, ∀ p, (datum b).Covers p → (datum b).valueAt p = some (f p)) := by
  induction l with
  | nil =>
    obtain rfl := Option.some.inj run
    exact ⟨.inl rfl, by simp⟩
  | cons b l ih =>
    obtain ⟨ok, verified, rest⟩ := Option.bind_eq_some_iff.mp run
    obtain ⟨actual, loaded, compared⟩ := Option.bind_eq_some_iff.mp verified
    have here := load_ok loaded fun p within => holds b List.mem_cons_self p (by
      rw [← b.length_bytes] at within
      exact within)
    have equal : ok = true ↔ ∀ p, (datum b).Covers p → (datum b).valueAt p = some (f p) := by
      rw [← Option.some.inj compared, here, beq_iff_eq]
      exact bytes_eq_iff b f
    split at rest
    · next same =>
      obtain ⟨either, all⟩ := ih (fun c mem => holds c (List.mem_cons_of_mem b mem)) rest
      refine ⟨either, all.trans ⟨fun others => List.forall_mem_cons.mpr ⟨equal.mp same, others⟩,
        fun every c mem => every c (List.mem_cons_of_mem b mem)⟩⟩
    · next differs =>
      obtain rfl := Option.some.inj rest
      refine ⟨.inr rfl, ⟨fun impossible => ?_, fun every => ?_⟩⟩
      · cases impossible
      · exact absurd (equal.mpr (every b List.mem_cons_self)) differs

/-! ## A snap on its own -/

/-- The memory of a process that has nothing but the mappings of the snap. -/
def initialMemory (snap : Snap) : Memory := fun p =>
  (snap.memoryMappings.find? fun mapping => mapping.Covers p).map fun mapping =>
    ⟨mapping.perms, mapping.byteAt p⟩

/-- The outcome of a snap that runs alone. -/
def outcomeAlone (kernel : Kernel) (options : RunSnapOptions) (execute : Snap → Memory → Execution)
    (snap : Snap) : Option RunSnapOutcome :=
  let e := execute snap (initialMemory snap)
  outcomeOf kernel options (executed (initialMemory snap) snap e) snap e.endSpot

/-- The same at all addresses of a snap. -/
def Agree (snap : Snap) (m m' : Memory) : Prop :=
  ∀ mapping ∈ snap.memoryMappings, ∀ p, mapping.Covers p → m p = m' p

/-- A processor that does with a snap what its registers and its own memory say. -/
def Repeats (execute : Snap → Memory → Execution) : Prop :=
  ∀ snap m m', Agree snap m m' → execute snap m = execute snap m'

theorem initialMemory_covered (runnable : Runnable snaps) (mem : snap ∈ snaps)
    (memM : mapping ∈ snap.memoryMappings) (covered : mapping.Covers p) :
    initialMemory snap p = some ⟨mapping.perms, mapping.byteAt p⟩ := by
  unfold initialMemory
  cases found : snap.memoryMappings.find? fun mapping => mapping.Covers p with
  | none =>
    have := List.find?_eq_none.mp found mapping memM
    exact absurd (decide_eq_true covered) this
  | some other =>
    have covers : other.Covers p := by simpa using List.find?_some found
    rw [runnable.same mem (List.mem_of_find?_eq_some found) memM covers covered]
    rfl

theorem executed_agree (h : Agree snap m m') (e : Execution) :
    Agree snap (executed m snap e) (executed m' snap e) := by
  intro mapping memM p covered
  unfold executed
  rw [h mapping memM p covered]

theorem outcomeOf_agree {options : RunSnapOptions} {endSpot : EndSpot} (runnable : Runnable snaps)
    (mem : snap ∈ snaps) (h : Agree snap m m') :
    outcomeOf kernel options m snap endSpot = outcomeOf kernel options m' snap endSpot := by
  have same : ∀ b ∈ snap.endStateMemoryBytes,
      verifyMemoryBytes kernel m b = verifyMemoryBytes kernel m' b := by
    intro b memB
    unfold verifyMemoryBytes
    rw [load_congr fun p within => ?_]
    obtain ⟨mapping, memM, covered⟩ := runnable.ended snap mem b memB p (by
      rw [← SnapMemoryBytes.length_bytes] at within
      exact within)
    exact h mapping memM p covered
  have all : verifyEndState kernel m snap.endStateMemoryBytes =
      verifyEndState kernel m' snap.endStateMemoryBytes := by
    revert same
    generalize snap.endStateMemoryBytes = l
    intro same
    induction l with
    | nil => rfl
    | cons b l ih =>
      rw [verifyEndState, verifyEndState, same b List.mem_cons_self,
        ih fun c memC => same c (List.mem_cons_of_mem b memC)]
  unfold outcomeOf endSpotToOutcome
  rw [all]

/-- The end of a snap can be judged if its memory can be read. -/
theorem outcomeOf_some {options : RunSnapOptions} {endSpot : EndSpot} (runnable : Runnable snaps)
    (mem : snap ∈ snaps) (held : ∀ mapping ∈ snap.memoryMappings, Held m mapping)
    (readable : ∀ mapping ∈ mappings snaps, kernel.readable mapping.perms = true) :
    ∃ outcome, outcomeOf kernel options m snap endSpot = some outcome := by
  have all : ∀ l : List SnapMemoryBytes, (∀ b ∈ l, b ∈ snap.endStateMemoryBytes) →
      ∃ outcome, verifyEndState kernel m l = some outcome := by
    intro l own
    induction l with
    | nil => exact ⟨_, rfl⟩
    | cons b l ih =>
      have loads := @load_some _ _ kernel.readable m b.startAddress b.size
        (fun p => ((m p).map Mapped.value).getD 0) fun p within => by
          obtain ⟨mapping, memM, covered⟩ := runnable.ended snap mem b (own b List.mem_cons_self)
            p (by
              rw [← SnapMemoryBytes.length_bytes] at within
              exact within)
          obtain ⟨v, is, -⟩ := held mapping memM p covered
          exact ⟨_, readable mapping (mem_mappings mem memM), by rw [is]; rfl⟩
      unfold verifyEndState verifyMemoryBytes
      rw [loads]
      simp only [Option.bind_eq_bind, Option.bind_some, Option.pure_def]
      split
      · exact ih fun c memC => own c (List.mem_cons_of_mem b memC)
      · exact ⟨_, rfl⟩
  unfold outcomeOf endSpotToOutcome
  repeat' split
  all_goals first | exact ⟨_, rfl⟩ | exact all _ fun _ => id

theorem executed_held (runnable : Runnable snaps) (mem : snap ∈ snaps) (e : Execution)
    (held : ∀ mapping ∈ snap.memoryMappings, Held m mapping) :
    ∀ mapping ∈ snap.memoryMappings, Held (executed m snap e) mapping := fun mapping memM =>
  (held mapping memM).rewrites runnable mem (mem_mappings mem memM) (executed_rewrites m snap e)

/-- A turn comes to what the snap comes to alone. -/
theorem turn_alone {options : RunSnapOptions} {execute : Snap → Memory → Execution} {i : Nat}
    (runnable : Runnable snaps) (held : ∀ mapping ∈ mappings snaps, Held m mapping)
    (readable : ∀ mapping ∈ mappings snaps, kernel.readable mapping.perms = true)
    (repeats : Repeats execute) (is : snaps[i]? = some snap) :
    ∃ m' entered outcome,
      turn kernel options snaps m ⟨i, execute⟩ = some (m', [⟨snap, entered, outcome⟩]) ∧
        outcomeAlone kernel options execute snap = some outcome := by
  have mem := List.mem_of_getElem? is
  have own : ∀ mapping ∈ snap.memoryMappings, Held m mapping := fun mapping memM =>
    held mapping (mem_mappings mem memM)
  have prepared := prepareSnapMemory_some runnable mem own
  have agree : Agree snap (written m (writableData snap)) (initialMemory snap) :=
    fun mapping memM p covered => by
      rw [written_entered runnable mem (own mapping memM) memM covered,
        initialMemory_covered runnable mem memM covered]
  have same := repeats snap _ _ agree
  have after := executed_agree agree (execute snap (initialMemory snap))
  have heldE := executed_held runnable mem (execute snap (initialMemory snap)) fun mapping memM =>
    (own mapping memM).rewrites runnable mem (mem_mappings mem memM) (written_rewrites runnable mem)
  obtain ⟨outcome, judged⟩ := @outcomeOf_some kernel _ _ _ options
    (execute snap (initialMemory snap)).endSpot runnable mem heldE readable
  refine ⟨executed (written m (writableData snap)) snap (execute snap (initialMemory snap)),
    written m (writableData snap), outcome, ?_, ?_⟩
  · have ran : runSnap kernel options m snap (execute snap) =
        some (executed (written m (writableData snap)) snap (execute snap (initialMemory snap)),
          ⟨snap, written m (writableData snap), outcome⟩) := by
      refine Option.bind_eq_some_iff.mpr ⟨_, prepared, ?_⟩
      dsimp only
      rw [same]
      exact Option.bind_eq_some_iff.mpr ⟨outcome, judged, rfl⟩
    exact Option.bind_eq_some_iff.mpr ⟨snap, is, Option.bind_eq_some_iff.mpr ⟨_, ran, rfl⟩⟩
  · unfold outcomeAlone
    rw [← judged]
    exact (outcomeOf_agree runnable mem after).symm

/-- **A processor that does the same with the same memory gives each snap one outcome**: whatever
the order of the snaps, no run faults, and each comes to what the snap comes to in a process of its
own. -/
theorem mapCorpus_runTurns_alone {stackLimit : BitVec 64} {entries : List ProcMaps.ProcMapsEntry}
    {m₀ : Memory} {options : RunSnapOptions} {execute : Snap → Memory → Execution}
    (sound : c.Sound) (runnable : Runnable c.snaps)
    (readable : ∀ mapping ∈ mappings c.snaps, kernel.readable mapping.perms = true)
    (mapped : mapCorpus kernel c stackLimit entries m₀ = some m) (repeats : Repeats execute)
    (schedule : List Nat) (valid : ∀ i ∈ schedule, i < c.snaps.length) :
    ∃ m' results,
      runTurns kernel options c.snaps m (schedule.map (Turn.mk · execute)) = some (m', results) ∧
        List.Forall₂ (fun i r => c.snaps[i]? = some r.snap ∧
          outcomeAlone kernel options execute r.snap = some r.outcome) schedule results := by
  have held := mapCorpus_held sound runnable mapped
  clear mapped
  induction schedule generalizing m with
  | nil => exact ⟨m, [], rfl, .nil⟩
  | cons i schedule ih =>
    have is := List.getElem?_eq_getElem (valid i List.mem_cons_self)
    obtain ⟨m₁, entered, outcome, step, alone⟩ :=
      @turn_alone kernel m c.snaps _ options execute i runnable held readable repeats is
    obtain ⟨r, -, at_, rewrites, -⟩ := turn_ok runnable step
    obtain ⟨m', results, rest, all⟩ := ih (fun j mem => valid j (List.mem_cons_of_mem i mem))
      fun mapping memM =>
        (held mapping memM).rewrites runnable (List.mem_of_getElem? at_) memM rewrites
    refine ⟨m', ⟨_, entered, outcome⟩ :: results, ?_, .cons ⟨is, alone⟩ all⟩
    unfold runTurns at rest ⊢
    rw [List.map_cons, Schedules.run, step]
    simp only [Option.bind_eq_bind, Option.bind_some]
    rw [rest]
    rfl

end

end RunnerMemory

end Silifuzz
