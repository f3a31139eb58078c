import Silifuzz.Runner.Runner.Memory
import Silifuzz.Snap.Gen.RelocatableSnapGenerator.RoundTrip
import Silifuzz.Snap.Gen.Snapify.Snapified
import Silifuzz.ToolLibs.SnapGroup

/-!
# The memory of a runner with a generated corpus

From the snapshots to the memory that their snaps run in: a corpus that was generated from
snapshots as `Snapify` leaves them, of one group, is relocated, mapped and run.
-/

namespace Silifuzz

open AddressSpaces Images Loops RelocatableDataBlock SnapReader SnapRelocator Traversal

/-- The snapshots can be in one group. -/
def Snapshot.Compatible (s t : Snapshot) : Prop :=
  ∀ m ∈ s.memoryMappings, ∀ n ∈ t.memoryMappings, m.Compatible n

/-- The snapshots of a group can. -/
theorem SnapshotGroup.Built.snapshots {members : List SnapshotSummary} {group : SnapshotGroup}
    {snapshots : List Snapshot} (built : Built members group)
    (summaries : List.Forall₂ (fun x s => x.memoryMappings = s.memoryMappings) members snapshots) :
    snapshots.Pairwise Snapshot.Compatible := by
  refine forall₂_pairwise summaries built.compatible fun same same' compatible => ?_
  unfold Snapshot.Compatible
  rw [← same, ← same']
  exact compatible

namespace RunnerMemory

section

variable {options : RelocatableSnapGeneratorOptions} {s : Snapshot} {m : MemoryMapping}
  {b : MemoryBytes} {k : Nat}

/-- A mapping of the snapshot as its snap has it. -/
def mappingOf (options : RelocatableSnapGeneratorOptions) (s : Snapshot) (m : MemoryMapping) :
    SnapMemoryMapping :=
  snapMemoryMappingOf options (m, s.memoryBytes.filter m.holdsBytes)

theorem allowsWrite_toMProtect (perms : MemoryPerms) :
    allowsWrite perms.toMProtect = perms.has .kWritable := by
  unfold MemoryPerms.toMProtect
  cases perms.has .kReadable <;> cases perms.has .kWritable <;> cases perms.has .kExecutable <;> rfl

theorem datum_of (b : MemoryBytes) :
    datum (snapMemoryBytesOf options b) = ⟨b.startAddress, b.byteValues⟩ :=
  congrArg (Datum.mk b.startAddress) (bytes_snapMemoryBytesOf options b)

theorem data_mappingOf : data (mappingOf options s m) =
    (s.memoryBytes.filter m.holdsBytes).map fun b => ⟨b.startAddress, b.byteValues⟩ := by
  unfold data mappingOf snapMemoryMappingOf
  rw [List.map_map]
  exact List.map_congr_left fun b _ => datum_of b

theorem sound_mappingOf (snapified : s.Snapified) (mem : m ∈ s.memoryMappings) :
    (mappingOf options s m).Sound := by
  obtain ⟨first, last⟩ := snapified.pages m mem
  rw [SnapshotMemory.PageEnd, SnapshotMemory.pageSize_eq] at first last
  have ends : m.limitAddress = m.startAddress + m.numBytes := rfl
  have bounded := m.bounded
  have top : kMaxAddress = 2 ^ 64 - 1 := rfl
  refine ⟨first, ?_, m.nonempty, ?_, fun b memB => ?_⟩
  · change m.numBytes % 4096 = 0
    lia
  · change m.startAddress + m.numBytes < 2 ^ 64
    lia
  · obtain ⟨x, memX, rfl⟩ := List.mem_map.mp memB
    obtain ⟨low, high⟩ := (m.holdsBytes_iff x).mp (List.mem_filter.mp memX).2
    rw [bytes_snapMemoryBytesOf]
    exact ⟨low, high⟩

/-- The bytes at an address of a mapping are inside of this mapping. -/
theorem holds_of_covers (snapified : s.Snapified) (mem : m ∈ s.memoryMappings)
    (memB : b ∈ s.memoryBytes) (covered : m.Covers k) (here : b.Covers k) :
    m.holdsBytes b = true := by
  obtain ⟨n, memN, holds⟩ := snapified.held b memB
  obtain ⟨low, high⟩ := (n.holdsBytes_iff b).mp holds
  have there : n.Covers k := ⟨low.trans here.1, here.2.trans_le high⟩
  by_cases same : m = n
  · rwa [same]
  · have : Std.Symm MemoryMapping.Disjoint := ⟨fun _ _ => MemoryMapping.Disjoint.symm⟩
    exact absurd there ((snapified.disjoint.forall mem memN same).covers covered)

theorem filled_mappingOf (snapified : s.Snapified) (mem : m ∈ s.memoryMappings)
    (covered : m.Covers k) : ∃ b ∈ s.memoryBytes, b.Covers k ∧
      (⟨b.startAddress, b.byteValues⟩ : Datum (BitVec 8)) ∈ data (mappingOf options s m) := by
  obtain ⟨b, memB, here⟩ := snapified.defined m mem k covered
  refine ⟨b, memB, here, ?_⟩
  rw [data_mappingOf]
  exact List.mem_map_of_mem (List.mem_filter.mpr
    ⟨memB, holds_of_covers snapified mem memB covered here⟩)

theorem valueAt_covers (here : b.Covers k) :
    (⟨b.startAddress, b.byteValues⟩ : Datum (BitVec 8)).valueAt k = some (b.byteAt k) := by
  have short : k - b.startAddress < b.byteValues.length := by
    have := b.length_eq
    have := here.1
    have := here.2
    lia
  rw [Datum.valueAt, if_pos here.1, List.getElem?_eq_getElem short, MemoryBytes.byteAt,
    List.getD_eq_getElem?_getD, List.getElem?_eq_getElem short]
  rfl

/-- Bytes that are apart and have an address in common are the same. -/
theorem eq_of_covers {l : List MemoryBytes} {c : MemoryBytes}
    (apart : l.Pairwise MemoryBytes.Disjoint) (memB : b ∈ l) (memC : c ∈ l) (here : b.Covers k)
    (there : c.Covers k) : b = c := by
  have symm : Std.Symm MemoryBytes.Disjoint := ⟨fun _ _ => MemoryBytes.Disjoint.symm⟩
  by_contra other
  exact (apart.forall memB memC other).covers here there

/-- What a snap has at an address is the byte of the snapshot. -/
theorem byteAt_mappingOf (snapified : s.Snapified) (mem : m ∈ s.memoryMappings)
    (covered : m.Covers k) (memB : b ∈ s.memoryBytes) (here : b.Covers k) :
    (mappingOf options s m).byteAt k = b.byteAt k := by
  have held : b ∈ s.memoryBytes.filter m.holdsBytes :=
    List.mem_filter.mpr ⟨memB, holds_of_covers snapified mem memB covered here⟩
  have single : data (mappingOf options s m) = (s.memoryBytes.filter m.holdsBytes).flatMap
      fun b => [⟨b.startAddress, b.byteValues⟩] := by
    rw [data_mappingOf, List.map_eq_flatMap]
  have last : lastAt (data (mappingOf options s m)) k =
      lastAt [⟨b.startAddress, b.byteValues⟩] k := by
    rw [single]
    refine lastAt_flatMap held fun c memC => ?_
    by_cases there : c.Covers k
    · have memC := (List.mem_filter.mp memC).1
      exact .inl (eq_of_covers snapified.ordered.disjoint memC memB there here)
    · refine .inr fun d memD => ?_
      rw [List.mem_singleton.mp memD]
      exact there
  rw [SnapMemoryMapping.byteAt, last, lastAt_cons, valueAt_covers here]
  rfl

/-- A snap ends as the end state says. -/
structure Ended (arch : Architecture) (options : RelocatableSnapGeneratorOptions) (e : EndState)
    (snap : Snap) : Prop where
  memoryBytes : snap.endStateMemoryBytes = e.memoryBytes.map (snapMemoryBytesOf options)
  registers : snapRegisterStateOf arch e.registers = .ok snap.endStateRegisters
  checksum : deserializeRegisterChecksum arch e.registerChecksum =
    some snap.endStateRegisterChecksum

/-- The snap of a snapshot that `Snapify` has left. -/
structure SnapMade (arch : Architecture) (options : RelocatableSnapGeneratorOptions) (s : Snapshot)
    (snap : Snap) : Prop where
  snapified : s.Snapified
  mappings : snap.memoryMappings = s.memoryMappings.map (mappingOf options s)
  ended : ∃ e, s.expectedEndStates.head? = some e ∧ Ended arch options e snap

theorem snapOf_made {arch : Architecture} {snap : Snap} (snapified : s.Snapified)
    (is : snapOf arch options s = .ok snap) : SnapMade arch options s snap := by
  obtain ⟨_, -, rest₁⟩ := except_bind_ok is
  obtain ⟨split, splits, rest₂⟩ := except_bind_ok rest₁
  obtain ⟨e, first, rest₃⟩ := except_bind_ok rest₂
  obtain ⟨_, -, rest₄⟩ := except_bind_ok rest₃
  obtain ⟨_, -, rest₅⟩ := except_bind_ok rest₄
  obtain ⟨_, registers, rest₆⟩ := except_bind_ok rest₅
  obtain ⟨_, checksum, rest₇⟩ := except_bind_ok rest₆
  cases rest₇
  have splits := orFail_ok splits
  rw [splitBytesByMapping_assigned snapified.disjoint snapified.held] at splits
  obtain rfl := Option.some.inj splits
  refine ⟨snapified, ?_, e, orFail_ok first, rfl, registers, orFail_ok checksum⟩
  change ((s.memoryMappings.zip (assigned s.memoryMappings s.memoryBytes)).map _) = _
  rw [assigned, ← List.map_prod_left_eq_zip, List.map_map]
  rfl

end

section

variable {arch : Architecture} {options : RelocatableSnapGeneratorOptions}
  {snapshots : List Snapshot} {snaps : List Snap}

theorem shares_mappingOf {s t : Snapshot} {m n : MemoryMapping} (compatible : m.Compatible n) :
    Shares (mappingOf options s m) (mappingOf options t n) := by
  by_cases disjoint : m.Disjoint n
  · exact .inl disjoint
  · have common : ∃ k, m.Covers k ∧ n.Covers k := by
      have positive := m.nonempty
      have positive' := n.nonempty
      unfold MemoryMapping.Disjoint at disjoint
      have ends : m.limitAddress = m.startAddress + m.numBytes := rfl
      have ends' : n.limitAddress = n.startAddress + n.numBytes := rfl
      refine ⟨max m.startAddress n.startAddress, ⟨le_max_left _ _, ?_⟩, le_max_right _ _, ?_⟩ <;>
        lia
    obtain ⟨k, here, there⟩ := common
    obtain ⟨writable, writable', same⟩ := compatible k here there
    exact .inr ⟨(allowsWrite_toMProtect _).trans writable,
      (allowsWrite_toMProtect _).trans writable', congrArg MemoryPerms.toMProtect same⟩

/-- Each mapping is one of a snapshot. -/
theorem mappings_made (all : List.Forall₂ (SnapMade arch options) snapshots snaps)
    {mapping : SnapMemoryMapping} (mem : mapping ∈ mappings snaps) :
    ∃ s ∈ snapshots, s.Snapified ∧ ∃ m ∈ s.memoryMappings, mapping = mappingOf options s m := by
  obtain ⟨snap, memS, memM⟩ := List.mem_flatMap.mp mem
  obtain ⟨s, memSnapshot, made⟩ := forall₂_mem all memS
  rw [made.mappings] at memM
  obtain ⟨m, own, rfl⟩ := List.mem_map.mp memM
  exact ⟨s, memSnapshot, made.snapified, m, own, rfl⟩

/-- The snaps of such snapshots can be run. -/
theorem runnable_made (compatible : snapshots.Pairwise Snapshot.Compatible)
    (all : List.Forall₂ (SnapMade arch options) snapshots snaps) : Runnable snaps := by
  constructor
  · intro mapping mem
    obtain ⟨s, -, snapified, m, memM, rfl⟩ := mappings_made all mem
    exact sound_mappingOf snapified memM
  · intro mapping mem _ p covered
    obtain ⟨s, -, snapified, m, memM, rfl⟩ := mappings_made all mem
    obtain ⟨b, -, here, there⟩ := @filled_mappingOf options s m p snapified memM covered
    exact ⟨_, there, here⟩
  · intro snap mem
    obtain ⟨s, -, made⟩ := forall₂_mem all mem
    rw [made.mappings]
    exact List.pairwise_map.mpr made.snapified.disjoint
  · refine List.pairwise_flatMap.mpr ⟨fun snap mem => ?_, ?_⟩
    · obtain ⟨s, -, made⟩ := forall₂_mem all mem
      rw [made.mappings]
      exact List.pairwise_map.mpr (made.snapified.disjoint.imp fun disjoint => .inl disjoint)
    · refine forall₂_pairwise all compatible fun made made' compatible => ?_
      rw [made.mappings, made'.mappings]
      refine List.forall_mem_map.mpr fun m mem => List.forall_mem_map.mpr fun n mem' => ?_
      exact shares_mappingOf (compatible m mem n mem')
  · intro snap mem b memB p here
    obtain ⟨s, -, made⟩ := forall₂_mem all mem
    obtain ⟨e, first, ended⟩ := made.ended
    rw [ended.memoryBytes] at memB
    obtain ⟨x, memX, rfl⟩ := List.mem_map.mp memB
    rw [datum_of] at here
    obtain ⟨m, memM, -, covered⟩ :=
      made.snapified.writable e (List.mem_of_head? first) x memX p here
    rw [made.mappings]
    exact ⟨_, List.mem_map_of_mem memM, covered⟩

theorem readable_made {kernel : Kernel} (all : List.Forall₂ (SnapMade arch options) snapshots snaps)
    (readable : ∀ s ∈ snapshots, ∀ mapping ∈ s.memoryMappings,
      kernel.readable mapping.perms.toMProtect = true) :
    ∀ mapping ∈ mappings snaps, kernel.readable mapping.perms = true := by
  intro mapping mem
  obtain ⟨s, memS, -, m, memM, rfl⟩ := mappings_made all mem
  exact readable s memS m memM

end

/-! ## A corpus that is loaded -/

/-- The corpus is generated from the snapshots, and relocated at a page. What can be mapped directly
is mapped from the file that it was loaded from. -/
structure Loaded (options : RelocatableSnapGeneratorOptions) (snapshots : List Snapshot)
    (c : LoadedCorpus) (file : ByteData) : Prop where
  page : c.address % kPageSize = 0
  generated : generateRelocatableSnaps c.arch snapshots options = .ok file
  relocated : ∃ (fits : c.address + file.length < 2 ^ 64) (machine : Crc32c.Machine)
    (best : Crc32c.Implementation) (verify : Bool) (fuel : Nat), file.length < fuel ∧
    relocateCorpus c.arch machine best true fuel ⟨c.address, file, fits⟩ verify = .ok c.image
  fd : ∀ f, c.corpusFd = some f → f = file

section

variable {options : RelocatableSnapGeneratorOptions} {snapshots : List Snapshot} {c : LoadedCorpus}
  {file : ByteData} {cells : List Footprints.Cell} {snap o : Nat}

theorem snaps_eq (c : LoadedCorpus) : c.snaps = SnapReader.snaps c.address c.image c.arch := by
  unfold LoadedCorpus.snaps LoadedCorpus.snapOffsets
  rw [List.map_map]
  rfl

/-- Relocation has only put in addresses, and the snaps are those of the snapshots. -/
theorem Loaded.patched (loaded : Loaded options snapshots c file) :
    ∃ values, CorpusMade c.address c.arch values file ∧
      Patched c.address ((corpusWalk c.address c.arch).cells file) file c.image ∧
      snapshots.mapM (snapOf c.arch options) = .ok c.snaps := by
  obtain ⟨fits, machine, best, verify, fuel, enough, run⟩ := loaded.relocated
  obtain ⟨values, are, made⟩ := generate_made loaded.generated (by omega) loaded.page
  obtain ⟨bytes, relocated, patched⟩ := made.relocates fits machine best verify enough
  obtain rfl := Except.ok.inj (relocated.symm.trans run)
  refine ⟨values, made, patched, ?_⟩
  rw [snaps_eq, snaps_patched patched made.part, made.snaps]
  exact are

theorem Loaded.isExpectedArch (loaded : Loaded options snapshots c file) :
    c.isExpectedArch = true := by
  obtain ⟨values, made, patched, -⟩ := loaded.patched
  unfold LoadedCorpus.isExpectedArch
  rw [number, patched.piece_beside made.architectureId, ← number,
    (made.header false).architectureId]
  exact beq_self_eq_true _

/-- The same corpus without its file. -/
theorem Loaded.copied (loaded : Loaded options snapshots c file) :
    Loaded options snapshots { c with corpusFd := none } file :=
  ⟨loaded.page, loaded.generated, loaded.relocated, fun _ is => by cases is⟩

theorem Loaded.made (loaded : Loaded options snapshots c file)
    (snapified : ∀ s ∈ snapshots, s.Snapified) :
    List.Forall₂ (SnapMade c.arch options) snapshots c.snaps := by
  obtain ⟨-, -, -, are⟩ := loaded.patched
  have all := forall₂_of_mapM are
  refine List.forall₂_iff_get.mpr ⟨all.length_eq, fun i h h' => ?_⟩
  exact snapOf_made (snapified _ (List.get_mem _ _)) (all.get h h')

/-- The corpus in its file, where offsets are for the addresses. -/
def LoadedCorpus.unrelocated (c : LoadedCorpus) (file : ByteData) : LoadedCorpus :=
  ⟨c.arch, 0, file, none⟩

section

variable (p : Patched c.address cells file c.image)
  (part : Part cells file (corpusWalk c.address c.arch) (corpusRegions c.arch file))

include p part

/-- A snap in a corpus. -/
theorem snap_part (mem : snap ∈ c.snapOffsets) :
    Part cells file (snapWalk c.address c.arch snap) (snapRegions c.arch file snap) := by
  obtain ⟨pointer, memP, rfl⟩ := List.mem_map.mp mem
  rw [arrayOffsets_patched p part] at memP
  have element := part.element memP
  have both : Part cells file ((pointerWalk c.address .snap pointer).seq
      (snapWalk c.address c.arch (number file pointer 8))) _ :=
    ⟨element.valid, element.among, element.beside⟩
  rw [pointer_patched p both.first.valid both.first.among]
  exact both.second

theorem snapOffsets_unrelocated : c.snapOffsets = (c.unrelocated file).snapOffsets := by
  apply array_patched p part
  intro snapPtr here
  have both : Part cells file ((pointerWalk c.address .snap snapPtr).seq
    (snapWalk c.address c.arch (number file snapPtr 8))) _ := ⟨here.valid, here.among, here.beside⟩
  exact pointer_patched p both.first.valid both.first.among

theorem mappingOffsets_unrelocated (mem : snap ∈ c.snapOffsets) :
    c.mappingOffsets snap = (c.unrelocated file).mappingOffsets snap :=
  arrayOffsets_patched p (snap_part p part mem).mappings

/-- A mapping in a corpus. -/
theorem mapping_part (mem : snap ∈ c.snapOffsets) (memO : o ∈ c.mappingOffsets snap) :
    Part cells file
      (memoryBytesArrayWalk c.address (o + Offset.SnapMemoryMapping.memoryBytes))
      (memoryMappingRegions file o) := by
  have mappings := (snap_part p part mem).mappings
  unfold LoadedCorpus.mappingOffsets at memO
  rw [arrayOffsets_patched p mappings] at memO
  exact mappings.element memO

/-- What can be mapped from the file can be before the corpus is relocated, and still. -/
theorem canDirectMap_relocated (page : c.address % kPageSize = 0) (mem : snap ∈ c.snapOffsets)
    (memO : o ∈ c.mappingOffsets snap) (can : (c.unrelocated file).canDirectMap o = true) :
    c.canDirectMap o = true := by
  obtain ⟨fixed, one, plain, start, size, aligned⟩ := canDirectMap_iff.mp can
  have own := mapping_part p part mem memO
  have list := own.narrow (List.subset_cons_self _ _)
  have array : Part cells file ((headerWalk c.address .snapMemoryBytes
      (o + Offset.SnapMemoryMapping.memoryBytes)).seq _) _ := ⟨list.valid, list.among, list.beside⟩
  have mapping : c.mapping o = (c.unrelocated file).mapping o := memoryMappingAt_patched p own
  have count := (arraySize_patched p array.first.among).trans one
  have some : arraySize file (o + Offset.SnapMemoryMapping.memoryBytes) ≠ 0 :=
    one.trans_ne Nat.one_ne_zero
  have first : c.firstMemoryBytes o = (c.unrelocated file).firstMemoryBytes o := by
    unfold LoadedCorpus.firstMemoryBytes pointee
    rw [arrayPointer_moved p array.first.valid array.first.among some, Nat.add_sub_cancel_left]
    rfl
  have element : Part cells file (memoryBytesWalk c.address (c.firstMemoryBytes o))
      (memoryBytesRegions file (c.firstMemoryBytes o)) := by
    apply list.element
    rw [← arrayOffsets_patched p list, elements, count]
    exact List.mem_cons_self
  rw [first] at element
  have bytes := memoryBytesAt_patched p element
  have values : isRepeating file ((c.unrelocated file).firstMemoryBytes o) = false :=
    repeating_memoryBytesAt.symm.trans plain
  rw [canDirectMap_iff, mapping, first, bytes]
  refine ⟨fixed, count, plain, start, (byteValues_patched p element values).2.1.trans size, ?_⟩
  -- The load address is one of a page.
  have moved : c.firstElements o = c.address + (c.unrelocated file).firstElements o := by
    unfold LoadedCorpus.firstElements
    rw [first]
    exact byteValues_moved p element values
  unfold isPageAligned at aligned ⊢
  rw [moved, Nat.add_mod, page, Nat.zero_add, Nat.mod_mod]
  exact aligned

end

theorem mapping_mem (mem : snap ∈ c.snapOffsets) (memO : o ∈ c.mappingOffsets snap) :
    c.mapping o ∈ mappings c.snaps := by
  have own : c.mapping o ∈ (c.snap snap).memoryMappings := List.mem_map_of_mem memO
  exact mem_mappings (List.mem_map_of_mem mem) own

/-- What can be mapped from the file is whole in the corpus: its last byte is defined. -/
theorem Loaded.inside (loaded : Loaded options snapshots c file)
    (snapified : ∀ s ∈ snapshots, s.Snapified) (mem : snap ∈ c.snapOffsets)
    (memO : o ∈ c.mappingOffsets snap) (direct : Direct c o) :
    c.firstElements o - c.address + (c.mapping o).numBytes ≤ c.image.length := by
  obtain ⟨s, -, snapified, m, memM, is⟩ :=
    mappings_made (loaded.made snapified) (mapping_mem mem memO)
  have positive := m.nonempty
  have count : (c.mapping o).numBytes = m.numBytes := by rw [is]; rfl
  have start : (c.mapping o).startAddress = m.startAddress := by rw [is]; rfl
  have within : m.Covers (m.startAddress + (m.numBytes - 1)) := by
    refine ⟨Nat.le_add_right _ _, ?_⟩
    change _ < m.startAddress + m.numBytes
    lia
  obtain ⟨b, -, here, inData⟩ := @filled_mappingOf options s m _ snapified memM within
  rw [← is, data, direct.memoryBytes, List.map_singleton, List.mem_singleton] at inData
  have values : b.byteValues = piece c.image (c.firstElements o - c.address)
      (c.mapping o).numBytes := congrArg Datum.values inData
  have low : b.startAddress = (c.mapping o).startAddress := congrArg Datum.start inData
  have long : b.byteValues.length ≤ c.image.length - (c.firstElements o - c.address) := by
    rw [values, piece, List.length_take, List.length_drop]
    exact Nat.min_le_right _ _
  have last : m.startAddress + (m.numBytes - 1) < b.startAddress + b.byteValues.length := here.2
  lia

/-- What is mapped from the file has the bytes of the corpus. -/
theorem Loaded.backed (loaded : Loaded options snapshots c file)
    (snapified : ∀ s ∈ snapshots, s.Snapified) (mem : snap ∈ c.snapOffsets)
    (memO : o ∈ c.mappingOffsets snap) (can : c.canDirectMap o = true) : Backed c file o := by
  obtain ⟨values, generated, p, -⟩ := loaded.patched
  have part := generated.part
  have direct := canDirectMap_direct can
  have bytes := (mapping_part p part mem memO).narrow (List.subset_cons_self _ _)
  have first : c.firstMemoryBytes o ∈ elementOffsets .snapMemoryBytes file
      (o + Offset.SnapMemoryMapping.memoryBytes) := by
    rw [← arrayOffsets_patched p bytes, elements, direct.single]
    exact List.mem_cons_self
  have own := bytes.element first
  have plain := direct.plain
  rw [memoryBytesAt_patched p own, repeating_memoryBytesAt] at plain
  obtain ⟨pointer, size, values⟩ := byteValues_patched p own plain
  have numBytes : number file (c.firstMemoryBytes o + 16) 8 = (c.mapping o).numBytes :=
    size.symm.trans direct.size
  have elements : c.firstElements o - c.address = number file (c.firstMemoryBytes o + 24) 8 :=
    pointer
  refine ⟨?_, p.length ▸ loaded.inside snapified mem memO direct⟩
  rw [elements, ← numBytes]
  exact values.symm

/-- The corpus can be mapped and its snaps can be run. -/
theorem Loaded.sound (loaded : Loaded options snapshots c file)
    (snapified : ∀ s ∈ snapshots, s.Snapified) : c.Sound where
  page := loaded.page
  mappings snap mem o memO := by
    obtain ⟨s, -, snapified, m, memM, is⟩ :=
      mappings_made (loaded.made snapified) (mapping_mem mem memO)
    rw [is]
    exact sound_mappingOf snapified memM
  backed f is snap mem o memO can := by
    rw [loaded.fd f is]
    exact loaded.backed snapified mem memO can

variable {kernel : Kernel} {stackLimit : BitVec 64} {entries : List ProcMaps.ProcMapsEntry}
  {m₀ m m' : Memory} {runOptions : RunSnapOptions} {turns : List Turn}
  {results : List RunSnapResult}

/-- An entry of the process is beside a mapping of a snapshot. -/
def EntryApart (mapping : MemoryMapping) (e : ProcMaps.ProcMapsEntry) : Prop :=
  mapping.limitAddress ≤ e.startAddress.toNat ∨ e.limitAddress.toNat ≤ mapping.startAddress

/-- **A generated corpus is mapped wherever nothing of the process is in its way.** -/
theorem loaded_mapped {entries' : List ProcMaps.ProcMapsEntry}
    (loaded : Loaded options snapshots c file) (snapified : ∀ s ∈ snapshots, s.Snapified)
    (grants : ∀ call, kernel.grants call = true)
    (fixed : applyProcMapsFixups kernel stackLimit entries m₀ = some (entries', m))
    (apart : ∀ s ∈ snapshots, ∀ mapping ∈ s.memoryMappings, ∀ e ∈ entries', EntryApart mapping e) :
    ∃ m', mapCorpus kernel c stackLimit entries m₀ = some m' := by
  refine mapCorpus_some (loaded.sound snapified) loaded.isExpectedArch grants fixed
    fun snap mem => ?_
  obtain ⟨s, memS, made⟩ := forall₂_mem (loaded.made snapified) mem
  refine List.any_eq_false.mpr fun mapping memM => ?_
  rw [made.mappings] at memM
  obtain ⟨x, memX, rfl⟩ := List.mem_map.mp memM
  rw [Bool.not_eq_true]
  refine List.any_eq_false.mpr fun e memE => ?_
  have fits := (@sound_mappingOf options s x made.snapified memX).fits
  have beside := apart s memS x memX e memE
  change ¬decide (max x.startAddress e.startAddress.toNat <
    min ((x.startAddress + x.numBytes) % 2 ^ 64) e.limitAddress.toNat) = true
  change x.startAddress + x.numBytes < 2 ^ 64 at fits
  change x.startAddress + x.numBytes ≤ e.startAddress.toNat ∨ _ at beside
  rw [Nat.mod_eq_of_lt fits, decide_eq_true_iff]
  lia

/-! ### Two snaps that share a page -/

/-- Whole pages, each with its own bytes, and end states for what can be written. -/
theorem snapified_of_pages {s : Snapshot}
    (pages : ∀ m ∈ s.memoryMappings, s.PageEnd m.startAddress ∧ s.PageEnd m.limitAddress)
    (disjoint : s.memoryMappings.Pairwise MemoryMapping.Disjoint)
    (ordered : Ordered s.memoryBytes)
    (whole : List.Forall₂ (fun m b => b.startAddress = m.startAddress ∧
      b.limitAddress = m.limitAddress) s.memoryMappings s.memoryBytes)
    (apart : ∀ e ∈ s.expectedEndStates, e.memoryBytes.Pairwise MemoryBytes.Disjoint)
    (ends : ∀ e ∈ s.expectedEndStates, ∀ k, (∃ b ∈ e.memoryBytes, b.Covers k) ↔
      ∃ m ∈ s.memoryMappings, m.perms.has .kWritable = true ∧ m.Covers k) : s.Snapified where
  pages := pages
  disjoint := disjoint
  ordered := ordered
  held b mem := by
    obtain ⟨m, memM, start, limit⟩ := forall₂_mem whole mem
    exact ⟨m, memM, (m.holdsBytes_iff b).mpr ⟨start.ge, limit.le⟩⟩
  defined m mem k covered := by
    obtain ⟨b, memB, start, limit⟩ := forall₂_mem whole.flip mem
    exact ⟨b, memB, start.le.trans covered.1, covered.2.trans_eq limit.symm⟩
  apart := apart
  writable e mem b memB k here := (ends e mem k).mp ⟨b, memB, here⟩
  ended e mem _ m memM writable k covered := (ends e mem k).mpr ⟨m, memM, writable, covered⟩

theorem forall_mem_pair {α : Type} {P : α → Prop} {a b : α} :
    (∀ x ∈ [a, b], P x) ↔ P a ∧ P b := by
  rw [List.forall_mem_cons, List.forall_mem_singleton]

/-- One byte all over the page that both of them write. -/
def filledPage (byte : BitVec 8) : ByteData := List.replicate 4096 byte

theorem length_filledPage (byte : BitVec 8) : (filledPage byte).length = 4096 :=
  List.length_replicate

theorem filledPage_nonempty (byte : BitVec 8) : filledPage byte ≠ [] :=
  List.ne_nil_of_length_pos (length_filledPage byte ▸ Nat.succ_pos _)

theorem filledPage_bounded (byte : BitVec 8) :
    (0x20000 : Address) + (filledPage byte).length ≤ kMaxAddress := by
  rw [length_filledPage]
  decide

def filledBytes (byte : BitVec 8) : MemoryBytes :=
  ⟨0x20000, filledPage byte, filledPage_nonempty byte, filledPage_bounded byte⟩

theorem limit_filledBytes (byte : BitVec 8) :
    (filledBytes byte).limitAddress = Snapify.highPage.limitAddress := by
  unfold MemoryBytes.limitAddress
  rw [show (filledBytes byte).byteValues.length = 4096 from length_filledPage byte]
  rfl

theorem byteAt_filledBytes {byte : BitVec 8} {k : Nat} (here : (filledBytes byte).Covers k) :
    (filledBytes byte).byteAt k = byte := by
  have short : k - 0x20000 < 4096 := by
    have low : 0x20000 ≤ k := here.1
    have high := here.2.trans_eq (limit_filledBytes byte)
    change k < 0x21000 at high
    omega
  unfold MemoryBytes.byteAt
  change (List.replicate 4096 byte).getD (k - 0x20000) _ = byte
  rw [List.getD_eq_getElem?_getD, List.getElem?_replicate_of_lt short]
  rfl

theorem changedByte_nonempty : ([1] : ByteData) ≠ [] := List.cons_ne_nil _ _

theorem changedByte_bounded : (0x20000 : Address) + ([1] : ByteData).length ≤ kMaxAddress := by
  decide

def changedByte : MemoryBytes := ⟨0x20000, [1], changedByte_nonempty, changedByte_bounded⟩

def restOfPage : ByteData := List.replicate 4095 0xcc

theorem length_restOfPage : restOfPage.length = 4095 := List.length_replicate

theorem restOfPage_nonempty : restOfPage ≠ [] :=
  List.ne_nil_of_length_pos (length_restOfPage ▸ Nat.succ_pos _)

theorem restOfPage_bounded : (0x20001 : Address) + restOfPage.length ≤ kMaxAddress := by
  rw [length_restOfPage]
  decide

def restBytes : MemoryBytes := ⟨0x20001, restOfPage, restOfPage_nonempty, restOfPage_bounded⟩

theorem limit_restBytes : restBytes.limitAddress = 0x21000 := by
  unfold MemoryBytes.limitAddress
  rw [show restBytes.byteValues.length = 4095 from length_restOfPage]
  rfl

def runEndState : EndState :=
  { (EndState.new (.kInstruction 0x20001) pageRegisters).addPlatform 1 with
    memoryBytes := [changedByte, restBytes] }

/-- A page, the first byte of which it changes. -/
def runSnapshot : Snapshot :=
  { pageSnapshot with
    memoryMappings := [Snapify.highPage]
    memoryBytes := [filledBytes 0xcc]
    expectedEndStates := [runEndState] }

theorem codePage_bounded : 0x30000 + 0x1000 ≤ kMaxAddress := by decide

/-- A page that is read only. -/
def codeMapping : MemoryMapping :=
  ⟨0x30000, 0x1000, .xr, MemoryMapping.page_nonempty, codePage_bounded, MemoryPerms.proper_xr,
    MemoryPerms.unmapped_xr⟩

/-- No run of one byte. -/
def codePage : ByteData := 0x90 :: restOfPage

theorem length_codePage : codePage.length = 4096 := congrArg (· + 1) length_restOfPage

theorem codeBytes_bounded : (0x30000 : Address) + codePage.length ≤ kMaxAddress := by
  rw [length_codePage]
  decide

def codeBytes : MemoryBytes := ⟨0x30000, codePage, List.cons_ne_nil _ _, codeBytes_bounded⟩

theorem limit_codeBytes : codeBytes.limitAddress = codeMapping.limitAddress := by
  unfold MemoryBytes.limitAddress
  rw [show codeBytes.byteValues.length = 4096 from length_codePage]
  rfl

def readEndState : EndState :=
  { (EndState.new (.kInstruction 0x30001) pageRegisters).addPlatform 1 with
    memoryBytes := [filledBytes 0xdd] }

/-- The same page with other bytes, which this one leaves as they are, and a page of code. -/
def readSnapshot : Snapshot :=
  { pageSnapshot with
    id := [0x62]
    memoryMappings := [Snapify.highPage, codeMapping]
    memoryBytes := [filledBytes 0xdd, codeBytes]
    expectedEndStates := [readEndState] }

def runSnapshots : List Snapshot := [runSnapshot, readSnapshot]

theorem runSnapshot_snapified : runSnapshot.Snapified := by
  refine snapified_of_pages (List.forall_mem_singleton.mpr ⟨rfl, rfl⟩) (List.pairwise_singleton _ _)
    (List.pairwise_singleton _ _) (.cons ⟨rfl, limit_filledBytes _⟩ .nil)
    (List.forall_mem_singleton.mpr (List.pairwise_pair.mpr (.inl (Nat.le_refl _))))
    (List.forall_mem_singleton.mpr fun k => ?_)
  change (∃ b ∈ [changedByte, restBytes], b.Covers k) ↔
    ∃ m ∈ [Snapify.highPage], m.perms.has .kWritable = true ∧ m.Covers k
  simp only [List.mem_cons, List.not_mem_nil, or_false, exists_eq_or_imp, exists_eq_left]
  unfold MemoryBytes.Covers MemoryMapping.Covers
  rw [limit_restBytes]
  change (0x20000 ≤ k ∧ k < 0x20001) ∨ (0x20001 ≤ k ∧ k < 0x21000) ↔
    true = true ∧ 0x20000 ≤ k ∧ k < 0x21000
  lia

theorem pages_apart : Snapify.highPage.limitAddress ≤ codeMapping.startAddress := by decide

theorem pages_disjoint : MemoryMapping.Disjoint Snapify.highPage codeMapping := .inl pages_apart

theorem readSnapshot_snapified : readSnapshot.Snapified := by
  refine snapified_of_pages (forall_mem_pair.mpr ⟨⟨rfl, rfl⟩, rfl, rfl⟩)
    (List.pairwise_pair.mpr pages_disjoint)
    (List.pairwise_pair.mpr ((limit_filledBytes 0xdd).le.trans pages_apart))
    (.cons ⟨rfl, limit_filledBytes _⟩ (.cons ⟨rfl, limit_codeBytes⟩ .nil))
    (List.forall_mem_singleton.mpr (List.pairwise_singleton _ _))
    (List.forall_mem_singleton.mpr fun k => ?_)
  change (∃ b ∈ [filledBytes 0xdd], b.Covers k) ↔
    ∃ m ∈ [Snapify.highPage, codeMapping], m.perms.has .kWritable = true ∧ m.Covers k
  have fixed : codeMapping.perms.has .kWritable = false := rfl
  have writable : Snapify.highPage.perms.has .kWritable = true := rfl
  simp only [List.mem_cons, List.not_mem_nil, or_false, exists_eq_or_imp, exists_eq_left, fixed,
    writable, true_and, Bool.false_eq_true, false_and]
  unfold MemoryBytes.Covers MemoryMapping.Covers
  rw [limit_filledBytes]
  exact Iff.rfl

theorem snapified_run : ∀ s ∈ runSnapshots, s.Snapified :=
  forall_mem_pair.mpr ⟨runSnapshot_snapified, readSnapshot_snapified⟩

/-- They have a page in common, which both can write. -/
theorem compatible_run : runSnapshots.Pairwise Snapshot.Compatible := by
  refine List.pairwise_pair.mpr (List.forall_mem_singleton.mpr (forall_mem_pair.mpr
    ⟨fun _ _ _ => ⟨rfl, rfl, rfl⟩, fun k here there => ?_⟩))
  exact absurd there (pages_disjoint.covers here)

/-- A short image, with a page of its own for what can be mapped from it. -/
def HasDirect (image : ByteData) : Prop :=
  let c : LoadedCorpus := ⟨.kX86_64, 0, image, none⟩
  image.length < 16384 ∧ ∃ snap ∈ c.snapOffsets, ∃ o ∈ c.mappingOffsets snap,
    c.canDirectMap o = true

instance : DecidablePred HasDirect := fun _ => inferInstanceAs (Decidable (_ ∧ _))

theorem runSnapshots_generated : ((generateRelocatableSnaps .kX86_64 runSnapshots {}).map
    fun image => decide (HasDirect image)) = .ok true := by
  decide +kernel

/-- A kernel that grants everything, of a processor that reads where it may. -/
def grantingKernel : Kernel := ⟨fun _ => true, fun prot => prot &&& 1 != 0⟩

/-- Code of the process itself, below the pages. -/
def ownEntry : ProcMaps.ProcMapsEntry :=
  { ProcMaps.emptyEntry with startAddress := 0x10000, limitAddress := 0x11000 }

def ownMemory : Memory := fun p =>
  if 0x10000 ≤ p ∧ p < 0x11000 then some ⟨5, 0x90⟩ else none

theorem run_loaded : ∃ c file, Loaded {} runSnapshots c file ∧ c.corpusFd = some file ∧
    c.arch = .kX86_64 ∧
    ∃ snap ∈ c.snapOffsets, ∃ o ∈ c.mappingOffsets snap, c.canDirectMap o = true := by
  obtain ⟨file, generated, short, snap, mem, o, memO, can⟩ := ok_of_map runSnapshots_generated
  have fits : 0x200000 + file.length < 2 ^ 64 := by omega
  have page : 0x200000 % 4096 = 0 := by decide
  obtain ⟨values, -, made⟩ := generate_made generated (by omega) page
  obtain ⟨image, relocated, patched⟩ := made.relocates fits ⟨.x86, false⟩ .init true
    (Nat.lt_succ_self _)
  let c : LoadedCorpus := ⟨.kX86_64, 0x200000, image, some file⟩
  have p : Patched c.address _ file c.image := patched
  have mem' : snap ∈ c.snapOffsets := (snapOffsets_unrelocated p made.part).symm ▸ mem
  have memO' : o ∈ c.mappingOffsets snap :=
    (mappingOffsets_unrelocated p made.part mem').symm ▸ memO
  exact ⟨c, file, ⟨page, generated,
    ⟨fits, ⟨.x86, false⟩, .init, true, _, Nat.lt_succ_self _, relocated⟩,
    fun _ is => (Option.some.inj is).symm⟩, rfl, rfl, snap, mem', o, memO',
    canDirectMap_relocated p made.part page mem' memO' can⟩

theorem run_mapped {c : LoadedCorpus} {file : ByteData} (loaded : Loaded {} runSnapshots c file) :
    ∃ m, mapCorpus grantingKernel c 0 [ownEntry] ownMemory = some m := by
  have fixed : applyProcMapsFixups grantingKernel 0 [ownEntry] ownMemory =
      some ([ownEntry], ownMemory) := rfl
  refine loaded_mapped loaded snapified_run (fun _ => rfl) fixed ?_
  refine forall_mem_pair.mpr ⟨List.forall_mem_singleton.mpr
    (List.forall_mem_singleton.mpr (.inr ?_)), forall_mem_pair.mpr
    ⟨List.forall_mem_singleton.mpr (.inr ?_), List.forall_mem_singleton.mpr (.inr ?_)⟩⟩ <;>
  decide

theorem readable_run : ∀ s ∈ runSnapshots, ∀ mapping ∈ s.memoryMappings,
    grantingKernel.readable mapping.perms.toMProtect = true :=
  forall_mem_pair.mpr ⟨List.forall_mem_singleton.mpr rfl,
    forall_mem_pair.mpr ⟨rfl, rfl⟩⟩

/-- The registers of the end states. -/
def endRegisters : SnapRegisterState :=
  ((snapRegisterStateOf .kX86_64 pageRegisters).toOption).getD ⟨[], []⟩

def marksSpot : EndSpot := ⟨0, endRegisters, ⟨0, 0⟩⟩

def marked (p : Nat) : BitVec 8 := if p = 0x20000 then 1 else 0xcc

/-- The first byte of the page is changed, in both of the snaps. -/
def marks (_ : Snap) (_ : Memory) : Execution := ⟨marksSpot, marked⟩

theorem marks_repeats : Repeats marks := fun _ _ _ _ => rfl

/-- The snap with the changes is run before and after the other. -/
def runSchedule : List Nat := [0, 1, 0]

def runTurnsOf : List Turn := runSchedule.map (Turn.mk · marks)

theorem valid_run : ∀ i ∈ runSchedule, i < runSnapshots.length := by decide

theorem run_all : ∃ c file m m' results, Loaded {} runSnapshots c file ∧ c.arch = .kX86_64 ∧
    mapCorpus grantingKernel c 0 [ownEntry] ownMemory = some m ∧
    runTurns grantingKernel ⟨false, false⟩ c.snaps m runTurnsOf = some (m', results) := by
  obtain ⟨c, file, loaded, -, arch, -⟩ := run_loaded
  obtain ⟨m, mapped⟩ := run_mapped loaded
  have all := loaded.made snapified_run
  obtain ⟨m', results, ran, -⟩ := @mapCorpus_runTurns_alone _ _ _ _ _ _ ⟨false, false⟩ marks
    (loaded.sound snapified_run) (runnable_made compatible_run all)
    (readable_made all readable_run) mapped marks_repeats runSchedule
    fun i mem => all.length_eq ▸ valid_run i mem
  exact ⟨c, file, m, m', results, loaded, arch, mapped, ran⟩

/-- The snap of the turn was entered with the bytes of its snapshot, and the permissions of its
mappings. -/
def StartsAs (snapshots : List Snapshot) (t : Turn) (r : RunSnapResult) : Prop :=
  ∃ s, snapshots[t.snap]? = some s ∧ ∀ mapping ∈ s.memoryMappings, ∀ k, mapping.Covers k →
    ∃ b ∈ s.memoryBytes, b.Covers k ∧ r.entered k = some ⟨mapping.perms.toMProtect, b.byteAt k⟩

/-- **Every run of a snap starts from the bytes of its snapshot**, with the permissions of its
mappings, whatever ran before: in any order and any number, whatever was left in the writable
mappings, and whether or not the corpus was mapped from its file. -/
theorem loaded_runTurns (loaded : Loaded options snapshots c file)
    (snapified : ∀ s ∈ snapshots, s.Snapified) (compatible : snapshots.Pairwise Snapshot.Compatible)
    (mapped : mapCorpus kernel c stackLimit entries m₀ = some m)
    (ran : runTurns kernel runOptions c.snaps m turns = some (m', results)) :
    List.Forall₂ (StartsAs snapshots) turns results := by
  have all := loaded.made snapified
  refine (mapCorpus_runTurns (loaded.sound snapified) (runnable_made compatible all) mapped
    ran).imp fun t r done => ?_
  obtain ⟨s, at_, made⟩ := forall₂_getElem? all done.snap
  refine ⟨s, at_, fun mapping mem k covered => ?_⟩
  obtain ⟨b, memB, here⟩ := made.snapified.defined mapping mem k covered
  refine ⟨b, memB, here, ?_⟩
  have memM : mappingOf options s mapping ∈ r.snap.memoryMappings := by
    rw [made.mappings]
    exact List.mem_map_of_mem mem
  rw [done.entered _ memM k covered, byteAt_mappingOf made.snapified mem covered memB here]
  rfl

theorem loaded_runTurns_marks : ∃ c file m m' results, Loaded {} runSnapshots c file ∧
    mapCorpus grantingKernel c 0 [ownEntry] ownMemory = some m ∧
    runTurns grantingKernel ⟨false, false⟩ c.snaps m runTurnsOf = some (m', results) ∧
    List.Forall₂ (StartsAs runSnapshots) runTurnsOf results := by
  obtain ⟨c, file, m, m', results, loaded, -, mapped, ran⟩ := run_all
  exact ⟨c, file, m, m', results, loaded, mapped, ran,
    loaded_runTurns loaded snapified_run compatible_run mapped ran⟩

/-- **A corpus that is mapped from its file is the same in memory** as one that is copied. -/
theorem loaded_direct (loaded : Loaded options snapshots c file)
    (snapified : ∀ s ∈ snapshots, s.Snapified)
    (copied : mapCorpus kernel { c with corpusFd := none } stackLimit entries m₀ = some m) :
    mapCorpus kernel c stackLimit entries m₀ = some m :=
  mapCorpus_direct (loaded.sound snapified) copied

theorem loaded_direct_code : ∃ c file m, Loaded {} runSnapshots c file ∧ c.corpusFd = some file ∧
    (∃ snap ∈ c.snapOffsets, ∃ o ∈ c.mappingOffsets snap, c.canDirectMap o = true) ∧
    mapCorpus grantingKernel { c with corpusFd := none } 0 [ownEntry] ownMemory = some m ∧
    mapCorpus grantingKernel c 0 [ownEntry] ownMemory = some m := by
  obtain ⟨c, file, loaded, fd, -, direct⟩ := run_loaded
  obtain ⟨m, mapped⟩ := run_mapped loaded.copied
  exact ⟨c, file, m, loaded, fd, direct, mapped, loaded_direct loaded snapified_run mapped⟩

/-- **The process keeps what it has itself**: an address of one of its own entries holds the same
after a corpus was mapped and its snaps have run, unless it was unmapped on purpose. -/
theorem loaded_keeps {k : Nat} (loaded : Loaded options snapshots c file)
    (snapified : ∀ s ∈ snapshots, s.Snapified) (compatible : snapshots.Pairwise Snapshot.Compatible)
    (mapped : mapCorpus kernel c stackLimit entries m₀ = some m)
    (ran : runTurns kernel runOptions c.snaps m turns = some (m', results))
    {e : ProcMaps.ProcMapsEntry} (mem : e ∈ entries) (low : e.startAddress.toNat ≤ k)
    (high : k < e.limitAddress.toNat)
    (kept : ∀ e ∈ entries, Unmapped e →
      ¬Within e.startAddress.toNat (pages (e.limitAddress - e.startAddress).toNat) k) :
    m' k = m₀ k :=
  mapCorpus_runTurns_keeps (loaded.sound snapified)
    (runnable_made compatible (loaded.made snapified)) mapped ran mem low high kept

theorem loaded_keeps_marks : ∃ c file m m' results, Loaded {} runSnapshots c file ∧
    mapCorpus grantingKernel c 0 [ownEntry] ownMemory = some m ∧
    runTurns grantingKernel ⟨false, false⟩ c.snaps m runTurnsOf = some (m', results) ∧
    m' 0x10800 = some ⟨5, 0x90⟩ := by
  obtain ⟨c, file, m, m', results, loaded, -, mapped, ran⟩ := run_all
  refine ⟨c, file, m, m', results, loaded, mapped, ran, ?_⟩
  refine loaded_keeps loaded snapified_run compatible_run mapped ran
    (List.mem_singleton_self ownEntry) (by decide) (by decide) fun e mem unmapped => ?_
  rw [List.mem_singleton.mp mem] at unmapped
  rcases unmapped with is | is <;> cases is

/-- **A processor that does the same with the same memory gives each snap one outcome**: in any
order of the snaps of a loaded corpus no run faults, and each comes to what its snap comes to in a
process of its own. -/
theorem loaded_alone {execute : Snap → Memory → Execution}
    (loaded : Loaded options snapshots c file) (snapified : ∀ s ∈ snapshots, s.Snapified)
    (compatible : snapshots.Pairwise Snapshot.Compatible)
    (readable : ∀ s ∈ snapshots, ∀ mapping ∈ s.memoryMappings,
      kernel.readable mapping.perms.toMProtect = true)
    (mapped : mapCorpus kernel c stackLimit entries m₀ = some m) (repeats : Repeats execute)
    (schedule : List Nat) (valid : ∀ i ∈ schedule, i < snapshots.length) :
    ∃ m' results,
      runTurns kernel runOptions c.snaps m (schedule.map (Turn.mk · execute)) = some (m', results) ∧
        List.Forall₂ (fun i r => c.snaps[i]? = some r.snap ∧
          outcomeAlone kernel runOptions execute r.snap = some r.outcome) schedule results := by
  have all := loaded.made snapified
  exact mapCorpus_runTurns_alone (loaded.sound snapified) (runnable_made compatible all)
    (readable_made all readable) mapped repeats schedule fun i mem => all.length_eq ▸ valid i mem

theorem loaded_alone_marks : ∃ c file m m' results, Loaded {} runSnapshots c file ∧
    mapCorpus grantingKernel c 0 [ownEntry] ownMemory = some m ∧
    runTurns grantingKernel ⟨false, false⟩ c.snaps m (runSchedule.map (Turn.mk · marks)) =
      some (m', results) ∧
    List.Forall₂ (fun i r => c.snaps[i]? = some r.snap ∧
      outcomeAlone grantingKernel ⟨false, false⟩ marks r.snap = some r.outcome)
      runSchedule results := by
  obtain ⟨c, file, loaded, -⟩ := run_loaded
  obtain ⟨m, mapped⟩ := run_mapped loaded
  obtain ⟨m', results, both⟩ := @loaded_alone _ _ _ _ _ _ _ _ _ ⟨false, false⟩ _ loaded
    snapified_run compatible_run readable_run mapped marks_repeats runSchedule valid_run
  exact ⟨c, file, m, m', results, loaded, mapped, both⟩

/-! ### The verdict -/

/-- The registers of the end spot are those of the end state, and its checksum is, where both are of
the same groups. -/
def RegistersAgree (integerOnly : Bool) (arch : Architecture) (e : EndState) (endSpot : EndSpot) :
    Prop :=
  ∃ registers checksum, snapRegisterStateOf arch e.registers = .ok registers ∧
    deserializeRegisterChecksum arch e.registerChecksum = some checksum ∧
    endSpot.registers.gregs = registers.gregs ∧
    (integerOnly = false → endSpot.registers.fpregs = registers.fpregs ∧
      (checksum.registerGroups ≠ 0 →
        checksum.registerGroups = endSpot.registerChecksum.registerGroups →
        checksum = endSpot.registerChecksum))

/-- Each byte that the snapshot can write is left as the end state says. -/
def LeavesEnd (s : Snapshot) (e : EndState) (left : Nat → BitVec 8) : Prop :=
  ∀ m ∈ s.memoryMappings, m.perms.has .kWritable = true → ∀ k, m.Covers k →
    ∃ b ∈ e.memoryBytes, b.Covers k ∧ left k = b.byteAt k

theorem registersAgree_iff {arch : Architecture} {e : EndState} {snap : Snap} {integerOnly : Bool}
    {endSpot : EndSpot} (ended : Ended arch options e snap) :
    RegistersAgree integerOnly arch e endSpot ↔
      registersMatch integerOnly snap endSpot = true ∧
        checksumDiffers integerOnly snap endSpot = false := by
  have own : RegistersAgree integerOnly arch e endSpot ↔
      endSpot.registers.gregs = snap.endStateRegisters.gregs ∧
      (integerOnly = false → endSpot.registers.fpregs = snap.endStateRegisters.fpregs ∧
        (snap.endStateRegisterChecksum.registerGroups ≠ 0 →
          snap.endStateRegisterChecksum.registerGroups = endSpot.registerChecksum.registerGroups →
          snap.endStateRegisterChecksum = endSpot.registerChecksum)) := by
    constructor
    · rintro ⟨registers, checksum, is, is', both⟩
      obtain rfl := Except.ok.inj (ended.registers.symm.trans is)
      obtain rfl := Option.some.inj (ended.checksum.symm.trans is')
      exact both
    · exact fun both => ⟨_, _, ended.registers, ended.checksum, both⟩
  rw [own]
  unfold registersMatch checksumDiffers
  cases integerOnly with
  | true => simp
  | false =>
    simp only [Bool.and_eq_true, beq_iff_eq, Bool.false_or, Bool.not_false, Bool.true_and,
      Bool.and_eq_false_iff, bne_eq_false_iff_eq, beq_eq_false_iff_ne, true_implies]
    tauto

/-- All that the end state of a snap says is in the memory if each byte is left so. -/
theorem leavesEnd_iff {s : Snapshot} {e : EndState} {left : Nat → BitVec 8}
    (snapified : s.Snapified) (mem : e ∈ s.expectedEndStates)
    (complete : e.isComplete .kNormalState = .ok ()) :
    (∀ b ∈ e.memoryBytes.map (snapMemoryBytesOf options), ∀ p, (datum b).Covers p →
      (datum b).valueAt p = some (left p)) ↔ LeavesEnd s e left := by
  constructor
  · intro all m memM writable k covered
    obtain ⟨b, memB, here⟩ := snapified.ended e mem complete m memM writable k covered
    have said := all _ (List.mem_map_of_mem memB) k (by rw [datum_of]; exact here)
    rw [datum_of, valueAt_covers here] at said
    exact ⟨b, memB, here, (Option.some.inj said).symm⟩
  · intro leaves _ memS p here
    obtain ⟨b, memB, rfl⟩ := List.mem_map.mp memS
    rw [datum_of] at here ⊢
    obtain ⟨m, memM, writable, covered⟩ := snapified.writable e mem b memB p here
    obtain ⟨x, memX, there, is⟩ := leaves m memM writable p covered
    have same : b = x := eq_of_covers (snapified.apart e mem) memB memX here there
    rw [valueAt_covers here, is, same]

/-- Where the end state of a snap has bytes, the memory is as the execution leaves it. -/
theorem SnapMade.executed {arch : Architecture} {s : Snapshot} {e : EndState} {snap : Snap}
    {entered : Memory} {x : Execution} (made : SnapMade arch options s snap)
    (ended : Ended arch options e snap) (memE : e ∈ s.expectedEndStates)
    (enters : ∀ mapping ∈ snap.memoryMappings, ∀ p, mapping.Covers p →
      entered p = some ⟨mapping.perms, mapping.byteAt p⟩) :
    ∀ b ∈ snap.endStateMemoryBytes, ∀ p, (datum b).Covers p →
      ∃ prot, RunnerMemory.executed entered snap x p = some ⟨prot, x.left p⟩ := by
  intro b memB p here
  rw [ended.memoryBytes] at memB
  obtain ⟨y, memY, rfl⟩ := List.mem_map.mp memB
  rw [datum_of] at here
  obtain ⟨n, memN, writable, covered⟩ := made.snapified.writable e memE y memY p here
  have own : mappingOf options s n ∈ snap.memoryMappings := by
    rw [made.mappings]
    exact List.mem_map_of_mem memN
  have written : snap.memoryMappings.any (fun mapping =>
      mapping.writable && decide (Within mapping.startAddress mapping.numBytes p)) = true :=
    List.any_eq_true.mpr ⟨_, own, Bool.and_eq_true_iff.mpr
      ⟨(allowsWrite_toMProtect _).trans writable, decide_eq_true covered⟩⟩
  refine ⟨n.perms.toMProtect, ?_⟩
  unfold RunnerMemory.executed
  rw [if_pos written, enters _ own p covered]
  rfl

/-- What a run that ends without a signal comes to, by the end state of its snapshot. -/
def JudgedBy (integerOnly : Bool) (arch : Architecture) (snapshots : List Snapshot) (t : Turn)
    (r : RunSnapResult) : Prop :=
  ∃ s e, snapshots[t.snap]? = some s ∧ s.expectedEndStates.head? = some e ∧
    ∀ x, x = t.execute r.snap r.entered → x.endSpot.signum = 0 →
      (¬RegistersAgree integerOnly arch e x.endSpot → r.outcome = .kRegisterStateMismatch) ∧
      (RegistersAgree integerOnly arch e x.endSpot →
        (LeavesEnd s e x.left → r.outcome = .kAsExpected) ∧
        (¬LeavesEnd s e x.left → r.outcome = .kMemoryMismatch))

/-- **The verdict on a run that ends without a signal**: a mismatch of the registers if they are not
those of the end state of the snapshot; otherwise as expected if each byte that the snapshot can
write is left as its end state says, and a mismatch of the memory if not. -/
theorem loaded_verdict (loaded : Loaded options snapshots c file)
    (snapified : ∀ s ∈ snapshots, s.Snapified) (compatible : snapshots.Pairwise Snapshot.Compatible)
    (normal : ∀ s ∈ snapshots, ∀ e ∈ s.expectedEndStates, e.isComplete .kNormalState = .ok ())
    (checks : runOptions.skipEndStateCheck = false)
    (mapped : mapCorpus kernel c stackLimit entries m₀ = some m)
    (ran : runTurns kernel runOptions c.snaps m turns = some (m', results)) :
    List.Forall₂ (JudgedBy runOptions.integerOnly c.arch snapshots) turns results := by
  have all := loaded.made snapified
  refine (mapCorpus_runTurns (loaded.sound snapified) (runnable_made compatible all) mapped
    ran).imp fun t r done => ?_
  obtain ⟨s, at_, made⟩ := forall₂_getElem? all done.snap
  obtain ⟨e, first, ended⟩ := made.ended
  refine ⟨s, e, at_, first, ?_⟩
  rintro x rfl quiet
  have memE := List.mem_of_head? first
  have judged := done.outcome
  unfold outcomeOf endSpotToOutcome at judged
  rw [if_neg (by rw [checks]; decide), if_neg (not_not.mpr quiet)] at judged
  rw [registersAgree_iff ended]
  split at judged
  · next differ =>
    have judged := Option.some.inj judged
    exact ⟨fun _ => judged.symm, fun agree => absurd agree.1 (by simpa using differ)⟩
  · next match_ =>
    split at judged
    · next differ =>
      have judged := Option.some.inj judged
      refine ⟨fun _ => judged.symm, fun agree => ?_⟩
      rw [agree.2] at differ
      cases differ
    · next same =>
      refine ⟨fun disagree => absurd ⟨by simpa using match_, by simpa using same⟩ disagree,
        fun _ => ?_⟩
      obtain ⟨either, iff⟩ := verifyEndState_ok (made.executed ended memE done.entered) judged
      rw [ended.memoryBytes, leavesEnd_iff made.snapified memE
        (normal s (List.mem_of_getElem? at_) e memE)] at iff
      exact ⟨iff.mpr, fun not => either.resolve_left fun is => not (iff.mp is)⟩

/-- A snap that leaves the page changed is judged by what the end state says of the page. -/
theorem marks_judged {t : Turn} {r : RunSnapResult} {s : Snapshot} {e : EndState}
    (judged : JudgedBy false .kX86_64 runSnapshots t r) (does : t.execute = marks)
    (at_ : runSnapshots[t.snap]? = some s) (first : s.expectedEndStates.head? = some e)
    (agree : RegistersAgree false .kX86_64 e marksSpot) :
    (LeavesEnd s e marked → r.outcome = .kAsExpected) ∧
      (¬LeavesEnd s e marked → r.outcome = .kMemoryMismatch) := by
  obtain ⟨s', e', at', first', verdict⟩ := judged
  obtain rfl := Option.some.inj (at_.symm.trans at')
  obtain rfl := Option.some.inj (first.symm.trans first')
  rw [does] at verdict
  exact (verdict _ rfl rfl).2 agree

theorem endRegisters_are : snapRegisterStateOf .kX86_64 pageRegisters = .ok endRegisters := by
  decide +kernel

theorem agree_run : RegistersAgree false .kX86_64 runEndState marksSpot ∧
    RegistersAgree false .kX86_64 readEndState marksSpot :=
  ⟨⟨endRegisters, ⟨0, 0⟩, endRegisters_are, rfl, rfl, fun _ => ⟨rfl, fun _ _ => rfl⟩⟩,
    ⟨endRegisters, ⟨0, 0⟩, endRegisters_are, rfl, rfl, fun _ => ⟨rfl, fun _ _ => rfl⟩⟩⟩

theorem run_leavesEnd : LeavesEnd runSnapshot runEndState marked := by
  refine List.forall_mem_singleton.mpr fun _ k covered => ?_
  obtain ⟨low, high⟩ : 0x20000 ≤ k ∧ k < 0x21000 := covered
  by_cases first : k = 0x20000
  · refine ⟨changedByte, List.mem_cons_self, ?_⟩
    rw [first]
    exact ⟨⟨Nat.le_refl _, Nat.lt_succ_self _⟩, rfl⟩
  · refine ⟨restBytes, List.mem_cons_of_mem _ List.mem_cons_self, ⟨?_, ?_⟩, ?_⟩
    · change 0x20001 ≤ k
      lia
    · rw [limit_restBytes]
      exact high
    · unfold marked MemoryBytes.byteAt
      change _ = (List.replicate 4095 _).getD (k - 0x20001) _
      rw [if_neg first, List.getD_eq_getElem?_getD, List.getElem?_replicate_of_lt (by lia)]
      rfl

theorem read_not_leavesEnd : ¬LeavesEnd readSnapshot readEndState marked := by
  intro leaves
  obtain ⟨b, mem, here, is⟩ := leaves Snapify.highPage List.mem_cons_self rfl 0x20000 (by decide)
  obtain rfl := List.mem_singleton.mp mem
  rw [byteAt_filledBytes here] at is
  exact absurd is (by decide)

/-- The other snap should have left the page as it was. -/
theorem loaded_verdict_marks : ∃ c file m m' results, Loaded {} runSnapshots c file ∧
    mapCorpus grantingKernel c 0 [ownEntry] ownMemory = some m ∧
    runTurns grantingKernel ⟨false, false⟩ c.snaps m runTurnsOf = some (m', results) ∧
    List.Forall₂ (JudgedBy false c.arch runSnapshots) runTurnsOf results ∧
    results.map (·.outcome) = [.kAsExpected, .kMemoryMismatch, .kAsExpected] := by
  obtain ⟨c, file, m, m', results, loaded, arch, mapped, ran⟩ := run_all
  have normal : ∀ s ∈ runSnapshots, ∀ e ∈ s.expectedEndStates,
      e.isComplete .kNormalState = .ok () := by
    refine forall_mem_pair.mpr ⟨List.forall_mem_singleton.mpr ?_,
      List.forall_mem_singleton.mpr ?_⟩ <;>
    decide +kernel
  have judged := loaded_verdict loaded snapified_run compatible_run normal rfl mapped ran
  refine ⟨c, file, m, m', results, loaded, mapped, ran, judged, ?_⟩
  rw [arch] at judged
  obtain _ | ⟨j₁, _ | ⟨j₂, _ | ⟨j₃, _ | _⟩⟩⟩ := judged
  have first := (marks_judged j₁ rfl rfl rfl agree_run.1).1 run_leavesEnd
  have second := (marks_judged j₂ rfl rfl rfl agree_run.2).2 read_not_leavesEnd
  have third := (marks_judged j₃ rfl rfl rfl agree_run.1).1 run_leavesEnd
  simp only [List.map_cons, List.map_nil, first, second, third]

end

end RunnerMemory

end Silifuzz
