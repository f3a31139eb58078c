import Silifuzz.Snap.Gen.RelocatableSnapGenerator.Stores

/-!
# The objects that the generator makes

For each function, from the memory bytes up to the snap: what a reader finds at the offset is
what the snapshot has, whatever else is stored later.
-/

namespace Silifuzz

open LittleEndian Images Triples Crc32c Footprints SnapReader SnapRelocator RelocatableDataBlock

namespace Traversal

/-! ## What there is to read -/

section

variable (arch : Architecture) (options : RelocatableSnapGeneratorOptions)

def snapMemoryBytesOf (b : MemoryBytes) : SnapMemoryBytes where
  startAddress := b.startAddress
  data :=
    if compresses options b then .byteRun (b.byteValues.headD 0) b.byteValues.length
    else .byteValues b.byteValues

def snapMemoryMappingOf (mapping : MemoryMapping × List MemoryBytes) : SnapMemoryMapping where
  startAddress := mapping.1.startAddress
  numBytes := mapping.1.numBytes
  perms := mapping.1.perms.toMProtect
  memoryChecksum := (memoryChecksum mapping.2).toNat
  memoryBytes := mapping.2.map (snapMemoryBytesOf options)

/-- The `Snap` of what a snapshot has. An id ends at a NUL. -/
def snapOfParts (snapshot : Snapshot) (bytesPerMapping : List (List MemoryBytes))
    (endState : EndState) (registers endStateRegisters : SnapRegisterState)
    (registerChecksum : RegisterChecksum) : Snap where
  id := snapshot.id.takeWhile (· ≠ 0)
  memoryMappings := (snapshot.memoryMappings.zip bytesPerMapping).map (snapMemoryMappingOf options)
  registers := registers
  endStateInstructionAddress := endState.endpoint.instructionAddress % 2 ^ 64
  endStateRegisters := endStateRegisters
  endStateMemoryBytes := endState.memoryBytes.map (snapMemoryBytesOf options)
  endStateRegisterChecksum := registerChecksum
  registersMemoryChecksum := snapRegisterMemoryChecksumOf registers
  endStateRegistersMemoryChecksum := snapRegisterMemoryChecksumOf endStateRegisters

/-- The `Snap` of a snapshot. -/
def snapOf (snapshot : Snapshot) : Except CheckFailure Snap := do
  checkCondition (snapshot.architecture = arch)
  let bytesPerMapping ← orFail (splitBytesByMapping snapshot.memoryMappings snapshot.memoryBytes)
  let endState ← orFail snapshot.expectedEndStates.head?
  let registers ← orFail snapshot.registers
  let registers ← snapRegisterStateOf arch registers
  let endStateRegisters ← snapRegisterStateOf arch endState.registers
  let registerChecksum ← orFail (deserializeRegisterChecksum arch endState.registerChecksum)
  return snapOfParts options snapshot bytesPerMapping endState registers endStateRegisters
    registerChecksum

end

section

variable (start : Nat) (arch : Architecture)

def memoryBytesKind : Kind SnapMemoryBytes where
  block := .memoryBytes
  type := .snapMemoryBytes
  walk := memoryBytesWalk start
  regions := memoryBytesRegions
  read := memoryBytesAt 0

def memoryMappingKind : Kind SnapMemoryMapping where
  block := .memoryMapping
  type := .snapMemoryMapping
  walk := fun mapping => memoryBytesArrayWalk start (mapping + Offset.SnapMemoryMapping.memoryBytes)
  regions := memoryMappingRegions
  read := memoryMappingAt 0

def snapKind : Kind Snap where
  block := .snap
  type := .snap
  walk := snapWalk start arch
  regions := snapRegions arch
  read image := snapAt 0 image arch

end

section

variable {start n : Nat} {base limit : Block → Nat} {arch : Architecture}
  {options : RelocatableSnapGeneratorOptions} {t t' : Traversal} {ref : Ref}

/-! ## Memory bytes -/

theorem byteRunFields_ok (b : MemoryBytes) : FieldsOk 32 (fieldShapes (byteRunFields b)) := by
  change FieldsOk 32 [(0, 8), (8, 1), (16, 1), (24, 8)]
  decide

theorem byteValuesFields_ok (b : MemoryBytes) (elements : Nat) :
    FieldsOk 32 (fieldShapes (byteValuesFields b elements)) := by
  change FieldsOk 32 [(0, 8), (8, 1), (16, 8), (24, 8)]
  decide

theorem memoryBytes_small (b : MemoryBytes) :
    b.startAddress < 256 ^ 8 ∧ b.byteValues.length < 256 ^ 8 := by
  have bounded := b.bounded
  have max : kMaxAddress < 256 ^ 8 := by decide
  exact ⟨Nat.lt_of_le_of_lt (Nat.le_of_add_right_le bounded) max,
    Nat.lt_of_le_of_lt (Nat.le_of_add_left_le bounded) max⟩

theorem storeByteRun_made {o : Nat} {b : MemoryBytes} {image : Bytes}
    (compressed : compresses options b = true)
    (shows : Shows image (fields o (byteRunFields b))) (inside : o + 32 ≤ image.length)
    (data : Set Nat) :
    Made (memoryBytesKind start) (snapMemoryBytesOf options b) image data
      (Region.positions (o, 32)) o := by
  obtain ⟨address, length⟩ := memoryBytes_small b
  have startAddress : number image (o + 0) 8 = b.startAddress :=
    field_number shows (by simp [byteRunFields]) address
  have flags : number image (o + 8) 1 = 1 :=
    field_number shows (by simp [byteRunFields, Offset.SnapMemoryBytes.kRepeating]) (by decide)
  have value : number image (o + 16) 1 = (b.byteValues.headD 0).toNat :=
    field_number shows (by simp [byteRunFields]) (b.byteValues.headD 0).isLt
  have size : number image (o + 24) 8 = b.byteValues.length :=
    field_number shows (by simp [byteRunFields]) length
  have repeating : isRepeating image o = true := by
    change decide (number image (o + 8) 1 &&& 1 ≠ 0) = true
    rw [flags]
    rfl
  constructor
  · have none : (memoryBytesKind start).regions image o = [] := if_pos repeating
    rw [none]
    refine Keeps.single (c := ⟨o, 32, Option.none⟩) ⟨inside, fun single => ?_⟩ ?_ (Nat.succ_pos _)
      (Set.Subset.refl _)
    · rw [repeating] at single
      cases single
    · change [Cell.mk o 32 (if isRepeating image o then _ else _)] = _
      rw [repeating]
      rfl
  · change SnapMemoryBytes.mk (number image (o + 0) 8) (if number image (o + 8) 1 &&& 1 ≠ 0 then
      .byteRun (BitVec.ofNat 8 (number image (o + 16) 1)) (number image (o + 24) 8) else _) = _
    rw [startAddress, flags, value, size, if_pos (by decide), BitVec.ofNat_toNat,
      BitVec.setWidth_eq, snapMemoryBytesOf, if_pos compressed]

theorem storeByteValues_made {o e : Nat} {b : MemoryBytes} {image : Bytes} {data : Set Nat}
    (plain : compresses options b = false)
    (shows : Shows image (fields o (byteValuesFields b e))) (inside : o + 32 ≤ image.length)
    (bytes : piece image e b.byteValues.length = b.byteValues)
    (inside' : e + b.byteValues.length ≤ image.length) (room : image.length < 256 ^ 8)
    (shared : Region.positions (e, b.byteValues.length) ⊆ data)
    (free : Disjoint (Region.positions (o, 32)) data) :
    Made (memoryBytesKind start) (snapMemoryBytesOf options b) image data
      (Region.positions (o, 32)) o := by
  obtain ⟨address, length⟩ := memoryBytes_small b
  have some : 0 < b.byteValues.length := List.length_pos_of_ne_nil b.nonempty
  have startAddress : number image (o + 0) 8 = b.startAddress :=
    field_number shows (by simp [byteValuesFields]) address
  have flags : number image (o + 8) 1 = 0 :=
    field_number shows (by simp [byteValuesFields]) (by decide)
  have size : number image (o + 16) 8 = b.byteValues.length :=
    field_number shows (by simp [byteValuesFields]) length
  have elements : number image (o + 24) 8 = e :=
    field_number shows (by simp [byteValuesFields]) (by omega)
  have repeating : isRepeating image o = false := by
    change decide (number image (o + 8) 1 &&& 1 ≠ 0) = false
    rw [flags]
    rfl
  constructor
  · have region : (memoryBytesKind start).regions image o = [(e, b.byteValues.length)] := by
      change (if isRepeating image o then [] else
        [(number image (o + 24) 8, number image (o + 16) 8)]) = _
      rw [repeating, elements, size]
      rfl
    rw [region]
    have keeps : Keeps ((memoryBytesKind start).walk o) [] image data (Region.positions (o, 32)) := by
      refine Keeps.single (c := ⟨o, 32, Option.some (o + 24, start + number image (o + 24) 8)⟩)
        ⟨inside, fun _ => ⟨?_, Nat.mod_one _⟩⟩ ?_ (Nat.succ_pos _) (Set.Subset.refl _)
      · rw [elements]
        change e + 1 ≤ image.length
        omega
      · change [Cell.mk o 32 (if isRepeating image o then _ else _)] = _
        rw [repeating]
        rfl
    exact keeps.cons some (fun _ here => .inr (shared here)) (free.symm.mono_left shared)
      (Set.Subset.refl _)
  · change SnapMemoryBytes.mk (number image (o + 0) 8) (if number image (o + 8) 1 &&& 1 ≠ 0 then _
      else .byteValues (piece image (number image (o + 24) 8 - 0) (number image (o + 16) 8))) = _
    rw [startAddress, flags, size, elements, Nat.sub_zero, bytes, if_neg (by decide),
      snapMemoryBytesOf, plain, if_neg (by decide)]

theorem Made.mono {β : Type} {k : Kind β} {value : β} {image : Bytes} {data zone zone' : Set Nat}
    {offset : Nat} (h : Made k value image data zone offset) (larger : zone ⊆ zone') :
    Made k value image data zone' offset := ⟨h.keeps.mono larger, h.read⟩

theorem processAllocatedMemoryBytes_filled (layout : Layout base limit n)
    {b : MemoryBytes} (inv : Inv base limit n arch t) (block : ref.block = .memoryBytes)
    (fits : ref.byteOffset + 32 ≤ (t.blocks ref.block).size)
    (run : processAllocatedMemoryBytes .kGeneration options b ref t = .ok ((), t')) :
    Filled base limit n arch (memoryBytesKind start) (snapMemoryBytesOf options b) ref t t' := by
  unfold processAllocatedMemoryBytes at run
  have inside := inv.inside layout fits
  split at run
  · next compressed =>
    obtain ⟨o, placed, aligned, rfl⟩ := storeByteRun_ok run
    obtain rfl : o = addr base ref := inv.contents placed
    refine ⟨inv.push _, (fields_step (byteRunFields_ok b)).mono Set.subset_union_left, aligned,
      fun image final => ?_⟩
    exact (storeByteRun_made compressed (final.shows.subset (List.subset_append_right _ _))
      (final.within inside) _).mono Set.subset_union_left
  · next plain =>
    obtain ⟨elements, t₁, first, rest⟩ := bind_ok run
    obtain ⟨inv₁, step₁, holds, contents, is, stored, fits₁⟩ :=
      processMemoryBytes_known layout inv first
    obtain rfl : b.byteValues = contents := Except.ok.inj is
    obtain ⟨o, e, placed, aligned, loads, rfl⟩ := storeByteValues_ok rest
    obtain rfl : o = addr base ref := inv₁.contents placed
    obtain ⟨rfl, -⟩ := inv₁.loads loads
    refine ⟨inv₁.push _, step₁.join ((fields_step (byteValuesFields_ok b _)).mono
      Set.subset_union_left) (slot_taken fits), aligned, fun image final => ?_⟩
    have free := slot_free ref 32 layout (block.symm ▸ rfl) (Nat.le_trans fits (inv.within _))
    exact (storeByteValues_made (Bool.eq_false_of_not_eq_true plain)
      (final.shows.subset (List.subset_append_right _ _)) (final.within inside)
      (final.shows _ (List.mem_append_left _ stored)) (final.within (inv₁.inside layout fits₁))
      final.small (slot_data holds (Nat.le_trans fits₁ (inv₁.within _))) free).mono
        Set.subset_union_left

theorem eq_map_of_forall₂ {α β : Type} {f : α → β} {l : List α} {values : List β}
    (h : List.Forall₂ (fun a value => value = f a) l values) : values = l.map f := by
  induction h with
  | nil => rfl
  | cons is _ ih => rw [is, ih, List.map_cons]

theorem processMemoryBytesList_stored (layout : Layout base limit n)
    {l : List MemoryBytes} (inv : Inv base limit n arch t)
    (run : processMemoryBytesList .kGeneration options l t = .ok (ref, t')) :
    ListStored base limit n arch (memoryBytesKind start) (l.map (snapMemoryBytesOf options)) ref
      t t' := by
  obtain ⟨ref', t₁, allocated, rest₁⟩ := bind_ok run
  obtain ⟨_, t₂, elements, rest₂⟩ := bind_ok rest₁
  cases rest₂
  have new := inv.allocate layout allocated
  have fits := new.fits
  rw [Nat.mul_comm] at fits
  obtain ⟨values, all, filled⟩ := elements_filled (k := memoryBytesKind start)
    (R := fun b value => value = snapMemoryBytesOf options b) layout rfl
    (fun b _ ref t t' inv block fits run =>
      ⟨_, rfl, processAllocatedMemoryBytes_filled layout inv block fits run⟩)
    (forElements_ok elements) new.inv new.block fits
  obtain rfl : values = l.map (snapMemoryBytesOf options) := eq_map_of_forall₂ all
  refine list_stored layout rfl ?_ filled
  rwa [List.length_map]

/-! ## Memory mappings -/

theorem memoryMappingFields_ok (mapping : MemoryMapping) (l : List MemoryBytes) (elements : Nat) :
    FieldsOk 40 (fieldShapes (memoryMappingFields mapping l elements)) := by
  change FieldsOk 40 [(0, 8), (8, 8), (16, 4), (20, 4), (24, 8), (32, 8)]
  decide

theorem toMProtect_small (perms : MemoryPerms) : perms.toMProtect < 256 ^ 4 := by
  unfold MemoryPerms.toMProtect
  split <;> split <;> split <;> decide

theorem memoryMapping_small (mapping : MemoryMapping) :
    mapping.startAddress < 256 ^ 8 ∧ mapping.numBytes < 256 ^ 8 := by
  have bounded := mapping.bounded
  have max : kMaxAddress < 256 ^ 8 := by decide
  exact ⟨Nat.lt_of_le_of_lt (Nat.le_of_add_right_le bounded) max,
    Nat.lt_of_le_of_lt (Nat.le_of_add_left_le bounded) max⟩

theorem positions_within {o offset size whole : Nat} (fits : offset + size ≤ whole) :
    Region.positions (o + offset, size) ⊆ Region.positions (o, whole) := by
  rintro p ⟨low, high⟩
  dsimp only at low high
  exact ⟨by omega, by dsimp only; omega⟩

theorem positions_apart {o offset size offset' size' : Nat} (before : offset + size ≤ offset') :
    Disjoint (Region.positions (o + offset, size)) (Region.positions (o + offset', size')) :=
  disjoint_of_apart (.inl (by dsimp only; omega))

theorem page_multiple (page : start % 4096 = 0) {align : Nat} (divides : align ∣ 4096) :
    start % align = 0 :=
  Nat.mod_eq_zero_of_dvd (Nat.dvd_trans divides (Nat.dvd_of_mod_eq_zero page))

theorem storeMemoryMapping_made {o first : Nat} {mapping : MemoryMapping × List MemoryBytes}
    {image : Bytes} {data zone : Set Nat}
    (shows : Shows image (fields o (memoryMappingFields mapping.1 mapping.2 first)))
    (there : ElementsThere start (memoryBytesKind start) (mapping.2.map (snapMemoryBytesOf options))
      image data zone first)
    (inside : o + 40 ≤ image.length) (room : image.length < 256 ^ 8)
    (disjoint : Disjoint (Region.positions (o, 40)) zone)
    (free : Disjoint (Region.positions (o, 40)) data) :
    Made (memoryMappingKind start) (snapMemoryMappingOf options mapping) image data
      (Region.positions (o, 40) ∪ zone) o := by
  obtain ⟨address, bytes⟩ := memoryMapping_small mapping.1
  have startAddress : number image (o + 0) 8 = mapping.1.startAddress :=
    field_number shows (by simp [memoryMappingFields]) address
  have numBytes : number image (o + 8) 8 = mapping.1.numBytes :=
    field_number shows (by simp [memoryMappingFields]) bytes
  have perms : number image (o + 16) 4 = mapping.1.perms.toMProtect :=
    field_number shows (by simp [memoryMappingFields]) (toMProtect_small _)
  have checksum : number image (o + 20) 4 = (memoryChecksum mapping.2).toNat :=
    field_number shows (by simp [memoryMappingFields]) (memoryChecksum mapping.2).isLt
  have count : (mapping.2.map (snapMemoryBytesOf options)).length = mapping.2.length :=
    List.length_map _
  obtain ⟨few, low⟩ := there.small (Nat.succ_pos _) room
  rw [count] at few
  have size : number image (o + 24) 8 = mapping.2.length :=
    field_number shows (by simp [memoryMappingFields]) few
  have elements : number image (o + 32) 8 = first :=
    field_number shows (by simp [memoryMappingFields]) low
  have header : Region.positions (o + 24, 16) ⊆ Region.positions (o, 40) :=
    positions_within (Nat.le_refl _)
  have before : Disjoint (Region.positions (o, 24)) (Region.positions (o + 24, 16)) :=
    disjoint_of_apart (.inl (Nat.le_refl _))
  have own : Region.positions (o, 24) ⊆ Region.positions (o, 40) :=
    @positions_within o 0 24 40 (by decide)
  obtain ⟨keeps, read⟩ := array_made (o + 24) there (by omega)
    (size.trans count.symm) elements (disjoint.mono_left header) (free.mono_left header)
  constructor
  · refine keeps.cons (r := (o, 24)) (Nat.succ_pos _) (fun p here => .inl (.inl (own here)))
      (Set.disjoint_union_right.mpr ⟨before, disjoint.mono_left own⟩) ?_
    exact Set.union_subset_union_left _ header
  · change SnapMemoryMapping.mk (number image (o + 0) 8) (number image (o + 8) 8)
      (number image (o + 16) 4) (number image (o + 20) 4) (memoryBytesListAt 0 image (o + 24)) = _
    rw [startAddress, numBytes, perms, checksum]
    exact congrArg _ read

/-- The elements of an object that is filled in were allocated before, apart from it. -/
theorem slot_zone {s : Set Nat} {t₁ : Traversal} (inside : s ⊆ taken base t) :
    Disjoint s (fresh base t t₁ \ dataZone base limit) :=
  Set.disjoint_left.mpr fun _ here there => there.1.2 (inside here)

theorem processMemoryMapping_filled (layout : Layout base limit n)
    (page : start % 4096 = 0) {mapping : MemoryMapping × List MemoryBytes}
    (inv : Inv base limit n arch t) (block : ref.block = .memoryMapping)
    (fits : ref.byteOffset + 40 ≤ (t.blocks ref.block).size)
    (run : processMemoryMapping .kGeneration options mapping ref t = .ok ((), t')) :
    Filled base limit n arch (memoryMappingKind start) (snapMemoryMappingOf options mapping) ref
      t t' := by
  obtain ⟨elements, t₁, first, rest⟩ := bind_ok run
  have stored : ListStored base limit n arch (memoryBytesKind start) _ elements t t₁ :=
    processMemoryBytesList_stored layout inv first
  obtain ⟨o, e, placed, aligned, loads, rfl⟩ := storeMemoryMapping_ok rest
  obtain rfl : o = addr base ref := stored.inv.contents placed
  obtain ⟨rfl, -⟩ := stored.inv.loads loads
  have filled : Step (slot base ref 40) t₁ (t₁.push _) :=
    fields_step (memoryMappingFields_ok mapping.1 mapping.2 (addr base elements))
  have inside := inv.inside layout fits
  have free := slot_free ref 40 layout (block.symm ▸ rfl) (Nat.le_trans fits (inv.within _))
  refine ⟨stored.inv.push _, stored.step.join (filled.mono Set.subset_union_left)
    (slot_taken fits), aligned, fun image final => ?_⟩
  have there := stored.there filled.later (page_multiple page (show 8 ∣ 4096 by decide)) image final
  exact (storeMemoryMapping_made (final.shows.subset (List.subset_append_right _ _)) there
    (final.within inside) final.small (slot_zone (slot_taken fits)) free).mono
      (Set.union_subset_union_right _ fun _ here => ⟨fresh_first filled.later here.1, here.2⟩)

theorem processMemoryMappings_stored (layout : Layout base limit n)
    (page : start % 4096 = 0) {mappings : List (MemoryMapping × List MemoryBytes)}
    (inv : Inv base limit n arch t)
    (run : processMemoryMappings .kGeneration options mappings t = .ok (ref, t')) :
    ListStored base limit n arch (memoryMappingKind start)
      (mappings.map (snapMemoryMappingOf options)) ref t t' := by
  obtain ⟨ref', t₁, allocated, rest₁⟩ := bind_ok run
  obtain ⟨_, t₂, elements, rest₂⟩ := bind_ok rest₁
  cases rest₂
  have new := inv.allocate layout allocated
  have fits := new.fits
  rw [Nat.mul_comm] at fits
  obtain ⟨values, all, filled⟩ := elements_filled (k := memoryMappingKind start)
    (R := fun mapping value => value = snapMemoryMappingOf options mapping) layout rfl
    (fun mapping _ ref t t' inv block fits run =>
      ⟨_, rfl, processMemoryMapping_filled layout page inv block fits run⟩)
    (forElements_ok elements) new.inv new.block fits
  obtain rfl : values = mappings.map (snapMemoryMappingOf options) := eq_map_of_forall₂ all
  refine list_stored layout rfl ?_ filled
  rwa [List.length_map]

/-! ## Registers -/

/-- A register set is there, where a corpus at `start` may have it. -/
structure RegisterSetThere (start : Nat) (type : CType) (image : Bytes) (data : Set Nat)
    (offset : Nat) (contents : ByteData) : Prop where
  read : piece image offset type.size = contents
  inside : offset + type.size ≤ image.length
  aligned : (start + offset) % type.align = 0
  shared : Region.positions (offset, type.size) ⊆ data

theorem Stored.there (layout : Layout base limit n) {t₁ : Traversal} {type : CType}
    {contents : ByteData} (inv : Inv base limit n arch t₁) (h : Stored base t₁ type ref contents)
    (later : Later t₁ t') (page : start % type.align = 0) :
    Lasting n t' fun image => RegisterSetThere start type image (dataZone base limit) (addr base ref)
      contents := by
  intro image final
  refine ⟨?_, final.within (inv.inside layout h.fits), ?_,
    slot_data h.holds (Nat.le_trans h.fits (inv.within _))⟩
  · rw [← h.length]
    exact final.shows _ (later.subset h.stored)
  · rw [Nat.add_mod, page, h.aligned, Nat.zero_add, Nat.zero_mod]

/-- Both register sets of a register state are there. -/
structure RegistersThere (start : Nat) (arch : Architecture) (image : Bytes) (data : Set Nat)
    (fpregs gregs : Nat) (registers : SnapRegisterState) : Prop where
  fpregs : RegisterSetThere start (.fpRegSet arch) image data fpregs registers.fpregs
  gregs : RegisterSetThere start (.gRegSet arch) image data gregs registers.gregs

theorem RegistersStored.there (layout : Layout base limit n) {t₁ : Traversal}
    {refs : RegisterStateRefs} {registers : SnapRegisterState} (inv : Inv base limit n arch t₁)
    (h : RegistersStored base arch t₁ refs registers) (later : Later t₁ t')
    (page : start % 4096 = 0) :
    Lasting n t' fun image => RegistersThere start arch image (dataZone base limit)
      (addr base refs.fpregs) (addr base refs.gregs) registers := by
  intro image final
  constructor
  · exact h.fpregs.there layout inv later (page_multiple page (show 16 ∣ 4096 by decide)) image
      final
  · exact h.gregs.there layout inv later (page_multiple page (show 8 ∣ 4096 by decide)) image
      final

theorem fpRegSet_some : 0 < (CType.fpRegSet arch).size := by cases arch <;> decide

theorem gRegSet_some : 0 < (CType.gRegSet arch).size := by cases arch <;> decide

theorem registerState_made {o f g : Nat} {image : Bytes} {data : Set Nat}
    {registers : SnapRegisterState}
    (there : RegistersThere start arch image data f g registers)
    (fpregs : number image (o + 0) 8 = f) (gregs : number image (o + 8) 8 = g)
    (inside : o + 16 ≤ image.length) (free : Disjoint (Region.positions (o, 16)) data) :
    Keeps (registerStateWalk start arch o) (registerStateRegions arch image o) image data
        (Region.positions (o, 16)) ∧
      registerStateAt 0 image arch o = registers := by
  have first : Region.positions (o + 0, 8) ⊆ Region.positions (o, 16) :=
    positions_within (by decide)
  have second : Region.positions (o + 8, 8) ⊆ Region.positions (o, 16) :=
    positions_within (by decide)
  have pointerF : Keeps (pointerWalk start (.fpRegSet arch) (o + 0)) [] image data
      (Region.positions (o + 0, 8)) := pointer_keeps (by omega) (by
    rw [fpregs]
    exact ⟨there.fpregs.inside, there.fpregs.aligned⟩)
  have pointerG : Keeps (pointerWalk start (.gRegSet arch) (o + 8)) [] image data
      (Region.positions (o + 8, 8)) := pointer_keeps inside (by
    rw [gregs]
    exact ⟨there.gregs.inside, there.gregs.aligned⟩)
  have both := (pointerF.seq pointerG (positions_apart (by decide)) (free.mono_left first)
    (free.mono_left second)).mono (Set.union_subset first second)
  constructor
  · have regions : registerStateRegions arch image o =
        [(f, (CType.fpRegSet arch).size), (g, (CType.gRegSet arch).size)] := by
      rw [← fpregs, ← gregs]
      rfl
    rw [regions]
    refine (both.cons gRegSet_some (fun _ here => .inr (there.gregs.shared here))
      (free.symm.mono_left there.gregs.shared) (Set.Subset.refl _)).cons fpRegSet_some
        (fun _ here => .inr (there.fpregs.shared here))
        (free.symm.mono_left there.fpregs.shared) (Set.Subset.refl _)
  · change SnapRegisterState.mk (piece image (number image (o + 0) 8) _)
      (piece image (number image (o + 8) 8) _) = _
    rw [fpregs, gregs, there.fpregs.read, there.gregs.read]

/-! ## Snaps -/

theorem snapFields_ok (snapshot : Snapshot) (endState : EndState) (refs : SnapRefs)
    (registerChecksum : RegisterChecksum) (a : SnapAddresses) :
    FieldsOk 112 (fieldShapes (snapFields snapshot endState refs registerChecksum a)) := by
  change FieldsOk 112 [(0, 8), (8, 8), (16, 8), (24, 8), (32, 8), (40, 8), (48, 8), (56, 8),
    (64, 8), (72, 8), (80, 8), (88, 8), (96, 4), (100, 4), (104, 4), (108, 4)]
  decide

theorem takeWhile_nul (s rest : ByteData) :
    (s ++ 0 :: rest).takeWhile (· ≠ 0) = s.takeWhile (· ≠ 0) := by
  induction s with
  | nil => simp
  | cons c s ih =>
    rw [List.cons_append, List.takeWhile_cons, List.takeWhile_cons, ih]

/-- A string ends at its first NUL. -/
theorem stringAt_eq {image s : Bytes} {offset : Nat}
    (read : piece image offset (s.length + 1) = s ++ [0]) :
    stringAt image offset = s.takeWhile (· ≠ 0) := by
  have split := List.take_append_drop (s.length + 1) (image.drop offset)
  rw [show (image.drop offset).take (s.length + 1) = s ++ [0] from read, List.append_assoc] at split
  rw [stringAt, ← split]
  exact takeWhile_nul s _

/-- What a `Snap` points to is there: its strings and register sets in the data, its lists in zones
of their own. -/
structure SnapThere (start : Nat) (arch : Architecture) (image : Bytes) (data zone zone' : Set Nat)
    (snapshot : Snapshot) (a : SnapAddresses) (snap : Snap) : Prop where
  id : piece image a.id (snapshot.id.length + 1) = snapshot.id ++ [0]
  idInside : a.id + (snapshot.id.length + 1) ≤ image.length
  idShared : Region.positions (a.id, snapshot.id.length + 1) ⊆ data
  memoryMappings : ElementsThere start (memoryMappingKind start) snap.memoryMappings image data zone
    a.memoryMappings
  registers : RegistersThere start arch image data a.fpregs a.gregs snap.registers
  endStateRegisters :
    RegistersThere start arch image data a.endStateFpregs a.endStateGregs snap.endStateRegisters
  endStateMemoryBytes : ElementsThere start (memoryBytesKind start) snap.endStateMemoryBytes image
    data zone' a.endStateMemoryBytes

/-- The fields of a `Snap` that are no pointers. -/
structure SnapOf (snapshot : Snapshot) (endState : EndState) (refs : SnapRefs)
    (registerChecksum : RegisterChecksum) (snap : Snap) : Prop where
  id : snap.id = snapshot.id.takeWhile (· ≠ 0)
  memoryMappings : snap.memoryMappings.length = snapshot.memoryMappings.length
  endStateInstructionAddress :
    snap.endStateInstructionAddress = endState.endpoint.instructionAddress % 2 ^ 64
  endStateMemoryBytes : snap.endStateMemoryBytes.length = endState.memoryBytes.length
  endStateRegisterChecksum : snap.endStateRegisterChecksum = registerChecksum
  registersMemoryChecksum : snap.registersMemoryChecksum = refs.registersMemoryChecksum
  endStateRegistersMemoryChecksum :
    snap.endStateRegistersMemoryChecksum = refs.endStateRegistersMemoryChecksum
  small : refs.registersMemoryChecksum = snapRegisterMemoryChecksumOf snap.registers
  small' : refs.endStateRegistersMemoryChecksum =
    snapRegisterMemoryChecksumOf snap.endStateRegisters

section

variable {o : Nat} {snapshot : Snapshot} {endState : EndState} {refs : SnapRefs}
  {registerChecksum : RegisterChecksum} {a : SnapAddresses} {image : Bytes}
  {data zone zone' : Set Nat} {snap : Snap}

theorem RegistersThere.small {f g : Nat} {registers : SnapRegisterState}
    (there : RegistersThere start arch image data f g registers) (room : image.length < 256 ^ 8) :
    f < 256 ^ 8 ∧ g < 256 ^ 8 := by
  have first := there.fpregs.inside
  have second := there.gregs.inside
  omega

/-- The walk through a snap goes through its parts, each in a zone of its own. -/
theorem snapWalk_keeps
    (string : Keeps (pointerWalk start .char (o + 0)) [] image data
      (Region.positions (o + 0, 8)))
    (mappings : Keeps (mappingsWalk start (o + 8))
      ((elementOffsets .snapMemoryMapping image (o + 8)).flatMap (memoryMappingRegions image)) image
      data (Region.positions (o + 8, 16) ∪ zone))
    (registers : Keeps (registerStateWalk start arch (o + 24))
      (registerStateRegions arch image (o + 24)) image data (Region.positions (o + 24, 16)))
    (endRegisters : Keeps (registerStateWalk start arch (o + 48))
      (registerStateRegions arch image (o + 48)) image data (Region.positions (o + 48, 16)))
    (bytes : Keeps (memoryBytesArrayWalk start (o + 64)) (memoryBytesListRegions image (o + 64))
      image data (Region.positions (o + 64, 16) ∪ zone'))
    (disjoint : Disjoint (Region.positions (o, 112)) zone)
    (disjoint' : Disjoint (Region.positions (o, 112)) zone') (apart : Disjoint zone zone')
    (free : Disjoint (Region.positions (o, 112)) data) (freeM : Disjoint zone data)
    (freeB : Disjoint zone' data)
    (shared : Region.positions (stringRegion image (number image (o + 0) 8)) ⊆ data) :
    Keeps (snapWalk start arch o) (snapRegions arch image o) image data
      (Region.positions (o, 112) ∪ (zone ∪ zone')) := by
  have within (f size : Nat) (fits : f + size ≤ 112) :
      Region.positions (o + f, size) ⊆ Region.positions (o, 112) := positions_within fits
  have z (f size : Nat) (fits : f + size ≤ 112) : Disjoint (Region.positions (o + f, size)) zone :=
    disjoint.mono_left (within f size fits)
  have z' (f size : Nat) (fits : f + size ≤ 112) :
      Disjoint (Region.positions (o + f, size)) zone' := disjoint'.mono_left (within f size fits)
  have d (f size : Nat) (fits : f + size ≤ 112) : Disjoint (Region.positions (o + f, size)) data :=
    free.mono_left (within f size fits)
  have from₆₄ := Set.disjoint_union_left.mpr ⟨d 64 16 (by decide), freeB⟩
  have from₄₈ := Set.disjoint_union_left.mpr ⟨d 48 16 (by decide), from₆₄⟩
  have from₂₄ := Set.disjoint_union_left.mpr ⟨d 24 16 (by decide), from₄₈⟩
  have at₈ := Set.disjoint_union_left.mpr ⟨d 8 16 (by decide), freeM⟩
  have from₈ := Set.disjoint_union_left.mpr ⟨at₈, from₂₄⟩
  have first := endRegisters.seq bytes (by
    simp only [Set.disjoint_union_right]
    exact ⟨positions_apart (by decide), z' 48 16 (by decide)⟩) (d 48 16 (by decide)) from₆₄
  have second := registers.seq first (by
    simp only [Set.disjoint_union_right]
    exact ⟨positions_apart (by decide), positions_apart (by decide), z' 24 16 (by decide)⟩)
    (d 24 16 (by decide)) from₄₈
  have third := mappings.seq second (by
    simp only [Set.disjoint_union_right, Set.disjoint_union_left]
    exact ⟨⟨positions_apart (by decide), (z 24 16 (by decide)).symm⟩,
      ⟨positions_apart (by decide), (z 48 16 (by decide)).symm⟩,
      ⟨positions_apart (by decide), (z 64 16 (by decide)).symm⟩,
      z' 8 16 (by decide), apart⟩) at₈ from₂₄
  have whole := string.seq third (by
    simp only [Set.disjoint_union_right]
    exact ⟨⟨positions_apart (by decide), z 0 8 (by decide)⟩, positions_apart (by decide),
      positions_apart (by decide), positions_apart (by decide), z' 0 8 (by decide)⟩)
    (d 0 8 (by decide)) from₈
  -- what is read of the snap itself, which no part has
  have checksums := whole.cons (r := (o + 80, 32)) (Nat.succ_pos _)
    (fun _ here => .inl (.inl here)) (by
      simp only [Set.disjoint_union_right]
      exact ⟨(positions_apart (by decide)).symm, ⟨(positions_apart (by decide)).symm,
        z 80 32 (by decide)⟩, (positions_apart (by decide)).symm,
        (positions_apart (by decide)).symm, (positions_apart (by decide)).symm,
        z' 80 32 (by decide)⟩) Set.subset_union_right
  have address := checksums.cons (r := (o + 40, 8)) (Nat.succ_pos _)
    (fun _ here => .inl (.inl here)) (by
      simp only [Set.disjoint_union_right]
      exact ⟨positions_apart (by decide), (positions_apart (by decide)).symm,
        ⟨(positions_apart (by decide)).symm, z 40 8 (by decide)⟩,
        (positions_apart (by decide)).symm, positions_apart (by decide),
        positions_apart (by decide), z' 40 8 (by decide)⟩) Set.subset_union_right
  have inside : Keeps _ _ _ _ (Region.positions (o, 112) ∪ (zone ∪ zone')) := address.mono (by
    simp only [Set.union_subset_iff]
    have own (f size : Nat) (fits : f + size ≤ 112) : Region.positions (o + f, size) ⊆
        Region.positions (o, 112) ∪ (zone ∪ zone') :=
      (within f size fits).trans Set.subset_union_left
    exact ⟨own 40 8 (by decide), own 80 32 (by decide), own 0 8 (by decide),
      ⟨own 8 16 (by decide), fun _ here => .inr (.inl here)⟩, own 24 16 (by decide),
      own 48 16 (by decide), own 64 16 (by decide), fun _ here => .inr (.inr here)⟩)
  have every := inside.cons (Nat.succ_pos _) (fun _ here => .inr (shared here))
    (Set.disjoint_union_right.mpr ⟨free.symm.mono_left shared, Set.disjoint_union_right.mpr
      ⟨freeM.symm.mono_left shared, freeB.symm.mono_left shared⟩⟩) (Set.Subset.refl _)
  refine every.narrow fun r mem => ?_
  change r ∈ _ :: _ :: _ :: _ at mem
  simp only [List.mem_cons, List.mem_append, List.not_mem_nil, false_or] at mem ⊢
  tauto

theorem checksum_small (registers : SnapRegisterState) :
    (snapRegisterMemoryChecksumOf registers).fpregsChecksum < 256 ^ 4 ∧
      (snapRegisterMemoryChecksumOf registers).gregsChecksum < 256 ^ 4 :=
  ⟨BitVec.isLt _, BitVec.isLt _⟩

/-- A snap that has been stored. -/
theorem storeSnap_made
    (shows : Shows image (fields o (snapFields snapshot endState refs registerChecksum a)))
    (there : SnapThere start arch image data zone zone' snapshot a snap)
    (of : SnapOf snapshot endState refs registerChecksum snap)
    (inside : o + 112 ≤ image.length) (room : image.length < 256 ^ 8)
    (disjoint : Disjoint (Region.positions (o, 112)) zone)
    (disjoint' : Disjoint (Region.positions (o, 112)) zone') (apart : Disjoint zone zone')
    (free : Disjoint (Region.positions (o, 112)) data) :
    Made (snapKind start arch) snap image data (Region.positions (o, 112) ∪ (zone ∪ zone')) o := by
  have field (f v : Nat) (mem : (f, 8, v) ∈ snapFields snapshot endState refs registerChecksum a)
      (small : v < 256 ^ 8) : number image (o + f) 8 = v := field_number shows mem small
  obtain ⟨few, lowM⟩ := there.memoryMappings.small (Nat.succ_pos _) room
  obtain ⟨few', lowB⟩ := there.endStateMemoryBytes.small (Nat.succ_pos _) room
  obtain ⟨lowF, lowG⟩ := there.registers.small room
  obtain ⟨lowF', lowG'⟩ := there.endStateRegisters.small room
  have idInside := there.idInside
  rw [of.memoryMappings] at few
  rw [of.endStateMemoryBytes] at few'
  have id : number image (o + 0) 8 = a.id := field 0 _ (by simp [snapFields]) (by omega)
  have within (f size : Nat) (fits : f + size ≤ 112) :
      Region.positions (o + f, size) ⊆ Region.positions (o, 112) := positions_within fits
  have d (f size : Nat) (fits : f + size ≤ 112) : Disjoint (Region.positions (o + f, size)) data :=
    free.mono_left (within f size fits)
  have string : Keeps (pointerWalk start .char (o + 0)) [] image data
      (Region.positions (o + 0, 8)) := pointer_keeps (by omega) (by
    rw [id]
    exact ⟨by change a.id + 1 ≤ _; omega, Nat.mod_one _⟩)
  obtain ⟨mappings, readM⟩ := array_made (o + 8) there.memoryMappings (by omega)
    ((field 8 _ (by simp [snapFields]) few).trans of.memoryMappings.symm)
    (field 16 _ (by simp [snapFields]) lowM) (disjoint.mono_left (within 8 16 (by decide)))
    (d 8 16 (by decide))
  obtain ⟨registers, readR⟩ := registerState_made (o := o + 24) there.registers
    (field 24 _ (by simp [snapFields]) lowF) (field 32 _ (by simp [snapFields]) lowG) (by omega)
    (d 24 16 (by decide))
  obtain ⟨endRegisters, readE⟩ := registerState_made (o := o + 48) there.endStateRegisters
    (field 48 _ (by simp [snapFields]) lowF') (field 56 _ (by simp [snapFields]) lowG') (by omega)
    (d 48 16 (by decide))
  obtain ⟨bytes, readB⟩ := array_made (o + 64) there.endStateMemoryBytes (by omega)
    ((field 64 _ (by simp [snapFields]) few').trans of.endStateMemoryBytes.symm)
    (field 72 _ (by simp [snapFields]) lowB) (disjoint'.mono_left (within 64 16 (by decide)))
    (d 64 16 (by decide))
  have readId := stringAt_eq there.id
  constructor
  · refine snapWalk_keeps string mappings registers endRegisters bytes disjoint disjoint' apart free
      there.memoryMappings.free there.endStateMemoryBytes.free ?_
    rw [id, stringRegion, readId]
    refine Set.Subset.trans ?_ there.idShared
    rintro p ⟨low, high⟩
    have shorter := (List.takeWhile_sublist (· ≠ 0) (l := snapshot.id)).length_le
    exact ⟨low, by dsimp only at high ⊢; omega⟩
  · have address : number image (o + 40) 8 = endState.endpoint.instructionAddress % 256 ^ 8 :=
      shows.number (by simp [fields, snapFields])
    have groups : number image (o + 80) 8 = registerChecksum.registerGroups.toNat :=
      field 80 _ (by simp [snapFields]) registerChecksum.registerGroups.isLt
    have sum : number image (o + 80 + 8) 8 = registerChecksum.checksum.toNat :=
      field 88 _ (by simp [snapFields]) registerChecksum.checksum.isLt
    have checksum (f v : Nat)
        (mem : (f, 4, v) ∈ snapFields snapshot endState refs registerChecksum a)
        (small : v < 256 ^ 4) : number image (o + f) 4 = v := field_number shows mem small
    have atR : registerMemoryChecksumAt image (o + 96) = snap.registersMemoryChecksum := by
      change SnapRegisterMemoryChecksum.mk (number image (o + 96) 4) (number image (o + 100) 4) = _
      obtain ⟨small, small'⟩ := of.small ▸ checksum_small snap.registers
      rw [checksum 96 refs.registersMemoryChecksum.fpregsChecksum (by simp [snapFields]) small,
        checksum 100 refs.registersMemoryChecksum.gregsChecksum (by simp [snapFields]) small',
        of.registersMemoryChecksum]
    have atE : registerMemoryChecksumAt image (o + 104) = snap.endStateRegistersMemoryChecksum := by
      change SnapRegisterMemoryChecksum.mk (number image (o + 104) 4) (number image (o + 108) 4) = _
      obtain ⟨small, small'⟩ := of.small' ▸ checksum_small snap.endStateRegisters
      rw [checksum 104 refs.endStateRegistersMemoryChecksum.fpregsChecksum (by simp [snapFields])
          small,
        checksum 108 refs.endStateRegistersMemoryChecksum.gregsChecksum (by simp [snapFields])
          small',
        of.endStateRegistersMemoryChecksum]
    have atC : registerChecksumAt image (o + 80) = snap.endStateRegisterChecksum := by
      rw [registerChecksumAt, groups, sum, BitVec.ofNat_toNat, BitVec.ofNat_toNat,
        BitVec.setWidth_eq, BitVec.setWidth_eq, of.endStateRegisterChecksum]
    change Snap.mk (stringAt image (number image (o + 0) 8))
      ((elements 0 image (memoryMappingKind start).type (o + 8)).map
        ((memoryMappingKind start).read image))
      (registerStateAt 0 image arch (o + 24)) (number image (o + 40) 8)
      (registerStateAt 0 image arch (o + 48))
      ((elements 0 image (memoryBytesKind start).type (o + 64)).map
        ((memoryBytesKind start).read image))
      (registerChecksumAt image (o + 80)) (registerMemoryChecksumAt image (o + 96))
      (registerMemoryChecksumAt image (o + 104)) = snap
    have modulus : (256 : Nat) ^ 8 = 2 ^ 64 := by decide
    rw [id, readId, ← of.id, readM, readR, address, modulus,
      ← of.endStateInstructionAddress, readE, readB, atC, atR, atE]

end

theorem length_splitBytesByMapping {mappings : List MemoryMapping} {bytes : List MemoryBytes}
    {l : List (List MemoryBytes)} (h : splitBytesByMapping mappings bytes = some l) :
    l.length = mappings.length := by
  unfold splitBytesByMapping at h
  suffices grows : ∀ output : List (List MemoryBytes),
      bytes.foldlM (assignBytes mappings) output = some l → l.length = output.length by
    rw [grows _ h, List.length_replicate]
  clear h
  induction bytes with
  | nil =>
    intro output h
    rw [Option.some.inj h]
  | cons b bytes ih =>
    intro output h
    rw [List.foldlM_cons] at h
    obtain ⟨output', first, rest⟩ := Option.bind_eq_some_iff.mp h
    rw [ih output' rest]
    unfold assignBytes at first
    split at first
    · rw [← Option.some.inj first, List.length_modify]
    · cases first

theorem snapOf_ok {snapshot : Snapshot} {bytesPerMapping : List (List MemoryBytes)}
    {endState : EndState} {registers : RegisterState} {registers' endRegisters' : SnapRegisterState}
    {registerChecksum : RegisterChecksum} (architecture : snapshot.architecture = arch)
    (split : splitBytesByMapping snapshot.memoryMappings snapshot.memoryBytes = some bytesPerMapping)
    (first : snapshot.expectedEndStates.head? = some endState)
    (set : snapshot.registers = some registers)
    (is : snapRegisterStateOf arch registers = .ok registers')
    (isE : snapRegisterStateOf arch endState.registers = .ok endRegisters')
    (deserialized : deserializeRegisterChecksum arch endState.registerChecksum =
      some registerChecksum) :
    snapOf arch options snapshot = .ok (snapOfParts options snapshot bytesPerMapping endState
      registers' endRegisters' registerChecksum) := by
  have bind {α β : Type} (a : α) (f : α → Except CheckFailure β) : (.ok a >>= f) = f a := rfl
  unfold snapOf
  simp only [check_true architecture, split, first, set, is, isE, deserialized, orFail, bind]
  rfl

theorem orFail_ok {α : Type} {x : Option α} {a : α} (h : orFail x = .ok a) : x = some a := by
  cases x with
  | none => cases h
  | some b =>
    cases h
    rfl

theorem storeSnap_step {snapshot : Snapshot} (endState : EndState) (refs : SnapRefs) {id : Ref}
    (registerChecksum : RegisterChecksum) (a : SnapAddresses)
    (apart : Disjoint (slot base id (snapshot.id.length + 1)) (slot base ref 112)) :
    Step (slot base ref 112 ∪ slot base id (snapshot.id.length + 1)) t
      (t.push ((addr base id, snapshot.id ++ [0]) ::
        fields (addr base ref) (snapFields snapshot endState refs registerChecksum a))) := by
  obtain ⟨pairwise, inside⟩ := fields_apart (addr base ref)
    (snapFields_ok snapshot endState refs registerChecksum a)
  have string : Write.positions (addr base id, snapshot.id ++ [0]) =
      slot base id (snapshot.id.length + 1) := by
    unfold Write.positions slot
    rw [List.length_append, List.length_singleton]
  refine push_step (List.pairwise_cons.mpr ⟨fun w mem => ?_, pairwise⟩)
    (List.forall_mem_cons.mpr ⟨?_, fun w mem => ?_⟩)
  · unfold Write.Apart
    rw [string]
    exact apart.mono_right (inside w mem).2
  · refine ⟨?_, string ▸ Set.subset_union_right⟩
    rw [List.length_append, List.length_singleton]
    exact Nat.succ_pos _
  · exact (inside w mem).mono Set.subset_union_left

/-- **A snapshot is made into its snap**, whatever is stored later. -/
theorem processAllocated_filled (layout : Layout base limit n)
    (page : start % 4096 = 0) {snapshot : Snapshot} (inv : Inv base limit n arch t)
    (block : ref.block = .snap) (fits : ref.byteOffset + 112 ≤ (t.blocks ref.block).size)
    (run : processAllocated .kGeneration arch options snapshot ref t = .ok ((), t')) :
    ∃ snap, snapOf arch options snapshot = .ok snap ∧
      Filled base limit n arch (snapKind start arch) snap ref t t' := by
  obtain ⟨_, t₀, checked, rest₀⟩ := bind_ok run
  obtain ⟨checked, same₀⟩ := lift_ok checked
  rw [same₀] at rest₀
  obtain ⟨id, t₁, allocated, rest₁⟩ := bind_ok rest₀
  have new := inv.allocate layout allocated
  obtain ⟨bytesPerMapping, t₁', split, rest₂⟩ := bind_ok rest₁
  obtain ⟨split, same₁⟩ := lift_ok split
  rw [same₁] at rest₂
  obtain ⟨mappings, t₂, mapped, rest₃⟩ := bind_ok rest₂
  have storedM : ListStored base limit n arch (memoryMappingKind start) _ mappings t₁ t₂ :=
    processMemoryMappings_stored layout page new.inv mapped
  obtain ⟨endState, t₂', first, rest₄⟩ := bind_ok rest₃
  obtain ⟨first, same₂⟩ := lift_ok first
  rw [same₂] at rest₄
  obtain ⟨bytes, t₃, listed, rest₅⟩ := bind_ok rest₄
  have storedB : ListStored base limit n arch (memoryBytesKind start) _ bytes t₂ t₃ :=
    processMemoryBytesList_stored layout storedM.inv listed
  obtain ⟨registers, t₃', set, rest₆⟩ := bind_ok rest₅
  obtain ⟨set, same₃⟩ := lift_ok set
  rw [same₃] at rest₆
  obtain ⟨⟨refs, checksum⟩, t₄, registered, rest₇⟩ := bind_ok rest₆
  obtain ⟨inv₄, step₄, registers', is, storedR, sum⟩ :=
    processRegisterState_stored layout storedB.inv registered
  obtain ⟨⟨endRefs, endChecksum⟩, t₅, endRegistered, rest₈⟩ := bind_ok rest₇
  obtain ⟨inv₅, step₅, endRegisters', isE, storedE, sumE⟩ :=
    processRegisterState_stored layout inv₄ endRegistered
  obtain ⟨o, o', registerChecksum, a, placedId, placed, aligned, deserialized, loads, rfl⟩ :=
    storeSnap_ok rest₈
  obtain rfl : o = addr base id := inv₅.contents placedId
  obtain rfl : o' = addr base ref := inv₅.contents placed
  obtain ⟨idIs, -⟩ := inv₅.loads loads.id
  obtain ⟨mappingsIs, -⟩ := inv₅.loads loads.memoryMappings
  obtain ⟨fpregsIs, -⟩ := inv₅.loads loads.fpregs
  obtain ⟨gregsIs, -⟩ := inv₅.loads loads.gregs
  obtain ⟨endFpregsIs, -⟩ := inv₅.loads loads.endStateFpregs
  obtain ⟨endGregsIs, -⟩ := inv₅.loads loads.endStateGregs
  obtain ⟨bytesIs, -⟩ := inv₅.loads loads.endStateMemoryBytes
  dsimp only at idIs mappingsIs fpregsIs gregsIs endFpregsIs endGregsIs bytesIs
  have own : Block.holdsData ref.block = false := block.symm ▸ rfl
  have inside := inv.inside layout fits
  have slotTaken : slot base ref 112 ⊆ taken base t := slot_taken fits
  have apart : Disjoint (slot base id (snapshot.id.length + 1)) (slot base ref 112) :=
    Set.disjoint_left.mpr fun p here there => (new.slot here).2 (slotTaken there)
  have last := storeSnap_step (t := t₅) endState
    ⟨id, mappings, bytes, refs, checksum, endRefs, endChecksum⟩ registerChecksum a apart
  have middle := ((storedM.step.both storedB.step).both step₄).both step₅
  have idTaken : slot base id (snapshot.id.length + 1) ⊆ taken base t₁ :=
    fun p here => (new.slot here).1
  have later₃ := (step₄.later.trans step₅.later).trans last.later
  have later₂ := storedB.step.later.trans later₃
  refine ⟨_, snapOf_ok (check_ok checked) (orFail_ok split) (orFail_ok first) (orFail_ok set) is isE
    deserialized, inv₅.push _, ?_, aligned, fun image final => ?_⟩
  · have after := middle.join (last.mono Set.subset_union_left)
      (Set.union_subset (slotTaken.trans new.step.later.taken) idTaken)
    refine (new.step.trans after (Set.empty_disjoint _)).mono ?_
    rintro p (here | (here | here) | here)
    · exact absurd here (Set.notMem_empty p)
    · exact .inl here
    · exact .inr (fresh_first (middle.later.trans last.later) (new.slot here))
    · exact .inr (fresh_second new.step.later here)
  · have shows' := final.shows.subset (List.subset_append_right _ _)
    have idEnd : addr base id + (snapshot.id.length + 1) ≤ n :=
      new.inv.inside layout new.fits
    have sumIs : checksum = snapRegisterMemoryChecksumOf registers' :=
      sum ((step₅.later.trans last.later).separate final.separate)
    have sumEIs : endChecksum = snapRegisterMemoryChecksumOf endRegisters' :=
      sumE (last.later.separate final.separate)
    have string := shows' _ List.mem_cons_self
    dsimp only at string
    rw [List.length_append, List.length_singleton] at string
    have there : SnapThere start arch image (dataZone base limit)
        (fresh base t₁ t₂ \ dataZone base limit) (fresh base t₂ t₃ \ dataZone base limit) snapshot
        a (snapOfParts options snapshot bytesPerMapping endState registers' endRegisters'
          registerChecksum) := {
      id := idIs ▸ string
      idInside := idIs ▸ final.within idEnd
      idShared := idIs ▸ slot_data (by rw [new.block]; rfl) (Nat.le_trans new.fits (new.inv.within _))
      memoryMappings := mappingsIs ▸ storedM.there later₂
        (page_multiple page (show 8 ∣ 4096 by decide)) image final
      registers := fpregsIs ▸ gregsIs ▸ storedR.there layout inv₄ (step₅.later.trans last.later)
        page image final
      endStateRegisters := endFpregsIs ▸ endGregsIs ▸ storedE.there layout inv₅ last.later page
        image final
      endStateMemoryBytes := bytesIs ▸ storedB.there later₃
        (page_multiple page (show 8 ∣ 4096 by decide)) image final }
    refine (storeSnap_made (shows'.subset (List.subset_cons_self _ _)) there
      ⟨rfl, ?_, rfl, List.length_map _, rfl, sumIs.symm, sumEIs.symm, sumIs, sumEIs⟩
      (final.within inside) final.small ?_ ?_ ?_
      (slot_free ref 112 layout own (Nat.le_trans fits (inv.within _)))).mono ?_
    · change (List.map _ _).length = _
      rw [List.length_map, List.length_zip, length_splitBytesByMapping (orFail_ok split),
        Nat.min_self]
    · exact slot_zone (slotTaken.trans new.step.later.taken)
    · exact slot_zone (slotTaken.trans (new.step.later.trans storedM.step.later).taken)
    · exact Set.disjoint_left.mpr fun p here there => there.1.2 here.1.1
    · refine Set.union_subset_union_right _ (Set.union_subset ?_ ?_)
      · exact fun p here => ⟨fresh_second new.step.later (fresh_first later₂ here.1), here.2⟩
      · exact fun p here => ⟨fresh_second (new.step.later.trans storedM.step.later)
          (fresh_first later₃ here.1), here.2⟩

end

end Traversal

end Silifuzz
