import Silifuzz.Snap.SnapRelocator.Exact

/-!
# What a relocated corpus means

A program that follows the pointers of a relocated corpus reads the snaps that were read before
from the same places by their offsets, as long as no part that is relocated is in the bytes that
a snap has beside these.
-/

namespace Silifuzz.SnapRelocator

open LittleEndian Images Footprints SnapReader

/-! ## What is read beside the parts that are relocated -/

def memoryBytesRegions (image : Bytes) (memoryBytes : Nat) : List Region :=
  if isRepeating image memoryBytes then []
  else [(number image (memoryBytes + 24) 8, number image (memoryBytes + 16) 8)]

def memoryBytesListRegions (image : Bytes) (array : Nat) : List Region :=
  (elementOffsets .snapMemoryBytes image array).flatMap (memoryBytesRegions image)

def memoryMappingRegions (image : Bytes) (mapping : Nat) : List Region :=
  (mapping, Offset.SnapMemoryMapping.memoryBytes) ::
    memoryBytesListRegions image (mapping + Offset.SnapMemoryMapping.memoryBytes)

def registerStateRegions (arch : Architecture) (image : Bytes) (registerState : Nat) :
    List Region :=
  [(number image (registerState + Offset.RegisterState.fpregs) 8, (CType.fpRegSet arch).size),
    (number image (registerState + Offset.RegisterState.gregs) 8, (CType.gRegSet arch).size)]

/-- The characters with the NUL. -/
def stringRegion (image : Bytes) (offset : Nat) : Region :=
  (offset, (stringAt image offset).length + 1)

def snapRegions (arch : Architecture) (image : Bytes) (snap : Nat) : List Region :=
  stringRegion image (number image (snap + Offset.Snap.id) 8) ::
    (snap + Offset.Snap.endStateInstructionAddress, 8) ::
    (snap + Offset.Snap.endStateRegisterChecksum, 32) ::
    (registerStateRegions arch image (snap + Offset.Snap.registers) ++
      registerStateRegions arch image (snap + Offset.Snap.endStateRegisters) ++
      ((elementOffsets .snapMemoryMapping image (snap + Offset.Snap.memoryMappings)).flatMap
        (memoryMappingRegions image) ++
      memoryBytesListRegions image (snap + Offset.Snap.endStateMemoryBytes)))

def corpusRegions (arch : Architecture) (image : Bytes) : List Region :=
  (elementOffsets .snapPointer image Offset.SnapCorpus.snaps).flatMap fun snapPtr =>
    snapRegions arch image (number image snapPtr 8)

/-! ## Reading what has been relocated -/

/-- An image whose cells have been given their words, the addresses of a corpus at `start`. -/
structure Patched (start : Nat) (cells : List Cell) (image image' : Bytes) : Prop where
  fits : Fits image cells
  disjoint : cells.Pairwise Cell.Apart
  small : start + image.length < 2 ^ 64
  changed : image' = patch image cells

section

variable {start : Nat} {arch : Architecture} {cells : List Cell} {image image' : Bytes} {c : Cell}
  {t : CType} {offset size array field : Nat}

namespace Patched

theorem length (p : Patched start cells image image') : image'.length = image.length := by
  rw [p.changed, length_patch p.fits]

theorem piece_beside (p : Patched start cells image image') (beside : Beside cells (offset, size)) :
    piece image' offset size = piece image offset size := by
  rw [p.changed, piece_patch p.fits beside]

theorem number_within (p : Patched start cells image image') {region : Region}
    (beside : Beside cells region) (low : region.1 ≤ offset)
    (high : offset + size ≤ region.1 + region.2) :
    number image' offset size = number image offset size := by
  rw [number, number, p.piece_beside]
  intro c mem
  rcases beside c mem with before | after
  · exact .inl (by omega)
  · exact .inr (by omega)

theorem number_beside (p : Patched start cells image image') (mem : c ∈ cells)
    (low : c.offset ≤ offset) (high : offset + size ≤ c.offset + c.size)
    (beside : ∀ f v, c.word = some (f, v) → Apart f 8 offset size) :
    number image' offset size = number image offset size := by
  rw [number, number, p.changed, piece_patch_beside p.fits p.disjoint mem low high beside]

/-- The load address is added to a pointer. -/
theorem number_moved (p : Patched start cells image image') (mem : c ∈ cells)
    (is : c.word = some (field, start + number image field 8))
    (inside : number image field 8 ≤ image.length) :
    number image' field 8 = start + number image field 8 := by
  have small := p.small
  have fits : start + number image field 8 < 256 ^ 8 := by
    have : 256 ^ 8 = 2 ^ 64 := by decide
    omega
  rw [p.changed, number_patch p.fits p.disjoint mem is fits]

/-- A pointer points to where its offset was. -/
theorem pointee_same (p : Patched start cells image image') (mem : c ∈ cells)
    (is : c.word = some (field, start + number image field 8))
    (inside : number image field 8 ≤ image.length) :
    pointee start image' field = number image field 8 := by
  rw [pointee, p.number_moved mem is inside, Nat.add_sub_cancel_left]

end Patched

/-- The cells and the regions of a part are among those of the whole. -/
structure Part (cells : List Cell) (image : Bytes) (w : Walk) (regions : List Region) : Prop where
  valid : w.valid image
  among : w.cells image ⊆ cells
  beside : ∀ region ∈ regions, Beside cells region

theorem pointer_patched (p : Patched start cells image image')
    (valid : (pointerWalk start t field).valid image)
    (mem : (pointerWalk start t field).cells image ⊆ cells) :
    pointee start image' field = number image field 8 :=
  p.pointee_same (mem List.mem_cons_self) rfl (Nat.le_of_add_right_le valid.2.1)

/-- The pointer of an array that is not empty. -/
theorem arrayPointer_moved (p : Patched start cells image image')
    (valid : (headerWalk start t array).valid image)
    (mem : (headerWalk start t array).cells image ⊆ cells) (some : arraySize image array ≠ 0) :
    number image' (array + Offset.SnapArray.elements) 8 = start + arrayElements image array := by
  apply p.number_moved (mem List.mem_cons_self)
  · exact congrArg Option.some (Prod.ext rfl (if_neg some))
  · exact Nat.le_of_add_right_le (valid.2.resolve_left some).1.1

theorem arraySize_patched (p : Patched start cells image image')
    (mem : (headerWalk start t array).cells image ⊆ cells) :
    number image' (array + Offset.SnapArray.size) 8 = arraySize image array := by
  apply p.number_beside (mem List.mem_cons_self) (Nat.le_refl _)
  · change array + 0 + 8 ≤ array + 16
    omega
  · intro f v is
    cases is
    exact .inr (by change array + 0 + 8 ≤ array + 8; omega)

/-- The elements of an array are where they were. -/
theorem elements_patched (p : Patched start cells image image')
    (valid : (headerWalk start t array).valid image)
    (mem : (headerWalk start t array).cells image ⊆ cells) :
    elements start image' t array = elementOffsets t image array := by
  unfold elements elementOffsets offsets
  rw [arraySize_patched p mem]
  by_cases empty : arraySize image array = 0
  · rw [empty]
    rfl
  · rw [pointee, arrayPointer_moved p valid mem empty, Nat.add_sub_cancel_left]

/-- What comes before the pointer of memory bytes. -/
theorem memoryBytes_field (p : Patched start cells image image') {memoryBytes : Nat}
    (mem : (memoryBytesWalk start memoryBytes).cells image ⊆ cells) (low : memoryBytes ≤ offset)
    (high : offset + size ≤ memoryBytes + 24) :
    number image' offset size = number image offset size := by
  apply p.number_beside (mem List.mem_cons_self) low
    (Nat.le_trans high (by change _ ≤ memoryBytes + 32; omega))
  intro f v is
  dsimp only at is
  split at is
  · cases is
  · cases is
    exact .inr high

/-- The pointer to bytes that are not a run. -/
theorem byteValues_moved (p : Patched start cells image image') {memoryBytes : Nat}
    (part : Part cells image (memoryBytesWalk start memoryBytes)
      (memoryBytesRegions image memoryBytes)) (plain : isRepeating image memoryBytes = false) :
    number image' (memoryBytes + 24) 8 = start + number image (memoryBytes + 24) 8 := by
  apply p.number_moved (part.among List.mem_cons_self)
  · dsimp only
    rw [plain]
    rfl
  · exact Nat.le_of_add_right_le (part.valid.2 plain).1

/-- Bytes that are not a run are where they were. -/
theorem byteValues_patched (p : Patched start cells image image') {memoryBytes : Nat}
    (part : Part cells image (memoryBytesWalk start memoryBytes)
      (memoryBytesRegions image memoryBytes)) (plain : isRepeating image memoryBytes = false) :
    pointee start image' (memoryBytes + 24) = number image (memoryBytes + 24) 8 ∧
      number image' (memoryBytes + 16) 8 = number image (memoryBytes + 16) 8 ∧
      piece image' (number image (memoryBytes + 24) 8) (number image (memoryBytes + 16) 8) =
        piece image (number image (memoryBytes + 24) 8) (number image (memoryBytes + 16) 8) := by
  refine ⟨?_, memoryBytes_field p part.among (Nat.le_add_right _ _) (Nat.le_refl _), ?_⟩
  · rw [pointee, byteValues_moved p part plain, Nat.add_sub_cancel_left]
  · apply p.piece_beside
    apply part.beside
    rw [memoryBytesRegions, plain]
    exact List.mem_cons_self

theorem repeating_memoryBytesAt {base memoryBytes : Nat} :
    (memoryBytesAt base image memoryBytes).repeating = isRepeating image memoryBytes := by
  unfold SnapMemoryBytes.repeating memoryBytesAt isRepeating
  dsimp only
  split
  · next plain =>
    split at plain
    · cases plain
    · next no => exact (decide_eq_false no).symm
  · next run =>
    split at run
    · next yes => exact (decide_eq_true yes).symm
    · cases run

theorem memoryBytesAt_patched (p : Patched start cells image image') {memoryBytes : Nat}
    (part : Part cells image (memoryBytesWalk start memoryBytes)
      (memoryBytesRegions image memoryBytes)) :
    memoryBytesAt start image' memoryBytes = memoryBytesAt 0 image memoryBytes := by
  have field {offset size : Nat} := @memoryBytes_field _ _ _ _ offset size p _ part.among
  have address := @field (memoryBytes + Offset.SnapMemoryBytes.startAddress) 8
    (Nat.le_add_right _ _) (by change memoryBytes + 0 + 8 ≤ _; omega)
  have flags := @field (memoryBytes + Offset.SnapMemoryBytes.flags) 1
    (Nat.le_add_right _ _) (by change memoryBytes + 8 + 1 ≤ _; omega)
  unfold memoryBytesAt
  rw [address, flags]
  by_cases repeating : number image (memoryBytes + Offset.SnapMemoryBytes.flags) 1 &&&
      Offset.SnapMemoryBytes.kRepeating ≠ 0
  · have is : isRepeating image memoryBytes = true := decide_eq_true repeating
    have value := @field (memoryBytes + Offset.SnapMemoryBytes.byteRunValue) 1
      (Nat.le_add_right _ _) (by change memoryBytes + 16 + 1 ≤ _; omega)
    have run : number image' (memoryBytes + Offset.SnapMemoryBytes.byteRunSize) 8 =
        number image (memoryBytes + Offset.SnapMemoryBytes.byteRunSize) 8 := by
      apply p.number_beside (part.among List.mem_cons_self) (Nat.le_add_right _ _) (Nat.le_refl _)
      intro f v word
      dsimp only at word
      rw [is] at word
      cases word
    rw [if_pos repeating, if_pos repeating, value, run]
  · obtain ⟨pointer, size, values⟩ := byteValues_patched p part (decide_eq_false repeating)
    change pointee start image' (memoryBytes + Offset.SnapMemoryBytes.byteValues +
      Offset.SnapArray.elements) = _ at pointer
    change number image' (memoryBytes + Offset.SnapMemoryBytes.byteValues +
      Offset.SnapArray.size) 8 = _ at size
    rw [if_neg repeating, if_neg repeating]
    dsimp only
    rw [size, pointer]
    exact congrArg (fun bytes => SnapMemoryBytes.mk _ (.byteValues bytes)) values

/-! ### Parts of parts -/

variable {w w' : Walk} {regions regions' : List Region}

theorem Part.first (part : Part cells image (w.seq w') regions) : Part cells image w regions :=
  ⟨part.valid.1, List.Subset.trans (List.subset_append_left _ _) part.among, part.beside⟩

theorem Part.second (part : Part cells image (w.seq w') regions) : Part cells image w' regions :=
  ⟨part.valid.2, List.Subset.trans (List.subset_append_right _ _) part.among, part.beside⟩

theorem Part.narrow (part : Part cells image w regions) (some : regions' ⊆ regions) :
    Part cells image w regions' :=
  ⟨part.valid, part.among, fun region mem => part.beside region (some mem)⟩

/-- An element of an array. -/
theorem Part.element {body : Nat → Walk} {regions : Nat → List Region}
    (part : Part cells image (arrayWalk start t array body)
      ((elementOffsets t image array).flatMap regions))
    (mem : offset ∈ elementOffsets t image array) :
    Part cells image (body offset) (regions offset) := by
  have whole : Part cells image ((headerWalk start t array).seq
      (.each body (elementOffsets t image array))) ((elementOffsets t image array).flatMap regions) :=
    ⟨part.valid, part.among, part.beside⟩
  have rest := whole.second
  refine ⟨(Walk.each_valid _ _ _).mp rest.valid offset mem, fun c here => ?_, fun region here => ?_⟩
  · apply rest.among
    rw [Walk.each_cells]
    exact List.mem_flatMap_of_mem mem here
  · exact rest.beside region (List.mem_flatMap_of_mem mem here)

theorem arrayOffsets_patched (p : Patched start cells image image') {body : Nat → Walk}
    (part : Part cells image (arrayWalk start t array body) regions) :
    elements start image' t array = elementOffsets t image array := by
  have whole : Part cells image ((headerWalk start t array).seq
      (.each body (elementOffsets t image array))) regions := ⟨part.valid, part.among, part.beside⟩
  exact elements_patched p whole.first.valid whole.first.among

/-- What is read from each element of an array is what was read from it, in the same order. -/
theorem array_patched {α : Type} (p : Patched start cells image image') {w : Nat → Walk}
    {regions : Nat → List Region} {read read' : Nat → α}
    (part : Part cells image (arrayWalk start t array w)
      ((elementOffsets t image array).flatMap regions))
    (each : ∀ offset, Part cells image (w offset) (regions offset) → read' offset = read offset) :
    (elements start image' t array).map read' = (elements 0 image t array).map read := by
  rw [arrayOffsets_patched p part]
  exact List.map_congr_left fun offset mem => each offset (part.element mem)

theorem memoryBytesListAt_patched (p : Patched start cells image image')
    (part : Part cells image (memoryBytesArrayWalk start array)
      (memoryBytesListRegions image array)) :
    memoryBytesListAt start image' array = memoryBytesListAt 0 image array :=
  array_patched p part fun _ => memoryBytesAt_patched p

theorem memoryMappingAt_patched (p : Patched start cells image image') {mapping : Nat}
    (part : Part cells image
      (memoryBytesArrayWalk start (mapping + Offset.SnapMemoryMapping.memoryBytes))
      (memoryMappingRegions image mapping)) :
    memoryMappingAt start image' mapping = memoryMappingAt 0 image mapping := by
  have fields := part.beside _ List.mem_cons_self
  have field {offset size : Nat} (low : mapping ≤ offset) (high : offset + size ≤ mapping + 24) :
      number image' offset size = number image offset size := p.number_within fields low high
  have bytes := memoryBytesListAt_patched p
    ⟨part.valid, part.among, fun region mem => part.beside region (List.mem_cons_of_mem _ mem)⟩
  unfold memoryMappingAt
  rw [bytes, field (Nat.le_add_right _ _) (by change mapping + 0 + 8 ≤ _; omega),
    field (Nat.le_add_right _ _) (by change mapping + 8 + 8 ≤ _; omega),
    field (Nat.le_add_right _ _) (by change mapping + 16 + 4 ≤ _; omega),
    field (Nat.le_add_right _ _) (by change mapping + 20 + 4 ≤ _; omega)]

theorem registerStateAt_patched (p : Patched start cells image image') {registerState : Nat}
    (part : Part cells image (registerStateWalk start arch registerState)
      (registerStateRegions arch image registerState)) :
    registerStateAt start image' arch registerState = registerStateAt 0 image arch registerState := by
  have fpregs := pointer_patched p part.first.valid part.first.among
  have gregs := pointer_patched p part.second.valid part.second.among
  have keepsFp := p.piece_beside (part.beside _ List.mem_cons_self)
  have keepsG := p.piece_beside (part.beside _ (List.mem_cons_of_mem _ List.mem_cons_self))
  unfold registerStateAt
  rw [fpregs, gregs, keepsFp, keepsG]
  rfl

theorem takeWhile_of_take {α : Type} {f : α → Bool} {l l' : List α}
    (length : l'.length = l.length)
    (same : l'.take ((l.takeWhile f).length + 1) = l.take ((l.takeWhile f).length + 1)) :
    l'.takeWhile f = l.takeWhile f := by
  induction l generalizing l' with
  | nil => rw [List.eq_nil_of_length_eq_zero length]
  | cons x l ih =>
    obtain ⟨x', l', rfl⟩ := List.exists_cons_of_length_eq_add_one length
    cases holds : f x with
    | false =>
      have stops : ¬ f x = true := by
        rw [holds]
        decide
      rw [List.takeWhile_cons_of_neg stops] at same
      obtain ⟨rfl, -⟩ := List.cons_eq_cons.mp same
      rw [List.takeWhile_cons_of_neg stops, List.takeWhile_cons_of_neg stops]
    | true =>
      rw [List.takeWhile_cons_of_pos holds, List.length_cons, List.take_succ_cons,
        List.take_succ_cons] at same
      obtain ⟨rfl, rest⟩ := List.cons_eq_cons.mp same
      rw [List.takeWhile_cons_of_pos holds, List.takeWhile_cons_of_pos holds,
        ih (Nat.succ.inj length) rest]

/-- A string whose characters and NUL are kept is the same. -/
theorem stringAt_patched (p : Patched start cells image image')
    (beside : Beside cells (stringRegion image offset)) :
    stringAt image' offset = stringAt image offset := by
  apply takeWhile_of_take
  · rw [List.length_drop, List.length_drop, p.length]
  · exact p.piece_beside beside

theorem checksums_patched (p : Patched start cells image image') {checksums : Nat}
    (beside : Beside cells (checksums, 32)) :
    registerChecksumAt image' checksums = registerChecksumAt image checksums ∧
      registerMemoryChecksumAt image' (checksums + 16) =
        registerMemoryChecksumAt image (checksums + 16) ∧
      registerMemoryChecksumAt image' (checksums + 24) =
        registerMemoryChecksumAt image (checksums + 24) := by
  have field {offset size : Nat} (low : checksums ≤ offset)
      (high : offset + size ≤ checksums + 32) :
      number image' offset size = number image offset size := p.number_within beside low high
  unfold registerChecksumAt registerMemoryChecksumAt
  refine ⟨?_, ?_, ?_⟩
  · rw [field (by omega) (by omega), field (by omega) (by omega)]
  · rw [field (by omega) (by omega), field (by omega) (by omega)]
  · rw [field (by omega) (by omega), field (by omega) (by omega)]

/-- The mappings of a snap. -/
theorem Part.mappings {snap : Nat}
    (part : Part cells image (snapWalk start arch snap) (snapRegions arch image snap)) :
    Part cells image (mappingsWalk start (snap + Offset.Snap.memoryMappings))
      ((elementOffsets .snapMemoryMapping image (snap + Offset.Snap.memoryMappings)).flatMap
        (memoryMappingRegions image)) :=
  part.second.first.narrow fun _ mem => List.mem_cons_of_mem _ (List.mem_cons_of_mem _
    (List.mem_cons_of_mem _ (List.mem_append_right _ (List.mem_append_left _ mem))))

/-- A snap is the same that it was. -/
theorem snapAt_patched (p : Patched start cells image image') {snap : Nat}
    (part : Part cells image (snapWalk start arch snap) (snapRegions arch image snap)) :
    snapAt start image' arch snap = snapAt 0 image arch snap := by
  have id := pointer_patched p part.first.valid part.first.among
  have string := stringAt_patched p (part.beside _ List.mem_cons_self)
  have address := @Patched.number_within _ _ _ _ (snap + Offset.Snap.endStateInstructionAddress) 8
    p _ (part.beside _ (List.mem_cons_of_mem _ List.mem_cons_self)) (Nat.le_refl _) (Nat.le_refl _)
  obtain ⟨checksum, registersChecksum, endStateChecksum⟩ := checksums_patched p
    (part.beside _ (List.mem_cons_of_mem _ (List.mem_cons_of_mem _ List.mem_cons_self)))
  have rest {region : Region} (mem : region ∈
      registerStateRegions arch image (snap + Offset.Snap.registers) ++
      registerStateRegions arch image (snap + Offset.Snap.endStateRegisters) ++
      ((elementOffsets .snapMemoryMapping image (snap + Offset.Snap.memoryMappings)).flatMap
        (memoryMappingRegions image) ++
      memoryBytesListRegions image (snap + Offset.Snap.endStateMemoryBytes))) :
      region ∈ snapRegions arch image snap :=
    List.mem_cons_of_mem _ (List.mem_cons_of_mem _ (List.mem_cons_of_mem _ mem))
  have mappings := array_patched p part.mappings fun _ => memoryMappingAt_patched p
  have registers := registerStateAt_patched p (part.second.second.first.narrow fun region mem =>
    rest (List.mem_append_left _ (List.mem_append_left _ mem)))
  have endStateRegisters := registerStateAt_patched p
    (part.second.second.second.first.narrow fun region mem =>
      rest (List.mem_append_left _ (List.mem_append_right _ mem)))
  have bytes := memoryBytesListAt_patched p
    (part.second.second.second.second.narrow fun region mem =>
      rest (List.mem_append_right _ (List.mem_append_right _ mem)))
  unfold snapAt
  rw [id, string, mappings, registers, endStateRegisters, bytes, address]
  congr 1

/-- **A relocated corpus has the snaps that were in the corpus before.** -/
theorem snaps_patched (p : Patched start cells image image')
    (part : Part cells image (corpusWalk start arch) (corpusRegions arch image)) :
    snaps start image' arch = snaps 0 image arch := by
  apply array_patched p part
  intro snapPtr here
  have both : Part cells image ((pointerWalk start .snap snapPtr).seq
    (snapWalk start arch (number image snapPtr 8))) _ := ⟨here.valid, here.among, here.beside⟩
  rw [pointer_patched p both.first.valid both.first.among, snapAt_patched p both.second]
  rfl

end

/-- **What is read from a corpus that has been relocated is what was in it**, by the offsets, when
its parts are apart and what is read beside them is no part of them. -/
theorem relocateCorpus_snaps {arch : Architecture} {machine : Crc32c.Machine}
    {best : Crc32c.Implementation} {mprotects : Bool} {relocatable : Mmapped} {verify : Bool}
    {fuel : Nat} (enough : relocatable.bytes.length < fuel)
    (apart : (relocatedCells arch relocatable).Pairwise Cell.Apart)
    (beside : ∀ region ∈ corpusRegions arch relocatable.bytes,
      Beside (relocatedCells arch relocatable) region) {bytes : Bytes}
    (run : relocateCorpus arch machine best mprotects fuel relocatable verify = .ok bytes) :
    snaps relocatable.address bytes arch = snaps 0 relocatable.bytes arch := by
  obtain ⟨-, ended⟩ := (relocateCorpus_run (some_of_relocateCorpus run) bytes).mp run
  obtain ⟨-, valid, patched⟩ := (relocate_exact
    (r := ⟨arch, relocatable.address, relocatable.address + relocatable.bytes.length, machine, best⟩)
    ⟨rfl, relocatable.fits⟩ enough verify apart bytes).mp ended
  exact snaps_patched ⟨(corpusWalk_lawful arch).fits valid, apart, relocatable.fits, patched⟩
    ⟨valid, List.Subset.refl _, beside⟩

end Silifuzz.SnapRelocator
