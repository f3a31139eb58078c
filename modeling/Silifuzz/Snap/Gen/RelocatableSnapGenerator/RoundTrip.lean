import Silifuzz.Snap.Gen.RelocatableSnapGenerator.Objects

/-!
# From snapshots to snaps

A corpus that has been generated is relocated at any page, and what is read there is what the
snapshots have.
-/

namespace Silifuzz

open LittleEndian Images Triples Crc32c Footprints SnapReader SnapRelocator RelocatableDataBlock

namespace Traversal

section

variable {start n : Nat} {base limit : Block → Nat} {arch : Architecture}
  {options : RelocatableSnapGeneratorOptions} {t t' : Traversal} {ref : Ref}

/-! ## The array of pointers -/

theorem snapshots_elements {α : Type} {f : α → Ref → Traverse Unit} {size k : Nat} {l : List α}
    {u : Unit} {snaps : Ref}
    (run : ((l.zipIdx k).forM fun (a, i) => do
      let ref ← snaps.plus (i * size)
      f a ref : Traverse Unit) t = .ok (u, t')) :
    Elements f size l ⟨snaps.block, snaps.byteOffset + k * size⟩ t t' := by
  induction l generalizing k t with
  | nil =>
    cases run
    exact .nil
  | cons a l ih =>
    obtain ⟨_, t₁, first, rest⟩ := bind_ok run
    obtain ⟨ref, t₂, plus, filled⟩ := bind_ok first
    obtain ⟨rfl, rfl⟩ := plus_ok plus
    refine .cons filled ?_
    have next := ih rest
    rwa [Nat.succ_mul, ← Nat.add_assoc] at next

/-- The pointers to the snaps. -/
def pointerWrites (elements snaps count : Nat) : List Write :=
  (List.range count).map fun i => (elements + i * 8, encode 8 (snaps + i * 112))

theorem pointerWrites_apart (elements snaps count : Nat) :
    (pointerWrites elements snaps count).Pairwise Write.Apart ∧
      ∀ w ∈ pointerWrites elements snaps count,
        Write.In w (Region.positions (elements, count * 8)) := by
  constructor
  · refine List.pairwise_map.mpr (List.pairwise_lt_range.imp fun before => ?_)
    apply disjoint_of_apart
    refine .inl ?_
    simp only [length_encode]
    omega
  · intro w mem
    obtain ⟨i, here, rfl⟩ := List.mem_map.mp mem
    have below := List.mem_range.mp here
    refine ⟨by rw [length_encode]; decide, ?_⟩
    rintro p ⟨low, high⟩
    simp only [length_encode] at low high
    exact ⟨by omega, by dsimp only; omega⟩

theorem storeSnapPointers_ok (inv : Inv base limit n arch t) {snaps elements : Ref} {l : List Nat}
    {u : Unit} (run : (l.forM (storeSnapPointer snaps elements) : Traverse Unit) t = .ok (u, t')) :
    t' = t.push (l.map fun i =>
      (addr base elements + i * 8, encode 8 (addr base snaps + i * 112))) ∧
      ∀ i ∈ l, (addr base elements + i * 8) % 8 = 0 := by
  induction l generalizing t with
  | nil =>
    cases run
    exact ⟨(push_nil _).symm, fun i mem => absurd mem (by simp)⟩
  | cons i l ih =>
    obtain ⟨_, t₁, first, rest⟩ := bind_ok run
    obtain ⟨o, s, placed, aligned, loads, rfl⟩ := storeSnapPointer_ok first
    have at₁ : o = addr base elements + i * 8 := (inv.contents placed).trans (Nat.add_assoc _ _ _).symm
    have at₂ : s = addr base snaps + i * 112 :=
      (inv.loads loads).1.trans (Nat.add_assoc _ _ _).symm
    obtain ⟨rfl, multiples⟩ := ih (inv.push _) rest
    refine ⟨?_, List.forall_mem_cons.mpr ⟨at₁ ▸ aligned, multiples⟩⟩
    rw [push_push, List.map_cons, at₁, at₂]
    rfl

/-- An array of pointers, each apart from the others. -/
theorem pointers_keeps {image : Bytes} {data : Set Nat} {first count : Nat}
    (inside : first + count * 8 ≤ image.length)
    (points : ∀ i < count, PointerOk start .snap image (number image (first + i * 8) 8))
    (free : Disjoint (Region.positions (first, count * 8)) data) :
    Keeps (.each (pointerWalk start .snap) (offsets .snapPointer first count)) [] image data
      (Region.positions (first, count * 8)) := by
  induction count generalizing first with
  | zero => exact Keeps.none
  | succ count ih =>
    rw [Nat.succ_mul] at inside free ⊢
    have split : Region.positions (first, count * 8 + 8) =
        Region.positions (first, 8) ∪ Region.positions (first + 8, count * 8) := by
      ext p
      simp only [Region.positions, Set.mem_Ico, Set.mem_union]
      omega
    rw [split] at free ⊢
    obtain ⟨free₁, free₂⟩ := Set.disjoint_union_left.mp free
    have here : Keeps (pointerWalk start .snap first) [] image data (Region.positions (first, 8)) :=
      pointer_keeps (by omega) (by
        have := points 0 (Nat.succ_pos _)
        rwa [Nat.zero_mul, Nat.add_zero] at this)
    have rest := @ih (first + 8) (by omega) (fun i below => by
      have := points (i + 1) (Nat.succ_lt_succ below)
      rwa [Nat.succ_mul, Nat.add_comm (i * 8), ← Nat.add_assoc] at this) free₂
    rw [offsets_cons]
    exact here.seq rest (disjoint_of_apart (.inl (Nat.le_refl _))) free₁ free₂

/-- Pointers and what they point to, one after the other or all of the pointers first. -/
theorem follow_keeps {type : CType} {l : List Nat} {body : Nat → Walk} {regions : List Region}
    {image : Bytes} {data z : Set Nat}
    (both : Keeps ((Walk.each (pointerWalk start type) l).seq
      (.each body (l.map fun p => number image p 8))) regions image data z) :
    Keeps (.each (fun p => followWalk start type p body) l) regions image data z := by
  have cells : (((Walk.each (pointerWalk start type) l).seq
      (.each body (l.map fun p => number image p 8))).cells image).Perm
        ((Walk.each (fun p => followWalk start type p body) l).cells image) := by
    change List.Perm (_ ++ _ : List Cell) _
    rw [Walk.each_cells, Walk.each_cells, Walk.each_cells, List.flatMap_map]
    exact List.flatMap_append_perm l _ _
  refine ⟨?_, fun c mem => both.cells c (cells.mem_iff.mpr mem), ?_, both.within,
    fun r mem c here => both.beside r mem c (cells.mem_iff.mpr here)⟩
  · obtain ⟨pointers, bodies⟩ := both.valid
    rw [Walk.each_valid] at pointers bodies ⊢
    intro p mem
    exact ⟨pointers p mem, bodies _ (List.mem_map_of_mem mem)⟩
  · exact (cells.pairwise_iff Images.Apart.symm).mp both.apart

/-- The pointers of the array with the snaps that they point to. -/
def snapPointerKind (start : Nat) (arch : Architecture) : Kind Snap where
  block := .snap
  type := .snapPointer
  walk := fun p => followWalk start .snap p (snapWalk start arch)
  regions image p := snapRegions arch image (number image p 8)
  read image p := snapAt 0 image arch (number image p 8)

/-- Snaps that are there, and the pointers to them. -/
theorem snapPointers_there {image : Bytes} {values : List Snap} {elements snaps : Nat}
    {data z : Set Nat} (there : ElementsThere start (snapKind start arch) values image data z snaps)
    (shows : Shows image (pointerWrites elements snaps values.length))
    (inside : elements + values.length * 8 ≤ image.length) (room : image.length < 256 ^ 8)
    (aligned : values.length = 0 ∨ (start + elements) % 8 = 0)
    (disjoint : Disjoint (Region.positions (elements, values.length * 8)) z)
    (free : Disjoint (Region.positions (elements, values.length * 8)) data) :
    ElementsThere start (snapPointerKind start arch) values image data
      (Region.positions (elements, values.length * 8) ∪ z) elements := by
  have bounds : snaps + values.length * 112 ≤ image.length := there.bounds
  have pointer (i : Nat) (below : i < values.length) :
      number image (elements + i * 8) 8 = snaps + i * 112 := by
    rw [shows.number (List.mem_map_of_mem (List.mem_range.mpr below)), Nat.mod_eq_of_lt]
    have := Nat.mul_lt_mul_of_pos_right below (show 0 < 112 by decide)
    omega
  have targets : (offsets .snapPointer elements values.length).map (fun p => number image p 8) =
      offsets .snap snaps values.length := by
    unfold offsets
    rw [List.map_map]
    exact List.map_congr_left fun i mem => pointer i (List.mem_range.mp mem)
  have pointers : Keeps (.each (pointerWalk start .snap)
      (offsets .snapPointer elements values.length)) [] image data _ :=
    pointers_keeps inside (fun i below => by
      rw [pointer i below]
      have last := Nat.mul_le_mul_right 112 (show i + 1 ≤ values.length from below)
      have multiple : (start + snaps) % 8 = 0 := there.aligned.resolve_left (by omega)
      refine ⟨?_, ?_⟩
      · change snaps + i * 112 + 112 ≤ image.length
        omega
      · change (start + (snaps + i * 112)) % 8 = 0
        omega) free
  have both := pointers.seq there.made.keeps disjoint free there.free
  rw [show (snapKind start arch).type = .snap from rfl, ← targets] at both
  refine ⟨⟨?_, ?_⟩, inside, aligned, Set.disjoint_union_left.mpr ⟨free, there.free⟩⟩
  · have followed := follow_keeps both
    rw [List.nil_append, List.flatMap_map] at followed
    exact followed
  · have read := there.made.read
    rw [show (snapKind start arch).type = .snap from rfl, ← targets, List.map_map] at read
    exact read

/-! ## The header -/

/-- The fields of the header that are stored once. -/
def headerFields (arch : Architecture) (numBytes n elements : Nat) : List (Nat × Nat × Nat) :=
  [(0, 8, kSnapCorpusMagic), (8, 4, CType.snapCorpusHeader.size), (16, 8, numBytes),
    (24, 4, CType.snapCorpus.size), (28, 4, CType.snap.size), (32, 4, CType.registerState.size),
    (36, 1, arch.toInt), (37, 3, 0), (40, 8, n), (48, 8, elements)]

theorem corpusFields_ok (arch : Architecture) (numBytes n elements : Nat) :
    FieldsOk 56 (fieldShapes (corpusFields arch numBytes n elements)) := by
  change FieldsOk 56 [(0, 8), (8, 4), (12, 4), (16, 8), (24, 4), (28, 4), (32, 4), (36, 1), (37, 3),
    (40, 8), (48, 8)]
  decide

theorem headerFields_beside {arch : Architecture} {numBytes count elements : Nat} {w : Write}
    {sum : Bytes} (length : sum.length = 4)
    (mem : w ∈ fields 0 (headerFields arch numBytes count elements)) : Write.Apart w (12, sum) := by
  obtain ⟨⟨field, size, v⟩, here, rfl⟩ := List.mem_map.mp mem
  apply disjoint_of_apart
  simp only [headerFields, List.mem_cons, List.not_mem_nil, or_false, Prod.mk.injEq] at here
  rcases here with ⟨rfl, rfl, -⟩ | ⟨rfl, rfl, -⟩ | ⟨rfl, rfl, -⟩ | ⟨rfl, rfl, -⟩ | ⟨rfl, rfl, -⟩ |
    ⟨rfl, rfl, -⟩ | ⟨rfl, rfl, -⟩ | ⟨rfl, rfl, -⟩ | ⟨rfl, rfl, -⟩ | ⟨rfl, rfl, -⟩ <;>
  simp only [Images.Apart, length_encode, length] <;> decide

/-- The checksum is of what is beside it. -/
theorem skipChecksum_write {image sum : Bytes} (length : sum.length = 4)
    (whole : 16 ≤ image.length) :
    SnapChecksum.skipChecksum (Buffers.write image 12 sum) = SnapChecksum.skipChecksum image := by
  have first : (image.take 12).length = 12 := by
    rw [List.length_take]
    omega
  have both : (image.take 12 ++ sum).length = 16 := by rw [List.length_append, first, length]
  change (Buffers.write image 12 sum).take 12 ++ (Buffers.write image 12 sum).drop 16 =
    image.take 12 ++ image.drop 16
  unfold Buffers.write
  rw [length, List.drop_left' both, List.append_assoc, List.take_left' first]

theorem headerOk_of_shows {image : Bytes} {count elements : Nat} (page : start % 4096 = 0)
    (shows : Shows image (fields 0 (headerFields arch image.length count elements)))
    (checksum : number image 12 4 =
      (SnapChecksum.castagnoli (SnapChecksum.skipChecksum image)).toNat)
    (whole : 56 ≤ image.length) (room : image.length < 256 ^ 8) (verify : Bool) :
    HeaderOk start arch verify image := by
  have field (f size v : Nat) (mem : (f, size, v) ∈ headerFields arch image.length count elements)
      (small : v < 256 ^ size) : number image f size = v := by
    have shown := field_number shows mem small
    rwa [Nat.zero_add] at shown
  have architecture : arch.toInt < 256 ^ 1 := by cases arch <;> decide
  exact {
    whole := whole
    aligned := page_multiple page (show 8 ∣ 4096 by decide)
    magic := field 0 8 _ (by simp [headerFields]) (by decide)
    headerSize := field 8 4 _ (by simp [headerFields]) (by decide)
    numBytes := field 16 8 _ (by simp [headerFields]) room
    checksum := fun _ => checksum
    architectureId := field 36 1 _ (by simp [headerFields]) architecture
    corpusTypeSize := field 24 4 _ (by simp [headerFields]) (by decide)
    snapTypeSize := field 28 4 _ (by simp [headerFields]) (by decide)
    registerStateTypeSize := field 32 4 _ (by simp [headerFields]) (by decide) }

/-! ## The generation pass -/

theorem Step.idle (h : Step ∅ t t') : t'.stores = t.stores := by
  obtain ⟨new, grown, -, inside⟩ := h.writes
  cases new with
  | nil => rw [grown, List.append_nil]
  | cons w new =>
    obtain ⟨some, nowhere⟩ := inside w List.mem_cons_self
    have here : w.1 ∈ Write.positions w := ⟨Nat.le_refl _, Nat.lt_add_of_pos_right some⟩
    exact absurd (nowhere here) (Set.notMem_empty _)

/-- What is stored from an empty buffer on is in parts of its own. -/
theorem Step.separate {z : Set Nat} (h : Step z t t') (unstored : t.stores = [])
    (inside : ∀ p ∈ z, p < n) : Separate n t'.stores := by
  obtain ⟨new, grown, apart, within⟩ := h.writes
  rw [grown, unstored, List.nil_append]
  refine ⟨fun w mem => ?_, apart⟩
  obtain ⟨some, placed⟩ := within w mem
  have last : w.1 + (w.2.length - 1) ∈ Write.positions w :=
    ⟨Nat.le_add_right _ _, by dsimp only; omega⟩
  have := inside _ (placed last)
  omega

theorem taken_inside (layout : Layout base limit n) (inv : Inv base limit n arch t) :
    ∀ p ∈ taken base t, p < n := by
  rintro p ⟨b, low, high⟩
  have within := inv.within b
  have inside := layout.inside b
  omega

theorem mergeBlocks_capacity {main : RelocatableDataBlock} (run : mergeBlocks t = .ok main) :
    main.maxContentsSize = t.mainBlock.maxContentsSize := by
  unfold mergeBlocks at run
  suffices keeps : ∀ (l : List Block) (m : RelocatableDataBlock),
      l.foldlM t.mergeBlock m = .ok main → main.maxContentsSize = m.maxContentsSize from
    keeps _ _ run
  intro l
  induction l with
  | nil =>
    intro m run
    cases run
    rfl
  | cons b l ih =>
    intro m run
    rw [List.foldlM_cons] at run
    obtain ⟨m₁, first, rest⟩ := except_bind_ok run
    obtain ⟨⟨offset, m₂⟩, allocated, done⟩ := except_bind_ok first
    cases done
    obtain ⟨-, -, -, rfl⟩ := allocate_ok allocated
    rw [ih _ rest]
    rfl

theorem allocate_first {b : Block} {size alignment : Nat} (empty : (t.blocks b).size = 0)
    (run : allocate b size alignment t = .ok (ref, t')) : ref.byteOffset = 0 := by
  obtain ⟨_, t₁, got, rest⟩ := bind_ok run
  cases got
  obtain ⟨⟨offset, block⟩, t₂, first, rest'⟩ := bind_ok rest
  obtain ⟨allocated, same⟩ := lift_ok first
  rw [same] at rest'
  cases rest'
  obtain ⟨-, rfl, -, -⟩ := allocate_ok allocated
  dsimp only
  rw [empty, alignedOffset_zero]

theorem Inv.merge (inv : Inv base limit n arch t) {main : RelocatableDataBlock}
    (same : main.maxContentsSize = t.mainBlock.maxContentsSize) :
    Inv base limit n arch { t with mainBlock := main } where
  capacity := same.trans inv.capacity
  place := inv.place
  within := inv.within
  known found := by
    obtain ⟨holds, contents, is, stored, fits⟩ := inv.known found
    exact ⟨holds, contents, is, stored, fits⟩

theorem Ready.inv (ready : Ready base limit n t) : Inv base limit n arch t where
  capacity := by rw [ready.mainBlock]
  place := ready.place
  within b := by
    rw [(ready.reset b).1]
    exact Nat.zero_le _
  known found := by
    rw [ready.refMaps] at found
    cases found

/-- A corpus that may be used at `start`. -/
structure CorpusMade (start : Nat) (arch : Architecture) (values : List Snap) (image : Bytes) :
    Prop where
  header (verify : Bool) : HeaderOk start arch verify image
  keeps : ∃ data zone, Keeps (corpusWalk start arch) (corpusRegions arch image) image data zone
  architectureId :
    Beside ((corpusWalk start arch).cells image) (Offset.SnapCorpus.architectureId, 1)
  snaps : snaps 0 image arch = values

theorem corpus_made {image : Bytes} {values : List Snap} {elements snaps : Nat} {data z : Set Nat}
    (page : start % 4096 = 0) (room : image.length < 256 ^ 8) (whole : 56 ≤ image.length)
    (header : Shows image (fields 0 (headerFields arch image.length values.length elements)))
    (checksum : number image 12 4 =
      (SnapChecksum.castagnoli (SnapChecksum.skipChecksum image)).toNat)
    (pointers : Shows image (pointerWrites elements snaps values.length))
    (there : ElementsThere start (snapKind start arch) values image data z snaps)
    (inside : elements + values.length * 8 ≤ image.length)
    (aligned : values.length = 0 ∨ elements % 8 = 0)
    (apart : Disjoint (Region.positions (0, 56)) (Region.positions (elements, values.length * 8)))
    (apart' : Disjoint (Region.positions (0, 56)) z)
    (apart'' : Disjoint (Region.positions (elements, values.length * 8)) z)
    (free : Disjoint (Region.positions (0, 56)) data)
    (free' : Disjoint (Region.positions (elements, values.length * 8)) data) :
    CorpusMade start arch values image := by
  have multiple := page_multiple page (show 8 ∣ 4096 by decide)
  have array := snapPointers_there there pointers inside room
    (aligned.imp_right fun aligned => by omega) apart'' free'
  obtain ⟨few, low⟩ := array.small (Nat.succ_pos _) room
  have field (f v : Nat) (mem : (f, 8, v) ∈ headerFields arch image.length values.length elements)
      (small : v < 256 ^ 8) : number image f 8 = v := by
    have shown := field_number header mem small
    rwa [Nat.zero_add] at shown
  have within : Region.positions (40, 16) ⊆ Region.positions (0, 56) :=
    @positions_within 0 40 16 56 (by decide)
  obtain ⟨keeps, read⟩ := array_made 40 array whole
    (field 40 _ (by simp [headerFields]) few) (field 48 _ (by simp [headerFields]) low)
    (Set.disjoint_union_right.mpr ⟨apart.mono_left within, apart'.mono_left within⟩)
    (free.mono_left within)
  refine ⟨headerOk_of_shows page header checksum whole room, ⟨_, _, keeps⟩, fun c mem => ?_, read⟩
  obtain ⟨some, placed⟩ := keeps.cells c mem
  have first : Region.positions (36, 1) ⊆ Region.positions (0, 56) :=
    @positions_within 0 36 1 56 (by decide)
  have outside : Disjoint (Region.positions (36, 1)) (Region.positions (40, 16)) :=
    @positions_apart 0 36 1 40 16 (by decide)
  exact apart_of_disjoint some (Nat.succ_pos 0) (Set.disjoint_of_subset_left placed
    (Set.disjoint_union_right.mpr ⟨outside,
      Set.disjoint_union_right.mpr ⟨apart.mono_left first, apart'.mono_left first⟩⟩).symm)

/-- The traversal before the checksum is stored. -/
def assembled (arch : Architecture) (t : Traversal) (main : RelocatableDataBlock)
    (count elements snaps : Nat) : Traversal :=
  (Traversal.push { t with mainBlock := main }
    (fields 0 (corpusFields arch main.size count elements))).push
      (pointerWrites elements snaps count)

/-- The checksum of what is in the content buffer. -/
def checksumOf (t : Traversal) : BitVec 32 :=
  crc32cUnaccelerated 0 (SnapChecksum.skipChecksum (piece t.contents 0 t.mainBlock.size))

/-- A generation pass, with what it goes through. -/
structure Pass (start : Nat) (base limit : Block → Nat) (n : Nat) (arch : Architecture)
    (options : RelocatableSnapGeneratorOptions) (snapshots : List Snapshot) (t t' : Traversal) where
  corpus : Ref
  elements : Ref
  snaps : Ref
  t₁ : Traversal
  t₂ : Traversal
  t₃ : Traversal
  t₄ : Traversal
  main : RelocatableDataBlock
  values : List Snap
  newCorpus : New base limit n arch .snap 56 corpus t t₁
  newElements : New base limit n arch .snap (8 * values.length) elements t₁ t₂
  newSnaps : New base limit n arch .snap (112 * values.length) snaps t₂ t₃
  zero : addr base corpus = 0
  all : List.Forall₂ (fun snapshot snap => snapOf arch options snapshot = .ok snap) snapshots values
  list : ListFilled base limit n arch (snapKind start arch) values snaps t₃ t₄
  capacity : main.maxContentsSize = t₄.mainBlock.maxContentsSize
  multiple : values.length = 0 ∨ addr base elements % 8 = 0
  stored : t' = (assembled arch t₄ main values.length (addr base elements) (addr base snaps)).push
    [(12, encode 4 (checksumOf (assembled arch t₄ main values.length (addr base elements)
      (addr base snaps))).toNat)]

theorem process_pass {snapshots : List Snapshot} {u : Unit} (layout : Layout base limit n)
    (first : base .snap = 0) (ready : Ready base limit n t)
    (page : start % 4096 = 0)
    (run : process .kGeneration arch options snapshots t = .ok (u, t')) :
    Nonempty (Pass start base limit n arch options snapshots t t') := by
  have inv : Inv base limit n arch t := ready.inv
  obtain ⟨corpus, t₁, allocated₁, rest₁⟩ := bind_ok run
  obtain ⟨elements, t₂, allocated₂, rest₂⟩ := bind_ok rest₁
  obtain ⟨snaps, t₃, allocated₃, rest₃⟩ := bind_ok rest₂
  have new₁ := inv.allocate layout allocated₁
  have new₂ := new₁.inv.allocate layout allocated₂
  have new₃ := new₂.inv.allocate layout allocated₃
  have zero : addr base corpus = 0 := by
    unfold addr
    rw [new₁.block, first, allocate_first (ready.reset .snap).1 allocated₁]
  obtain ⟨_, t₄, filled, rest₄⟩ := bind_ok rest₃
  have each := snapshots_elements filled
  rw [Nat.zero_mul, Nat.add_zero] at each
  have fits₃ := new₃.fits
  rw [Nat.mul_comm] at fits₃
  obtain ⟨values, all, list⟩ := elements_filled (k := snapKind start arch) layout rfl
    (fun snapshot _ ref t t' inv block fits run =>
      processAllocated_filled layout page inv block fits run) each new₃.inv new₃.block fits₃
  have count : snapshots.length = values.length := all.length_eq
  obtain ⟨_, t₅, merged, rest₅⟩ := bind_ok rest₄
  obtain ⟨_, t₄', got, rest₆⟩ := bind_ok merged
  cases got
  obtain ⟨main, t₄', merge, rest₇⟩ := bind_ok rest₆
  obtain ⟨merge, same⟩ := lift_ok merge
  rw [same] at rest₇
  cases rest₇
  have capacity := mergeBlocks_capacity merge
  have inv₅ := list.inv.merge capacity
  obtain ⟨_, t₆, header, rest₈⟩ := bind_ok rest₅
  obtain ⟨o, e, placed, loads, rfl⟩ := storeCorpus_ok header
  obtain rfl : o = addr base corpus := inv₅.contents placed
  obtain ⟨rfl, -⟩ := inv₅.loads loads
  obtain ⟨_, t₇, pointers, checksum⟩ := bind_ok rest₈
  obtain ⟨rfl, multiples⟩ := storeSnapPointers_ok (inv₅.push _) pointers
  obtain ⟨o, placed', stored⟩ := storeChecksum_ok checksum
  obtain rfl : o = addr base corpus := ((inv₅.push _).push _).contents placed'
  rw [count] at new₂ new₃ multiples stored
  rw [zero] at stored
  refine ⟨⟨corpus, elements, snaps, t₁, t₂, t₃, t₄, main, values, new₁, new₂, new₃, zero, all, list,
    capacity, ?_, stored⟩⟩
  rcases Nat.eq_zero_or_pos values.length with none | some
  · exact .inl none
  · have := multiples 0 (List.mem_range.mpr some)
    rw [Nat.zero_mul, Nat.add_zero] at this
    exact .inr this

theorem checksum_apart {z : Set Nat} {w : Write} {sum : Bytes} (length : sum.length = 4)
    (inside : Write.In w z) (apart : Disjoint z (Region.positions (0, 56))) :
    Write.Apart w (12, sum) := by
  refine apart.mono inside.2 ?_
  rintro x ⟨low, high⟩
  dsimp only at low high
  exact ⟨by dsimp only; omega, by dsimp only; omega⟩

namespace Pass

variable {snapshots : List Snapshot} (p : Pass start base limit n arch options snapshots t t')

/-- The traversal before the checksum is stored. -/
def last : Traversal :=
  assembled arch p.t₄ p.main p.values.length (addr base p.elements) (addr base p.snaps)

def header : Set Nat := slot base p.corpus 56

def pointers : Set Nat := slot base p.elements (p.values.length * 8)

def objects : Set Nat := slot base p.snaps (p.values.length * 112) ∪ fresh base p.t₃ p.t₄

theorem header_new : p.header ⊆ fresh base t p.t₁ := p.newCorpus.slot

theorem pointers_new : p.pointers ⊆ fresh base p.t₁ p.t₂ := by
  unfold pointers
  rw [Nat.mul_comm]
  exact p.newElements.slot

theorem snaps_new : slot base p.snaps (p.values.length * 112) ⊆ fresh base p.t₂ p.t₃ := by
  rw [Nat.mul_comm]
  exact p.newSnaps.slot

/-- The three parts were allocated one after the other. -/
theorem parts_apart : Disjoint p.header p.pointers ∧ Disjoint p.objects p.header ∧
    Disjoint p.objects p.pointers := by
  have later₂ := p.newElements.step.later
  have later₃ := p.newSnaps.step.later
  refine ⟨?_, ?_, ?_⟩
  · exact Set.disjoint_left.mpr fun x here there => (p.pointers_new there).2 (p.header_new here).1
  · refine Set.disjoint_left.mpr fun x here there => ?_
    have before := later₂.taken (p.header_new there).1
    rcases here with snap | new
    · exact (p.snaps_new snap).2 before
    · exact new.2 (later₃.taken before)
  · refine Set.disjoint_left.mpr fun x here there => ?_
    have before := (p.pointers_new there).1
    rcases here with snap | new
    · exact (p.snaps_new snap).2 before
    · exact new.2 (later₃.taken before)

theorem header_eq : p.header = Region.positions (0, 56) := by
  unfold header slot
  rw [p.zero]

theorem unstored₃ (unstored : t.stores = []) : p.t₃.stores = [] := by
  rw [p.newSnaps.step.idle, p.newElements.step.idle, p.newCorpus.step.idle, unstored]

/-- All that is stored before the checksum has bytes of its own. -/
theorem separate (layout : Layout base limit n) (unstored : t.stores = []) :
    Separate n p.last.stores := by
  obtain ⟨apart, apart', apart''⟩ := p.parts_apart
  have none₃ := p.unstored₃ unstored
  obtain ⟨fieldsApart, fieldsIn⟩ := fields_apart 0
    (corpusFields_ok arch p.main.size p.values.length (addr base p.elements))
  obtain ⟨pointersApart, pointersIn⟩ := pointerWrites_apart (addr base p.elements)
    (addr base p.snaps) p.values.length
  have headerStep : Step p.header p.t₄ (Traversal.push { p.t₄ with mainBlock := p.main }
      (fields 0 (corpusFields arch p.main.size p.values.length (addr base p.elements)))) :=
    ⟨fun _ => Nat.le_refl _, _, rfl, fieldsApart, p.header_eq ▸ fieldsIn⟩
  have pointersStep : Step p.pointers _ p.last := push_step pointersApart pointersIn
  have objectsStep : Step p.objects p.t₃ p.t₄ := p.list.step
  have whole := (objectsStep.trans headerStep apart').trans pointersStep
    (Set.disjoint_union_left.mpr ⟨apart'', apart⟩)
  refine whole.separate none₃ fun x here => taken_inside layout p.list.inv x ?_
  have later₂ := p.newElements.step.later
  have later₃ := p.newSnaps.step.later
  have later₄ := p.list.step.later
  rcases here with (((snap | new) | header) | pointer)
  · exact later₄.taken (p.snaps_new snap).1
  · exact new.1
  · exact later₄.taken (later₃.taken (later₂.taken (p.header_new header).1))
  · exact later₄.taken (later₃.taken (p.pointers_new pointer).1)

include p in
theorem whole (layout : Layout base limit n) : 56 ≤ n := by
  have inside := p.newCorpus.inv.inside layout p.newCorpus.fits
  rwa [p.zero, Nat.zero_add] at inside

theorem contents_last (layout : Layout base limit n) (unstored : t.stores = []) :
    p.last.contents = written (List.replicate n 0) p.last.stores ∧ p.last.contents.length = n := by
  have contents : p.last.contents = written (List.replicate n 0) p.last.stores := by
    unfold Traversal.contents
    rw [show p.last.mainBlock.maxContentsSize = n from p.capacity.trans p.list.inv.capacity]
    rfl
  have separate := p.separate layout unstored
  refine ⟨contents, ?_⟩
  rw [contents, length_written (by rw [List.length_replicate]; exact separate.inside),
    List.length_replicate]

/-- The checksum is put in at the end. -/
theorem contents_eq : t'.contents = put p.last.contents 12 4 (checksumOf p.last).toNat := by
  refine (congrArg Traversal.contents p.stored).trans ?_
  change List.foldl _ _ (_ ++ _) = _
  rw [List.foldl_append]
  rfl

include p in
theorem length_contents (layout : Layout base limit n) (unstored : t.stores = []) :
    t'.contents.length = n := by
  have whole := p.whole layout
  obtain ⟨-, length⟩ := p.contents_last layout unstored
  rw [p.contents_eq, length_put (by omega), length]

/-- The content buffer has in the end what was stored anywhere but at the checksum. -/
theorem shows (layout : Layout base limit n) (unstored : t.stores = []) {w : Write}
    (mem : w ∈ p.last.stores)
    (apart : Write.Apart w (12, encode 4 (checksumOf p.last).toNat)) :
    piece t'.contents w.1 w.2.length = w.2 := by
  have whole := p.whole layout
  have separate := p.separate layout unstored
  obtain ⟨contents, -⟩ := p.contents_last layout unstored
  have image : t'.contents = written (List.replicate n 0)
      (p.last.stores ++ [(12, encode 4 (checksumOf p.last).toNat)]) := by
    rw [p.contents_eq, contents, written, written, List.foldl_append]
    rfl
  rw [image]
  refine shows_written_then (by rwa [List.length_replicate]) ?_ mem apart
  rw [List.length_replicate, length_encode]
  omega

/-- **The corpus is one of the snaps of the snapshots.** -/
theorem made (layout : Layout base limit n) (unstored : t.stores = []) (room : n < 256 ^ 8)
    (page : start % 4096 = 0) (size : t'.mainBlock.size = n) :
    CorpusMade start arch p.values t'.contents := by
  have whole := p.whole layout
  have length := p.length_contents layout unstored
  have separate := p.separate layout unstored
  obtain ⟨contents, lengthLast⟩ := p.contents_last layout unstored
  obtain ⟨apart, apart', apart''⟩ := p.parts_apart
  rw [p.header_eq] at apart apart'
  have all : p.main.size = n := by
    rw [p.stored] at size
    exact size
  have sum : number t'.contents 12 4 =
      (SnapChecksum.castagnoli (SnapChecksum.skipChecksum t'.contents)).toNat := by
    have same : SnapChecksum.skipChecksum t'.contents =
        SnapChecksum.skipChecksum p.last.contents := by
      rw [p.contents_eq]
      exact skipChecksum_write (length_encode _ _) (by omega)
    have every : piece p.last.contents 0 p.last.mainBlock.size = p.last.contents := by
      rw [show p.last.mainBlock.size = p.last.contents.length from all.trans lengthLast.symm]
      exact List.take_length
    rw [same, ← SnapChecksum.castagnoli_table, p.contents_eq,
      number_put_same (by omega) (BitVec.isLt _), checksumOf, every]
  have later : Later p.t₄ p.last := ⟨fun _ => Nat.le_refl _, _, List.append_assoc _ _ _⟩
  have sumLength := length_encode 4 (checksumOf p.last).toNat
  have objects : Shows t'.contents p.t₄.stores := by
    obtain ⟨new, grown, -, inside⟩ := p.list.step.writes
    intro w mem
    refine p.shows layout unstored (later.subset mem) ?_
    rw [grown, p.unstored₃ unstored, List.nil_append] at mem
    exact checksum_apart sumLength (inside w mem) apart'
  have inside : zone base limit (slot base p.snaps (p.values.length * 112)) p.t₃ p.t₄ ⊆ p.objects :=
    zone_subset _
  have fitsSnaps := p.newSnaps.fits
  have fitsElements := p.newElements.fits
  rw [Nat.mul_comm] at fitsSnaps fitsElements
  have snapsFree := slot_free p.snaps (p.values.length * 112) layout (p.newSnaps.block.symm ▸ rfl)
    (Nat.le_trans fitsSnaps (p.newSnaps.inv.within _))
  have elementsFree := slot_free p.elements (p.values.length * 8) layout
    (p.newElements.block.symm ▸ rfl) (Nat.le_trans fitsElements (p.newElements.inv.within _))
  have headerFree := slot_free p.corpus 56 layout (p.newCorpus.block.symm ▸ rfl)
    (Nat.le_trans p.newCorpus.fits (p.newCorpus.inv.within _))
  have there : ElementsThere start (snapKind start arch) p.values t'.contents
      (dataZone base limit) _ (addr base p.snaps) := {
    made := p.list.made _ ⟨room, later.separate separate, length, objects⟩
    bounds := length.symm ▸ p.newSnaps.inv.inside layout fitsSnaps
    aligned := p.list.aligned.imp_right fun aligned => by
      change addr base p.snaps % 8 = 0 at aligned
      change (start + addr base p.snaps) % 8 = 0
      omega
    free := zone_free snapsFree }
  refine corpus_made page (length.symm ▸ room) (length.symm ▸ whole) ?_ sum ?_ there
    (length.symm ▸ p.newElements.inv.inside layout fitsElements) p.multiple apart
    (apart'.symm.mono_right inside) (apart''.symm.mono_right inside)
    (p.header_eq ▸ headerFree) elementsFree
  · intro w mem
    refine p.shows layout unstored ?_ (headerFields_beside sumLength mem)
    rw [length.trans all.symm] at mem
    obtain ⟨field, here, rfl⟩ := List.mem_map.mp mem
    refine List.mem_append_left _ (List.mem_append_right _ (List.mem_map_of_mem ?_))
    simp only [headerFields, corpusFields, List.mem_cons, List.not_mem_nil, or_false] at here ⊢
    tauto
  · intro w mem
    exact p.shows layout unstored (List.mem_append_right _ mem)
      (checksum_apart sumLength ((pointerWrites_apart _ _ _).2 w mem) apart.symm)

end Pass

/-- The layout pass from the start on is the same as the generation pass. -/
theorem Ready.same (ready : Ready base limit n t) : Same .new t where
  mainBlock := by
    rw [ready.mainBlock]
    exact ⟨rfl, rfl⟩
  blocks b := ⟨(ready.reset b).1.symm, (ready.reset b).2.symm⟩
  refMaps := ready.refMaps.symm
  mainBare := rfl
  bare _ := rfl
  unstored := rfl

end

end Traversal

open Traversal

section

variable {arch : Architecture} {options : RelocatableSnapGeneratorOptions}
  {snapshots : List Snapshot} {image : ByteData}

/-- The generation pass is one in a content buffer of just the size that it needs. -/
theorem generation_pass {start : Nat} (page : start % 4096 = 0) {t₀ t t' : Traversal} {u v : Unit}
    (layoutRun : process .kLayout arch options snapshots .new = .ok (u, t₀))
    (prepared : t₀.prepareSnapGeneration t₀.mainBlock.size 0 = .ok t)
    (run : process .kGeneration arch options snapshots t = .ok (v, t')) :
    ∃ base limit, Nonempty (Pass start base limit t₀.mainBlock.size arch options snapshots t t') ∧
      Layout base limit t₀.mainBlock.size ∧ t.stores = [] ∧
      t'.mainBlock.size = t₀.mainBlock.size := by
  obtain ⟨base, first, layout, ready, kept⟩ := prepareSnapGeneration_ok prepared
  obtain ⟨_, s, again, -, same⟩ := process_follows snapshots _ _ ready.same _ _ run
  obtain rfl : t₀ = s := by
    rw [layoutRun] at again
    cases again
    rfl
  exact ⟨base, _, process_pass layout first ready page run, layout, kept.trans same.unstored,
    same.mainBlock.1.symm⟩

/-- **The generation pass writes no byte twice, and none outside of the buffer** whose size the
layout pass has found, until the checksum is put in. In the end it has come to the same size. -/
theorem process_separate {t₀ t t' : Traversal} {u v : Unit}
    (layoutRun : process .kLayout arch options snapshots .new = .ok (u, t₀))
    (prepared : t₀.prepareSnapGeneration t₀.mainBlock.size 0 = .ok t)
    (run : process .kGeneration arch options snapshots t = .ok (v, t')) :
    ∃ stores checksum, t'.stores = stores ++ [(Offset.SnapCorpus.checksum, encode 4 checksum)] ∧
      Separate t₀.mainBlock.size stores ∧ t'.mainBlock.size = t₀.mainBlock.size := by
  obtain ⟨base, limit, ⟨p⟩, layout, unstored, size⟩ :=
    @generation_pass _ _ _ 0 rfl _ _ _ _ _ layoutRun prepared run
  exact ⟨p.last.stores, _, congrArg Traversal.stores p.stored, p.separate layout unstored, size⟩

theorem generateRelocatableSnaps_ok (run : generateRelocatableSnaps arch snapshots options = .ok image) :
    ∃ t₀ t t', process .kLayout arch options snapshots .new = .ok ((), t₀) ∧
      t₀.prepareSnapGeneration t₀.mainBlock.size 0 = .ok t ∧
      process .kGeneration arch options snapshots t = .ok ((), t') ∧ t'.contents = image := by
  obtain ⟨⟨u, t₀⟩, layoutRun, rest₁⟩ := except_bind_ok run
  obtain ⟨_, -, rest₂⟩ := except_bind_ok rest₁
  obtain ⟨t, prepared, rest₃⟩ := except_bind_ok rest₂
  obtain ⟨⟨v, t'⟩, generated, rest₄⟩ := except_bind_ok rest₃
  cases rest₄
  exact ⟨t₀, t, t', layoutRun, prepared, generated, rfl⟩

theorem mapM_of_forall₂ {α β ε : Type} {f : α → Except ε β} {l : List α} {values : List β}
    (h : List.Forall₂ (fun a value => f a = .ok value) l values) : l.mapM f = .ok values := by
  induction h with
  | nil => rfl
  | cons is _ ih =>
    rw [List.mapM_cons, is, ih]
    rfl

theorem forall₂_of_mapM {α β ε : Type} {f : α → Except ε β} {l : List α} {values : List β}
    (h : l.mapM f = .ok values) : List.Forall₂ (fun a value => f a = .ok value) l values := by
  induction l generalizing values with
  | nil =>
    cases h
    exact .nil
  | cons a l ih =>
    rw [List.mapM_cons] at h
    obtain ⟨b, first, rest⟩ := except_bind_ok h
    obtain ⟨bs, others, done⟩ := except_bind_ok rest
    cases done
    exact .cons first (ih others)

/-- A generated corpus has the snaps of the snapshots, and may be used at any page. -/
theorem generate_made (run : generateRelocatableSnaps arch snapshots options = .ok image)
    (room : image.length < 2 ^ 64) {start : Nat} (page : start % 4096 = 0) :
    ∃ values, snapshots.mapM (snapOf arch options) = .ok values ∧
      CorpusMade start arch values image := by
  obtain ⟨t₀, t, t', layoutRun, prepared, generated, rfl⟩ := generateRelocatableSnaps_ok run
  obtain ⟨base, limit, ⟨p⟩, layout, unstored, size⟩ :=
    generation_pass page layoutRun prepared generated
  have length := p.length_contents layout unstored
  exact ⟨p.values, mapM_of_forall₂ p.all, p.made layout unstored (length ▸ room) page size⟩

/-- Such a corpus is relocated, with no change but to its own pointers. -/
theorem Traversal.CorpusMade.relocates {start : Nat} {values : List Snap}
    (made : CorpusMade start arch values image) (fits : start + image.length < 2 ^ 64)
    (machine : Machine) (best : Implementation) (verify : Bool) {fuel : Nat}
    (enough : image.length < fuel) :
    ∃ bytes, relocateCorpus arch machine best true fuel ⟨start, image, fits⟩ verify = .ok bytes ∧
      Patched start ((corpusWalk start arch).cells image) image bytes := by
  obtain ⟨data, zone, keeps⟩ := made.keeps
  have header := made.header verify
  have relocated := (relocate_exact (r := ⟨arch, start, start + image.length, machine, best⟩)
    ⟨rfl, fits⟩ enough verify keeps.apart _).mpr ⟨header, keeps.valid, rfl⟩
  have some : image.length ≠ 0 := by
    have whole : 56 ≤ image.length := header.whole
    omega
  exact ⟨_, (@relocateCorpus_run arch machine best true fuel ⟨start, image, fits⟩ verify some
    _).mpr ⟨rfl, relocated⟩, (corpusWalk_lawful arch).fits keeps.valid, keeps.apart, fits, rfl⟩

/-- All of it is read from its own parts. -/
theorem Traversal.CorpusMade.part {start : Nat} {values : List Snap}
    (made : CorpusMade start arch values image) :
    Part ((corpusWalk start arch).cells image) image (corpusWalk start arch)
      (corpusRegions arch image) := by
  obtain ⟨data, zone, keeps⟩ := made.keeps
  exact ⟨keeps.valid, List.Subset.refl _, keeps.beside⟩

/-- **What is generated from snapshots is relocated, at any page and with or without the checksum
verified, and then a program reads the snaps of these snapshots.** -/
theorem generateRelocatableSnaps_relocates {start : Nat}
    (run : generateRelocatableSnaps arch snapshots options = .ok image)
    (fits : start + image.length < 2 ^ 64) (page : start % kPageSize = 0) (machine : Machine)
    (best : Implementation) (verify : Bool) {fuel : Nat} (enough : image.length < fuel) :
    ∃ bytes, relocateCorpus arch machine best true fuel ⟨start, image, fits⟩ verify = .ok bytes ∧
      snapshots.mapM (snapOf arch options) = .ok (snaps start bytes arch) := by
  obtain ⟨values, are, made⟩ := generate_made run (by omega) page
  obtain ⟨bytes, relocated, patched⟩ := made.relocates fits machine best verify enough
  refine ⟨bytes, relocated, ?_⟩
  rw [are, snaps_patched patched made.part, made.snaps]

/-! ## Runs of bytes -/

/-- The bytes of a run written out. -/
def SnapMemoryBytes.expanded (b : SnapMemoryBytes) : SnapMemoryBytes :=
  { b with data := .byteValues b.bytes }

def SnapMemoryMapping.expanded (mapping : SnapMemoryMapping) : SnapMemoryMapping :=
  { mapping with memoryBytes := mapping.memoryBytes.map SnapMemoryBytes.expanded }

def Snap.expanded (snap : Snap) : Snap :=
  { snap with
    memoryMappings := snap.memoryMappings.map SnapMemoryMapping.expanded
    endStateMemoryBytes := snap.endStateMemoryBytes.map SnapMemoryBytes.expanded }

/-- Bytes that are stored as a run are a run. -/
theorem bytes_snapMemoryBytesOf (options : RelocatableSnapGeneratorOptions) (b : MemoryBytes) :
    (snapMemoryBytesOf options b).bytes = b.byteValues := by
  unfold snapMemoryBytesOf SnapMemoryBytes.bytes
  split
  · next elements is =>
    split at is
    · cases is
    · cases is
      rfl
  · next value size is =>
    split at is
    · next compressed =>
      cases is
      have run := (Bool.and_eq_true_iff.mp compressed).2
      have same := List.all_eq_true.mp (Bool.and_eq_true_iff.mp run).2
      refine (List.eq_replicate_iff.mpr ⟨rfl, fun byte mem => ?_⟩).symm
      rw [eq_of_beq (same byte mem)]
      cases b.byteValues <;> rfl
    · cases is

theorem snapMemoryBytesOf_expanded (options : RelocatableSnapGeneratorOptions) (b : MemoryBytes) :
    (snapMemoryBytesOf options b).expanded = ⟨b.startAddress, .byteValues b.byteValues⟩ :=
  congrArg (SnapMemoryBytes.mk b.startAddress ∘ .byteValues) (bytes_snapMemoryBytesOf options b)

theorem snapOfParts_expanded (options options' : RelocatableSnapGeneratorOptions)
    (snapshot : Snapshot) (bytesPerMapping : List (List MemoryBytes)) (endState : EndState)
    (registers endRegisters : SnapRegisterState) (registerChecksum : RegisterChecksum) :
    (snapOfParts options snapshot bytesPerMapping endState registers endRegisters
        registerChecksum).expanded =
      (snapOfParts options' snapshot bytesPerMapping endState registers endRegisters
        registerChecksum).expanded := by
  simp only [snapOfParts, Snap.expanded, SnapMemoryMapping.expanded, snapMemoryMappingOf,
    List.map_map, Function.comp_def, snapMemoryBytesOf_expanded]

theorem map_bind_congr {α β γ ε : Type} {x : Except ε α} {f g : α → Except ε β} {k : β → γ}
    (same : ∀ a, (f a).map k = (g a).map k) : (x >>= f).map k = (x >>= g).map k := by
  cases x with
  | error e => rfl
  | ok a => exact same a

theorem map_mapM {α β γ ε : Type} (f : α → Except ε β) (k : β → γ) (l : List α) :
    (l.mapM f).map (List.map k) = l.mapM fun a => (f a).map k := by
  induction l with
  | nil => rfl
  | cons a l ih =>
    rw [List.mapM_cons, List.mapM_cons, ← ih]
    cases f a with
    | error e => rfl
    | ok b => cases l.mapM f <;> rfl

theorem snapOf_expanded (options' : RelocatableSnapGeneratorOptions) (snapshot : Snapshot) :
    (snapOf arch options snapshot).map Snap.expanded =
      (snapOf arch options' snapshot).map Snap.expanded := by
  refine map_bind_congr fun _ => map_bind_congr fun _ => map_bind_congr fun _ =>
    map_bind_congr fun _ => map_bind_congr fun _ => map_bind_congr fun _ =>
    map_bind_congr fun _ => ?_
  exact congrArg Except.ok (snapOfParts_expanded options options' _ _ _ _ _ _)

/-- **Compressed bytes and plain ones are the same**: whatever the options, a program that writes
out the runs reads the same snaps. -/
theorem generate_expanded {options' : RelocatableSnapGeneratorOptions} {image' : ByteData}
    (run : generateRelocatableSnaps arch snapshots options = .ok image)
    (run' : generateRelocatableSnaps arch snapshots options' = .ok image')
    (room : image.length < 2 ^ 64) (room' : image'.length < 2 ^ 64) :
    (snaps 0 image arch).map Snap.expanded = (snaps 0 image' arch).map Snap.expanded := by
  obtain ⟨values, are, made⟩ := @generate_made _ _ _ _ run room 0 rfl
  obtain ⟨values', are', made'⟩ := @generate_made _ _ _ _ run' room' 0 rfl
  rw [made.snaps, made'.snaps]
  have same : (fun snapshot => (snapOf arch options snapshot).map Snap.expanded) =
      fun snapshot => (snapOf arch options' snapshot).map Snap.expanded :=
    funext (snapOf_expanded options')
  have read := map_mapM (snapOf arch options) Snap.expanded snapshots
  rw [same, ← map_mapM, are, are'] at read
  exact Except.ok.inj read

end

/-! ## A snapshot with a page of code -/

namespace Traversal

def pageRegisters : RegisterState :=
  ⟨Serialize.serializeGRegs .kX86_64 (List.replicate 176 0),
    Serialize.serializeFPRegs .kX86_64 (List.replicate 512 0)⟩

def pageBytes : List MemoryBytes :=
  (MemoryBytes.make 0x20000 [0x90, 0xcc]).toList ++
    (MemoryBytes.make 0x20010 (List.replicate 16 0xcc)).toList

def pageSnapshot : Snapshot where
  toSnapshotMemory :=
    { SnapshotMemory.new .kX86_64 with
      memoryMappings := (MemoryMapping.makeSized 0x20000 0x1000 .xr).toList
      memoryBytes := pageBytes }
  id := [0x61]
  registers := some pageRegisters
  expectedEndStates := [{ EndState.new (.kInstruction 0x20001) pageRegisters with
    memoryBytes := pageBytes }]
  metadata := .default
  traceMetadata := []

/-- A short image with the snap of this snapshot, of one mapping and with two lists of bytes in its
end state. -/
def HasPage (image : ByteData) : Prop :=
  image.length < 8192 ∧ (snaps 0 image .kX86_64).map (fun snap =>
    (snap.id, snap.memoryMappings.length, snap.endStateMemoryBytes.length)) = [([0x61], 1, 2)]

instance : DecidablePred HasPage := fun _ => inferInstanceAs (Decidable (_ ∧ _))

theorem pageSnapshot_generated : ((generateRelocatableSnaps .kX86_64 [pageSnapshot] {}).map
    fun image => decide (HasPage image)) = .ok true := by
  decide +kernel

theorem pageSnapshot_plain : ((generateRelocatableSnaps .kX86_64 [pageSnapshot] ⟨false⟩).map
    fun image => decide (image.length < 8192)) = .ok true := by
  decide +kernel

theorem ok_of_map {options : RelocatableSnapGeneratorOptions} {snapshots : List Snapshot}
    {arch : Architecture} {P : ByteData → Prop} [DecidablePred P]
    (h : ((generateRelocatableSnaps arch snapshots options).map fun image => decide (P image)) =
      .ok true) :
    ∃ image, generateRelocatableSnaps arch snapshots options = .ok image ∧ P image := by
  cases is : generateRelocatableSnaps arch snapshots options with
  | error e =>
    rw [is] at h
    cases h
  | ok image =>
    rw [is] at h
    exact ⟨image, rfl, of_decide_eq_true (Except.ok.inj h)⟩

/-- The corpus of the page at an address. -/
theorem page_relocated : ∃ (image bytes : ByteData) (fits : 0x10000 + image.length < 2 ^ 64),
    HasPage image ∧ CorpusMade 0x10000 .kX86_64 (snaps 0 image .kX86_64) image ∧
      relocateCorpus .kX86_64 ⟨.x86, false⟩ .init true (image.length + 1) ⟨0x10000, image, fits⟩
        true = .ok bytes ∧
      Patched 0x10000 ((corpusWalk 0x10000 .kX86_64).cells image) image bytes := by
  obtain ⟨image, run, page⟩ := ok_of_map pageSnapshot_generated
  have fits : 0x10000 + image.length < 2 ^ 64 := by
    have := page.1
    omega
  obtain ⟨values, -, made⟩ := generate_made run (by omega) (show 0x10000 % 4096 = 0 from rfl)
  obtain ⟨bytes, relocated, patched⟩ := made.relocates fits ⟨.x86, false⟩ .init true
    (Nat.lt_succ_self _)
  rw [← made.snaps] at made
  exact ⟨image, bytes, fits, page, made, relocated, patched⟩

theorem relocateCorpus_exact_page :
    ∃ (image bytes : ByteData) (fits : 0x10000 + image.length < 2 ^ 64),
      HasPage image ∧ relocateCorpus .kX86_64 ⟨.x86, false⟩ .init true (image.length + 1)
        ⟨0x10000, image, fits⟩ true = .ok bytes ∧
      Relocatable .kX86_64 ⟨0x10000, image, fits⟩ true ∧
      bytes = patch image (relocatedCells .kX86_64 ⟨0x10000, image, fits⟩) ∧
      number bytes 48 8 = 0x10000 + number image 48 8 := by
  obtain ⟨image, bytes, fits, page, made, run, patched⟩ := page_relocated
  obtain ⟨data, zone, keeps⟩ := made.keeps
  obtain ⟨-, relocatable, changed⟩ := (relocateCorpus_exact .kX86_64 ⟨.x86, false⟩ .init true
    ⟨0x10000, image, fits⟩ true (Nat.lt_succ_self _) keeps.apart bytes).mp run
  refine ⟨image, bytes, fits, page, run, relocatable, changed, ?_⟩
  have some : arraySize image Offset.SnapCorpus.snaps ≠ 0 := by
    intro none
    have read := page.2
    have empty : snaps 0 image .kX86_64 = [] := by
      change (offsets .snapPointer _ (arraySize image Offset.SnapCorpus.snaps)).map _ = []
      rw [none]
      rfl
    rw [empty] at read
    cases read
  have whole : Part _ image ((headerWalk 0x10000 .snapPointer Offset.SnapCorpus.snaps).seq _) _ :=
    ⟨made.part.valid, made.part.among, made.part.beside⟩
  exact arrayPointer_moved patched whole.first.valid whole.first.among some

theorem relocateCorpus_snaps_page :
    ∃ (image bytes : ByteData) (fits : 0x10000 + image.length < 2 ^ 64),
      HasPage image ∧ relocateCorpus .kX86_64 ⟨.x86, false⟩ .init true (image.length + 1)
        ⟨0x10000, image, fits⟩ true = .ok bytes ∧
      snaps 0x10000 bytes .kX86_64 = snaps 0 image .kX86_64 := by
  obtain ⟨image, bytes, fits, page, made, run, -⟩ := page_relocated
  obtain ⟨data, zone, keeps⟩ := made.keeps
  exact ⟨image, bytes, fits, page, run, @relocateCorpus_snaps .kX86_64 ⟨.x86, false⟩ .init true
    ⟨0x10000, image, fits⟩ true _ (Nat.lt_succ_self _) keeps.apart made.part.beside bytes run⟩

theorem process_separate_page : ∃ (t₀ t' : Traversal) (stores : List Write) (checksum : Nat),
    process .kLayout .kX86_64 {} [pageSnapshot] .new = .ok ((), t₀) ∧
      t'.stores = stores ++ [(12, encode 4 checksum)] ∧ Separate t₀.mainBlock.size stores := by
  obtain ⟨image, run, -⟩ := ok_of_map pageSnapshot_generated
  obtain ⟨t₀, t, t', layoutRun, prepared, generated, -⟩ := generateRelocatableSnaps_ok run
  obtain ⟨stores, checksum, stored, separate, -⟩ := process_separate layoutRun prepared generated
  exact ⟨t₀, t', stores, checksum, layoutRun, stored, separate⟩

theorem generateRelocatableSnaps_relocates_page : ∃ image bytes,
    ∃ fits : 0x10000 + image.length < 2 ^ 64,
      generateRelocatableSnaps .kX86_64 [pageSnapshot] {} = .ok image ∧
      relocateCorpus .kX86_64 ⟨.x86, false⟩ .init true (image.length + 1)
        ⟨0x10000, image, fits⟩ true = .ok bytes ∧
      [pageSnapshot].mapM (snapOf .kX86_64 {}) = .ok (snaps 0x10000 bytes .kX86_64) := by
  obtain ⟨image, run, short, -⟩ := ok_of_map pageSnapshot_generated
  have fits : 0x10000 + image.length < 2 ^ 64 := by omega
  obtain ⟨bytes, relocated, read⟩ := generateRelocatableSnaps_relocates run fits (by decide)
    ⟨.x86, false⟩ .init true (Nat.lt_succ_self _)
  exact ⟨image, bytes, fits, run, relocated, read⟩

theorem generate_expanded_page : ∃ image image',
    generateRelocatableSnaps .kX86_64 [pageSnapshot] {} = .ok image ∧
      generateRelocatableSnaps .kX86_64 [pageSnapshot] ⟨false⟩ = .ok image' ∧
      (snaps 0 image .kX86_64).map Snap.expanded = (snaps 0 image' .kX86_64).map Snap.expanded := by
  obtain ⟨image, run, short, -⟩ := ok_of_map pageSnapshot_generated
  obtain ⟨image', run', short'⟩ := ok_of_map pageSnapshot_plain
  exact ⟨image, image', run, run', generate_expanded run run' (by omega) (by omega)⟩

end Traversal

end Silifuzz
