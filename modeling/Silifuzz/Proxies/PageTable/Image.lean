import Silifuzz.Common.MemoryBytesSet.Pool
import Silifuzz.Proxies.PageTable.Layout

/-!
# The address space of an image

* `build_settles`: `Build` never aborts, and an image is a table and the contents behind it;
* `build_translates`: walking the table in the image finds the bytes of the memory state.
-/

namespace Silifuzz

namespace PageTable

open Segments BitStruct Checked Buffers LittleEndian PageTableCreator

namespace MemoryStateImage

/-- All mappings that the table is for. -/
def mappings (memoryState : MemoryState) (externalMappings : List ExternalMapping) :
    List MemoryMapping :=
  memoryState.mappedMemoryMap.rep.filterMap mappingOf ++
    externalMappings.map ExternalMapping.virtualMemoryMapping

/-- The image translates the address space of the memory state to the bytes in it, and the
external mappings to where they are. -/
structure Translates (arch : Architecture) (memoryState : MemoryState)
    (externalMappings : List ExternalMapping) (image : MemoryStateImage) : Prop where
  mapped : ∀ k p, memoryState.mappedMemoryMap.read k = some p →
    ∃ offset byte, walk arch image.memory image.pageTableRoot k =
        some ⟨image.physicalAddress + offset, ⟨p.has .kWritable, p.has .kExecutable⟩⟩ ∧
      image.imageData[offset]? = some byte ∧ memoryState.memoryByte k = some byte
  external : ∀ e ∈ externalMappings, ∀ va, e.virtualMemoryMapping.Covers va →
    walk arch image.memory image.pageTableRoot va = some (sends e.request va)

variable {arch : Architecture} {s : MemoryState} {f : PermsMap} {w : Address → Bool} {b : BytesMap}
  {load offset : Nat} {external : List ExternalMapping} {c : PageTableCreator}

theorem mappings_eq (s : MemoryState) (external : List ExternalMapping) (load offset : Nat) :
    (requestsOf load offset s.mappedMemoryMap.rep ++
      external.map ExternalMapping.request).map Prod.fst = mappings s external := by
  rw [List.map_append, requestsOf_fst, List.map_map, mappings]
  rfl

/-- As many bytes are written as the mapped ranges have. -/
theorem bytesOf_eq (hs : s.Knows f w b) (known : ∀ k, (f k).isSome → (b k).isSome) :
    bytesOf s.mappedMemoryMap.rep = s.numWrittenBytes := by
  let ranges : MemoryBytesSet :=
    ⟨s.mappedMemoryMap.rep.map fun i => ⟨i.start, i.limit, false⟩⟩
  have separated : Separated ranges.rep := by
    obtain ⟨nonempty, apart⟩ := hs.represents.separated
    refine ⟨fun t ht => ?_, List.pairwise_map.mpr apart⟩
    obtain ⟨i, hi, rfl⟩ := List.mem_map.mp ht
    exact nonempty i hi
  have same : ranges.addresses = s.writtenMemorySet.addresses := by
    ext k
    rw [MemoryBytesSet.mem_addresses, hs.writtenSet.mem_addresses_iff]
    constructor
    · rintro ⟨t, ht, covers⟩
      obtain ⟨i, hi, rfl⟩ := List.mem_map.mp ht
      exact hs.storedWritten k (known k (Option.isSome_of_mem (hs.represents.entry hi covers)))
    · intro written
      obtain ⟨p, value⟩ := Option.isSome_iff_exists.mp (hs.writtenMapped k written)
      rw [← hs.represents.reads] at value
      obtain ⟨i, hi, covers, -⟩ := lookup_some value
      exact ⟨_, List.mem_map.mpr ⟨i, hi, rfl⟩, covers⟩
  calc bytesOf s.mappedMemoryMap.rep = ranges.byteSize := by
        simp only [bytesOf, MemoryBytesSet.byteSize, ranges, List.map_map]
        rfl
    _ = s.numWrittenBytes := by
        rw [MemoryBytesSet.byteSize_eq separated, same, MemoryState.numWrittenBytes,
          MemoryBytesSet.byteSize_eq hs.writtenSet.separated]

/-- What one pass leaves behind. -/
structure Pass (arch : Architecture) (s : MemoryState) (b : BytesMap) (load : Nat)
    (external : List ExternalMapping) (copy : Bool) (offset size : Nat)
    (made : PageTableCreator × Bytes) : Prop where
  sent : Sent arch made.1 (requestsOf load offset s.mappedMemoryMap.rep ++
    external.map ExternalMapping.request)
  addr : made.1.pageTableAddr = load
  words : made.1.entries.length = tableWords (mappings s external)
  word : ∀ e ∈ made.1.entries, e < 2 ^ 64
  size : made.2.length = size
  copied : copy = true → Copied b offset s.mappedMemoryMap.rep made.2

theorem layoutPageTable_settles (hs : s.Knows f w b)
    (known : ∀ k, (f k).isSome → (b k).isSome) (created : create load = .ok c) {copy : Bool}
    {image : Bytes} (room : copy = true → offset + s.numWrittenBytes = image.length) :
    Settles (layoutPageTable arch s load external copy offset image)
      (Pass arch s b load external copy offset image.length) := by
  rw [← bytesOf_eq hs known] at room
  obtain ⟨image', size, copied, run⟩ := layoutPageTable_eq hs known external room created
  rw [run]
  refine settles_bind (addMappings_settles created _) ?_
  rintro c' ⟨sent, addr, counted⟩
  have words := sent.length_eq counted
  rw [mappings_eq] at words
  exact settles_ok ⟨sent, addr, words, counted.word, size, copied⟩

theorem create_ok (aligned : load % 2 ^ 12 = 0) (low : load < 2 ^ 48) :
    ∃ c, create load = .ok c := by
  unfold create
  rw [(checkAlignmentAndSize_eq_ok (u := ())).mpr ⟨low, aligned⟩]
  exact ⟨_, rfl⟩

/-- The image is a table with the contents behind it. -/
def Built (arch : Architecture) (s : MemoryState) (b : BytesMap) (load : Nat)
    (external : List ExternalMapping) (image : MemoryStateImage) : Prop :=
  let offset := tableWords (mappings s external) * 8
  ∃ made, Pass arch s b load external true offset (offset + s.numWrittenBytes) made ∧
    image = ⟨load, write made.2 0 (binaryData made.1), load⟩

/-- `Build` makes an image or returns a status; its checks do not fail. -/
theorem build_settles (hs : s.Knows f w b) (known : ∀ k, (f k).isSome → (b k).isSome)
    (created : create load = .ok c) :
    Settles (build arch s load external) (Built arch s b load external) := by
  have first : Settles (layoutPageTable arch s load external false 0 [])
      (Pass arch s b load external false 0 0) :=
    layoutPageTable_settles hs known created fun h => nomatch h
  unfold build
  refine settles_bind first ?_
  rintro ⟨measure, image⟩ measured
  have words : measure.entries.length = tableWords (mappings s external) := measured.words
  refine settles_bind (layoutPageTable_settles hs known created fun _ => by simp) ?_
  rintro ⟨final, image'⟩ laid
  have same : final.entries.length = tableWords (mappings s external) := laid.words
  rw [List.length_replicate, words] at laid
  dsimp only
  rw [if_pos (words.trans same.symm)]
  exact settles_ok ⟨(final, image'), laid, rfl⟩

/-- The table is where the walk reads it. -/
theorem memory_table {image : Bytes} (word : ∀ e ∈ c.entries, e < 2 ^ 64) {p e : Nat}
    (h : c.memory p = some e) :
    memory ⟨c.pageTableAddr, write image 0 (binaryData c), load⟩ p = some e := by
  unfold PageTableCreator.memory at h
  split at h
  · next inside =>
    have place : p - c.pageTableAddr = (p - c.pageTableAddr) / 8 * 8 := by omega
    have bytes : ((write image 0 (binaryData c)).drop (p - c.pageTableAddr)).take 8 =
        encode 8 e := by
      rw [place, write, List.take_zero, List.nil_append]
      exact take_encodeAll h _
    rw [memory, bytes, length_encode]
    simp only [inside.1, and_self, if_true]
    rw [decode_encode_of_lt (word e (List.mem_of_getElem? h))]
  · cases h

theorem has_mappingOf {p : MemoryPerms} {x : Permission} (h : x ≠ .kMapped) :
    (p.clear (.of .kMapped)).has x = p.has x := by
  rw [MemoryPerms.has_clear]
  cases x with
  | kMapped => exact absurd rfl h
  | kReadable => exact Bool.and_true _
  | kWritable => exact Bool.and_true _
  | kExecutable => exact Bool.and_true _

/-- The contents of a memory state are not larger than its address space. -/
theorem numWrittenBytes_le (hs : s.Knows f w b) {bound : Nat}
    (inSpace : ∀ i ∈ s.mappedMemoryMap.rep, i.limit ≤ bound) : s.numWrittenBytes ≤ bound := by
  have inside : s.writtenMemorySet.addresses ⊆ Finset.range bound := by
    intro k hk
    have written := (hs.writtenSet.mem_addresses_iff k).mp hk
    obtain ⟨p, value⟩ := Option.isSome_iff_exists.mp (hs.writtenMapped k written)
    rw [← hs.represents.reads] at value
    obtain ⟨i, hi, covers, -⟩ := lookup_some value
    exact Finset.mem_range.mpr (covers.2.trans_le (inSpace i hi))
  have card := Finset.card_le_card inside
  rwa [Finset.card_range, ← MemoryBytesSet.byteSize_eq hs.writtenSet.separated] at card

/-- Where the table and the contents are, the walk finds them. -/
theorem Built.translates (hs : s.Knows f w b) (known : ∀ k, (f k).isSome → (b k).isSome)
    (low : load < 2 ^ 48) {image : MemoryStateImage} (built : Built arch s b load external image)
    (some' : s.mappedMemoryMap.rep ≠ [] ∨ load + tableWords (mappings s external) * 8 ≤ 2 ^ 48) :
    Translates arch s external image := by
  obtain ⟨⟨c, data⟩, ⟨sent, addr, words, word, size, copied⟩, rfl⟩ := built
  dsimp only at sent addr words word size copied
  subst addr
  generalize table : tableWords (mappings s external) = n at *
  have space : ∀ m ∈ mappings s external, m.startAddress + m.numBytes ≤ 2 ^ 48 := by
    intro m hm
    rw [← mappings_eq s external c.pageTableAddr (n * 8)] at hm
    obtain ⟨r, hr, rfl⟩ := List.mem_map.mp hm
    exact (sent.inSpace r hr).2.2
  have small := tableWords_le space
  rw [table] at small
  -- each entry with its mapping and its place
  have place : ∀ i ∈ s.mappedMemoryMap.rep, ∃ m o, (i, o) ∈ offsetsOf (n * 8) s.mappedMemoryMap.rep ∧
      (m, c.pageTableAddr + o) ∈ requestsOf c.pageTableAddr (n * 8) s.mappedMemoryMap.rep ++
        external.map ExternalMapping.request ∧ n * 8 ≤ o ∧ c.pageTableAddr + o < 2 ^ 48 ∧
      m.startAddress = i.start ∧ m.limitAddress = i.limit ∧
      m.perms = i.value.clear (.of .kMapped) := by
    have limits : ∀ i ∈ s.mappedMemoryMap.rep, i.limit ≤ 2 ^ 48 := by
      intro i hi
      obtain ⟨m, made, -, limit, -⟩ := mappingOf_some hs.toHolds hi
      have inSpace := space m (List.mem_append_left _ (List.mem_filterMap.mpr ⟨i, hi, made⟩))
      exact limit.symm.trans_le inSpace
    have total := numWrittenBytes_le hs limits
    rw [← bytesOf_eq hs known] at total
    intro i hi
    obtain ⟨m, made, start, limit, -, perms⟩ := mappingOf_some hs.toHolds hi
    obtain ⟨o, at_o⟩ : ∃ o, (i, o) ∈ offsetsOf (n * 8) s.mappedMemoryMap.rep := mem_offsetsOf hi
    obtain ⟨-, from_n, upTo⟩ := offsetsOf_bounds at_o
    have noWrap : (c.pageTableAddr + o) % 2 ^ 64 = c.pageTableAddr + o :=
      Nat.mod_eq_of_lt (by omega)
    have request := List.mem_append_left (external.map ExternalMapping.request)
      (mem_requestsOf.mpr ⟨i, o, at_o, made, noWrap.symm⟩ :
        (m, c.pageTableAddr + o) ∈ requestsOf c.pageTableAddr (n * 8) s.mappedMemoryMap.rep)
    exact ⟨m, o, at_o, request, from_n, sent.physical request, start, limit, perms⟩
  have fits : c.pageTableAddr + c.entries.length * 8 ≤ 2 ^ 48 := by
    rw [words]
    rcases some' with nonempty | fits
    · obtain ⟨i, hi⟩ := List.exists_mem_of_ne_nil _ nonempty
      obtain ⟨-, o, -, -, from_n, inside, -⟩ := place i hi
      omega
    · exact fits
  have loaded : ∀ p e, c.memory p = some e →
      memory ⟨c.pageTableAddr, write data 0 (binaryData c), c.pageTableAddr⟩ p = some e :=
    fun _ _ => memory_table word
  constructor
  · intro k p read
    rw [hs.represents.read_eq] at read
    have found := read
    rw [← hs.represents.reads] at found
    obtain ⟨i, hi, covers, rfl⟩ := lookup_some found
    obtain ⟨m, o, at_o, request, from_n, -, start, limit, perms⟩ := place i hi
    obtain ⟨byte, value⟩ := Option.isSome_iff_exists.mp (known k (Option.isSome_of_mem read))
    refine ⟨o + (k - i.start), byte, ?_, ?_, ?_⟩
    · have walks := sent.walk_covered loaded fits request
        (⟨start.trans_le covers.1, covers.2.trans_eq limit.symm⟩ : m.Covers k)
      rw [walks, start, perms, has_mappingOf (by decide), has_mappingOf (by decide), Nat.add_assoc]
      rfl
    · have length : (binaryData c).length = n * 8 := by
        rw [binaryData, length_encodeAll, words]
      rw [← value, ← copied rfl i o at_o k covers.1 covers.2]
      apply getElem?_write_outside <;> dsimp only
      · omega
      · exact .inr (by omega)
    · rw [hs.toBytes.memoryByte_eq (Option.isSome_of_mem value), value]
  · intro e he va covers
    exact sent.walk_covered loaded fits
      (List.mem_append_right _ (List.mem_map.mpr ⟨e, he, rfl⟩)) covers

/-- What `Build` needs to make an image. -/
structure Placeable (s : MemoryState) (load : Nat) (external : List ExternalMapping) : Prop where
  aligned : ∀ i ∈ s.mappedMemoryMap.rep, i.start % 2 ^ 12 = 0 ∧ i.limit % 2 ^ 12 = 0
  limits : ∀ i ∈ s.mappedMemoryMap.rep, i.limit ≤ 2 ^ 48 ∧ i.limit - i.start < 2 ^ 48
  fits : ∀ e ∈ external, Fits e.virtualMemoryMapping e.physicalStart
  apart : ∀ e ∈ external, ∀ va, e.virtualMemoryMapping.Covers va →
    s.mappedMemoryMap.contains va = false
  agree : external.Pairwise fun e e' => Agree e.request e'.request
  room : load + tableWords (mappings s external) * 8 + s.numWrittenBytes ≤ 2 ^ 48

/-- The mappings of the state and the external ones do not contradict each other. -/
theorem Placeable.pairwise (hs : s.Knows f w b) (placeable : Placeable s load external)
    (offset : Nat) : (requestsOf load offset s.mappedMemoryMap.rep ++
      external.map ExternalMapping.request).Pairwise Agree := by
  have disjoint : (requestsOf load offset s.mappedMemoryMap.rep).Pairwise
      fun r r' => r.1.Disjoint r'.1 := by
    rw [← List.pairwise_map (f := Prod.fst) (R := MemoryMapping.Disjoint), requestsOf_fst,
      List.pairwise_filterMap]
    refine hs.represents.separated.2.imp ?_
    intro i j before m made m' made'
    obtain ⟨-, limit⟩ := MemoryMapping.makeRanged_ends made
    obtain ⟨start, -⟩ := MemoryMapping.makeRanged_ends made'
    exact .inl (by rw [limit, start]; exact before)
  apply List.pairwise_append.mpr
  refine ⟨disjoint.imp fun apart va covers covers' => ?_, List.pairwise_map.mpr placeable.agree, ?_⟩
  · exact absurd covers' (apart.covers covers)
  · rintro r hr r' hr' va covers covers'
    obtain ⟨e, he, rfl⟩ := List.mem_map.mp hr'
    obtain ⟨i, o, at_o, made, -⟩ := mem_requestsOf.mp hr
    obtain ⟨start, limit⟩ := MemoryMapping.makeRanged_ends made
    have value := hs.represents.entry (offsetsOf_bounds at_o).1
      ⟨start.symm.trans_le covers.1, covers.2.trans_eq limit⟩
    have free := placeable.apart e he va covers'
    rw [MappedMemoryMap.contains_eq hs.represents, value] at free
    cases free

/-- Each pass adds all the mappings. -/
theorem Placeable.addMappings_ok (hs : s.Knows f w b) (known : ∀ k, (f k).isSome → (b k).isSome)
    (placeable : Placeable s load external) (created : create load = .ok c)
    (aligned : load % 2 ^ 12 = 0) (offsetAligned : offset % 2 ^ 12 = 0)
    (upTo : offset ≤ tableWords (mappings s external) * 8) :
    ∃ c', c.addMappings arch (requestsOf load offset s.mappedMemoryMap.rep ++
      external.map ExternalMapping.request) = .ok c' := by
  apply PageTableCreator.addMappings_ok (create_run created).1
  · intro r hr
    rcases List.mem_append.mp hr with state | ext
    · obtain ⟨i, o, at_o, made, at_r⟩ := mem_requestsOf.mp state
      obtain ⟨hi, low, high⟩ := offsetsOf_bounds at_o
      obtain ⟨m, made', start, limit, bytes, -⟩ := mappingOf_some hs.toHolds hi
      obtain rfl : m = r.1 := Option.some.inj (made'.symm.trans made)
      have lt := hs.represents.separated.1 i hi
      have whole := placeable.aligned i hi
      have ends := placeable.limits i hi
      have room := placeable.room
      rw [bytesOf_eq hs known] at high
      have aligned_o := offsetsOf_aligned (fun j hj => by
        have := placeable.aligned j hj
        lia) offsetAligned at_o
      have noWrap : r.2 = load + o := by
        rw [at_r]
        exact Nat.mod_eq_of_lt (by lia)
      rw [MemoryMapping.limitAddress] at limit
      constructor
      · rw [start]
        exact whole.1
      · rw [bytes]
        lia
      · rw [limit]
        exact ends.1
      · rw [noWrap]
        lia
      · rw [noWrap, bytes]
        lia
    · obtain ⟨e, he, rfl⟩ := List.mem_map.mp ext
      exact placeable.fits e he
  · exact placeable.pairwise hs offset

theorem Placeable.pass_ok (arch : Architecture) (copy : Bool) (image : Bytes)
    (hs : s.Knows f w b) (known : ∀ k, (f k).isSome → (b k).isSome)
    (placeable : Placeable s load external) (created : create load = .ok c)
    (aligned : load % 2 ^ 12 = 0) (offsetAligned : offset % 2 ^ 12 = 0)
    (upTo : offset ≤ tableWords (mappings s external) * 8)
    (room : copy = true → offset + s.numWrittenBytes = image.length) :
    ∃ made, layoutPageTable arch s load external copy offset image = .ok made ∧
      Pass arch s b load external copy offset image.length made := by
  obtain ⟨c', added⟩ : ∃ c', c.addMappings arch _ = .ok c' :=
    placeable.addMappings_ok hs known created aligned offsetAligned upTo
  obtain ⟨image', -, -, run⟩ :=
    layoutPageTable_eq hs known external (by rwa [bytesOf_eq hs known]) created
  rw [added, ok_bind] at run
  exact ⟨_, run, (settles_iff.mp (layoutPageTable_settles hs known created room)).2 _ run⟩

/-- `Build` makes an image of what can be placed. -/
theorem Placeable.build_ok (hs : s.Knows f w b) (known : ∀ k, (f k).isSome → (b k).isSome)
    (placeable : Placeable s load external) (created : create load = .ok c)
    (aligned : load % 2 ^ 12 = 0) : ∃ image, build arch s load external = .ok image := by
  obtain ⟨⟨measure, _⟩, run, measured⟩ := placeable.pass_ok arch false [] hs known created aligned
    (Nat.zero_mod _) (Nat.zero_le _) fun h => nomatch h
  have words : measure.entries.length = tableWords (mappings s external) := measured.words
  have table : tableWords (mappings s external) * 8 % 2 ^ 12 = 0 := by
    rw [tableWords, entriesPerPage]
    omega
  obtain ⟨⟨final, data⟩, run', laid⟩ := placeable.pass_ok arch true
    (List.replicate (tableWords (mappings s external) * 8 + s.numWrittenBytes) 0) hs known created
    aligned table le_rfl fun _ => List.length_replicate.symm
  have words' : final.entries.length = tableWords (mappings s external) := laid.words
  rw [build, run, ok_bind]
  dsimp only
  rw [words, run', ok_bind]
  exact ⟨_, if_pos words'.symm⟩

/-- **The image of a memory state is its address space.** `Build` never aborts and its passes
agree on the size of the table. In an image the walk from the root translates the mapped
addresses to their bytes, with the permissions of the mappings, and the external ones as
requested, if only the table ends in the 48 bits, as it does before any contents. There is an
image whenever the mappings fit and do not contradict each other. -/
theorem build_translates {P : MemoryState → MemoryState.Call → Prop}
    (runs : MemoryState.Runs P s) (known : ∀ k, s.mappedMemoryMap.contains k = true →
      (RangeMap.findAt s.writtenMemoryBytes k).isSome) (aligned : load % 2 ^ 12 = 0)
    (low : load < 2 ^ 48) :
    build arch s load external ≠ .error .abort ∧
    (∀ copy offset image made, (copy = true → offset + s.numWrittenBytes = image.length) →
      layoutPageTable arch s load external copy offset image = .ok made →
      made.1.entries.length = tableWords (mappings s external)) ∧
    (∀ image, build arch s load external = .ok image → image.physicalAddress = load ∧
      image.pageTableRoot = load ∧ (s.mappedMemoryMap.isEmpty = false ∨
        load + tableWords (mappings s external) * 8 ≤ 2 ^ 48 →
          Translates arch s external image)) ∧
    (Placeable s load external → ∃ image, build arch s load external = .ok image) := by
  obtain ⟨f, w, b, hs, -⟩ := MemoryState.runs_knows runs
  have stored : ∀ k, (f k).isSome → (b k).isSome := by
    intro k mapped
    rw [← MemoryState.findAt_eq hs.toBytes]
    apply known
    rw [MappedMemoryMap.contains_eq hs.represents]
    exact mapped
  obtain ⟨c, created⟩ := create_ok aligned low
  obtain ⟨noAbort, result⟩ := settles_iff.mp (build_settles hs stored created)
  refine ⟨noAbort, ?_, ?_, fun placeable => placeable.build_ok hs stored created aligned⟩
  · intro copy offset image made room run
    exact ((settles_iff.mp (layoutPageTable_settles hs stored created room)).2 made run).words
  · intro image run
    have built := result image run
    obtain ⟨made, -, shape⟩ := id built
    refine ⟨by rw [shape], by rw [shape], fun some' => built.translates hs stored low ?_⟩
    refine some'.imp_left fun nonempty none => ?_
    rw [MappedMemoryMap.isEmpty, none] at nonempty
    cases nonempty

/-- A page of zeros, and a device elsewhere. -/
def zeroPage : MemoryMapping :=
  ⟨0x1000, 0x1000, .rw, MemoryMapping.page_nonempty, MemoryMapping.firstPage_bounded,
    MemoryPerms.proper_rw, MemoryPerms.unmapped_rw⟩

def zeroState : MemoryState :=
  ⟨⟨[⟨0x1000, 0x2000, MemoryPerms.rw.plus (.of .kMapped)⟩]⟩, ⟨[⟨0x1000, 0x2000, false⟩]⟩,
    [⟨0x1000, 0x2000, List.replicate 0x1000 0⟩]⟩

def device : ExternalMapping :=
  ⟨⟨0x400000, 0x2000, .rw, by decide, by decide, MemoryPerms.proper_rw, MemoryPerms.unmapped_rw⟩,
    0x9000000⟩

set_option maxRecDepth 20000 in
theorem zeroState_runs : MemoryState.Runs (fun _ _ => True) zeroState := by
  have mapped : MemoryState.Runs (fun _ _ => True) _ :=
    .call (.addNewMemoryMapping zeroPage) .empty ⟨rfl, rfl⟩ trivial rfl
  exact .call (.zeroMappedMemoryBytes zeroPage) mapped ⟨rfl, rfl⟩ trivial rfl

/-- What a map of this page only holds. -/
theorem findAt_zeroPage {V : Type} (v : V) (k : Address) :
    (RangeMap.findAt [⟨0x1000, 0x2000, v⟩] k).isSome = decide (0x1000 ≤ k ∧ k < 0x2000) := by
  have separated : Separated [(⟨0x1000, 0x2000, v⟩ : Segment Address V)] :=
    separated_singleton.mpr (by decide : 0x1000 < 0x2000)
  rw [RangeMap.findAt_find separated, List.find?_singleton]
  by_cases h : 0x1000 ≤ k ∧ k < 0x2000 <;> simp [Segment.covers, h]

theorem zeroState_known (k : Address) (h : zeroState.mappedMemoryMap.contains k = true) :
    (RangeMap.findAt zeroState.writtenMemoryBytes k).isSome :=
  (findAt_zeroPage _ k).trans ((findAt_zeroPage _ k).symm.trans h)

theorem zeroState_placeable : Placeable zeroState 0x10000 [device] := by
  constructor
  · decide
  · decide
  · intro e he
    obtain rfl := List.mem_singleton.mp he
    constructor <;> decide
  · intro e he va covers
    obtain rfl := List.mem_singleton.mp he
    have low : 0x400000 ≤ va := covers.1
    refine (findAt_zeroPage _ va).trans (decide_eq_false_iff_not.mpr ?_)
    rintro ⟨-, high⟩
    exact absurd (low.trans_lt high) (by decide)
  · exact List.pairwise_singleton _ _
  · decide +kernel

theorem build_translates_zeros : ∃ image, build .kX86_64 zeroState 0x10000 [device] = .ok image ∧
    Translates .kX86_64 zeroState [device] image := by
  have builds := @build_translates .kX86_64 zeroState 0x10000 [device] _ zeroState_runs
    zeroState_known (by decide) (by decide)
  obtain ⟨image, run⟩ := builds.2.2.2 zeroState_placeable
  exact ⟨image, run, (builds.2.2.1 image run).2.2 (.inl rfl)⟩

/-- The device at another physical address. -/
def otherDevice : ExternalMapping := { device with physicalStart := 0xa000000 }

/-- A load address of 2^48 fails a check, and two requests for an address are an error. -/
theorem build_rejects : build .kX86_64 .empty (2 ^ 48) [] = .error .abort ∧
    (build .kX86_64 .empty 0x10000 [device]).toOption.isSome = true ∧
    (build .kX86_64 .empty 0x10000 [device, otherDevice]).toOption = none := by
  refine ⟨rfl, ?_, ?_⟩ <;> decide +kernel

end MemoryStateImage

end PageTable

end Silifuzz
