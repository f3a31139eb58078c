import Silifuzz.Proxies.PageTable.MemoryStateImage

/-!
# What is laid out where

* `offsetsOf`: the contents of the mappings, one behind the other;
* `layoutPageTable_eq`: `LayoutPageTable` copies them there, and adds the mappings at these
  offsets and then the external ones to the table, whatever comes of that.
-/

namespace Silifuzz

namespace PageTable

open Segments BitStruct Checked Buffers LittleEndian PageTableCreator

namespace MemoryStateImage

/-- The entries with the offsets of their contents. -/
def offsetsOf : Nat → List (Segment Address MemoryPerms) →
    List (Segment Address MemoryPerms × Nat)
  | _, [] => []
  | offset, i :: entries => (i, offset) :: offsetsOf (offset + (i.limit - i.start)) entries

def bytesOf (entries : List (Segment Address MemoryPerms)) : Nat :=
  (entries.map fun i => i.limit - i.start).sum

/-- The entries as mappings with their physical addresses. -/
def requestsOf (load offset : Nat) (entries : List (Segment Address MemoryPerms)) :
    List (MemoryMapping × Nat) :=
  (offsetsOf offset entries).filterMap fun at_o =>
    (mappingOf at_o.1).map fun m => (m, (load + at_o.2) % 2 ^ 64)

variable {load offset o : Nat} {i : Segment Address MemoryPerms}
  {entries : List (Segment Address MemoryPerms)}

theorem bytesOf_snoc (entries : List (Segment Address MemoryPerms))
    (i : Segment Address MemoryPerms) :
    bytesOf (entries ++ [i]) = bytesOf entries + (i.limit - i.start) := by
  simp [bytesOf]

theorem offsetsOf_snoc (offset : Nat) (entries : List (Segment Address MemoryPerms))
    (i : Segment Address MemoryPerms) :
    offsetsOf offset (entries ++ [i]) =
      offsetsOf offset entries ++ [(i, offset + bytesOf entries)] := by
  induction entries generalizing offset with
  | nil => rfl
  | cons j entries ih =>
    simp only [List.cons_append, offsetsOf, ih, bytesOf, List.map_cons, List.sum_cons, Nat.add_assoc]

theorem offsetsOf_bounds (h : (i, o) ∈ offsetsOf offset entries) :
    i ∈ entries ∧ offset ≤ o ∧ o + (i.limit - i.start) ≤ offset + bytesOf entries := by
  induction entries generalizing offset with
  | nil => cases h
  | cons j entries ih =>
    have sum : bytesOf (j :: entries) = (j.limit - j.start) + bytesOf entries := List.sum_cons
    rcases List.mem_cons.mp h with same | later
    · obtain ⟨rfl, rfl⟩ := Prod.mk.inj same
      refine ⟨List.mem_cons_self, le_rfl, ?_⟩
      omega
    · obtain ⟨mem, low, high⟩ := ih later
      refine ⟨List.mem_cons_of_mem j mem, ?_, ?_⟩ <;> omega

theorem mem_offsetsOf (h : i ∈ entries) : ∃ o, (i, o) ∈ offsetsOf offset entries := by
  induction entries generalizing offset with
  | nil => cases h
  | cons j entries ih =>
    rcases List.mem_cons.mp h with rfl | later
    · exact ⟨offset, List.mem_cons_self⟩
    · obtain ⟨o, ho⟩ := ih later
      exact ⟨o, List.mem_cons_of_mem _ ho⟩

theorem offsetsOf_aligned (whole : ∀ i ∈ entries, (i.limit - i.start) % 2 ^ 12 = 0)
    (aligned : offset % 2 ^ 12 = 0) (h : (i, o) ∈ offsetsOf offset entries) : o % 2 ^ 12 = 0 := by
  induction entries generalizing offset with
  | nil => cases h
  | cons j entries ih =>
    have first := whole j List.mem_cons_self
    rcases List.mem_cons.mp h with same | later
    · rw [(Prod.mk.inj same).2]
      exact aligned
    · exact ih (fun i hi => whole i (List.mem_cons_of_mem j hi)) (by lia) later

theorem requestsOf_snoc {m : MemoryMapping} (made : mappingOf i = some m) :
    requestsOf load offset (entries ++ [i]) =
      requestsOf load offset entries ++ [(m, (load + (offset + bytesOf entries)) % 2 ^ 64)] := by
  simp [requestsOf, offsetsOf_snoc, List.filterMap_append, made]

/-- Which mappings there are does not depend on where they are laid out. -/
theorem requestsOf_fst : (requestsOf load offset entries).map Prod.fst =
    entries.filterMap mappingOf := by
  induction entries generalizing offset with
  | nil => rfl
  | cons i entries ih =>
    have step : requestsOf load offset (i :: entries) =
        ((mappingOf i).map fun m => (m, (load + offset) % 2 ^ 64)).toList ++
          requestsOf load (offset + (i.limit - i.start)) entries := by
      simp only [requestsOf, offsetsOf, List.filterMap_cons]
      cases mappingOf i <;> rfl
    rw [step, List.map_append, ih, List.filterMap_cons]
    cases mappingOf i <;> rfl

theorem mem_requestsOf {r : MemoryMapping × Nat} : r ∈ requestsOf load offset entries ↔
    ∃ i o, (i, o) ∈ offsetsOf offset entries ∧ mappingOf i = some r.1 ∧
      r.2 = (load + o) % 2 ^ 64 := by
  simp only [requestsOf, List.mem_filterMap, Option.map_eq_some_iff, Prod.exists]
  constructor
  · rintro ⟨i, o, mem, m, made, rfl⟩
    exact ⟨i, o, mem, made, rfl⟩
  · rintro ⟨i, o, mem, made, at_o⟩
    exact ⟨i, o, mem, r.1, made, Prod.ext rfl at_o.symm⟩

/-- The contents of the entries are in the image. -/
def Copied (b : BytesMap) (offset : Nat) (entries : List (Segment Address MemoryPerms))
    (image : Bytes) : Prop :=
  ∀ i o, (i, o) ∈ offsetsOf offset entries → ∀ k, i.start ≤ k → k < i.limit →
    image[o + (k - i.start)]? = b k

theorem addMappings_append (arch : Architecture) (c : PageTableCreator)
    (requests more : List (MemoryMapping × Nat)) :
    c.addMappings arch (requests ++ more) =
      c.addMappings arch requests >>= fun c => c.addMappings arch more :=
  List.foldlM_append

theorem addMappings_singleton (arch : Architecture) (c : PageTableCreator)
    (r : MemoryMapping × Nat) :
    c.addMappings arch [r] = c.addContiguousMapping arch r.1 r.2 :=
  bind_pure _

variable {arch : Architecture} {s : MemoryState} {f : PermsMap} {w : Address → Bool} {b : BytesMap}
  {copy : Bool} {image : Bytes} {c : PageTableCreator}

theorem mappingOf_some (hs : s.Holds f) (hi : i ∈ s.mappedMemoryMap.rep) :
    ∃ m, mappingOf i = some m ∧ m.startAddress = i.start ∧ m.limitAddress = i.limit ∧
      m.numBytes = i.limit - i.start ∧ m.perms = i.value.clear (.of .kMapped) := by
  have lt := hs.represents.separated.1 i hi
  have value := hs.represents.entry hi ⟨le_rfl, lt⟩
  obtain ⟨m, made, start, limit, perms⟩ := MemoryMapping.makeRanged_some lt
    (hs.represents.limit_le hs.ofProcess.bounded hi)
    ((hs.ofProcess.proper _ _ value).clear (.of .kMapped)) (by
      rw [MemoryPerms.has_clear]
      exact Bool.and_false _)
  refine ⟨m, made, start, limit, ?_, perms⟩
  change m.startAddress + m.numBytes = i.limit at limit
  lia

/-- The contents of a known mapping are copied. -/
theorem copyMapping_run (offset : Nat) (image : Bytes) (hs : s.Bytes w b) {m : MemoryMapping}
    (known : ∀ k, m.Covers k → (b k).isSome) (room : offset + m.numBytes ≤ image.length) :
    ∃ image', copyMapping s m offset image = .ok image' ∧ image'.length = image.length ∧
      (∀ k, m.Covers k → image'[offset + (k - m.startAddress)]? = b k) ∧
      ∀ j < offset, image'[j]? = image[j]? := by
  obtain ⟨data, read, length, value⟩ := hs.memoryBytesIn_eq m.nonempty fun k low high =>
    known k ⟨low, high⟩
  have fits : offset + data.length ≤ image.length := by omega
  refine ⟨write image offset data, ?_, length_write fits, fun k covers => ?_, fun j before => ?_⟩
  · rw [copyMapping, read]
    exact if_pos fits
  · have inside : k - m.startAddress < m.numBytes := by
      obtain ⟨low, high⟩ := covers
      change k < m.startAddress + m.numBytes at high
      lia
    rw [getElem?_write_inside fits (inside.trans_eq length.symm), value _ inside]
    congr 1
    have := covers.1
    lia
  · exact getElem?_write_outside fits (.inl before)

/-- What the loop of `LayoutPageTable` has done for some of the entries. -/
structure Laid (arch : Architecture) (b : BytesMap) (load offset size : Nat) (copy : Bool)
    (c : PageTableCreator) (entries : List (Segment Address MemoryPerms)) (layout : Layout) :
    Prop where
  creator : layout.creator = c.addMappings arch (requestsOf load offset entries)
  dataOffset : layout.dataOffset = offset + bytesOf entries
  size : layout.memoryImageData.length = size
  copied : copy = true → Copied b offset entries layout.memoryImageData

theorem layoutMapping_run (hs : s.Knows f w b) (known : ∀ k, (f k).isSome → (b k).isSome)
    (hi : i ∈ s.mappedMemoryMap.rep) {size : Nat} {layout : Layout}
    (room : copy = true → offset + bytesOf (entries ++ [i]) ≤ size)
    (laid : Laid arch b load offset size copy c entries layout) :
    ∃ layout', layoutMapping arch s load copy layout i = .ok layout' ∧
      Laid arch b load offset size copy c (entries ++ [i]) layout' := by
  obtain ⟨m, made, start, limit, bytes, -⟩ := mappingOf_some hs.toHolds hi
  have more : layout.creator >>= (fun c =>
      c.addContiguousMapping arch m ((load + layout.dataOffset) % 2 ^ 64)) =
        c.addMappings arch (requestsOf load offset (entries ++ [i])) := by
    rw [requestsOf_snoc made, addMappings_append, laid.creator, laid.dataOffset]
    simp only [addMappings_singleton]
  have end' : layout.dataOffset + m.numBytes = offset + bytesOf (entries ++ [i]) := by
    rw [laid.dataOffset, bytesOf_snoc, bytes, Nat.add_assoc]
  rw [bytesOf_snoc] at room
  cases copy with
  | false =>
    refine ⟨⟨_, _, layout.memoryImageData⟩, ?_, more, end', laid.size, fun h => nomatch h⟩
    rw [layoutMapping, made]
    rfl
  | true =>
    have covered : ∀ k, m.Covers k → (b k).isSome := by
      rintro k ⟨low, high⟩
      rw [start] at low
      rw [limit] at high
      exact known k (Option.isSome_of_mem (hs.represents.entry hi ⟨low, high⟩))
    obtain ⟨image, run, length, inside, before⟩ :=
      copyMapping_run layout.dataOffset layout.memoryImageData hs.toBytes covered (by
        have := room rfl
        rw [laid.dataOffset, laid.size, bytes]
        omega)
    refine ⟨⟨_, _, image⟩, ?_, more, end', length.trans laid.size, fun _ j o mem k low high => ?_⟩
    · rw [layoutMapping, made]
      simp only [orAbort, ok_bind, if_true, run]
    · rw [offsetsOf_snoc] at mem
      rcases List.mem_append.mp mem with old | new
      · obtain ⟨-, -, bound⟩ := offsetsOf_bounds old
        rw [before _ (by rw [laid.dataOffset]; lia)]
        exact laid.copied rfl j o old k low high
      · obtain ⟨rfl, rfl⟩ := Prod.mk.inj (List.mem_singleton.mp new)
        rw [← laid.dataOffset, ← start]
        exact inside k ⟨start.le.trans low, high.trans_le limit.ge⟩

/-- **`LayoutPageTable` copies what it is asked to, and its result is that of adding all
mappings to an empty table.** -/
theorem layoutPageTable_eq (hs : s.Knows f w b) (known : ∀ k, (f k).isSome → (b k).isSome)
    (external : List ExternalMapping)
    (room : copy = true → offset + bytesOf s.mappedMemoryMap.rep = image.length)
    (created : create load = .ok c) :
    ∃ image', image'.length = image.length ∧
      (copy = true → Copied b offset s.mappedMemoryMap.rep image') ∧
      layoutPageTable arch s load external copy offset image =
        c.addMappings arch (requestsOf load offset s.mappedMemoryMap.rep ++
          external.map ExternalMapping.request) >>= fun c => .ok (c, image') := by
  have start : Laid arch b load offset image.length copy c [] ⟨.ok c, offset, image⟩ :=
    ⟨rfl, rfl, rfl, fun _ i o mem => nomatch mem⟩
  obtain ⟨layout, run, laid⟩ := foldlM_ok
    (l := s.mappedMemoryMap.rep) (f := layoutMapping arch s load copy)
    (fun done layout => Laid arch b load offset image.length copy c done layout) start
    fun done i rest layout parts laid => layoutMapping_run hs known (by rw [parts]; simp)
      (fun h => by
        have all := room h
        have split : bytesOf (done ++ i :: rest) = bytesOf (done ++ [i]) + bytesOf rest := by
          simp [bytesOf, Nat.add_assoc]
        rw [parts, split] at all
        omega) laid
  refine ⟨layout.memoryImageData, laid.size, laid.copied, ?_⟩
  have full : ¬ (copy = true ∧ layout.dataOffset ≠ layout.memoryImageData.length) := by
    rintro ⟨h, differ⟩
    exact differ (by rw [laid.dataOffset, laid.size, room h])
  rw [layoutPageTable, created, ok_bind, run, ok_bind, laid.creator, addMappings_append]
  simp only [if_neg full, bind_assoc]

end MemoryStateImage

end PageTable

end Silifuzz
