import Mathlib.Order.CompletePartialOrder
import Silifuzz.Runner.Runner.ReportText
import Silifuzz.Common.SnapshotProto.RoundTrip

/-!
# The memory of the report

The chunks that are logged are disjoint, and together they have every byte of the writable
mappings and, of the pages that were added, the first `kPageSize` bytes.
-/

namespace Silifuzz

namespace Contents

variable {l l' : List MemoryBytes} {w w' : BytesMap}

theorem single (b : MemoryBytes) :
    Contents [b] fun k => if b.Covers k then some (b.byteAt k) else none :=
  nil.add fun _ _ => rfl

theorem append (h : Contents l w) (h' : Contents l' w')
    (apart : ∀ k, w k = none ∨ w' k = none) : Contents (l ++ l') fun k => (w k).or (w' k) where
  disjoint := by
    apply List.pairwise_append.mpr
    refine ⟨h.disjoint, h'.disjoint, fun b hb c hc => MemoryBytes.disjoint_of fun k hk hk' => ?_⟩
    cases apart k with
    | inl none => simp [h.covered b hb k hk] at none
    | inr none => simp [h'.covered c hc k hk'] at none
  covered b hb k hk := by
    cases List.mem_append.mp hb with
    | inl before => rw [h.covered b before k hk, Option.some_or]
    | inr after =>
      cases apart k with
      | inl none => rw [none, Option.none_or, h'.covered b after k hk]
      | inr none => simp [h'.covered b after k hk] at none
  uncovered k none := by
    rw [h.uncovered k fun b hb => none b (List.mem_append_left _ hb),
      h'.uncovered k fun b hb => none b (List.mem_append_right _ hb), Option.none_or]

/-- A set of the addresses of the bytes. -/
theorem exists_represents (h : Contents l w) :
    ∃ m : MemoryBytesSet, m.Represents fun k => (w k).isSome := by
  have all : ∃ m : MemoryBytesSet, m.Represents fun k => decide (∃ b ∈ l, b.Covers k) := by
    clear h
    induction l with
    | nil => exact ⟨_, MemoryBytesSet.empty_represents.congr fun k => by simp⟩
    | cons b l ih =>
      obtain ⟨m, hm⟩ := ih
      obtain ⟨m', -, hm'⟩ := hm.add_represents b.start_lt_limit
      refine ⟨m', hm'.congr fun k => ?_⟩
      rw [Bool.eq_iff_iff]
      simp only [Bool.or_eq_true, decide_eq_true_eq, List.mem_cons, exists_eq_or_imp]
      exact or_comm
  obtain ⟨m, hm⟩ := all
  refine ⟨m, hm.congr fun k => ?_⟩
  rw [Bool.eq_iff_iff, decide_eq_true_eq, h.isSome_iff]

end Contents

namespace Report

open SnapshotProto

variable {snap : Snap} (memory : LiveMemory snap)

open Classical in
/-- The memory of the process at the addresses of a set. -/
noncomputable def LiveMemory.on (s : Set Address) : BytesMap := fun k =>
  if k ∈ s then some (memory.byteAt k) else none

theorem LiveMemory.on_injective {s t : Set Address} (h : memory.on s = memory.on t) : s = t := by
  ext k
  have this := congrFun h k
  simp only [LiveMemory.on] at this
  by_cases hs : k ∈ s <;> by_cases ht : k ∈ t <;> simp_all

/-- The chunks are logged as bytes that have the memory of `s`. -/
def Logged (chunks : List (Address × Nat)) (s : Set Address) : Prop :=
  ∃ bs : List MemoryBytes, bs.map memoryBytesToProto = chunks.map (protoBytes memory) ∧
    Contents bs (memory.on s)

variable {memory}

theorem logged_nil : Logged memory [] ∅ := by
  refine ⟨[], rfl, ?_⟩
  have nothing : memory.on ∅ = fun _ => none := by
    funext k
    simp [LiveMemory.on]
  rw [nothing]
  exact .nil

theorem Logged.append {chunks chunks' : List (Address × Nat)} {s t : Set Address}
    (h : Logged memory chunks s) (h' : Logged memory chunks' t) (apart : Disjoint s t) :
    Logged memory (chunks ++ chunks') (s ∪ t) := by
  obtain ⟨bs, toProto, contents⟩ := h
  obtain ⟨bs', toProto', contents'⟩ := h'
  refine ⟨bs ++ bs', by rw [List.map_append, List.map_append, toProto, toProto'], ?_⟩
  have both : memory.on (s ∪ t) = fun k => (memory.on s k).or (memory.on t k) := by
    funext k
    by_cases hs : k ∈ s <;> by_cases ht : k ∈ t <;> simp [LiveMemory.on, hs, ht]
  rw [both]
  apply contents.append contents'
  intro k
  by_cases hs : k ∈ s
  · have ht : k ∉ t := Set.disjoint_left.mp apart hs
    exact .inr (by simp [LiveMemory.on, ht])
  · exact .inl (by simp [LiveMemory.on, hs])

theorem logged_flatMap {α : Type} {xs : List α} {chunks : α → List (Address × Nat)}
    {area : α → Set Address} (each : ∀ x ∈ xs, Logged memory (chunks x) (area x))
    (apart : xs.Pairwise fun x y => Disjoint (area x) (area y)) :
    Logged memory (xs.flatMap chunks) {k | ∃ x ∈ xs, k ∈ area x} := by
  induction xs with
  | nil => simpa using logged_nil
  | cons x xs ih =>
    have ⟨first, others⟩ := List.pairwise_cons.mp apart
    have rest := ih (fun y hy => each y (List.mem_cons_of_mem _ hy)) others
    have all := (each x List.mem_cons_self).append rest (by
      rw [Set.disjoint_left]
      rintro k hk ⟨y, hy, hk'⟩
      exact Set.disjoint_left.mp (first y hy) hk hk')
    rw [List.flatMap_cons]
    convert all using 1
    ext k
    simp

theorem logged_single {startAddress size : Nat} (pos : 0 < size)
    (bound : startAddress + size ≤ kMaxAddress) :
    Logged memory [(startAddress, size)] (Set.Ico startAddress (startAddress + size)) := by
  have length := memory.length_bytes startAddress size
  have nonempty : memory.bytes startAddress size ≠ [] := by
    rw [← List.length_pos_iff, length]
    exact pos
  let b : MemoryBytes := ⟨startAddress, memory.bytes startAddress size, nonempty,
    by rw [length]; exact bound⟩
  refine ⟨[b], rfl, ?_⟩
  have here : memory.on (Set.Ico startAddress (startAddress + size)) =
      fun k => if b.Covers k then some (b.byteAt k) else none := by
    funext k
    have covers : b.Covers k ↔ k ∈ Set.Ico startAddress (startAddress + size) := by
      simp only [MemoryBytes.Covers, MemoryBytes.limitAddress, b, length, Set.mem_Ico]
    by_cases inside : k ∈ Set.Ico startAddress (startAddress + size)
    · have small : k - startAddress < size := by
        obtain ⟨low, high⟩ := inside
        lia
      have there : startAddress + (k - startAddress) = k := Nat.add_sub_cancel' inside.1
      have value : b.byteAt k = memory.byteAt k := by
        simp [MemoryBytes.byteAt, b, LiveMemory.bytes, small, there]
      rw [LiveMemory.on, if_pos inside, if_pos (covers.mpr inside), value]
    · rw [LiveMemory.on, if_neg inside, if_neg fun inside' => inside (covers.mp inside')]
  rw [here]
  exact .single b

/-- The turns of the loop are one after another and reach the end. -/
theorem logged_pageChunks {pageSize startAddress left : Nat} (page : 0 < pageSize)
    (bound : startAddress + left ≤ kMaxAddress) :
    Logged memory (pageChunks pageSize startAddress left)
      (Set.Ico startAddress (startAddress + left)) := by
  fun_induction pageChunks pageSize startAddress left with
  | case1 startAddress left h ih =>
    have first : Logged memory [(startAddress, min pageSize left)]
        (Set.Ico startAddress (startAddress + min pageSize left)) :=
      logged_single (by omega) (by omega)
    by_cases last : left ≤ pageSize
    · have rest : pageChunks pageSize (startAddress + pageSize) (left - pageSize) = [] := by
        rw [pageChunks, if_neg (by omega)]
      rw [Nat.min_eq_right last] at first
      rw [rest, Nat.min_eq_right last]
      exact first
    · have after : startAddress + pageSize + (left - pageSize) = startAddress + left := by omega
      have rest := ih (by omega)
      rw [after] at rest
      rw [Nat.min_eq_left (by omega)] at first
      rw [Nat.min_eq_left (by omega)]
      have apart : Disjoint (Set.Ico startAddress (startAddress + pageSize))
          (Set.Ico (startAddress + pageSize) (startAddress + left)) := by
        rw [Set.disjoint_left]
        intro k before later
        exact absurd before.2 (Nat.not_lt.mpr later.1)
      have both := first.append rest apart
      rw [Set.Ico_union_Ico_eq_Ico (Nat.le_add_right _ _) (by omega)] at both
      exact both
  | case2 startAddress left h =>
    have none : left = 0 := by omega
    subst none
    simpa using logged_nil

variable (memory) in
/-- What the report has of the memory. -/
def LiveMemory.loggedArea : Set Address :=
  {k | ∃ m ∈ snap.memoryMappings, k ∈ {k | m.perms.has .kWritable = true ∧ m.Covers k}} ∪
    {k | ∃ p ∈ memory.addedPageAddresses, k ∈ Set.Ico p (p + kPageSize)}

variable (memory) in
/-- The writable mappings and the pages that were added. -/
def LiveMemory.area : Set Address :=
  {k | ∃ m ∈ snap.memoryMappings, m.perms.has .kWritable = true ∧ m.Covers k} ∪
    {k | ∃ p ∈ memory.addedPageAddresses, k ∈ Set.Ico p (p + memory.pageSize)}

theorem LiveMemory.pageSize_pos : 0 < memory.pageSize := Nat.lt_of_lt_of_le (by decide) memory.page

theorem logged_mapping (m : MemoryMapping) :
    Logged memory (mappingChunks memory.pageSize m)
      {k | m.perms.has .kWritable = true ∧ m.Covers k} := by
  unfold mappingChunks
  by_cases writable : m.perms.has .kWritable = true
  · rw [if_pos writable]
    have logged : Logged memory (pageChunks memory.pageSize m.startAddress m.numBytes)
        (Set.Ico m.startAddress (m.startAddress + m.numBytes)) :=
      logged_pageChunks memory.pageSize_pos m.bounded
    convert logged using 1
    ext k
    simp [writable, MemoryMapping.Covers, MemoryMapping.limitAddress]
  · rw [if_neg writable]
    convert (logged_nil : Logged memory [] ∅) using 1
    ext k
    simp [writable]

/-- A mapping does not have bytes of a page that was added. -/
theorem not_covers_added {m : MemoryMapping} (hm : m ∈ snap.memoryMappings) {p : Address}
    (hp : p ∈ memory.addedPageAddresses) {k : Address} (hk : m.Covers k)
    (inside : p ≤ k ∧ k < p + memory.pageSize) : False := by
  have ⟨low, high⟩ := hk
  cases memory.unmapped p hp m hm with
  | inl before => exact absurd inside.2 (Nat.not_lt.mpr (before.trans low))
  | inr after => exact absurd high (Nat.not_lt.mpr (after.trans inside.1))

variable (memory) in
/-- **The chunks are disjoint and have the bytes of the area that is logged.** -/
theorem logged_chunks : Logged memory memory.chunks memory.loggedArea := by
  have page := memory.page
  apply Logged.append
  · apply logged_flatMap
    · intro m _
      exact logged_mapping m
    · apply snap.disjoint.imp
      intro m n apart
      rw [Set.disjoint_left]
      rintro k ⟨_, hm⟩ ⟨_, hn⟩
      exact apart.covers hm hn
  · rw [List.map_eq_flatMap]
    apply logged_flatMap
    · intro p hp
      have bound := memory.bounded p hp
      exact logged_single (by decide) (by lia)
    · apply memory.apart.imp
      intro p q apart
      rw [Set.disjoint_left]
      rintro k ⟨low, high⟩ ⟨low', high'⟩
      lia
  · rw [Set.disjoint_left]
    rintro k ⟨m, hm, _, hk⟩ ⟨p, hp, low, high⟩
    exact not_covers_added hm hp hk ⟨low, by lia⟩

/-- The report has all of the area exactly if no page was added or `kPageSize` is the size of
the pages of the kernel. -/
theorem loggedArea_eq_area : memory.loggedArea = memory.area ↔
    memory.addedPageAddresses = [] ∨ memory.pageSize = kPageSize := by
  have page := memory.page
  constructor
  · intro same
    by_contra other
    rw [not_or] at other
    obtain ⟨p, hp⟩ := List.exists_mem_of_ne_nil _ other.1
    have larger : kPageSize < memory.pageSize := Nat.lt_of_le_of_ne page (Ne.symm other.2)
    have inArea : p + kPageSize ∈ memory.area :=
      .inr ⟨p, hp, Nat.le_add_right _ _, Nat.add_lt_add_left larger p⟩
    rw [← same] at inArea
    cases inArea with
    | inl mapped =>
      obtain ⟨m, hm, _, hk⟩ := mapped
      exact not_covers_added hm hp hk ⟨Nat.le_add_right _ _, Nat.add_lt_add_left larger p⟩
    | inr added =>
      obtain ⟨q, hq, low, high⟩ := added
      have later : p < q := Nat.lt_of_add_lt_add_right high
      have symm : Std.Symm fun p q : Address =>
          p + memory.pageSize ≤ q ∨ q + memory.pageSize ≤ p := ⟨fun _ _ => Or.symm⟩
      have apart := memory.apart.forall hp hq (Nat.ne_of_lt later)
      lia
  · intro all
    cases all with
    | inl none => simp [LiveMemory.loggedArea, LiveMemory.area, none]
    | inr size => simp [LiveMemory.loggedArea, LiveMemory.area, size]

end Report

end Silifuzz
