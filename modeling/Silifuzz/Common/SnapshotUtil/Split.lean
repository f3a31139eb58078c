import Silifuzz.Common.SnapshotUtil

/-!
# Splitting normal bytes

The mappings of a normal snapshot are the entries of its map, of which touching ones differ,
so that bytes with the same permissions are in one of them.
-/

namespace Silifuzz

open Loops SnapshotMemory

theorem MemoryMapping.holdsBytes_iff (mapping : MemoryMapping) (bytes : MemoryBytes) :
    mapping.holdsBytes bytes = true ↔
      mapping.startAddress ≤ bytes.startAddress ∧ bytes.limitAddress ≤ mapping.limitAddress := by
  have bounded := bytes.bounded
  have small : kMaxAddress < 2 ^ 64 := by decide
  rw [holdsBytes, Bool.and_eq_true, decide_eq_true_eq, decide_eq_true_eq,
    Nat.mod_eq_of_lt (by lia), MemoryBytes.limitAddress, limitAddress]
  lia

section

variable {mappings : List MemoryMapping} {bytes : MemoryBytes}

/-- Disjoint mappings do not hold the same bytes. -/
theorem holdsBytes_unique (disjoint : mappings.Pairwise MemoryMapping.Disjoint) {i j : Nat}
    {x y : MemoryMapping} (hx : mappings[i]? = some x) (hy : mappings[j]? = some y)
    (inX : x.holdsBytes bytes = true) (inY : y.holdsBytes bytes = true) : i = j := by
  rw [MemoryMapping.holdsBytes_iff] at inX inY
  have nonempty := bytes.start_lt_limit
  have meet : ¬ x.Disjoint y := by
    rintro (before | before) <;> order
  obtain ⟨hi, rfl⟩ := List.getElem?_eq_some_iff.mp hx
  obtain ⟨hj, rfl⟩ := List.getElem?_eq_some_iff.mp hy
  rcases Nat.lt_trichotomy i j with before | same | after
  · exact absurd (List.pairwise_iff_getElem.mp disjoint i j hi hj before) meet
  · exact same
  · exact absurd (List.pairwise_iff_getElem.mp disjoint j i hj hi after).symm meet

/-- The bytes in `done`, each with its mapping. -/
def assigned (mappings : List MemoryMapping) (done : List MemoryBytes) :
    List (List MemoryBytes) :=
  mappings.map fun mapping => done.filter mapping.holdsBytes

theorem assignBytes_assigned (disjoint : mappings.Pairwise MemoryMapping.Disjoint)
    (held : ∃ mapping ∈ mappings, mapping.holdsBytes bytes = true) (done : List MemoryBytes) :
    assignBytes mappings (assigned mappings done) bytes =
      some (assigned mappings (done ++ [bytes])) := by
  obtain ⟨mapping, member, holds⟩ := held
  rw [assignBytes]
  cases found : mappings.findIdx? (·.holdsBytes bytes) with
  | none =>
    rw [List.findIdx?_eq_none_iff] at found
    rw [found mapping member] at holds
    cases holds
  | some i =>
    obtain ⟨inside, first, -⟩ := List.findIdx?_eq_some_iff_getElem.mp found
    dsimp only
    congr 1
    apply List.ext_getElem?
    intro j
    rw [List.getElem?_modify, assigned, assigned, List.getElem?_map, List.getElem?_map]
    cases at_j : mappings[j]? with
    | none => simp
    | some x =>
      have here : x.holdsBytes bytes = decide (i = j) := by
        rw [Bool.eq_iff_iff, decide_eq_true_eq]
        constructor
        · exact fun holds =>
            holdsBytes_unique disjoint (List.getElem?_eq_getElem inside) at_j first holds
        · rintro rfl
          rw [List.getElem?_eq_getElem inside, Option.some.injEq] at at_j
          exact at_j ▸ first
      rw [Option.map_eq_map, Option.map_some, Option.map_some, Option.map_some, List.filter_append]
      by_cases same : i = j
      · simp [same, here]
      · simp [same, here]

/-- Bytes that each are in one of disjoint mappings. -/
theorem splitBytesByMapping_assigned (disjoint : mappings.Pairwise MemoryMapping.Disjoint)
    {l : List MemoryBytes}
    (held : ∀ bytes ∈ l, ∃ mapping ∈ mappings, mapping.holdsBytes bytes = true) :
    splitBytesByMapping mappings l = some (assigned mappings l) := by
  have start : List.replicate mappings.length [] = assigned mappings [] := by
    rw [assigned]
    simp only [List.filter_nil, List.map_const']
  rw [splitBytesByMapping, start]
  obtain ⟨output, run, same⟩ := foldlM_run (f := assignBytes mappings)
    (P := fun done output => output = assigned mappings done) (l := l) rfl fun done b rest s hl hs => by
      subst hs
      exact ⟨_, assignBytes_assigned disjoint (held b (by simp [hl])) done, rfl⟩
  rw [run, same]

/-- Among disjoint mappings nothing is assigned twice. -/
theorem assigned_perm (disjoint : mappings.Pairwise MemoryMapping.Disjoint) {l : List MemoryBytes}
    (held : ∀ bytes ∈ l, ∃ mapping ∈ mappings, mapping.holdsBytes bytes = true) :
    (assigned mappings l).flatten.Perm l := by
  induction mappings generalizing l with
  | nil =>
    have none : l = [] := List.eq_nil_iff_forall_not_mem.mpr fun bytes hb => by
      obtain ⟨_, member, _⟩ := held bytes hb
      simp at member
    simp [assigned, none]
  | cons first rest ih =>
    obtain ⟨apart, disjoint⟩ := List.pairwise_cons.mp disjoint
    -- What `first` does not hold is left for the mappings after it.
    have others : ∀ mapping ∈ rest, l.filter mapping.holdsBytes =
        (l.filter fun bytes => !first.holdsBytes bytes).filter mapping.holdsBytes := by
      intro mapping member
      rw [List.filter_filter]
      apply List.filter_congr
      intro bytes _
      cases holds : mapping.holdsBytes bytes with
      | false => rfl
      | true =>
        cases both : first.holdsBytes bytes with
        | false => rfl
        | true =>
          have pair : [first, mapping].Pairwise MemoryMapping.Disjoint :=
            List.pairwise_pair.mpr (apart mapping member)
          have same : 0 = 1 := holdsBytes_unique pair rfl rfl both holds
          cases same
    have left : (assigned rest (l.filter fun bytes => !first.holdsBytes bytes)).flatten.Perm
        (l.filter fun bytes => !first.holdsBytes bytes) := by
      apply ih disjoint
      intro bytes hb
      obtain ⟨hb, out⟩ := List.mem_filter.mp hb
      obtain ⟨mapping, member, holds⟩ := held bytes hb
      rcases List.mem_cons.mp member with rfl | member
      · rw [holds] at out
        cases out
      · exact ⟨mapping, member, holds⟩
    have tail : assigned rest l =
        assigned rest (l.filter fun bytes => !first.holdsBytes bytes) :=
      List.map_congr_left others
    change (l.filter first.holdsBytes ++ (assigned rest l).flatten).Perm l
    rw [tail]
    exact (left.append_left _).trans (List.filter_append_perm _ l)

end

/-- `split` has a list for each of the mappings: of bytes inside of it, in the order of `l`.
Together they are `l`, so that each entry is in one list, once. -/
structure SplitOf (mappings : List MemoryMapping) (l : List MemoryBytes)
    (split : List (List MemoryBytes)) : Prop where
  lists : List.Forall₂ (fun mapping part => part.Sublist l ∧ ∀ bytes ∈ part,
    mapping.startAddress ≤ bytes.startAddress ∧ bytes.limitAddress ≤ mapping.limitAddress)
      mappings split
  once : split.flatten.Perm l

theorem assigned_splitOf {mappings : List MemoryMapping} {l : List MemoryBytes}
    (disjoint : mappings.Pairwise MemoryMapping.Disjoint)
    (held : ∀ bytes ∈ l, ∃ mapping ∈ mappings, mapping.holdsBytes bytes = true) :
    SplitOf mappings l (assigned mappings l) where
  lists := by
    rw [assigned, List.forall₂_map_right_iff, List.forall₂_same]
    intro mapping _
    refine ⟨List.filter_sublist, fun bytes hb => ?_⟩
    exact (mapping.holdsBytes_iff bytes).mp (List.mem_filter.mp hb).2
  once := assigned_perm disjoint held

/-! ## Normal snapshots -/

/-- An entry of a map goes on as long as the permissions are the same. -/
theorem entry_holds {m : MappedMemoryMap} {f : PermsMap} (hm : m.Represents f)
    {bytes : MemoryBytes} {p : MemoryPerms} (uniform : ∀ k, bytes.Covers k → f k = some p) :
    ∃ i ∈ m.rep, i.start ≤ bytes.startAddress ∧ bytes.limitAddress ≤ i.limit := by
  have first := uniform _ bytes.covers_start
  obtain ⟨i, hi, low, high⟩ := (MappedMemoryMap.lookup_iff hm _).mpr (Option.isSome_of_mem first)
  refine ⟨i, hi, low, ?_⟩
  by_contra short
  have short : i.limit < bytes.limitAddress := not_le.mp short
  have next := uniform i.limit ⟨high.le, short⟩
  obtain ⟨j, hj, low', high'⟩ := (MappedMemoryMap.lookup_iff hm _).mpr (Option.isSome_of_mem next)
  have touch : i.limit = j.start := by
    apply le_antisymm _ low'
    by_contra earlier
    have earlier : j.start < i.limit := not_le.mp earlier
    rcases Segments.Separated.ordered hm.separated hi hj with rfl | before | after
    · exact lt_irrefl _ high'
    · order
    · order
  have value := hm.entry hi ⟨low, high⟩
  have value' := hm.entry hj ⟨low', high'⟩
  have same : i.value = j.value := by
    rw [first] at value
    rw [next] at value'
    exact (Option.some.inj value).symm.trans (Option.some.inj value')
  have apart := hm.canonical i hi j hj touch
  rw [same] at apart
  simp [memoryPermsMethods] at apart

/-- In memory with these permissions the bytes are in one mapping of the normal list. -/
theorem sorted_holds {m : MappedMemoryMap} {f : PermsMap} (hm : m.Represents f)
    {mappings : List MemoryMapping} (run : sortedMemoryMappingList m = some mappings)
    {bytes : MemoryBytes} {p : MemoryPerms} (uniform : ∀ k, bytes.Covers k → f k = some p) :
    ∃ mapping ∈ mappings, mapping.holdsBytes bytes = true := by
  obtain ⟨i, hi, low, high⟩ := entry_holds hm uniform
  obtain ⟨mapping, member, made⟩ := mapM_mem_left run hi
  obtain ⟨start, limit⟩ := MemoryMapping.makeRanged_ends made
  refine ⟨mapping, member, (mapping.holdsBytes_iff bytes).mpr ⟨?_, ?_⟩⟩
  · rw [start]
    exact low
  · rw [limit]
    exact high

/-- Chunks have the permissions of the map, which has no mapped bits. -/
theorem SnapshotMemory.Normal.mapped_perms {f : PermsMap} {l : List MemoryBytes} (normal : Normal f l)
    (mapped : f.Mapped) {bytes : MemoryBytes} (hb : bytes ∈ l) :
    ∃ p, ∀ k, bytes.Covers k → f k = some p := by
  obtain ⟨p, uniform⟩ := normal.uniform bytes hb
  refine ⟨p, fun k hk => ?_⟩
  obtain ⟨q, here, cleared⟩ := Option.map_eq_some_iff.mp (uniform k hk)
  have same : q.clear (.of .kMapped) = q :=
    MemoryPerms.clear_absent (mapped.unmapped k q here)
  rw [here, ← cleared, same]

namespace Snapshot

variable {s a : Snapshot} {f g : PermsMap}

/-- What `NormalizeAll` leaves, if it returns: the mappings of the map and normal bytes. -/
theorem normalizeAll_memory (hs : s.toSnapshotMemory.Holds f g) (bytes : Placed f s.memoryBytes)
    (run : s.normalizeAll = some a) :
    Describes a.memoryMappings f ∧
      sortedMemoryMappingList s.mappedMemoryMap = some a.memoryMappings ∧
      Normal f a.memoryBytes := by
  obtain ⟨l, l', mappings, describes, -, sorted, -⟩ := normalizeMemoryMappings_holds hs
  obtain ⟨normal, made, normalizes⟩ := normalizeBytes_normalizes hs.mapped hs.mappings.mapped bytes
  simp only [normalizeAll, mappings, normalizeMemoryBytes, SnapshotMemory.normalizeMemoryBytes,
    made, Option.bind_eq_bind, Option.bind_some, Option.pure_def] at run
  obtain ⟨states, -, run⟩ := Option.bind_eq_some_iff.mp run
  obtain rfl := Option.some.inj run
  exact ⟨describes, sorted, normalizes.normal⟩

/-- **After `NormalizeAll` each entry of the memory bytes is inside of one mapping, where
`SplitBytesByMapping` puts it.** -/
theorem splitBytesByMapping_normalizeAll (hs : s.toSnapshotMemory.Holds f g)
    (bytes : Placed f s.memoryBytes) :
    (∀ a, s.normalizeAll = some a →
      ∃ split, splitBytesByMapping a.memoryMappings a.memoryBytes = some split ∧
        SplitOf a.memoryMappings a.memoryBytes split) ∧
    ((∀ e ∈ s.expectedEndStates, Placed f e.memoryBytes) → ∃ a, s.normalizeAll = some a) := by
  constructor
  · intro a run
    obtain ⟨describes, sorted, normal⟩ := normalizeAll_memory hs bytes run
    have held : ∀ b ∈ a.memoryBytes, ∃ mapping ∈ a.memoryMappings,
        mapping.holdsBytes b = true := by
      intro b hb
      obtain ⟨p, uniform⟩ := normal.mapped_perms hs.mappings.mapped hb
      exact sorted_holds hs.mapped sorted uniform
    exact ⟨_, splitBytesByMapping_assigned describes.disjoint held,
      assigned_splitOf describes.disjoint held⟩
  · intro states
    obtain ⟨a, run, -⟩ := normalizeAll_normal ⟨hs, bytes, states⟩
    exact ⟨a, run⟩

set_option maxRecDepth 10000 in
/-- Two pages that touch, with different permissions, and bytes on both. -/
theorem splitBytesByMapping_normalizeAll_pages : ∃ s : Snapshot,
    s.memoryBytes = [afterAcross, acrossPages] ∧
    (∀ a, s.normalizeAll = some a →
      ∃ split, splitBytesByMapping a.memoryMappings a.memoryBytes = some split ∧
        SplitOf a.memoryMappings a.memoryBytes split) ∧ ∃ a, s.normalizeAll = some a := by
  have first : Runs _ := .call (.memory (.addMemoryMapping readPage)) (.new .kX86_64 unsetId rfl)
    rfl rfl
  have second : Runs _ := .call (.memory (.addMemoryMapping nextPage)) first rfl rfl
  have after : Runs _ := .call (.memory (.addMemoryBytes afterAcross)) second rfl rfl
  have across : Runs _ := .call (.memory (.addMemoryBytes acrossPages)) after rfl rfl
  obtain ⟨f, g, placed⟩ := across.allPlaced
  obtain ⟨each, total⟩ := splitBytesByMapping_normalizeAll placed.toHolds placed.bytes
  exact ⟨_, rfl, each, total placed.states⟩

end Snapshot

end Silifuzz
