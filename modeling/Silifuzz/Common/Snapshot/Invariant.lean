import Silifuzz.Common.MappedMemoryMap.Queries
import Silifuzz.Common.Snapshot.Bytes

/-!
# The invariant of a Snapshot

What a snapshot keeps under all its mutators:

* `PagedMap`: permissions change at page ends only, so that mappings read back
  from a map are aligned;
* `Apart`: no permission is in two maps at one address;
* `Keeps`: mappings, alignment and bytes together; one lemma for each mutator.
-/

namespace Silifuzz

open Segments RangeMap Loops

/-- The permissions change only at the addresses `E`. -/
def PermsMap.PagedMap (f : PermsMap) (E : Address → Prop) : Prop :=
  ∀ k, f k ≠ f (k + 1) → E (k + 1)

namespace PermsMap

variable {f : PermsMap} {E : Address → Prop} {start limit : Address} {p : MemoryPerms}

theorem PagedMap.add (hf : f.PagedMap E) (hs : E start) (hl : E limit) :
    (f.add start limit p).PagedMap E := by
  intro k change
  by_cases first : start = k + 1
  · exact first ▸ hs
  by_cases last : limit = k + 1
  · exact last ▸ hl
  by_cases inside : start ≤ k ∧ k < limit
  · have next : start ≤ k + 1 ∧ k + 1 < limit := by lia
    rw [PermsMap.add_inside inside, PermsMap.add_inside next] at change
    exact hf k fun same => change (by rw [same])
  · have next : ¬ (start ≤ k + 1 ∧ k + 1 < limit) := by lia
    rw [PermsMap.add_outside inside, PermsMap.add_outside next] at change
    exact hf k change

end PermsMap

/-- No address has a permission both in `f` and in `g`. -/
def PermsMap.Apart (f g : PermsMap) : Prop := ∀ k, ∀ p ∈ f k, ∀ q ∈ g k, p.hasSomeOf q = false

namespace PermsMap

variable {f g : PermsMap} {start limit : Address} {p : MemoryPerms}

theorem Apart.symm (h : f.Apart g) : g.Apart f := fun k q hq p hp => by
  rw [MemoryPerms.hasSomeOf_comm]
  exact h k p hp q hq

theorem Apart.add (h : f.Apart g)
    (free : ∀ k, start ≤ k → k < limit → ∀ q ∈ f k, p.hasSomeOf q = false) :
    f.Apart (g.add start limit p) := by
  intro k u hu v hv
  by_cases inside : start ≤ k ∧ k < limit
  · rw [PermsMap.add_inside inside] at hv
    obtain rfl := Option.some.inj hv
    have new := free k inside.1 inside.2 u hu
    rw [MemoryPerms.hasSomeOf_comm] at new
    rw [MemoryPerms.hasSomeOf_add, new, Bool.or_false]
    cases hg : g k with
    | none => exact MemoryPerms.hasSomeOf_none u
    | some q => exact h k u hu q hg
  · rw [PermsMap.add_outside inside] at hv
    exact h k u hu v hv

theorem Apart.set (h : f.Apart g)
    (free : ∀ k, start ≤ k → k < limit → ∀ q ∈ g k, p.hasSomeOf q = false) :
    (f.set start limit p).Apart g := by
  intro k u hu v hv
  by_cases inside : start ≤ k ∧ k < limit
  · rw [PermsMap.set_inside inside] at hu
    obtain rfl := Option.some.inj hu
    exact free k inside.1 inside.2 v hv
  · rw [PermsMap.set_outside inside] at hu
    exact h k u hu v hv

end PermsMap

theorem Describes.unique {l : List MemoryMapping} {f g : PermsMap} (hf : Describes l f)
    (hg : Describes l g) : f = g := by
  funext k
  by_cases here : ∃ m ∈ l, m.Covers k
  · obtain ⟨m, hm, hk⟩ := here
    rw [hf.covered m hm k hk, hg.covered m hm k hk]
  · rw [hf.uncovered k fun m hm hk => here ⟨m, hm, hk⟩,
      hg.uncovered k fun m hm hk => here ⟨m, hm, hk⟩]

/-- Mappings with aligned ends make a map that changes only there. -/
theorem Describes.paged {l : List MemoryMapping} {f : PermsMap} {E : Address → Prop}
    (h : Describes l f) (ends : ∀ m ∈ l, E m.startAddress ∧ E m.limitAddress) : f.PagedMap E := by
  intro k change
  by_cases here : ∃ m ∈ l, m.Covers k
  · obtain ⟨m, hm, hk⟩ := here
    have last : m.limitAddress = k + 1 := by
      by_contra more
      have next : m.Covers (k + 1) := ⟨hk.1.trans (Nat.le_succ k), by have := hk.2; lia⟩
      exact change ((h.covered m hm k hk).trans (h.covered m hm _ next).symm)
    exact last ▸ (ends m hm).2
  · have none := h.uncovered k fun m hm hk => here ⟨m, hm, hk⟩
    have some : (f (k + 1)).isSome := by
      rw [Option.isSome_iff_ne_none]
      exact fun eq => change (none.trans eq.symm)
    obtain ⟨m, hm, hk⟩ := h.exists_mapping some
    have first : m.startAddress = k + 1 := by
      by_contra before
      exact here ⟨m, hm, by have := hk.1; lia, (Nat.lt_succ_self k).trans hk.2⟩
    exact first ▸ (ends m hm).1

/-- The mappings read back from a map end where the map changes. -/
theorem sorted_ends {m : MappedMemoryMap} {f : PermsMap} {E : Address → Prop}
    (hm : m.Represents f) (paged : f.PagedMap E) (zero : E 0) {l : List MemoryMapping}
    (run : SnapshotMemory.sortedMemoryMappingList m = some l) :
    ∀ x ∈ l, E x.startAddress ∧ E x.limitAddress := by
  intro x hx
  obtain ⟨i, hi, made⟩ := mapM_mem run hx
  obtain ⟨start, limit⟩ := MemoryMapping.makeRanged_ends made
  have lt := hm.separated.1 i hi
  rw [start, limit]
  constructor
  · rcases Nat.eq_zero_or_eq_succ_pred i.start with none | prior
    · exact none ▸ zero
    · rw [prior]
      exact paged _ (hm.start_changes hi prior.symm)
  · have prior : (i.limit - 1) + 1 = i.limit := by lia
    rw [← prior]
    exact paged _ (hm.limit_changes hi prior)

namespace SnapshotMemory

/-- The end of a page. -/
def PageEnd (s : SnapshotMemory) (k : Address) : Prop := k % s.pageSize = 0

/-- The end of a page, or of the very last page without its last byte. -/
def LastPageEnd (s : SnapshotMemory) (k : Address) : Prop :=
  k % s.pageSize = 0 ∨ k = kMaxAddress

/-- The mappings, negative mappings and bytes of a snapshot are well formed. -/
structure Keeps (s : SnapshotMemory) (f g : PermsMap) (w : BytesMap) : Prop extends
    s.Holds f g where
  aligned : ∀ m ∈ s.memoryMappings, s.PageEnd m.startAddress ∧ s.PageEnd m.limitAddress
  negativeAligned : ∀ m ∈ s.negativeMemoryMappings,
    s.LastPageEnd m.startAddress ∧ s.LastPageEnd m.limitAddress
  contents : Contents s.memoryBytes w
  mappedBytes : ∀ k, (w k).isSome → (f k).isSome
  written : s.writtenMemorySet.Represents fun k => (w k).isSome

variable {s s' : SnapshotMemory} {f g : PermsMap} {w : BytesMap} {x : MemoryMapping}

theorem new_keeps (architecture : Architecture) :
    (new architecture).Keeps PermsMap.empty PermsMap.empty fun _ => none where
  toHolds := new_holds architecture
  aligned := by simp [new]
  negativeAligned := by simp [new]
  contents := .nil
  mappedBytes := by simp
  written := MemoryBytesSet.empty_represents

theorem Keeps.zero_end (s : SnapshotMemory) : s.PageEnd 0 := Nat.zero_mod _

theorem addMemoryMapping_keeps (hs : s.Keeps f g w) (ok : s.Accepted x) :
    ∃ s', s.addMemoryMapping x = some s' ∧
      s'.Keeps (f.add x.startAddress x.limitAddress x.perms) g w := by
  obtain ⟨m, add, hm⟩ := hs.mapped.add_represents x.start_lt_limit x.perms
  refine ⟨{ s with mappedMemoryMap := m, memoryMappings := s.memoryMappings ++ [x] },
    by simp [addMemoryMapping, MappedMemoryMap.addNew, add],
    ⟨hm, hs.mappings.add ok.perms (overlaps_free hs.mapped ok.new), hs.negativeMapped,
      hs.negativeMappings⟩, fun y hy => ?_, hs.negativeAligned, hs.contents, fun k hk => ?_,
    hs.written⟩
  · rcases List.mem_append.mp hy with hy | hy
    · exact hs.aligned y hy
    · obtain rfl := List.mem_singleton.mp hy
      exact ok.aligned
  · have := hs.mappedBytes k hk
    simp only [PermsMap.add]
    split
    · rfl
    · exact this

theorem setMemoryMappingPerms_keeps {index : Nat} {m : MemoryMapping} (hs : s.Keeps f g w)
    (perms : x.perms ≠ .none) (at_index : s.memoryMappings[index]? = some m)
    (start : m.startAddress = x.startAddress) (limit : m.limitAddress = x.limitAddress) :
    ∃ s', s.setMemoryMappingPerms x index = some s' ∧
      s'.Keeps (f.set x.startAddress x.limitAddress x.perms) g w := by
  obtain ⟨m', set, hm⟩ := hs.mapped.set_represents hs.mappings.mapped.proper x.start_lt_limit x.perms
  refine ⟨{ s with memoryMappings := s.memoryMappings.set index x, mappedMemoryMap := m' },
    by simp [setMemoryMappingPerms, set], ⟨hm, ?_, hs.negativeMapped, hs.negativeMappings⟩,
    fun y hy => ?_, hs.negativeAligned, hs.contents, fun k hk => ?_, hs.written⟩
  · obtain ⟨inside, rfl⟩ := List.getElem?_eq_some_iff.mp at_index
    simp only [List.set_eq_take_append_cons_drop, if_pos inside]
    have old := hs.mappings
    rw [← List.take_append_drop index s.memoryMappings, List.drop_eq_getElem_cons inside] at old
    exact old.set perms start limit
  · rcases List.mem_or_eq_of_mem_set hy with hy | rfl
    · exact hs.aligned y hy
    · have := hs.aligned m (List.mem_of_getElem? at_index)
      rwa [start, limit] at this
  · have := hs.mappedBytes k hk
    simp only [PermsMap.set]
    split
    · rfl
    · exact this

theorem addNegativeMemoryMapping_keeps {overlapOk : Bool} (hs : s.Keeps f g w)
    (ok : s.AcceptedNegative x overlapOk)
    (new : s.negativeMappedMemoryMap.overlaps x.startAddress x.limitAddress = some false) :
    ∃ s', s.addNegativeMemoryMapping x = some s' ∧
      s'.Keeps f (g.add x.startAddress x.limitAddress x.perms) w := by
  obtain ⟨m, add, hm⟩ := hs.negativeMapped.add_represents x.start_lt_limit x.perms
  refine ⟨{ s with
      negativeMappedMemoryMap := m, negativeMemoryMappings := s.negativeMemoryMappings ++ [x] },
    by simp [addNegativeMemoryMapping, MappedMemoryMap.addNew, add],
    ⟨hs.mapped, hs.mappings, hm,
      hs.negativeMappings.add ok.perms (overlaps_free hs.negativeMapped new)⟩,
    hs.aligned, fun y hy => ?_, hs.contents, hs.mappedBytes, hs.written⟩
  rcases List.mem_append.mp hy with hy | hy
  · exact hs.negativeAligned y hy
  · obtain rfl := List.mem_singleton.mp hy
    exact ⟨.inl ok.aligned.1, ok.aligned.2⟩

theorem addNegativeMemoryMappingOverlapOk_keeps {overlapOk : Bool} (hs : s.Keeps f g w)
    (ok : s.AcceptedNegative x overlapOk) :
    ∃ s', s.addNegativeMemoryMappingOverlapOk x = some s' ∧
      s'.Keeps f (g.add x.startAddress x.limitAddress x.perms) w := by
  obtain ⟨b, overlaps, -⟩ := MappedMemoryMap.overlaps_eq hs.negativeMapped x.start_lt_limit
  cases b with
  | false =>
    obtain ⟨s', run, hs'⟩ := addNegativeMemoryMapping_keeps hs ok overlaps
    exact ⟨s', by simp [addNegativeMemoryMappingOverlapOk, overlaps, run], hs'⟩
  | true =>
    obtain ⟨m, add, hm⟩ := hs.negativeMapped.add_represents x.start_lt_limit x.perms
    obtain ⟨l, sorted, describes⟩ :=
      sorted_describes hm (add_mapped hs.negativeMappings.mapped x ok.perms)
    refine ⟨{ s with negativeMappedMemoryMap := m, negativeMemoryMappings := l },
      by simp [addNegativeMemoryMappingOverlapOk, overlaps, add, sorted],
      ⟨hs.mapped, hs.mappings, hm, describes⟩, hs.aligned, ?_, hs.contents, hs.mappedBytes,
      hs.written⟩
    exact sorted_ends hm ((hs.negativeMappings.paged hs.negativeAligned).add
      (.inl ok.aligned.1) ok.aligned.2) (.inl (Keeps.zero_end s)) sorted

theorem pageSize_eq (s : SnapshotMemory) : s.pageSize = 4096 := by
  unfold pageSize
  cases s.architecture <;> rfl

/-- The check of a negative mapping always answers. -/
theorem canAddNegativeMemoryMapping_total (hs : s.Holds f g) (x : MemoryMapping)
    (overlapOk : Bool) : ∃ r, s.canAddNegativeMemoryMapping x overlapOk = some r := by
  obtain ⟨b, overlaps, -⟩ := MappedMemoryMap.overlaps_eq hs.negativeMapped x.start_lt_limit
  obtain ⟨p, perms, -⟩ := MappedMemoryMap.perms_or hs.mapped x.start_lt_limit
  unfold canAddNegativeMemoryMapping
  split_ifs
  · exact ⟨_, rfl⟩
  · exact ⟨_, rfl⟩
  · exact ⟨_, rfl⟩
  · rw [overlaps, perms]
    cases b
    · simp only [Option.bind_eq_bind, Option.bind_some, Bool.false_eq_true, if_false]
      split <;> exact ⟨_, rfl⟩
    · exact ⟨_, rfl⟩
  · rw [perms]
    simp only [Option.bind_eq_bind, Option.bind_some]
    split <;> exact ⟨_, rfl⟩

theorem addNegativeMemoryMappingsFor_keeps {endpoint : Endpoint} (valid : endpoint.Valid)
    (hs : s.Keeps f g w) :
    ∃ r, s.addNegativeMemoryMappingsFor endpoint = some r ∧ ∀ s', r = .ok s' →
      s' = s ∨ ∃ x, s.AcceptedNegative x true ∧
        s'.Keeps f (g.add x.startAddress x.limitAddress x.perms) w := by
  cases endpoint with
  | kInstruction => exact ⟨.ok s, rfl, by rintro s' ⟨⟩; exact .inl rfl⟩
  | kSignal num cause sigAddress sigInstructionAddress =>
    by_cases segv : num = .kSigSegv
    · subst segv
      obtain ⟨negative, hn, proper⟩ : ∃ negative, negativePerms cause = some negative ∧
          ∀ p, negative = some p → p.Proper ∧ p.has .kMapped = false := by
        cases cause with
        | kGenericSigCause => exact absurd rfl (valid.mpr rfl)
        | kSegvGeneralProtection => exact ⟨none, rfl, by simp⟩
        | kSegvOverflow => exact ⟨none, rfl, by simp⟩
        | kSegvCantExec => exact ⟨_, rfl, by rintro p ⟨⟩; decide⟩
        | kSegvCantWrite => exact ⟨_, rfl, by rintro p ⟨⟩; decide⟩
        | kSegvCantRead => exact ⟨_, rfl, by rintro p ⟨⟩; decide⟩
      cases negative with
      | none =>
        exact ⟨.ok s, by simp [addNegativeMemoryMappingsFor, hn], by rintro s' ⟨⟩; exact .inl rfl⟩
      | some p =>
        simp only [addNegativeMemoryMappingsFor, hn, Option.bind_eq_bind, Option.bind_some]
        have bound : (if sigAddress ≥ kMaxAddress - s.pageSize + 1 then s.pageSize - 1
            else s.pageSize) ≤ kMaxAddress := by
          rw [pageSize_eq]
          split <;> decide
        generalize (if sigAddress ≥ kMaxAddress - s.pageSize + 1 then s.pageSize - 1
          else s.pageSize) = size at bound ⊢
        split_ifs with empty large
        · exact ⟨_, rfl, by simp⟩
        · exact ⟨_, rfl, by simp⟩
        · obtain ⟨x, made⟩ : ∃ x, MemoryMapping.makeSized
              (sigAddress / s.pageSize * s.pageSize) size p = some x := by
            exact ⟨_, dif_pos ⟨by lia, by lia, (proper p rfl).1, (proper p rfl).2⟩⟩
          obtain ⟨status, can⟩ := canAddNegativeMemoryMapping_total hs.toHolds x true
          rw [made, Option.bind_some, can, Option.bind_some]
          cases status with
          | error e => exact ⟨_, rfl, by simp⟩
          | ok _ =>
            have ok := canAddNegativeMemoryMapping_ok can
            obtain ⟨s', run, hs'⟩ := addNegativeMemoryMappingOverlapOk_keeps hs ok
            refine ⟨.ok s', by simp [run], ?_⟩
            rintro _ ⟨⟩
            exact .inr ⟨x, ok, hs'⟩
    · refine ⟨.ok s, ?_, by rintro s' ⟨⟩; exact .inl rfl⟩
      cases num with
      | kSigSegv => exact absurd rfl segv
      | kSigTrap => rfl
      | kSigFPE => rfl
      | kSigIll => rfl
      | kSigBus => rfl

/-- Bytes that `canAddMemoryBytes` accepts. -/
structure AcceptedBytes (s : SnapshotMemory) (b : MemoryBytes) : Prop where
  mapped : s.mappedMemoryMap.containsRange b.startAddress b.limitAddress = some true
  new : s.writtenMemorySet.isDisjoint b.startAddress b.limitAddress = some true

theorem canAddMemoryBytes_ok {b : MemoryBytes} (h : s.canAddMemoryBytes b = some (.ok ())) :
    s.AcceptedBytes b := by
  obtain ⟨inside, contains, h⟩ := Option.bind_eq_some_iff.mp h
  cases inside with
  | false => simp at h
  | true =>
    obtain ⟨apart, disjoint, h⟩ := Option.bind_eq_some_iff.mp h
    cases apart with
    | false => simp at h
    | true => exact ⟨contains, disjoint⟩

theorem containsRange_mapped {b : MemoryBytes} {m : MappedMemoryMap} (hm : m.Represents f)
    (h : m.containsRange b.startAddress b.limitAddress = some true) {k : Address}
    (hk : b.Covers k) : (f k).isSome := by
  obtain ⟨c, run, iff⟩ := MappedMemoryMap.containsRange_eq hm b.start_lt_limit
  obtain rfl : c = true := by simpa [h] using run.symm
  exact iff.mp rfl k hk.1 hk.2

theorem addMemoryBytes_keeps {b : MemoryBytes} (hs : s.Keeps f g w) (ok : s.AcceptedBytes b) :
    ∃ s', s.addMemoryBytes b = some s' ∧ s'.memoryBytes = s.memoryBytes ++ [b] ∧
      s'.Keeps f g fun k => if b.Covers k then some (b.byteAt k) else w k := by
  obtain ⟨set, run, hset⟩ := hs.written.add_represents b.start_lt_limit
  have free : ∀ k, b.Covers k → w k = none := by
    obtain ⟨c, disjoint, iff⟩ := hs.written.isDisjoint_eq b.start_lt_limit
    obtain rfl : c = true := by simpa [ok.new] using disjoint.symm
    intro k hk
    simpa using iff.mp rfl k hk.1 hk.2
  refine ⟨{ s with writtenMemorySet := set, memoryBytes := s.memoryBytes ++ [b] },
    by simp [addMemoryBytes, run], rfl,
    ⟨hs.mapped, hs.mappings, hs.negativeMapped, hs.negativeMappings⟩, hs.aligned,
    hs.negativeAligned, hs.contents.add free, fun k hk => ?_, hset.congr fun k => ?_⟩
  · by_cases inside : b.Covers k
    · exact containsRange_mapped hs.mapped ok.mapped inside
    · rw [if_neg inside] at hk
      exact hs.mappedBytes k hk
  · by_cases inside : b.Covers k
    · have both : b.startAddress ≤ k ∧ k < b.limitAddress := inside
      simp [inside, both]
    · have neither : ¬ (b.startAddress ≤ k ∧ k < b.limitAddress) := inside
      simp [inside, neither]

/-- The bytes that a loop of checked additions has added are mapped. -/
theorem addBytesWhileOk_mapped {bs : List MemoryBytes} (hs : s.mappedMemoryMap.Represents f)
    (run : addWhileOk canAddMemoryBytes addMemoryBytes s bs = some (.ok s')) :
    ∀ b ∈ bs, ∀ k, b.Covers k → (f k).isSome := by
  induction bs generalizing s with
  | nil => simp
  | cons b bs ih =>
    obtain ⟨status, can, run⟩ := Option.bind_eq_some_iff.mp run
    cases status with
    | error e => simp at run
    | ok _ =>
      obtain ⟨s₁, added, run⟩ := Option.bind_eq_some_iff.mp run
      have same : s₁.mappedMemoryMap = s.mappedMemoryMap := by
        obtain ⟨set, _, added⟩ := Option.bind_eq_some_iff.mp added
        obtain rfl := Option.some.inj added
        rfl
      intro c hc k hk
      rcases List.mem_cons.mp hc with rfl | hc
      · exact containsRange_mapped hs (canAddMemoryBytes_ok can).mapped hk
      · exact ih (same.symm ▸ hs) run c hc k hk

/-- A loop of checked additions, each of which runs when it is accepted. -/
theorem addWhileOk_foldlM {α : Type} {can : SnapshotMemory → α → Option (Except SnapshotError Unit)}
    {add : SnapshotMemory → α → Option SnapshotMemory} {xs : List α}
    (run : addWhileOk can add s xs = some (.ok s')) : xs.foldlM add s = some s' := by
  induction xs generalizing s with
  | nil => simpa [addWhileOk] using run
  | cons x xs ih =>
    obtain ⟨status, _, run⟩ := Option.bind_eq_some_iff.mp run
    cases status with
    | error e => simp at run
    | ok _ =>
      obtain ⟨s₁, added, run⟩ := Option.bind_eq_some_iff.mp run
      rw [List.foldlM_cons, added]
      exact ih run

/-- Permissions that share nothing with the joined ones share nothing with any. -/
theorem perms_free {m : MappedMemoryMap} (hm : m.Represents f)
    (free : ∀ p, m.perms x.startAddress x.limitAddress .kOr = some p →
      x.perms.hasSomeOf p = false) (k : Address) (low : x.startAddress ≤ k)
    (high : k < x.limitAddress) : ∀ q ∈ f k, x.perms.hasSomeOf q = false := by
  obtain ⟨p, run, iff⟩ := MappedMemoryMap.perms_or hm x.start_lt_limit
  exact (iff x.perms).mp (free p run) k low high

theorem addMappingsWhileOk_keeps {xs : List MemoryMapping} (hs : s.Keeps f g w)
    (run : addWhileOk canAddMemoryMapping addMemoryMapping s xs = some (.ok s')) :
    ∃ f', s'.Keeps f' g w ∧ s'.memoryMappings = s.memoryMappings ++ xs ∧
      xs.foldlM (fun m x => MappedMemoryMap.addNew m x.startAddress x.limitAddress x.perms)
        s.mappedMemoryMap = some s'.mappedMemoryMap ∧ (f.Apart g → f'.Apart g) := by
  induction xs generalizing s f with
  | nil =>
    obtain rfl : s = s' := by simpa [addWhileOk] using run
    exact ⟨f, hs, by simp, rfl, id⟩
  | cons x xs ih =>
    obtain ⟨status, can, run⟩ := Option.bind_eq_some_iff.mp run
    cases status with
    | error e => simp at run
    | ok _ =>
      obtain ⟨s₁, added, run⟩ := Option.bind_eq_some_iff.mp run
      have ok := canAddMemoryMapping_ok can
      obtain ⟨s₂, added', hs₁⟩ := addMemoryMapping_keeps hs ok
      obtain rfl : s₁ = s₂ := Option.some.inj (added.symm.trans added')
      obtain ⟨m, add, added⟩ := Option.bind_eq_some_iff.mp added
      obtain rfl := Option.some.inj added
      obtain ⟨f', hs', mappings, map, apart⟩ := ih hs₁ run
      refine ⟨f', hs', by simp [mappings], by rw [List.foldlM_cons, add]; exact map,
        fun h => apart ?_⟩
      exact (h.symm.add (perms_free hs.negativeMapped ok.free)).symm

theorem addNegativesWhileOk_keeps {xs : List MemoryMapping} (hs : s.Keeps f g w)
    (run : addWhileOk (canAddNegativeMemoryMapping · ·) addNegativeMemoryMapping s xs =
      some (.ok s')) :
    ∃ g', s'.Keeps f g' w ∧ s'.negativeMemoryMappings = s.negativeMemoryMappings ++ xs ∧
      s'.mappedMemoryMap = s.mappedMemoryMap ∧ (f.Apart g → f.Apart g') := by
  induction xs generalizing s g with
  | nil =>
    obtain rfl : s = s' := by simpa [addWhileOk] using run
    exact ⟨g, hs, by simp, rfl, id⟩
  | cons x xs ih =>
    obtain ⟨status, can, run⟩ := Option.bind_eq_some_iff.mp run
    cases status with
    | error e => simp at run
    | ok _ =>
      obtain ⟨s₁, added, run⟩ := Option.bind_eq_some_iff.mp run
      have ok := canAddNegativeMemoryMapping_ok can
      obtain ⟨s₂, added', hs₁⟩ := addNegativeMemoryMapping_keeps hs ok (ok.new rfl)
      obtain rfl : s₁ = s₂ := Option.some.inj (added.symm.trans added')
      obtain ⟨m, add, added⟩ := Option.bind_eq_some_iff.mp added
      obtain rfl := Option.some.inj added
      obtain ⟨g', hs', mappings, map, apart⟩ := ih hs₁ run
      exact ⟨g', hs', by simp [mappings], map,
        fun h => apart (h.add (perms_free hs.mapped ok.free))⟩

theorem addBytesWhileOk_keeps {bs : List MemoryBytes} (hs : s.Keeps f g w)
    (run : addWhileOk canAddMemoryBytes addMemoryBytes s bs = some (.ok s')) :
    ∃ w', s'.Keeps f g w' := by
  refine addWhileOk_keeps (P := fun s => ∃ w, s.Keeps f g w) (fun s b s' can run => ?_) run
    ⟨w, hs⟩
  rintro ⟨w, hs⟩
  obtain ⟨s₁, added, _, hs₁⟩ := addMemoryBytes_keeps hs (canAddMemoryBytes_ok can)
  obtain rfl : s' = s₁ := Option.some.inj (run.symm.trans added)
  exact ⟨_, hs₁⟩

/-- What rebuilding the snapshot with `xs` shows about `xs`. -/
theorem setMemoryMappings_keeps {xs : List MemoryMapping} (hs : s.Keeps f g w)
    (can : s.canSetMemoryMappings xs = some (.ok ())) :
    ∃ s', s.setMemoryMappings xs = some s' ∧ ∃ f', s'.Keeps f' g w ∧ f'.Apart g := by
  obtain ⟨status₁, run₁, can⟩ := Option.bind_eq_some_iff.mp can
  cases status₁ with
  | error e => simp at can
  | ok copy =>
    obtain ⟨status₂, run₂, can⟩ := Option.bind_eq_some_iff.mp can
    cases status₂ with
    | error e => simp at can
    | ok copy₂ =>
      obtain ⟨status₃, run₃, can⟩ := Option.bind_eq_some_iff.mp can
      cases status₃ with
      | error e => simp at can
      | ok copy₃ =>
        obtain ⟨f', h₁, mappings, map, -⟩ :=
          addMappingsWhileOk_keeps (new_keeps s.architecture) run₁
        obtain ⟨g', h₂, negatives, same, apart⟩ := addNegativesWhileOk_keeps h₁ run₂
        obtain rfl : xs = copy.memoryMappings := by simpa [new] using mappings.symm
        have kept : copy₂.negativeMemoryMappings = s.negativeMemoryMappings := by
          have none : copy.negativeMemoryMappings = [] := by
            refine List.eq_nil_iff_forall_not_mem.mpr fun m hm => ?_
            have := h₁.negativeMappings.covered m hm m.startAddress ⟨le_rfl, m.start_lt_limit⟩
            cases this
          rw [negatives, none, List.nil_append]
        have eq : g' = g := (kept ▸ h₂.negativeMappings).unique hs.negativeMappings
        refine ⟨{ s with mappedMemoryMap := copy.mappedMemoryMap, memoryMappings := copy.memoryMappings },
          ?_, f', ⟨⟨h₁.mapped, h₁.mappings, hs.negativeMapped, hs.negativeMappings⟩, fun m hm => ?_,
          hs.negativeAligned, hs.contents, fun k hk => ?_, hs.written⟩, ?_⟩
        · simp only [setMemoryMappings]
          rw [show copy.memoryMappings.foldlM (fun m x =>
            MappedMemoryMap.addNew m x.startAddress x.limitAddress x.perms) MappedMemoryMap.empty =
            some copy.mappedMemoryMap from map]
          rfl
        · have := h₁.aligned m hm
          simpa only [PageEnd, pageSize_eq] using this
        · obtain ⟨b, hb, inside⟩ := hs.contents.isSome_iff.mp hk
          exact addBytesWhileOk_mapped (f := f') (same ▸ h₁.mapped) run₃ b hb k inside
        · exact eq ▸ apart fun k p hp q hq => by cases hq

theorem setNegativeMemoryMappings_keeps {xs : List MemoryMapping} (hs : s.Keeps f g w)
    (run : addWhileOk (canAddNegativeMemoryMapping · ·) addNegativeMemoryMapping
      { s with negativeMappedMemoryMap := .empty, negativeMemoryMappings := [] } xs =
        some (.ok s')) :
    s.setNegativeMemoryMappings xs = some s' ∧ ∃ g', s'.Keeps f g' w ∧ f.Apart g' := by
  have start : Keeps { s with negativeMappedMemoryMap := .empty, negativeMemoryMappings := [] }
      f PermsMap.empty w :=
    ⟨⟨hs.mapped, hs.mappings, MappedMemoryMap.empty_represents, .nil⟩, hs.aligned, by simp,
      hs.contents, hs.mappedBytes, hs.written⟩
  obtain ⟨g', hs', -, -, apart⟩ := addNegativesWhileOk_keeps start run
  exact ⟨addWhileOk_foldlM run, g', hs', apart fun k p _ q hq => by cases hq⟩

theorem replaceMemoryBytes_keeps {xs : List MemoryBytes} (hs : s.Keeps f g w)
    (run : s.replaceMemoryBytes xs = some (.ok s')) : ∃ w', s'.Keeps f g w' := by
  have start : Keeps { s with writtenMemorySet := .empty, memoryBytes := [] } f g fun _ => none :=
    ⟨⟨hs.mapped, hs.mappings, hs.negativeMapped, hs.negativeMappings⟩, hs.aligned,
      hs.negativeAligned, .nil, by simp, MemoryBytesSet.empty_represents⟩
  exact addBytesWhileOk_keeps start run

theorem normalizeMemoryMappings_keeps (hs : s.Keeps f g w) :
    ∃ s', s.normalizeMemoryMappings = some s' ∧ s'.Keeps f g w := by
  obtain ⟨l, sorted, describes⟩ := sorted_describes hs.mapped hs.mappings.mapped
  obtain ⟨l', sorted', describes'⟩ := sorted_describes hs.negativeMapped hs.negativeMappings.mapped
  refine ⟨{ s with memoryMappings := l, negativeMemoryMappings := l' },
    by simp [normalizeMemoryMappings, sorted, sorted'],
    ⟨hs.mapped, describes, hs.negativeMapped, describes'⟩, ?_, ?_, hs.contents, hs.mappedBytes,
    hs.written⟩
  · exact sorted_ends hs.mapped (hs.mappings.paged hs.aligned) (Keeps.zero_end s) sorted
  · exact sorted_ends hs.negativeMapped (hs.negativeMappings.paged hs.negativeAligned)
      (.inl (Keeps.zero_end s)) sorted'

theorem normalizeMemoryBytes_keeps (hs : s.Keeps f g w) :
    ∃ s', s.normalizeMemoryBytes = some s' ∧ s'.Keeps f g w := by
  obtain ⟨l, run, -, contents, -⟩ := normalizeBytes_contents hs.mapped hs.mappings.mapped.proper
    hs.mappings.mapped.bounded hs.contents hs.mappedBytes
  exact ⟨{ s with memoryBytes := l }, by simp [normalizeMemoryBytes, run],
    ⟨hs.mapped, hs.mappings, hs.negativeMapped, hs.negativeMappings⟩, hs.aligned,
    hs.negativeAligned, contents, hs.mappedBytes, hs.written⟩

end SnapshotMemory

end Silifuzz
