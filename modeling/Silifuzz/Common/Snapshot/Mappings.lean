import Silifuzz.Common.MappedMemoryMap.PermsMap
import Silifuzz.Common.Snapshot

/-!
# The mappings of a Snapshot

What ties a snapshot's two lists of mappings to its two maps:

* `Describes`: disjoint mappings with permissions, one for each address of `f`;
* `SnapshotMemory.Holds`: each list describes what its map represents;
* `Accepted`, `AcceptedNegative`: what the checks say about an accepted mapping.
-/

namespace Silifuzz

open Segments RangeMap Loops

/-- The mappings are disjoint, have permissions, and together are `f`. -/
structure Describes (l : List MemoryMapping) (f : PermsMap) : Prop where
  disjoint : l.Pairwise MemoryMapping.Disjoint
  nonempty : ∀ m ∈ l, m.perms ≠ .none
  covered : ∀ m ∈ l, ∀ k, m.Covers k → f k = some m.perms
  uncovered : ∀ k, (∀ m ∈ l, ¬ m.Covers k) → f k = none

/-- What holds of the permissions in a snapshot's maps. -/
structure PermsMap.Mapped (f : PermsMap) : Prop where
  proper : f.Proper
  unmapped : ∀ k, ∀ p ∈ f k, p.has .kMapped = false
  nonempty : ∀ k, ∀ p ∈ f k, p ≠ .none
  bounded : ∀ k, (f k).isSome → k < kMaxAddress

namespace Describes

variable {l : List MemoryMapping} {f : PermsMap}

theorem nil : Describes [] PermsMap.empty :=
  ⟨.nil, by simp, by simp, fun _ _ => rfl⟩

theorem exists_mapping (h : Describes l f) {k : Address} (hk : (f k).isSome) :
    ∃ m ∈ l, m.Covers k := by
  by_contra none
  simp [h.uncovered k fun m hm hc => none ⟨m, hm, hc⟩] at hk

theorem mapped (h : Describes l f) : f.Mapped := by
  have at_mapping : ∀ k, ∀ p ∈ f k, ∃ m ∈ l, m.Covers k ∧ m.perms = p := fun k p hp => by
    obtain ⟨m, hm, hc⟩ := h.exists_mapping (Option.isSome_of_mem hp)
    exact ⟨m, hm, hc, Option.some.inj ((h.covered m hm k hc).symm.trans hp)⟩
  refine ⟨fun k p hp => ?_, fun k p hp => ?_, fun k p hp => ?_, fun k hk => ?_⟩
  · obtain ⟨m, _, _, rfl⟩ := at_mapping k p hp
    exact m.proper
  · obtain ⟨m, _, _, rfl⟩ := at_mapping k p hp
    exact m.unmapped
  · obtain ⟨m, hm, _, rfl⟩ := at_mapping k p hp
    exact h.nonempty m hm
  · obtain ⟨m, _, hc⟩ := h.exists_mapping hk
    exact hc.2.trans_le m.bounded

end Describes

/-- Mappings with no common address are disjoint. -/
theorem MemoryMapping.disjoint_of {m n : MemoryMapping} (h : ∀ k, m.Covers k → ¬ n.Covers k) :
    m.Disjoint n := by
  by_contra both
  simp only [MemoryMapping.Disjoint, not_or, not_le] at both
  have hm := m.start_lt_limit
  have hn := n.start_lt_limit
  refine h (max m.startAddress n.startAddress) ⟨le_max_left _ _, max_lt hm both.1⟩
    ⟨le_max_right _ _, max_lt both.2 hn⟩

namespace Describes

variable {l : List MemoryMapping} {f : PermsMap} {x : MemoryMapping}

/-- A new mapping where there was none. -/
theorem add (h : Describes l f) (some : x.perms ≠ .none) (free : ∀ k, x.Covers k → f k = none) :
    Describes (l ++ [x]) (f.add x.startAddress x.limitAddress x.perms) := by
  have apart : ∀ m ∈ l, m.Disjoint x := fun m hm => MemoryMapping.disjoint_of fun k hc hx => by
    simpa [h.covered m hm k hc] using free k hx
  refine ⟨?_, ?_, ?_, ?_⟩
  · refine List.pairwise_append.mpr ⟨h.disjoint, by simp, fun m hm y hy => ?_⟩
    obtain rfl := List.mem_singleton.mp hy
    exact apart m hm
  · intro m hm
    rcases List.mem_append.mp hm with hm | hm
    · exact h.nonempty m hm
    · exact (List.mem_singleton.mp hm) ▸ some
  · intro m hm k hc
    rcases List.mem_append.mp hm with hm | hm
    · rw [PermsMap.add_outside ((apart m hm).covers hc), h.covered m hm k hc]
    · obtain rfl := List.mem_singleton.mp hm
      rw [PermsMap.add_inside hc, free k hc]
      simp
  · intro k none
    rw [PermsMap.add_outside (none x (by simp)), h.uncovered k fun m hm => none m (by simp [hm])]

/-- New permissions for one of the mappings. -/
theorem set {a b : List MemoryMapping} {m : MemoryMapping} (h : Describes (a ++ m :: b) f)
    (some : x.perms ≠ .none) (start : m.startAddress = x.startAddress)
    (limit : m.limitAddress = x.limitAddress) :
    Describes (a ++ x :: b) (f.set x.startAddress x.limitAddress x.perms) := by
  have same : ∀ n : MemoryMapping, n.Disjoint x ↔ n.Disjoint m := by
    simp [MemoryMapping.Disjoint, start, limit]
  have cover : ∀ k, x.Covers k ↔ m.Covers k := by simp [MemoryMapping.Covers, start, limit]
  obtain ⟨inA, inB, across⟩ := List.pairwise_append.mp h.disjoint
  obtain ⟨first, inB⟩ := List.pairwise_cons.mp inB
  have beside : ∀ n, n ∈ a ∨ n ∈ b → n.Disjoint x := fun n hn => (same n).mpr <|
    hn.elim (fun hn => across n hn m (by simp)) fun hn => (first n hn).symm
  have old : ∀ n, n ∈ a ∨ n ∈ b → n ∈ a ++ m :: b := by grind
  refine ⟨?_, ?_, ?_, ?_⟩
  · refine List.pairwise_append.mpr ⟨inA, List.pairwise_cons.mpr
      ⟨fun n hn => (beside n (.inr hn)).symm, inB⟩, fun n hn y hy => ?_⟩
    rcases List.mem_cons.mp hy with rfl | hy
    · exact beside n (.inl hn)
    · exact across n hn y (by simp [hy])
  · intro n hn
    rcases List.mem_append.mp hn with hn | hn
    · exact h.nonempty n (by simp [hn])
    · rcases List.mem_cons.mp hn with rfl | hn
      · exact some
      · exact h.nonempty n (by simp [hn])
  · intro n hn k hc
    have : n = x ∨ n ∈ a ∨ n ∈ b := by grind
    rcases this with rfl | hn
    · exact PermsMap.set_inside hc
    · rw [PermsMap.set_outside ((beside n hn).covers hc), h.covered n (old n hn) k hc]
  · intro k none
    have hx : ¬ x.Covers k := none x (by simp)
    rw [PermsMap.set_outside hx]
    refine h.uncovered k fun n hn => ?_
    have : n = m ∨ n ∈ a ∨ n ∈ b := by grind
    rcases this with rfl | hn
    · exact (cover k).not.mp hx
    · exact none n (by grind)

end Describes

theorem isEmpty_false {p : MemoryPerms} (h : ¬ p.isEmpty = true) : p ≠ .none := by
  simpa using h

theorem overlaps_free {m : MappedMemoryMap} {f : PermsMap} (hm : m.Represents f)
    {x : MemoryMapping} (h : m.overlaps x.startAddress x.limitAddress = some false) (k : Address)
    (hk : x.Covers k) : f k = none := by
  obtain ⟨b, overlaps, iff⟩ := MappedMemoryMap.overlaps_eq hm x.start_lt_limit
  obtain rfl : b = false := by simpa [h] using overlaps.symm
  by_contra some
  simpa using iff.mpr ⟨k, hk.1, hk.2, Option.isSome_iff_ne_none.mpr some⟩

/-- The mappings of a map, in address order. -/
theorem sorted_describes {m : MappedMemoryMap} {f : PermsMap} (hm : m.Represents f)
    (mapped : f.Mapped) :
    ∃ l, SnapshotMemory.sortedMemoryMappingList m = some l ∧ Describes l f := by
  obtain ⟨l, run, rel⟩ := mapM_run (l := m.rep)
    (f := fun i => MemoryMapping.makeRanged i.start i.limit i.value)
    (R := fun i x => x.startAddress = i.start ∧ x.limitAddress = i.limit ∧ x.perms = i.value)
    fun i hi => by
      have lt := hm.separated.1 i hi
      have first := hm.entry hi ⟨le_rfl, lt⟩
      exact MemoryMapping.makeRanged_some lt (hm.limit_le mapped.bounded hi)
        (mapped.proper _ _ first) (mapped.unmapped _ _ first)
  refine ⟨l, run, ?_, ?_, ?_, ?_⟩
  · refine forall₂_pairwise rel hm.separated.2 fun {a b x y} hx hy hab => .inl ?_
    rw [hx.2.1, hy.1]
    exact hab
  · intro x hx
    obtain ⟨i, hi, start, limit, perms⟩ := forall₂_mem rel hx
    rw [perms]
    exact mapped.nonempty _ _ (hm.entry hi ⟨le_rfl, hm.separated.1 i hi⟩)
  · rintro x hx k ⟨low, high⟩
    obtain ⟨i, hi, start, limit, perms⟩ := forall₂_mem rel hx
    rw [perms]
    exact hm.entry hi ⟨start ▸ low, limit ▸ high⟩
  · intro k none
    rw [← hm.reads]
    refine lookup_none fun i hi hk => ?_
    obtain ⟨x, hx, start, limit, _⟩ := forall₂_mem_left rel hi
    exact none x hx ⟨start ▸ hk.1, limit ▸ hk.2⟩

namespace SnapshotMemory

/-- Each list of mappings describes what its map represents. -/
structure Holds (s : SnapshotMemory) (f g : PermsMap) : Prop where
  mapped : s.mappedMemoryMap.Represents f
  mappings : Describes s.memoryMappings f
  negativeMapped : s.negativeMappedMemoryMap.Represents g
  negativeMappings : Describes s.negativeMemoryMappings g

variable {s s' : SnapshotMemory} {f g : PermsMap} {x : MemoryMapping}

theorem new_holds (architecture : Architecture) :
    (new architecture).Holds PermsMap.empty PermsMap.empty :=
  ⟨MappedMemoryMap.empty_represents, .nil, MappedMemoryMap.empty_represents, .nil⟩

/-- What an accepted mapping fulfils. -/
structure Accepted (s : SnapshotMemory) (x : MemoryMapping) : Prop where
  perms : x.perms ≠ .none
  aligned : x.startAddress % s.pageSize = 0 ∧ x.limitAddress % s.pageSize = 0
  new : s.mappedMemoryMap.overlaps x.startAddress x.limitAddress = some false
  free : ∀ p, s.negativeMappedMemoryMap.perms x.startAddress x.limitAddress .kOr = some p →
    x.perms.hasSomeOf p = false

theorem canAddMemoryMapping_ok (h : s.canAddMemoryMapping x = some (.ok ())) : s.Accepted x := by
  simp only [canAddMemoryMapping] at h
  split_ifs at h with h₁ h₂ h₃
  · simp at h
  · simp at h
  · simp at h
  · obtain ⟨b, overlaps, h⟩ := Option.bind_eq_some_iff.mp h
    cases b with
    | true => simp at h
    | false =>
      refine ⟨isEmpty_false h₁, by simpa [not_or] using h₃, overlaps, fun p hp => ?_⟩
      rw [if_neg (by simp), hp] at h
      by_contra conflict
      simp [conflict] at h

/-- What an accepted negative mapping fulfils. -/
structure AcceptedNegative (s : SnapshotMemory) (x : MemoryMapping) (overlapOk : Bool) : Prop where
  perms : x.perms ≠ .none
  aligned : x.startAddress % s.pageSize = 0 ∧
    (x.limitAddress % s.pageSize = 0 ∨ x.limitAddress = kMaxAddress)
  new : overlapOk = false →
    s.negativeMappedMemoryMap.overlaps x.startAddress x.limitAddress = some false
  free : ∀ p, s.mappedMemoryMap.perms x.startAddress x.limitAddress .kOr = some p →
    x.perms.hasSomeOf p = false

theorem canAddNegativeMemoryMapping_ok {overlapOk : Bool}
    (h : s.canAddNegativeMemoryMapping x overlapOk = some (.ok ())) :
    s.AcceptedNegative x overlapOk := by
  simp only [canAddNegativeMemoryMapping] at h
  split_ifs at h with h₁ h₂ h₃ h₄
  · simp at h
  · simp at h
  · simp at h
  · obtain ⟨b, overlaps, h⟩ := Option.bind_eq_some_iff.mp h
    cases b with
    | true => simp at h
    | false =>
      refine ⟨isEmpty_false h₁, by grind, fun _ => overlaps, fun p hp => ?_⟩
      rw [if_neg (by simp), hp] at h
      by_contra conflict
      simp [conflict] at h
  · refine ⟨isEmpty_false h₁, by grind, fun no => by simp [no] at h₄, fun p hp => ?_⟩
    rw [hp] at h
    by_contra conflict
    simp [conflict] at h

/-- Adding permissions keeps what holds of all of them. -/
theorem add_mapped (hg : g.Mapped) (x : MemoryMapping) (perms : x.perms ≠ .none) :
    (g.add x.startAddress x.limitAddress x.perms).Mapped := by
  -- inside the range the permissions are a sum with those of the mapping
  have cases : ∀ k, ∀ p ∈ g.add x.startAddress x.limitAddress x.perms k,
      (x.Covers k ∧ p = ((g k).getD .none).add x.perms) ∨ g k = some p := by
    intro k p hp
    by_cases hc : x.Covers k
    · rw [PermsMap.add_inside hc] at hp
      exact .inl ⟨hc, (Option.some.inj hp).symm⟩
    · rw [PermsMap.add_outside hc] at hp
      exact .inr hp
  refine ⟨hg.proper.add x.proper, fun k p hp => ?_, fun k p hp => ?_, fun k hk => ?_⟩
  · rcases cases k p hp with ⟨_, rfl⟩ | hp
    · rw [MemoryPerms.has_add, x.unmapped, Bool.or_false]
      cases hk : g k with
      | none => rfl
      | some q => exact hg.unmapped k q hk
    · exact hg.unmapped k p hp
  · rcases cases k p hp with ⟨_, rfl⟩ | hp
    · exact fun h => perms (MemoryPerms.add_eq_none.mp h).2
    · exact hg.nonempty k p hp
  · obtain ⟨p, hp⟩ := Option.isSome_iff_exists.mp hk
    rcases cases k p hp with ⟨hc, _⟩ | hp
    · exact hc.2.trans_le x.bounded
    · exact hg.bounded k (Option.isSome_of_mem hp)

/-- A property that each accepted addition keeps. -/
theorem addWhileOk_keeps {α : Type} {can : SnapshotMemory → α → Option (Except SnapshotError Unit)}
    {add : SnapshotMemory → α → Option SnapshotMemory} {P : SnapshotMemory → Prop}
    (keeps : ∀ s x s', can s x = some (.ok ()) → add s x = some s' → P s → P s') {xs : List α}
    (run : addWhileOk can add s xs = some (.ok s')) (hs : P s) : P s' := by
  induction xs generalizing s with
  | nil =>
    obtain rfl : s = s' := by simpa [addWhileOk] using run
    exact hs
  | cons x xs ih =>
    obtain ⟨status, ok, run⟩ := Option.bind_eq_some_iff.mp run
    cases status with
    | error e => simp at run
    | ok _ =>
      obtain ⟨s₁, added, run⟩ := Option.bind_eq_some_iff.mp run
      exact ih run (keeps s x s₁ ok added hs)

end SnapshotMemory

end Silifuzz
