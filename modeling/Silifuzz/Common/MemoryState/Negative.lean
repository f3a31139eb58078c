import Silifuzz.Common.MappedMemoryMap.Queries
import Silifuzz.Common.MemoryState.Delta

/-!
# DeltaMemoryMappings and the negative mappings

The commands for the negative mappings are one for each entry of what is taken,
and give all of the entry the permissions common to it.

* `Uniform`: neighbours from which the same is taken have the same permissions;
* `deltaMemoryMappings_initial`: exactly then the commands do what
  `SetInitialState` does.
-/

namespace Silifuzz

open Segments RangeMap Loops

namespace PermsMap

/-- Neighbours from which the same permissions are taken have the same permissions. -/
def Uniform (f pos neg : PermsMap) : Prop :=
  ∀ k v, taken f pos neg k = some v → taken f pos neg (k + 1) = some v → f k = f (k + 1)

variable {f pos neg : PermsMap} {k : Address} {v : MemoryPerms}

/-- What is taken from an address is part of what it has. -/
theorem taken_some (hn : neg.Proper) (h : taken f pos neg k = some v) :
    pos k = none ∧ ∃ u, f k = some u ∧ (u.clear v).add v = u := by
  have free : pos k = none := by
    by_contra some
    simp [taken_positive hn (Option.isSome_iff_ne_none.mpr some)] at h
  refine ⟨free, ?_⟩
  rw [taken_negative hn free] at h
  obtain ⟨u, hu, h⟩ := Option.bind_eq_some_iff.mp h
  obtain ⟨q, _, h⟩ := Option.bind_eq_some_iff.mp h
  refine ⟨u, hu, ?_⟩
  simp only [keep] at h
  split at h
  · cases h
  · rw [← Option.some.inj h, MemoryPerms.clear_add_intersect]

/-- Along a range from which the same is taken everywhere nothing changes. -/
theorem Uniform.const (h : Uniform f pos neg) {start limit : Address}
    (same : ∀ k, start ≤ k → k < limit → taken f pos neg k = some v) :
    ∀ k, start ≤ k → k < limit → f k = f start := by
  intro k low
  induction k, low using Nat.le_induction with
  | base => exact fun _ => rfl
  | succ k low ih =>
    intro high
    have before : k < limit := (Nat.lt_succ_self k).trans high
    rw [← h k v (same k low before) (same (k + 1) (Nat.le_succ_of_le low) high), ih before]

end PermsMap

/-- Neighbours with the same permissions are in the same entry. -/
theorem MappedMemoryMap.Represents.find_next {m : MappedMemoryMap} {f : PermsMap}
    (hm : m.Represents f) {k : Address} {v : MemoryPerms} (h : f k = some v)
    (next : f (k + 1) = some v) :
    ∃ i, m.rep.find? (·.covers k) = some i ∧ m.rep.find? (·.covers (k + 1)) = some i := by
  rw [hm.find k, Option.map_eq_some_iff] at h
  rw [hm.find (k + 1), Option.map_eq_some_iff] at next
  obtain ⟨i, hi, vi⟩ := h
  obtain ⟨j, hj, vj⟩ := next
  have inI : i.start ≤ k ∧ k < i.limit := by simpa using List.find?_some hi
  have inJ : j.start ≤ k + 1 ∧ k + 1 < j.limit := by simpa using List.find?_some hj
  have him := List.mem_of_find?_eq_some hi
  have hjm := List.mem_of_find?_eq_some hj
  obtain rfl : i = j := by
    by_cases inside : k + 1 < i.limit
    · exact hm.separated.unique him hjm ⟨Nat.le_succ_of_le inI.1, inside⟩ inJ
    · by_cases low : j.start ≤ k
      · exact hm.separated.unique him hjm inI ⟨low, (Nat.lt_succ_self k).trans inJ.2⟩
      · -- they touch, so they would have been merged
        have touch : i.limit = j.start := by grind
        have := hm.canonical i him j hjm touch
        simp [memoryPermsMethods, vi, vj] at this
  exact ⟨i, hi, hj⟩

namespace MemoryState

variable {s : MemoryState} {snapshot : SnapshotMemory} {f pos neg : PermsMap}

/-- The permissions that the command for an entry of what is taken leaves. -/
def kept (s : MemoryState) (i : Segment Address MemoryPerms) : MemoryPerms :=
  ((((s.mappedMemoryMap.perms i.start i.limit .kAnd).getD .none).clear i.value).clear
    (.of .kMapped)).plus (.of .kMapped)

theorem negativeCmd_runs (hs : s.Holds f) {i : Segment Address MemoryPerms}
    (h : i.start < i.limit) (bounded : i.limit ≤ kMaxAddress) :
    ∃ c, s.negativeCmd i = some c ∧ c.mapping.startAddress = i.start ∧
      c.mapping.limitAddress = i.limit ∧ c.result = some (s.kept i) := by
  obtain ⟨p, run, proper, _⟩ := MappedMemoryMap.perms_and hs.represents h
  have unmapped : ((p.clear i.value).clear (.of .kMapped)).has .kMapped = false := by
    rw [MemoryPerms.has_clear, show (MemoryPerms.of .kMapped).has .kMapped = true from rfl]
    simp
  obtain ⟨d, runD, start, limit, perms⟩ := MemoryMapping.makeRanged_some h bounded
    ((proper.clear i.value).clear (.of .kMapped)) unmapped
  refine ⟨⟨d, .kProtect⟩, by simp [negativeCmd, run, runD], start, limit, ?_⟩
  simp [MemoryMappingCmd.result, kept, run, perms]

/-- The commands set the mappings of the snapshot, and protect the entries of what is taken. -/
theorem deltaMemoryMappings_effects (hs : s.Holds f) (hsnap : snapshot.Holds pos neg) :
    ∃ cmds delta, s.deltaMemoryMappings snapshot .none = some cmds ∧
      MappedMemoryMap.Represents delta (PermsMap.taken f pos neg) ∧ Effects cmds fun k =>
        match pos k with
        | some p => wanted .none (f k) p
        | none => (delta.rep.find? (·.covers k)).map fun i => some (s.kept i) := by
  obtain ⟨result, run, effects⟩ := deltaPositive_effects .none hs hsnap.mappings
    (by decide) rfl
  by_cases skip : (snapshot.negativeMemoryMappings.isEmpty || s.mappedMemoryMap.isEmpty) = true
  · have nothing : ∀ k, PermsMap.taken f pos neg k = none := by
      intro k
      rcases Bool.or_eq_true_iff.mp skip with empty | empty
      · have free : neg k = none := hsnap.negativeMappings.uncovered k
          (by simp [List.isEmpty_iff.mp empty])
        simp [PermsMap.taken, PermsMap.inter, PermsMap.removeRangesOf, free]
      · simp [PermsMap.taken, PermsMap.inter, isEmpty_eq hs empty]
    refine ⟨result, .empty, by simp [deltaMemoryMappings, run, skip],
      MappedMemoryMap.empty_represents.congr fun k => (nothing k).symm, effects.congr fun k => ?_⟩
    cases pos k <;> rfl
  · obtain ⟨filtered, runFiltered, hfiltered⟩ :=
      hsnap.negativeMapped.removeRangesOf_represents hsnap.mapped .allPlusMapped
    obtain ⟨delta, runDelta, hdelta⟩ :=
      MappedMemoryMap.empty_represents.addIntersectionOf_represents hs.represents hfiltered
    rw [PermsMap.empty_addMap] at hdelta
    have proper := hsnap.negativeMappings.mapped.proper
    obtain ⟨cmds, runs, removed⟩ := each_effects s.negativeCmd
      (fun i => some (s.kept i)) hdelta.separated fun i hi =>
        negativeCmd_runs hs (hdelta.separated.1 i hi) <| hdelta.limit_le (fun k hk => by
          obtain ⟨v, hv⟩ := Option.isSome_iff_exists.mp hk
          obtain ⟨_, u, hu, _⟩ := PermsMap.taken_some proper hv
          exact hs.ofProcess.bounded k (Option.isSome_of_mem hu)) hi
    have apart : ∀ k, (pos k).isSome → delta.rep.find? (·.covers k) = none := fun k hk => by
      have none := PermsMap.taken_positive (f := f) proper hk
      rwa [PermsMap.taken, hdelta.find k, Option.map_eq_none_iff] at none
    refine ⟨result ++ cmds, delta, ?_, hdelta,
      (effects.append removed fun k => ?_).congr fun k => ?_⟩
    · simp only [Bool.or_eq_true, not_or] at skip
      simp [deltaMemoryMappings, run, skip, runFiltered, runDelta, runs]
    all_goals cases hp : pos k <;> simp [hp, apart k]

/-- What the commands leave, where `delta` is what is taken. -/
def commanded (s : MemoryState) (delta : MappedMemoryMap) (f pos : PermsMap) : PermsMap := fun k =>
  match pos k, delta.rep.find? (·.covers k) with
  | some p, _ => some (p.plus (.of .kMapped))
  | none, some i => some (s.kept i)
  | none, none => f k

theorem deltaMemoryMappings_runs (hs : s.Holds f) (hsnap : snapshot.Holds pos neg) :
    ∃ cmds delta s', s.deltaMemoryMappings snapshot .none = some cmds ∧
      cmds.foldlM execute s = some s' ∧ MappedMemoryMap.Represents delta (f.taken pos neg) ∧
      s'.Holds (s.commanded delta f pos) := by
  obtain ⟨cmds, delta, run, hdelta, effects⟩ := deltaMemoryMappings_effects hs hsnap
  obtain ⟨s', run', hs'⟩ := effects.run hs
  refine ⟨cmds, delta, s', run, run', hdelta, ?_⟩
  convert hs' using 1
  funext k
  rw [commanded]
  cases pos k with
  | some p =>
    dsimp only
    rw [wanted_getD, withMapped, MemoryPerms.plus, MemoryPerms.plus, MemoryPerms.plus,
      MemoryPerms.add_none]
  | none => cases delta.rep.find? (·.covers k) <;> rfl

/-- Where an entry's addresses all have the same permissions, its command takes away
what `SetInitialState` takes away. -/
theorem kept_uniform (hs : s.Holds f) (uniform : f.Uniform pos neg) (hn : neg.Mapped)
    {delta : MappedMemoryMap} (hdelta : delta.Represents (f.taken pos neg))
    {i : Segment Address MemoryPerms} (hi : i ∈ delta.rep) {k : Address}
    (hk : i.start ≤ k ∧ k < i.limit) :
    some (s.kept i) = (f k).map (·.clear i.value) := by
  have lt := hdelta.separated.1 i hi
  have same : ∀ k, i.start ≤ k → k < i.limit → f k = f i.start :=
    uniform.const fun k low high => hdelta.entry hi ⟨low, high⟩
  have taken := hdelta.entry hi ⟨le_rfl, lt⟩
  obtain ⟨_, u, hu, _⟩ := PermsMap.taken_some hn.proper taken
  obtain ⟨p, run, _, const⟩ := MappedMemoryMap.perms_and hs.represents lt
  obtain rfl : p = u := const u (hs.ofProcess.proper _ u hu) fun k low high =>
    (same k low high).trans hu
  have mapped : (p.clear i.value).has .kMapped = true := by
    rw [MemoryPerms.has_clear, hs.ofProcess.mapped _ p hu, PermsMap.taken_unmapped hn taken]
    rfl
  rw [same k hk.1 hk.2, hu, kept, run, Option.getD_some, MemoryPerms.clear_plus mapped]
  rfl

/-- An entry whose command takes away what `SetInitialState` takes away from two
neighbours had the same permissions at both. -/
theorem uniform_kept (hn : neg.Proper) {k : Address} {v p : MemoryPerms}
    (h : f.taken pos neg k = some v) (next : f.taken pos neg (k + 1) = some v)
    (eq : some p = (f k).map (·.clear v)) (eqNext : some p = (f (k + 1)).map (·.clear v)) :
    f k = f (k + 1) := by
  obtain ⟨_, u, hu, split⟩ := PermsMap.taken_some hn h
  obtain ⟨_, w, hw, splitNext⟩ := PermsMap.taken_some hn next
  have clear : u.clear v = w.clear v := by
    rw [hu] at eq
    rw [hw] at eqNext
    exact Option.some.inj (eq.symm.trans eqNext)
  rw [hu, hw, ← split, ← splitNext, clear]

/-- **When the commands do what `SetInitialState` does.** From every state both run,
and they leave the same at every address exactly if neighbours from which the
negative mappings take the same permissions have the same permissions. -/
theorem deltaMemoryMappings_initial (reach : Reachable s)
    (reachSnapshot : SnapshotMemory.Reachable snapshot) (zeroing : MappedZeroing) :
    ∃ cmds s₁ s₂, s.deltaMemoryMappings snapshot .none = some cmds ∧
      cmds.foldlM execute s = some s₁ ∧ s.setInitialState snapshot zeroing = some s₂ ∧
      ((∀ k, s₁.mappedMemoryMap.read k = s₂.mappedMemoryMap.read k) ↔
        PermsMap.Uniform s.mappedMemoryMap.read snapshot.mappedMemoryMap.read
          snapshot.negativeMappedMemoryMap.read) := by
  obtain ⟨f, hs⟩ := reachable_holds reach
  obtain ⟨pos, neg, hsnap⟩ := SnapshotMemory.reachable_holds reachSnapshot
  obtain ⟨cmds, delta, s₁, run, run₁, hdelta, hs₁⟩ := deltaMemoryMappings_runs hs hsnap
  obtain ⟨s₂, run₂, hs₂⟩ := setInitialState_holds hs hsnap zeroing
  have hn := hsnap.negativeMappings.mapped
  refine ⟨cmds, s₁, s₂, run, run₁, run₂, ?_⟩
  rw [hs₁.represents.read_eq, hs₂.represents.read_eq, hs.represents.read_eq,
    hsnap.mapped.read_eq, hsnap.negativeMapped.read_eq]
  -- only at an address with an entry may the two differ
  have atEntry : ∀ k v i, f.taken pos neg k = some v → delta.rep.find? (·.covers k) = some i →
      (s.commanded delta f pos k = f.initial pos neg k ↔
        some (s.kept i) = (f k).map (·.clear v)) := by
    intro k v i hv hi
    have free := (PermsMap.taken_some hn.proper hv).1
    rw [PermsMap.initial_taken hn.proper free, hv, commanded, free, hi]
  constructor
  · intro same k v hv hv'
    obtain ⟨i, hi, hi'⟩ := hdelta.find_next hv hv'
    exact uniform_kept hn.proper hv hv' ((atEntry k v i hv hi).mp (same k))
      ((atEntry (k + 1) v i hv' hi').mp (same (k + 1)))
  · intro uniform k
    cases hi : delta.rep.find? (·.covers k) with
    | some i =>
      have hv : f.taken pos neg k = some i.value := by rw [hdelta.find k, hi]; rfl
      exact (atEntry k i.value i hv hi).mpr <| kept_uniform hs uniform hn hdelta
        (List.mem_of_find?_eq_some hi) (by simpa using List.find?_some hi)
    | none =>
      have hv : f.taken pos neg k = none := by rw [hdelta.find k, hi]; rfl
      cases hp : pos k with
      | some p => rw [commanded, PermsMap.initial, hp]
      | none => rw [PermsMap.initial_taken hn.proper hp, hv, commanded, hp, hi]

/-- Two pages that are mapped alike, and a negative mapping of the first. -/
theorem deltaMemoryMappings_initial_page :
    let page : MemoryMapping := ⟨0x1000, 0x1000, .of .kWritable, by decide, by decide, by decide, rfl⟩
    let s : MemoryState := ⟨⟨[⟨0x1000, 0x3000, ⟨0b1011⟩⟩]⟩, .empty, []⟩
    let snapshot : SnapshotMemory :=
      ⟨.kX86_64, .empty, ⟨[⟨0x1000, 0x2000, .of .kWritable⟩]⟩, .empty, [], [page], []⟩
    ∃ cmds s₁ s₂, s.deltaMemoryMappings snapshot .none = some cmds ∧
      cmds.foldlM execute s = some s₁ ∧
      s.setInitialState snapshot .kIgnoreMappedBytes = some s₂ ∧
      ((∀ k, s₁.mappedMemoryMap.read k = s₂.mappedMemoryMap.read k) ↔
        PermsMap.Uniform s.mappedMemoryMap.read snapshot.mappedMemoryMap.read
          snapshot.negativeMappedMemoryMap.read) := by
  have set : empty.setMemoryMapping
      ⟨0x1000, 0x2000, .rw, by decide, by decide, by decide, rfl⟩ =
        some ⟨⟨[⟨0x1000, 0x3000, ⟨0b1011⟩⟩]⟩, .empty, []⟩ := rfl
  have can : (SnapshotMemory.new .kX86_64).canAddNegativeMemoryMapping
      ⟨0x1000, 0x1000, .of .kWritable, by decide, by decide, by decide, rfl⟩ = some (.ok ()) := rfl
  exact deltaMemoryMappings_initial (.next .empty (.setMemoryMapping _ rfl set))
    (.next (.new .kX86_64) (.addNegativeMemoryMapping _ can rfl)) .kIgnoreMappedBytes

/-- Two pages from which writing is taken, the second of them executable: their command
takes executing away as well. -/
theorem deltaMemoryMappings_loses_execute :
    let pages : MemoryMapping := ⟨0x1000, 0x2000, .of .kWritable, by decide, by decide, by decide, rfl⟩
    let s : MemoryState :=
      ⟨⟨[⟨0x1000, 0x2000, ⟨0b1011⟩⟩, ⟨0x2000, 0x3000, ⟨0b1111⟩⟩]⟩, .empty, []⟩
    let snapshot : SnapshotMemory :=
      ⟨.kX86_64, .empty, ⟨[⟨0x1000, 0x3000, .of .kWritable⟩]⟩, .empty, [], [pages], []⟩
    Reachable s ∧ SnapshotMemory.Reachable snapshot ∧
      ∃ cmds s₁ s₂, s.deltaMemoryMappings snapshot .none = some cmds ∧
        cmds.foldlM execute s = some s₁ ∧
        s.setInitialState snapshot .kIgnoreMappedBytes = some s₂ ∧
        s₁.mappedMemoryMap.read 0x2000 ≠ s₂.mappedMemoryMap.read 0x2000 := by
  have first : empty.setMemoryMapping
      ⟨0x1000, 0x1000, .rw, by decide, by decide, by decide, rfl⟩ =
        some ⟨⟨[⟨0x1000, 0x2000, ⟨0b1011⟩⟩]⟩, .empty, []⟩ := rfl
  have second : (⟨⟨[⟨0x1000, 0x2000, ⟨0b1011⟩⟩]⟩, .empty, []⟩ : MemoryState).setMemoryMapping
      ⟨0x2000, 0x1000, .all, by decide, by decide, by decide, rfl⟩ =
        some ⟨⟨[⟨0x1000, 0x2000, ⟨0b1011⟩⟩, ⟨0x2000, 0x3000, ⟨0b1111⟩⟩]⟩, .empty, []⟩ := rfl
  have can : (SnapshotMemory.new .kX86_64).canAddNegativeMemoryMapping
      ⟨0x1000, 0x2000, .of .kWritable, by decide, by decide, by decide, rfl⟩ = some (.ok ()) := rfl
  refine ⟨.next (.next .empty (.setMemoryMapping _ rfl first)) (.setMemoryMapping _ rfl second),
    .next (.new .kX86_64) (.addNegativeMemoryMapping _ can rfl), _, _, _, rfl, rfl, rfl, ?_⟩
  decide

end MemoryState

end Silifuzz
