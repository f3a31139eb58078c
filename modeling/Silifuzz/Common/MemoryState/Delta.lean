import Silifuzz.Common.MemoryState.Initial

/-!
# DeltaMemoryMappings, the positive part

The commands for the mappings of a snapshot, from the state's mappings:

* `withMapped`: the permissions a process has for those of a mapping;
* `deltaMemoryMapping_effects`: for one mapping, exactly its addresses that do
  not have these permissions yet are set to them;
* `deltaPositive_effects`: the same for all mappings of the snapshot.
-/

namespace Silifuzz

open Segments RangeMap Loops

/-- The permissions of a process where a mapping has `p` and some are added. -/
def withMapped (p added : MemoryPerms) : MemoryPerms := (p.plus added).plus (.of .kMapped)

/-- The list finds the mapping of an address. -/
theorem Describes.find {l : List MemoryMapping} {pos : PermsMap} (h : Describes l pos)
    (k : Address) : pos k = (l.find? (·.Covers k)).map (·.perms) := by
  cases found : l.find? (·.Covers k) with
  | none => exact h.uncovered k (by simpa using found)
  | some m =>
    exact h.covered m (List.mem_of_find?_eq_some found) k (by simpa using List.find?_some found)

/-- The entry found for an address has what the map says there. -/
theorem MappedMemoryMap.Represents.find {m : MappedMemoryMap} {f : PermsMap}
    (h : m.Represents f) (k : Address) : f k = (m.rep.find? (·.covers k)).map Segment.value :=
  (h.reads k).symm

/-- What the commands for a mapping with permissions `p` make of an address with `old`. -/
def wanted (added : MemoryPerms) (old : Option MemoryPerms) (p : MemoryPerms) :
    Option (Option MemoryPerms) :=
  if old = some (withMapped p added) then none else some (some (withMapped p added))

theorem wanted_getD (added p : MemoryPerms) (old : Option MemoryPerms) :
    (wanted added old p).getD old = some (withMapped p added) := by
  simp only [wanted]
  split
  · next h => exact h
  · rfl

theorem result_set (d : MemoryMapping) (p : Prop) [Decidable p] :
    MemoryMappingCmd.result ⟨d, if p then .kMap else .kProtect⟩ =
      some (d.perms.plus (.of .kMapped)) := by
  by_cases h : p <;> simp [MemoryMappingCmd.result, h]

namespace MemoryState

variable {s : MemoryState} {snapshot : SnapshotMemory} {f pos neg : PermsMap}
  {added : MemoryPerms}

theorem isEmpty_eq (hs : s.Holds f) (h : s.mappedMemoryMap.isEmpty = true) (k : Address) :
    f k = none := by
  have : s.mappedMemoryMap.rep = [] := by simpa [MappedMemoryMap.isEmpty] using h
  rw [hs.represents.find, this]
  rfl

/-- The addresses of the mapping with other permissions, or none, are set to its own. -/
theorem deltaMemoryMapping_effects (hs : s.Holds f) (m : MemoryMapping) (proper : added.Proper)
    (unmapped : added.has .kMapped = false) :
    ∃ cmds, s.deltaMemoryMapping m added = some cmds ∧
      Effects cmds fun k => if m.Covers k then wanted added (f k) m.perms else none := by
  obtain ⟨m', run, start, perms⟩ : ∃ m', m.setPerms (m.perms.plus added) = some m' ∧
      (m'.startAddress = m.startAddress ∧ m'.limitAddress = m.limitAddress) ∧
        m'.perms = m.perms.plus added :=
    ⟨⟨m.startAddress, m.numBytes, _, _, _, _, _⟩, dif_pos ⟨m.nonempty, m.bounded,
      m.proper.add proper, by rw [MemoryPerms.plus, MemoryPerms.has_add, m.unmapped, unmapped]; rfl⟩,
      ⟨rfl, rfl⟩, rfl⟩
  have covers : ∀ k, m'.Covers k ↔ m.Covers k := fun k => by simp [MemoryMapping.Covers, start]
  by_cases empty : s.mappedMemoryMap.isEmpty = true
  · refine ⟨[⟨m', .kMap⟩], by simp [deltaMemoryMapping, run, empty], Effects.single.congr fun k => ?_⟩
    simp [covers, isEmpty_eq hs empty, wanted, MemoryMappingCmd.result, perms, withMapped]
  · obtain ⟨delta, runDelta, hdelta⟩ :=
      MappedMemoryMap.empty_represents.addDifferenceOf_represents m'.start_lt_limit
        (withMapped m.perms added) hs.represents
    rw [PermsMap.empty_addMap] at hdelta
    have bounded : ∀ k, ((PermsMap.single m'.startAddress m'.limitAddress
        (withMapped m.perms added)).diff f k).isSome → k < kMaxAddress := by
      intro k hk
      by_contra beyond
      have : ¬ m'.Covers k := fun hc => beyond (hc.2.trans_le m'.bounded)
      simp [PermsMap.diff, PermsMap.single, show ¬ (_ ∧ _) from this] at hk
    obtain ⟨cmds, runs, effects⟩ := each_effects
      (fun i => do
        let d ← MemoryMapping.makeRanged i.start i.limit m'.perms
        return ⟨d, if i.value = withMapped m.perms added then .kMap else .kProtect⟩)
      (fun _ => some (withMapped m.perms added)) hdelta.separated fun i hi => by
        obtain ⟨d, run, hstart, hlimit, hperms⟩ := MemoryMapping.makeRanged_some
          (hdelta.separated.1 i hi) (hdelta.limit_le bounded hi) m'.proper m'.unmapped
        refine ⟨_, by simp [run]; rfl, hstart, hlimit, ?_⟩
        rw [result_set, hperms, perms]
        rfl
    refine ⟨cmds, ?_, effects.congr fun k => ?_⟩
    · have same : (m'.perms.plus (.of .kMapped)) = withMapped m.perms added := by
        rw [perms]
        rfl
      simp [deltaMemoryMapping, run, empty, same, runDelta, ← runs]
    · have found : (delta.rep.find? (·.covers k)).map (fun _ => some (withMapped m.perms added)) =
          ((PermsMap.single m'.startAddress m'.limitAddress (withMapped m.perms added)).diff f k).map
            fun _ => some (withMapped m.perms added) := by
        rw [hdelta.find k, Option.map_map]
        rfl
      rw [found]
      by_cases hc : m.Covers k
      · have inside : m'.startAddress ≤ k ∧ k < m'.limitAddress := (covers k).mpr hc
        rw [if_pos hc, PermsMap.diff, PermsMap.single, if_pos inside, Option.bind_some, wanted]
        cases hf : f k with
        | none => rfl
        | some v =>
          by_cases same : v = withMapped m.perms added
          · simp [same]
          · simp [same, Ne.symm same]
      · have outside : ¬ (m'.startAddress ≤ k ∧ k < m'.limitAddress) := mt (covers k).mp hc
        rw [if_neg hc, PermsMap.diff, PermsMap.single, if_neg outside]
        rfl

/-- Every address of a mapping of the snapshot gets the mapping's permissions. -/
theorem deltaPositive_effects (added : MemoryPerms) (hs : s.Holds f) (h : Describes snapshot.memoryMappings pos)
    (proper : added.Proper) (unmapped : added.has .kMapped = false) :
    ∃ cmds, s.deltaPositive snapshot added = some cmds ∧
      Effects cmds fun k => (pos k).bind (wanted added (f k)) := by
  obtain ⟨cmds, run, effects⟩ := foldlM_run (l := snapshot.memoryMappings)
    (P := fun done cmds => Effects cmds fun k =>
      (done.find? (·.Covers k)).bind fun m => wanted added (f k) m.perms)
    (f := fun result m => do return result ++ (← s.deltaMemoryMapping m added))
    (s := []) Effects.nil fun done m rest cmds hl effects => by
      obtain ⟨new, run, hnew⟩ := deltaMemoryMapping_effects hs m proper unmapped
      have apart : ∀ k, m.Covers k → done.find? (·.Covers k) = none := fun k hk => by
        rw [List.find?_eq_none]
        intro n hn
        have disjoint := h.disjoint
        rw [hl, List.pairwise_append] at disjoint
        simpa using (disjoint.2.2 n hn m (by simp)).symm.covers hk
      refine ⟨cmds ++ new, by simp [run], (effects.append hnew fun k => ?_).congr fun k => ?_⟩
      · by_cases hk : m.Covers k
        · exact .inl (by simp [apart k hk])
        · exact .inr (if_neg hk)
      · by_cases hk : m.Covers k
        · simp [List.find?_append, apart k hk, hk]
        · simp [List.find?_append, hk]
  refine ⟨cmds, run, effects.congr fun k => ?_⟩
  rw [h.find k, Option.bind_map]
  rfl

end MemoryState

end Silifuzz
