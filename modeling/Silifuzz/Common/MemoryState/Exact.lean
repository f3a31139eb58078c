import Silifuzz.Common.MemoryState.Delta

/-!
# DeltaMemoryMappingsExact

With the commands for what the snapshot does not use, a process is left with the
mappings of the snapshot alone, or with nothing it could access besides them.
-/

namespace Silifuzz

open Segments RangeMap Loops

namespace MemoryPerms

/-- Without `R`, `W` and `X`, `kMapped` alone is left. -/
theorem Proper.eq_mapped {p : MemoryPerms} (proper : p.Proper) (mapped : p.has .kMapped = true)
    (none : p.hasSomeOf .all = false) : p = .of .kMapped := by
  have one : p.permissionBits &&& 8 = 8 := by
    rw [has_bit] at mapped
    have bit := BitVec.and_twoPow p.permissionBits 3
    rwa [show p.permissionBits.getLsbD 3 = true from mapped, if_pos rfl] at bit
  have rest : p.permissionBits &&& (1 ||| 2 ||| 4) = 0 := by
    simpa [hasSomeOf, all] using none
  have other : p.permissionBits &&& ~~~(1 ||| 2 ||| 4 ||| 8) = 0 :=
    congrArg permissionBits proper
  have every : (8 ||| (1 ||| 2 ||| 4) ||| ~~~(1 ||| 2 ||| 4 ||| 8) : BitVec 32) =
      BitVec.allOnes 32 := by decide
  refine MemoryPerms.ext ?_
  calc p.permissionBits
    _ = p.permissionBits &&& (8 ||| (1 ||| 2 ||| 4) ||| ~~~(1 ||| 2 ||| 4 ||| 8)) := by
      rw [every, BitVec.and_allOnes]
    _ = (of .kMapped).permissionBits := by
      rw [BitVec.and_or_distrib_left, BitVec.and_or_distrib_left, one, rest, other]
      rfl

end MemoryPerms

namespace MemoryState

variable {s : MemoryState} {snapshot : SnapshotMemory} {f pos neg : PermsMap}
  {added : MemoryPerms}

/-- What the commands make of an address the snapshot does not use, if it had `p`. -/
def unused (mode : ExactnessMode) (p : MemoryPerms) : Option (Option MemoryPerms) :=
  match mode with
  | .kUnmapUnused => some none
  | .kProtectUnused => if p.hasSomeOf .all then some (some (.of .kMapped)) else none

theorem unusedCmd_emits (mode : ExactnessMode) {i : Segment Address MemoryPerms}
    (h : i.start < i.limit) (bounded : i.limit ≤ kMaxAddress) :
    ∃ cmds, unusedCmd mode i = some cmds ∧ Emits i cmds (unused mode i.value) := by
  cases mode with
  | kUnmapUnused =>
    obtain ⟨d, run, start, limit, _⟩ := MemoryMapping.makeRanged_some h bounded
      (show MemoryPerms.r.Proper by decide) rfl
    exact ⟨[⟨d, .kUnmap⟩], by simp [unusedCmd, run], .command start limit⟩
  | kProtectUnused =>
    by_cases access : i.value.hasSomeOf .all
    · obtain ⟨d, run, start, limit, perms⟩ := MemoryMapping.makeRanged_some h bounded
        MemoryPerms.proper_none rfl
      refine ⟨[⟨d, .kProtect⟩], by simp [unusedCmd, access, run], ?_⟩
      have result : unused .kProtectUnused i.value =
          some (MemoryMappingCmd.result ⟨d, .kProtect⟩) := by
        simp [unused, access, MemoryMappingCmd.result, perms, MemoryPerms.plus]
      exact result ▸ .command start limit
    · refine ⟨[], by simp [unusedCmd, access], ?_⟩
      simp only [unused, if_neg access]
      exact .nothing

/-- The commands set what the snapshot maps and drop what only the state maps. -/
theorem deltaMemoryMappingsExact_effects (hs : s.Holds f) (hsnap : snapshot.Holds pos neg)
    (proper : added.Proper) (unmapped : added.has .kMapped = false) (mode : ExactnessMode) :
    ∃ cmds, s.deltaMemoryMappingsExact snapshot added mode = some cmds ∧ Effects cmds fun k =>
      match pos k with
      | some p => wanted added (f k) p
      | none => (f k).bind (unused mode) := by
  obtain ⟨result, run, effects⟩ := deltaPositive_effects added hs hsnap.mappings proper unmapped
  by_cases empty : s.mappedMemoryMap.isEmpty = true
  · refine ⟨result, by simp [deltaMemoryMappingsExact, run, empty], effects.congr fun k => ?_⟩
    rw [isEmpty_eq hs empty]
    cases pos k <;> rfl
  · obtain ⟨toRemove, runRemove, hremove⟩ :=
      hs.represents.removeRangesOf_represents hsnap.mapped .allPlusMapped
    have rest : ∀ k, f.removeRangesOf pos .allPlusMapped k = if (pos k).isSome then none else f k :=
      hs.ofProcess.proper.removeRangesOf_all pos
    obtain ⟨lists, runs, removed⟩ := ranges_effects (unusedCmd mode)
      (fun i => unused mode i.value) hremove.separated fun i hi =>
        unusedCmd_emits mode (hremove.separated.1 i hi) <| hremove.limit_le (fun k hk => by
          rw [rest] at hk
          split at hk
          · cases hk
          · exact hs.ofProcess.bounded k hk) hi
    have removed : Effects lists.flatten fun k =>
        if (pos k).isSome then none else (f k).bind (unused mode) := removed.congr fun k => by
        have : (toRemove.rep.find? (·.covers k)).bind (fun i => unused mode i.value) =
            (f.removeRangesOf pos .allPlusMapped k).bind (unused mode) := by
          rw [hremove.find k, Option.bind_map]
          rfl
        rw [this, rest]
        split <;> rfl
    refine ⟨result ++ lists.flatten, by simp [deltaMemoryMappingsExact, run, empty, runRemove, runs],
      (effects.append removed fun k => ?_).congr fun k => ?_⟩
    all_goals cases pos k <;> simp

/-- What the commands leave at an address: the permissions of the snapshot's mapping,
and elsewhere what the mode says about an address that had `old`. -/
def exactly (snapshot : SnapshotMemory) (added : MemoryPerms) (mode : ExactnessMode)
    (k : Address) (old : Option MemoryPerms) : Option MemoryPerms :=
  match snapshot.memoryMappings.find? (·.Covers k), mode with
  | some m, _ => some (withMapped m.perms added)
  | none, .kUnmapUnused => none
  | none, .kProtectUnused => old.map fun _ => .of .kMapped

theorem unused_getD (hf : f.OfProcess) (mode : ExactnessMode) (k : Address) :
    ((f k).bind (unused mode)).getD (f k) =
      match mode with
      | .kUnmapUnused => none
      | .kProtectUnused => (f k).map fun _ => .of .kMapped := by
  cases hk : f k with
  | none => cases mode <;> rfl
  | some p =>
    cases mode with
    | kUnmapUnused => rfl
    | kProtectUnused =>
      by_cases access : p.hasSomeOf .all
      · simp [unused, access]
      · have alone := (hf.proper k p hk).eq_mapped (hf.mapped k p hk)
          (Bool.eq_false_iff.mpr access)
        rw [Option.bind_some, unused, if_neg access, Option.getD_none, Option.map_some, alone]

/-- **The commands leave exactly the snapshot.** From every state the commands of
`DeltaMemoryMappingsExact` are disjoint and can be executed; then each address of a
mapping of the snapshot has the mapping's permissions, and any other is unmapped or,
in the other mode, without access. -/
theorem deltaMemoryMappingsExact_exact (reach : Reachable s)
    (reachSnapshot : SnapshotMemory.Reachable snapshot) (proper : added.Proper)
    (unmapped : added.has .kMapped = false) (mode : ExactnessMode) :
    ∃ cmds s', s.deltaMemoryMappingsExact snapshot added mode = some cmds ∧
      cmds.foldlM execute s = some s' ∧
      cmds.Pairwise (fun a b => a.mapping.Disjoint b.mapping) ∧
      ∀ k, s'.mappedMemoryMap.read k =
        exactly snapshot added mode k (s.mappedMemoryMap.read k) := by
  obtain ⟨f, hs⟩ := reachable_holds reach
  obtain ⟨pos, neg, hsnap⟩ := SnapshotMemory.reachable_holds reachSnapshot
  obtain ⟨cmds, delta, effects⟩ :=
    deltaMemoryMappingsExact_effects hs hsnap proper unmapped mode
  obtain ⟨s', run, hs'⟩ := effects.run hs
  refine ⟨cmds, s', delta, run, effects.disjoint, fun k => ?_⟩
  rw [hs'.represents.read_eq, hs.represents.read_eq]
  simp only [exactly, hsnap.mappings.find k]
  cases snapshot.memoryMappings.find? (·.Covers k) with
  | some m => exact wanted_getD added m.perms (f k)
  | none =>
    cases mode with
    | kUnmapUnused => exact unused_getD hs.ofProcess .kUnmapUnused k
    | kProtectUnused => exact unused_getD hs.ofProcess .kProtectUnused k

/-- A process with two pages, of which the snapshot uses the second with other permissions. -/
theorem deltaMemoryMappingsExact_exact_overlap :
    let page : MemoryMapping := ⟨0x2000, 0x1000, .xr, by decide, by decide, by decide, rfl⟩
    let s : MemoryState := ⟨⟨[⟨0x1000, 0x3000, ⟨0b1011⟩⟩]⟩, .empty, []⟩
    let snapshot : SnapshotMemory :=
      ⟨.kX86_64, ⟨[⟨0x2000, 0x3000, .xr⟩]⟩, .empty, .empty, [page], [], []⟩
    ∃ cmds s', s.deltaMemoryMappingsExact snapshot .none .kProtectUnused = some cmds ∧
      cmds.foldlM execute s = some s' ∧
      cmds.Pairwise (fun a b => a.mapping.Disjoint b.mapping) ∧
      ∀ k, s'.mappedMemoryMap.read k =
        exactly snapshot .none .kProtectUnused k (s.mappedMemoryMap.read k) := by
  have set : empty.setMemoryMapping
      ⟨0x1000, 0x2000, .rw, by decide, by decide, by decide, rfl⟩ =
        some ⟨⟨[⟨0x1000, 0x3000, ⟨0b1011⟩⟩]⟩, .empty, []⟩ := rfl
  have can : (SnapshotMemory.new .kX86_64).canAddMemoryMapping
      ⟨0x2000, 0x1000, .xr, by decide, by decide, by decide, rfl⟩ = some (.ok ()) := rfl
  exact deltaMemoryMappingsExact_exact (.next .empty (.setMemoryMapping _ rfl set))
    (.next (.new .kX86_64) (.addMemoryMapping _ can rfl)) (by decide) rfl .kProtectUnused

end MemoryState

end Silifuzz
