import Silifuzz.Common.MemoryState.Commands

/-!
# The initial state of a snapshot

`SetInitialState` and the two mutators that clear what a snapshot does not use:

* `PermsMap.initial`: what a process has after `SetInitialState`;
* `setInitialState_holds`: it runs from every state, and makes that of it;
* `reachable_holds`: the invariant over all runs.
-/

namespace Silifuzz

open Segments RangeMap Loops

namespace PermsMap

/-- What is mapped after `SetInitialState`: a mapping of the snapshot has its permissions,
and elsewhere those of the negative mappings are gone. -/
def initial (f pos neg : PermsMap) : PermsMap := fun k =>
  match pos k, neg k with
  | some p, _ => some (p.plus (.of .kMapped))
  | none, some q => (f k).map (·.clear q)
  | none, none => f k

/-- The permissions of `f` that the negative mappings forbid. -/
def taken (f pos neg : PermsMap) : PermsMap := f.inter (neg.removeRangesOf pos .allPlusMapped)

variable {f pos neg : PermsMap} {k : Address}

theorem taken_positive (hn : neg.Proper) (h : (pos k).isSome) : taken f pos neg k = none := by
  simp only [taken, inter, hn.removeRangesOf_all, h, if_true]
  cases f k <;> rfl

theorem taken_negative (hn : neg.Proper) (h : pos k = none) :
    taken f pos neg k = f.inter neg k := by
  simp [taken, inter, hn.removeRangesOf_all, h]

/-- Besides the mappings, what is taken is all that has to be cleared. -/
theorem initial_taken (hn : neg.Proper) (hp : pos k = none) :
    initial f pos neg k = match taken f pos neg k with
      | none => f k
      | some v => (f k).map (·.clear v) := by
  rw [taken_negative hn hp, initial, hp, inter]
  cases hf : f k with
  | none => cases neg k <;> rfl
  | some a =>
    cases hq : neg k with
    | none => rfl
    | some q =>
      by_cases none : a.intersect q = .none
      · simp [none, MemoryPerms.clear_of_disjoint none]
      · simp [keep, none, MemoryPerms.clear_intersect]

/-- Clearing what is taken, with the mappings set. -/
theorem clear_taken (hn : neg.Proper) :
    let f₁ : PermsMap := fun k => ((pos k).map fun p => some (p.plus (.of .kMapped))).getD (f k)
    initial f pos neg k = match taken f₁ pos neg k with
      | none => f₁ k
      | some v => (f₁ k).map (·.clear v) := by
  intro f₁
  cases hp : pos k with
  | some p =>
    rw [taken_positive hn (by simp [hp])]
    simp [f₁, initial, hp]
  | none =>
    rw [← initial_taken hn hp, initial, initial, hp]
    simp [f₁, hp]

/-- What may be taken never includes `kMapped`. -/
theorem taken_unmapped (hn : neg.Mapped) {v : MemoryPerms} (h : taken f pos neg k = some v) :
    v.has .kMapped = false := by
  obtain ⟨a, _, h⟩ := Option.bind_eq_some_iff.mp h
  obtain ⟨q, hq, h⟩ := Option.bind_eq_some_iff.mp h
  rw [hn.proper.removeRangesOf_all] at hq
  split at hq
  · cases hq
  · simp only [keep] at h
    split at h
    · cases h
    · rw [← Option.some.inj h, MemoryPerms.has_intersect, hn.unmapped k q hq, Bool.and_false]

end PermsMap

/-- Mapping each mapping of a list. -/
theorem Describes.effects {l : List MemoryMapping} {pos : PermsMap} (h : Describes l pos) :
    Effects (l.map (⟨·, .kMap⟩)) fun k => (pos k).map fun p => some (p.plus (.of .kMapped)) := by
  refine ⟨List.pairwise_map.mpr h.disjoint, fun k => ?_⟩
  cases found : l.find? (·.Covers k) with
  | none =>
    have : pos k = none := h.uncovered k (by simpa using found)
    simpa [effect, this, List.find?_map, Function.comp_def] using found
  | some m =>
    have covers : m.Covers k := by simpa using List.find?_some found
    rw [h.covered m (List.mem_of_find?_eq_some found) k covers]
    have first : (l.map fun m => ⟨m, .kMap⟩ : List MemoryMappingCmd).find?
        (·.mapping.Covers k) = some ⟨m, .kMap⟩ := by
      rw [List.find?_map]
      exact congrArg (Option.map _) found
    rw [effect, first]
    rfl

namespace MemoryState

variable {s s' : MemoryState} {snapshot : SnapshotMemory} {f pos neg : PermsMap}

theorem setMemoryMappings_holds {l : List MemoryMapping} (hs : s.Holds f) (h : Describes l pos) :
    ∃ s', l.foldlM setMemoryMapping s = some s' ∧
      s'.Holds fun k => ((pos k).map fun p => some (p.plus (.of .kMapped))).getD (f k) := by
  obtain ⟨s', run, hs'⟩ := h.effects.run hs
  rw [List.foldlM_map] at run
  exact ⟨s', run, hs'⟩

/-- Taking permissions away entry by entry, none of them `kMapped`. -/
theorem removeEachPerms_holds {m : MappedMemoryMap} {d : PermsMap} (hs : s.Holds f)
    (hm : m.Represents d) (unmapped : ∀ k, ∀ v ∈ d k, v.has .kMapped = false) :
    ∃ s', m.rep.foldlM (fun s i => removePerms s i.start i.limit i.value) s = some s' ∧
      s'.Holds fun k => match d k with
        | none => f k
        | some v => (f k).map (·.clear v) := by
  simp only [← hm.reads]
  refine foldlM_run (P := fun done s => MemoryState.Holds s fun k =>
    match memoryPerms.lookup done k with
    | none => f k
    | some v => (f k).map (·.clear v)) (by simpa [Lawful.lookup] using hs)
    fun done i rest s hl hs => ?_
  have hi : i ∈ m.rep := by simp [hl]
  have lt := hm.separated.1 i hi
  have plain := unmapped i.start i.value (hm.entry hi ⟨le_rfl, lt⟩)
  obtain ⟨s', run, hs'⟩ := removePerms_holds hs lt plain
  refine ⟨s', run, ?_⟩
  convert hs' using 1
  funext k
  rw [hs.ofProcess.remove_eq plain]
  by_cases hk : i.start ≤ k ∧ k < i.limit
  · have free : memoryPerms.lookup done k = none :=
      (lookup_done (hl ▸ hm.separated)).resolve_right (not_not_intro hk)
    simp [lookup_snoc, free, hk]
  · simp [lookup_snoc, hk]

/-- Calling `ZeroBytes` for every entry of a map. -/
theorem zeroEach_holds {m : MappedMemoryMap} {d : PermsMap} (hs : s.Holds f)
    (hm : m.Represents d) (bounded : ∀ k, (d k).isSome → k < kMaxAddress) :
    ∃ s', m.rep.foldlM (fun s i => zeroBytes s i.start i.limit) s = some s' ∧ s'.Holds f :=
  foldlM_run (P := fun _ s => MemoryState.Holds s f) hs fun done i rest s hl hs =>
    have hi : i ∈ m.rep := by simp [hl]
    zeroBytes_holds hs (hm.separated.1 i hi) (hm.limit_le bounded hi)

/-- From every state `SetInitialState` runs, and leaves what the snapshot asks for mapped. -/
theorem setInitialState_holds (hs : s.Holds f) (hsnap : snapshot.Holds pos neg)
    (zeroing : MappedZeroing) :
    ∃ s', s.setInitialState snapshot zeroing = some s' ∧ s'.Holds (f.initial pos neg) := by
  have proper := hsnap.negativeMappings.mapped.proper
  obtain ⟨fresh, run₀, hfresh⟩ := hsnap.mapped.removeRangesOf_represents hs.represents .allPlusMapped
  obtain ⟨s₁, run₁, hs₁⟩ := setMemoryMappings_holds hs hsnap.mappings
  obtain ⟨filtered, run₂, hfiltered⟩ :=
    hsnap.negativeMapped.removeRangesOf_represents hsnap.mapped .allPlusMapped
  obtain ⟨delta, run₃, hdelta⟩ :=
    MappedMemoryMap.empty_represents.addIntersectionOf_represents hs₁.represents hfiltered
  rw [PermsMap.empty_addMap] at hdelta
  obtain ⟨s₂, run₄, hs₂⟩ := removeEachPerms_holds hs₁ hdelta fun k v =>
    PermsMap.taken_unmapped hsnap.negativeMappings.mapped
  have bounded : ∀ k, (pos.removeRangesOf f .allPlusMapped k).isSome → k < kMaxAddress := by
    intro k hk
    rw [hsnap.mappings.mapped.proper.removeRangesOf_all] at hk
    split at hk
    · cases hk
    · exact hsnap.mappings.mapped.bounded k hk
  have hs₂ : s₂.Holds (f.initial pos neg) := by
    convert hs₂ using 1
    exact funext fun k => PermsMap.clear_taken proper
  obtain ⟨s₃, run₅, hs₃⟩ := zeroEach_holds hs₂ hfresh bounded
  -- bytes leave what is mapped alone, so both kinds of zeroing end in the same mappings
  have final : ∀ s : MemoryState, s.Holds (f.initial pos neg) →
      ∃ s', snapshot.memoryBytes.foldlM setMemoryBytes s = some s' ∧
        s'.Holds (f.initial pos neg) := fun s hs =>
    foldlM_run (P := fun _ s => MemoryState.Holds s (f.initial pos neg)) hs
      fun _ x _ _ _ hs => setMemoryBytes_holds hs x
  cases zeroing with
  | kZeroMappedBytes =>
    obtain ⟨s₄, run₆, hs₄⟩ := final s₃ hs₃
    exact ⟨s₄, by simp [setInitialState, run₀, run₁, run₂, run₃, run₄, run₅, run₆], hs₄⟩
  | kIgnoreMappedBytes =>
    obtain ⟨s₄, run₆, hs₄⟩ := final s₂ hs₂
    exact ⟨s₄, by simp [setInitialState, run₀, run₁, run₂, run₃, run₄, run₆], hs₄⟩

theorem removeMemoryMappingsNotIn_holds (hs : s.Holds f) (hsnap : snapshot.Holds pos neg) :
    ∃ s' f', s.removeMemoryMappingsNotIn snapshot = some s' ∧ s'.Holds f' := by
  obtain ⟨extra, run, hextra⟩ :=
    hs.represents.removeRangesOf_represents hsnap.mapped .allPlusMapped
  obtain ⟨s', runs, f', hs'⟩ := foldlM_run (l := extra.rep)
    (f := fun s i => removeMemoryMapping s i.start i.limit)
    (P := fun _ s => ∃ f, MemoryState.Holds s f) ⟨f, hs⟩ fun done i rest s hl ⟨f, hs⟩ => by
      obtain ⟨s', run, hs'⟩ := removeMemoryMapping_holds hs (hextra.separated.1 i (by simp [hl]))
      exact ⟨s', run, _, hs'⟩
  exact ⟨s', f', by simp [removeMemoryMappingsNotIn, run, runs], hs'⟩

theorem clearMemoryMappingsPermsNotIn_holds (hs : s.Holds f) (hsnap : snapshot.Holds pos neg) :
    ∃ s' f', s.clearMemoryMappingsPermsNotIn snapshot = some s' ∧ s'.Holds f' := by
  obtain ⟨extra, run, hextra⟩ :=
    hs.represents.removeRangesOf_represents hsnap.mapped .allPlusMapped
  obtain ⟨s', runs, f', hs'⟩ := foldlM_run (l := extra.rep)
    (f := fun s i => removePerms s i.start i.limit .all)
    (P := fun _ s => ∃ f, MemoryState.Holds s f) ⟨f, hs⟩ fun done i rest s hl ⟨f, hs⟩ => by
      obtain ⟨s', run, hs'⟩ := removePerms_holds (p := .all) hs
        (hextra.separated.1 i (by simp [hl])) rfl
      exact ⟨s', run, _, hs'⟩
  exact ⟨s', f', by simp [clearMemoryMappingsPermsNotIn, run, runs], hs'⟩

/-- A mutator that runs and keeps the invariant keeps it in the state it ran to. -/
theorem holds_ran {run : Option MemoryState} (h : ∃ s', run = some s' ∧ s'.Holds f)
    (eq : run = some s') : ∃ f, s'.Holds f := by
  obtain ⟨t, ran, ht⟩ := h
  obtain rfl : t = s' := Option.some.inj (ran.symm.trans eq)
  exact ⟨f, ht⟩

/-- Every mutator keeps the invariant. -/
theorem step_holds (h : Step s s') (hs : s.Holds f) : ∃ f, s'.Holds f := by
  cases h with
  | addNewMemoryMapping m _ new run => exact holds_ran (addNewMemoryMapping_holds hs m new) run
  | setMemoryMapping m _ run => exact holds_ran (setMemoryMapping_holds hs m) run
  | setMemoryMappingEmptyPermsOk m run => exact holds_ran (setMemoryMapping_holds hs m) run
  | removeMemoryMapping start limit lt run => exact holds_ran (removeMemoryMapping_holds hs lt) run
  | removeMemoryMappingsNotIn snapshot reach run =>
    obtain ⟨pos, neg, hsnap⟩ := SnapshotMemory.reachable_holds reach
    obtain ⟨t, f', ran, ht⟩ := removeMemoryMappingsNotIn_holds hs hsnap
    exact holds_ran ⟨t, ran, ht⟩ run
  | clearMemoryMappingsPermsNotIn snapshot reach run =>
    obtain ⟨pos, neg, hsnap⟩ := SnapshotMemory.reachable_holds reach
    obtain ⟨t, f', ran, ht⟩ := clearMemoryMappingsPermsNotIn_holds hs hsnap
    exact holds_ran ⟨t, ran, ht⟩ run
  | setMemoryBytes bytes _ run => exact holds_ran (setMemoryBytes_holds hs bytes) run
  | forgetMemoryBytes start limit lt run => exact holds_ran (forgetMemoryBytes_holds hs lt) run
  | zeroMappedMemoryBytes m _ _ run =>
    exact holds_ran (zeroBytes_holds hs m.start_lt_limit m.bounded) run
  | setInitialState snapshot zeroing reach run =>
    obtain ⟨pos, neg, hsnap⟩ := SnapshotMemory.reachable_holds reach
    exact holds_ran (setInitialState_holds hs hsnap zeroing) run

theorem reachable_holds (h : Reachable s) : ∃ f, s.Holds f := by
  induction h with
  | empty => exact ⟨_, empty_holds⟩
  | next _ step ih =>
    obtain ⟨f, hs⟩ := ih
    exact step_holds step hs

end MemoryState

end Silifuzz
