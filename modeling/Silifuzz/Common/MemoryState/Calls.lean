import Silifuzz.Common.MemoryState.Bytes

/-!
# Runs of MemoryState mutators

* `Call`: the mutators with what they require;
* `Knows`: what is mapped, written and stored in a state, over all runs;
* `Consistent`: the three representations agree, in terms of the fields;
* `runs_consistent`: exactly the calls of `ForgetMemoryBytes` on known bytes break that.
-/

namespace Silifuzz

open Segments RangeMap Loops

namespace MemoryState

/-- A mutator with its arguments. -/
inductive Call where
  | addNewMemoryMapping (m : MemoryMapping)
  | setMemoryMapping (m : MemoryMapping)
  | setMemoryMappingEmptyPermsOk (m : MemoryMapping)
  | removeMemoryMapping (start limit : Address)
  | removeMemoryMappingsNotIn (snapshot : SnapshotMemory)
  | clearMemoryMappingsPermsNotIn (snapshot : SnapshotMemory)
  | setMemoryBytes (bytes : MemoryBytes)
  | forgetMemoryBytes (start limit : Address)
  | zeroMappedMemoryBytes (m : MemoryMapping)
  | setInitialState (snapshot : SnapshotMemory) (zeroing : MappedZeroing)

/-- The REQUIRES of each mutator. -/
def Call.Requires (s : MemoryState) : Call → Prop
  | addNewMemoryMapping m => m.perms.isEmpty = false ∧
    s.mappedMemoryMap.overlaps m.startAddress m.limitAddress = some false
  | setMemoryMapping m => m.perms.isEmpty = false
  | setMemoryMappingEmptyPermsOk _ => True
  | removeMemoryMapping start limit | forgetMemoryBytes start limit => start < limit
  | removeMemoryMappingsNotIn snapshot | clearMemoryMappingsPermsNotIn snapshot =>
    SnapshotMemory.Reachable snapshot
  | setMemoryBytes bytes =>
    s.mappedMemoryMap.containsRange bytes.startAddress bytes.limitAddress = some true
  | zeroMappedMemoryBytes m => m.perms.isEmpty = false ∧
    s.mappedMemoryMap.containsRange m.startAddress m.limitAddress = some true
  | setInitialState snapshot _ => SnapshotMemory.Reachable snapshot

def Call.run (s : MemoryState) : Call → Option MemoryState
  | addNewMemoryMapping m => s.addNewMemoryMapping m
  | setMemoryMapping m => s.setMemoryMapping m
  | setMemoryMappingEmptyPermsOk m => s.setMemoryMappingEmptyPermsOk m
  | removeMemoryMapping start limit => s.removeMemoryMapping start limit
  | removeMemoryMappingsNotIn snapshot => s.removeMemoryMappingsNotIn snapshot
  | clearMemoryMappingsPermsNotIn snapshot => s.clearMemoryMappingsPermsNotIn snapshot
  | setMemoryBytes bytes => s.setMemoryBytes bytes
  | forgetMemoryBytes start limit => s.forgetMemoryBytes start limit
  | zeroMappedMemoryBytes m => s.zeroMappedMemoryBytes m
  | setInitialState snapshot zeroing => s.setInitialState snapshot zeroing

/-- `ForgetMemoryBytes` forgets no known byte. -/
def Call.Harmless (s : MemoryState) : Call → Prop
  | forgetMemoryBytes start limit =>
    ∀ k, start ≤ k → k < limit → RangeMap.findAt s.writtenMemoryBytes k = none
  | _ => True

/-- What is mapped, written and stored: stored bytes are written, and written ones mapped. -/
structure Knows (s : MemoryState) (f : PermsMap) (w : Address → Bool) (b : BytesMap) : Prop
    extends s.Holds f, s.Bytes w b where
  storedWritten : ∀ k, (b k).isSome → w k = true
  writtenMapped : ∀ k, w k = true → (f k).isSome

/-- The written set is the stored bytes. -/
def Same (w : Address → Bool) (b : BytesMap) : Prop := ∀ k, w k = (b k).isSome

variable {s s' : MemoryState} {f f' : PermsMap} {w : Address → Bool} {b : BytesMap}
  {start limit : Address} {p : MemoryPerms} {m : MemoryMapping} {x : MemoryBytes}

theorem empty_knows : empty.Knows PermsMap.empty (fun _ => false) fun _ => none :=
  ⟨empty_holds, empty_bytes, by simp, by simp⟩

/-- A mutator of the mappings that keeps what is mapped. -/
theorem Knows.frame (hs : s.Knows f w b) (holds : s'.Holds f') (same : SameBytes s s')
    (more : ∀ k, (f k).isSome → (f' k).isSome) : s'.Knows f' w b :=
  ⟨holds, same.bytes hs.toBytes, hs.storedWritten, fun k hk => more k (hs.writtenMapped k hk)⟩

theorem set_more (f : PermsMap) (m : MemoryMapping) (k : Address) (h : (f k).isSome) :
    (f.set m.startAddress m.limitAddress p k).isSome := by
  unfold PermsMap.set
  split
  · rfl
  · exact h

theorem setMemoryMapping_knows (hs : s.Knows f w b) (m : MemoryMapping) :
    ∃ s', s.setMemoryMappingEmptyPermsOk m = some s' ∧ ∃ f, s'.Knows f w b := by
  obtain ⟨s', run, holds⟩ := setMemoryMapping_holds hs.toHolds m
  exact ⟨s', run, _, hs.frame holds (setMemoryMapping_same run) fun k => set_more f m k⟩

theorem addNewMemoryMapping_knows (hs : s.Knows f w b)
    (new : s.mappedMemoryMap.overlaps m.startAddress m.limitAddress = some false) :
    ∃ s', s.addNewMemoryMapping m = some s' ∧ ∃ f, s'.Knows f w b := by
  obtain ⟨s', run, holds⟩ := addNewMemoryMapping_holds hs.toHolds m new
  exact ⟨s', run, _, hs.frame holds (addNewMemoryMapping_same run) fun k => set_more f m k⟩

theorem removePerms_knows (hs : s.Knows f w b) (h : start < limit)
    (hp : p.has .kMapped = false) :
    ∃ s', s.removePerms start limit p = some s' ∧ ∃ f, s'.Knows f w b := by
  obtain ⟨s', run, holds⟩ := removePerms_holds hs.toHolds h hp
  refine ⟨s', run, _, hs.frame holds (removePerms_same run) fun k hk => ?_⟩
  rw [hs.ofProcess.remove_eq hp]
  split
  · rwa [Option.isSome_map]
  · exact hk

theorem removeMemoryMapping_knows (hs : s.Knows f w b) (h : start < limit) :
    ∃ s', s.removeMemoryMapping start limit = some s' ∧
      ∃ f w' b', s'.Knows f w' b' ∧ (Same w b → Same w' b') := by
  obtain ⟨s', run, holds⟩ := removeMemoryMapping_holds hs.toHolds h
  refine ⟨s', run, _, _, _, ⟨holds, removeMemoryMapping_bytes hs.toBytes h run, fun k hk => ?_,
    fun k hk => ?_⟩, fun same k => ?_⟩
  · by_cases inside : start ≤ k ∧ k < limit
    · simp [inside] at hk
    · simp only [inside, if_false, decide_false, Bool.not_false, Bool.and_true] at hk ⊢
      exact hs.storedWritten k hk
  · rw [hs.ofProcess.proper.remove_all]
    by_cases inside : start ≤ k ∧ k < limit
    · simp [inside] at hk
    · simp only [inside, if_false, decide_false, Bool.not_false, Bool.and_true] at hk ⊢
      exact hs.writtenMapped k hk
  · by_cases inside : start ≤ k ∧ k < limit
    · simp [inside]
    · simp only [inside, if_false, decide_false, Bool.not_false, Bool.and_true]
      exact same k

theorem removeMemoryMappingsNotIn_knows {snapshot : SnapshotMemory} {pos neg : PermsMap}
    (hs : s.Knows f w b) (hsnap : snapshot.Holds pos neg) :
    ∃ s', s.removeMemoryMappingsNotIn snapshot = some s' ∧
      ∃ f w' b', s'.Knows f w' b' ∧ (Same w b → Same w' b') := by
  obtain ⟨extra, run, hextra⟩ :=
    hs.represents.removeRangesOf_represents hsnap.mapped .allPlusMapped
  obtain ⟨s', runs, after⟩ := foldlM_run (l := extra.rep)
    (f := fun s i => removeMemoryMapping s i.start i.limit)
    (P := fun _ t => ∃ f w' b', MemoryState.Knows t f w' b' ∧ (Same w b → Same w' b'))
    ⟨f, w, b, hs, id⟩ fun done i rest t hl ⟨f, w₁, b₁, ht, same⟩ => by
      obtain ⟨t', run, f', w', b', ht', next⟩ :=
        removeMemoryMapping_knows ht (hextra.separated.1 i (by simp [hl]))
      exact ⟨t', run, f', w', b', ht', next ∘ same⟩
  exact ⟨s', by simp [removeMemoryMappingsNotIn, run, runs], after⟩

theorem clearMemoryMappingsPermsNotIn_knows {snapshot : SnapshotMemory} {pos neg : PermsMap}
    (hs : s.Knows f w b) (hsnap : snapshot.Holds pos neg) :
    ∃ s', s.clearMemoryMappingsPermsNotIn snapshot = some s' ∧ ∃ f, s'.Knows f w b := by
  obtain ⟨extra, run, hextra⟩ :=
    hs.represents.removeRangesOf_represents hsnap.mapped .allPlusMapped
  obtain ⟨s', runs, after⟩ := foldlM_run (l := extra.rep)
    (f := fun s i => removePerms s i.start i.limit .all)
    (P := fun _ t => ∃ f, MemoryState.Knows t f w b) ⟨f, hs⟩
    fun done i rest t hl ⟨f, ht⟩ =>
      removePerms_knows (p := .all) ht (hextra.separated.1 i (by simp [hl])) rfl
  exact ⟨s', by simp [clearMemoryMappingsPermsNotIn, run, runs], after⟩

theorem setMemoryBytes_knows (hs : s.Knows f w b)
    (mapped : ∀ k, x.Covers k → (f k).isSome) :
    ∃ s', s.setMemoryBytes x = some s' ∧
      ∃ w' b', s'.Knows f w' b' ∧ (Same w b → Same w' b') := by
  obtain ⟨s', run, holds⟩ := setMemoryBytes_holds hs.toHolds x
  refine ⟨s', run, _, _, ⟨holds, setMemoryBytes_bytes hs.toBytes run, fun k hk => ?_,
    fun k hk => ?_⟩, fun same k => ?_⟩
  · by_cases inside : x.Covers k
    · simp [inside]
    · simp only [inside, if_false, decide_false, Bool.or_false] at hk ⊢
      exact hs.storedWritten k hk
  · by_cases inside : x.Covers k
    · exact mapped k inside
    · simp only [inside, decide_false, Bool.or_false] at hk
      exact hs.writtenMapped k hk
  · by_cases inside : x.Covers k
    · simp [inside]
    · simp only [inside, if_false, decide_false, Bool.or_false]
      exact same k

/-- What is left after forgetting a range. -/
theorem forgetMemoryBytes_knows (hs : s.Knows f w b) (h : start < limit) :
    ∃ s', s.forgetMemoryBytes start limit = some s' ∧
      s'.Knows f w fun k => if start ≤ k ∧ k < limit then none else b k := by
  obtain ⟨s', run, holds⟩ := forgetMemoryBytes_holds hs.toHolds h
  refine ⟨s', run, holds, forgetMemoryBytes_bytes hs.toBytes h run, fun k hk => ?_,
    hs.writtenMapped⟩
  by_cases inside : start ≤ k ∧ k < limit
  · simp [inside] at hk
  · rw [if_neg inside] at hk
    exact hs.storedWritten k hk

theorem setInitialState_knows {snapshot : SnapshotMemory} {pos neg : PermsMap} {sb : BytesMap}
    (zeroing : MappedZeroing) (hs : s.Knows f w b) (hsnap : snapshot.Keeps pos neg sb) :
    ∃ s', s.setInitialState snapshot zeroing = some s' ∧
      ∃ f' w' b', s'.Knows f' w' b' ∧ (Same w b → Same w' b') := by
  obtain ⟨s', run, holds⟩ := setInitialState_holds hs.toHolds hsnap.toHolds zeroing
  have bytes := setInitialState_bytes hs.toHolds hsnap hs.toBytes run
  -- what the snapshot maps and what was mapped is mapped
  have mapped : ∀ k, (pos k).isSome ∨ (f k).isSome → (f.initial pos neg k).isSome := by
    intro k either
    unfold PermsMap.initial
    cases hp : pos k with
    | some p => rfl
    | none =>
      have : (f k).isSome := by simpa [hp] using either
      cases neg k with
      | none => exact this
      | some q => simpa using this
  refine ⟨s', run, _, _, _, ⟨holds, bytes, fun k hk => ?_, fun k hk => ?_⟩, fun same k => ?_⟩
  · cases hsb : sb k with
    | some v => simp
    | none =>
      rw [hsb, Option.none_or] at hk
      cases hz : zeroed zeroing f pos k with
      | true => simp
      | false =>
        rw [hz] at hk
        simp [hs.storedWritten k hk]
  · simp only [Bool.or_eq_true] at hk
    rcases hk with (hk | hk) | hk
    · exact mapped k (.inr (hs.writtenMapped k hk))
    · simp only [zeroed, Bool.and_eq_true] at hk
      exact mapped k (.inl hk.1.2)
    · exact mapped k (.inl (hsnap.mappedBytes k hk))
  · rw [same k]
    cases sb k <;> cases zeroed zeroing f pos k <;> simp

theorem findAt_eq (hs : s.Bytes w b) (k : Address) :
    (RangeMap.findAt s.writtenMemoryBytes k).isSome = (b k).isSome := by
  rw [← hs.stored.reads, findAt_find hs.stored.separated, Lawful.lookup, lookup,
    Option.isSome_map]

/-- Every call runs, and keeps the written set and the stored bytes the same exactly
when it is harmless. -/
theorem call_knows (hs : s.Knows f w b) {c : Call} (requires : c.Requires s) :
    ∃ s', c.run s = some s' ∧ ∃ f' w' b', s'.Knows f' w' b' ∧
      (Same w b → (c.Harmless s ↔ Same w' b')) := by
  cases c with
  | addNewMemoryMapping m =>
    obtain ⟨s', run, f', hs'⟩ := addNewMemoryMapping_knows hs requires.2
    exact ⟨s', run, f', w, b, hs', fun same => iff_of_true trivial same⟩
  | setMemoryMapping m =>
    obtain ⟨s', run, f', hs'⟩ := setMemoryMapping_knows hs m
    exact ⟨s', run, f', w, b, hs', fun same => iff_of_true trivial same⟩
  | setMemoryMappingEmptyPermsOk m =>
    obtain ⟨s', run, f', hs'⟩ := setMemoryMapping_knows hs m
    exact ⟨s', run, f', w, b, hs', fun same => iff_of_true trivial same⟩
  | removeMemoryMapping start limit =>
    obtain ⟨s', run, f', w', b', hs', next⟩ := removeMemoryMapping_knows hs requires
    exact ⟨s', run, f', w', b', hs', fun same => iff_of_true trivial (next same)⟩
  | removeMemoryMappingsNotIn snapshot =>
    obtain ⟨pos, neg, hsnap⟩ := SnapshotMemory.reachable_holds requires
    obtain ⟨s', run, f', w', b', hs', next⟩ := removeMemoryMappingsNotIn_knows hs hsnap
    exact ⟨s', run, f', w', b', hs', fun same => iff_of_true trivial (next same)⟩
  | clearMemoryMappingsPermsNotIn snapshot =>
    obtain ⟨pos, neg, hsnap⟩ := SnapshotMemory.reachable_holds requires
    obtain ⟨s', run, f', hs'⟩ := clearMemoryMappingsPermsNotIn_knows hs hsnap
    exact ⟨s', run, f', w, b, hs', fun same => iff_of_true trivial same⟩
  | setMemoryBytes x =>
    obtain ⟨s', run, w', b', hs', next⟩ := setMemoryBytes_knows hs fun k hk =>
      SnapshotMemory.containsRange_mapped hs.represents requires hk
    exact ⟨s', run, f, w', b', hs', fun same => iff_of_true trivial (next same)⟩
  | forgetMemoryBytes start limit =>
    obtain ⟨s', run, hs'⟩ := forgetMemoryBytes_knows hs requires
    refine ⟨s', run, f, w, _, hs', fun same => ?_⟩
    have known (k : Address) : RangeMap.findAt s.writtenMemoryBytes k = none ↔ b k = none := by
      rw [← Option.isNone_iff_eq_none, ← Option.isNone_iff_eq_none, ← Option.not_isSome,
        ← Option.not_isSome, findAt_eq hs.toBytes]
    constructor
    · intro harmless k
      change w k = (if start ≤ k ∧ k < limit then none else b k).isSome
      rw [same k]
      by_cases inside : start ≤ k ∧ k < limit
      · rw [if_pos inside, (known k).mp (harmless k inside.1 inside.2)]
      · rw [if_neg inside]
    · intro after k low high
      have kept : w k = (if start ≤ k ∧ k < limit then none else b k).isSome := after k
      rw [same k, if_pos ⟨low, high⟩] at kept
      exact (known k).mpr (by simpa using kept)
  | zeroMappedMemoryBytes m =>
    obtain ⟨-, inside⟩ : m.perms.isEmpty = false ∧
      s.mappedMemoryMap.containsRange m.startAddress m.limitAddress = some true := requires
    obtain ⟨x, made, first, last⟩ : ∃ x, MemoryBytes.make m.startAddress
        (List.replicate (m.limitAddress - m.startAddress) 0) = some x ∧
        x.startAddress = m.startAddress ∧ x.limitAddress = m.limitAddress := by
      have lt := m.start_lt_limit
      have sum : m.startAddress + (List.replicate (m.limitAddress - m.startAddress)
          (0 : BitVec 8)).length = m.limitAddress := by
        rw [List.length_replicate]
        exact Nat.add_sub_cancel' lt.le
      have nonempty : List.replicate (m.limitAddress - m.startAddress) (0 : BitVec 8) ≠ [] := by
        rw [ne_eq, List.replicate_eq_nil_iff]
        exact Nat.sub_ne_zero_of_lt lt
      exact ⟨_, MemoryBytes.make_some nonempty (sum.le.trans m.bounded), rfl, sum⟩
    obtain ⟨s', run, w', b', hs', next⟩ := setMemoryBytes_knows (x := x) hs fun k hk =>
      SnapshotMemory.containsRange_mapped hs.represents (by rw [first, last]; exact inside) hk
    refine ⟨s', ?_, f, w', b', hs', fun same => iff_of_true trivial (next same)⟩
    simp only [Call.run, zeroMappedMemoryBytes, zeroBytes, made]
    exact run
  | setInitialState snapshot zeroing =>
    obtain ⟨pos, neg, sb, hsnap⟩ := SnapshotMemory.reachable_keeps requires
    obtain ⟨s', run, f', w', b', hs', next⟩ := setInitialState_knows zeroing hs hsnap
    exact ⟨s', run, f', w', b', hs', fun same => iff_of_true trivial (next same)⟩

/-- The states made by calls with their REQUIRES met, all of them such that `P`. -/
inductive Runs (P : MemoryState → Call → Prop) : MemoryState → Prop where
  | empty : Runs P .empty
  | call {t t'} (c : Call) : Runs P t → c.Requires t → P t c → c.run t = some t' → Runs P t'

theorem runs_knows {P : MemoryState → Call → Prop} (h : Runs P s) :
    ∃ f w b, s.Knows f w b ∧ ((∀ s c, P s c → c.Harmless s) → Same w b) := by
  induction h with
  | empty => exact ⟨_, _, _, empty_knows, fun _ _ => rfl⟩
  | call c _ requires holds run ih =>
    obtain ⟨f, w, b, hs, same⟩ := ih
    obtain ⟨s₁, run₁, f', w', b', hs', next⟩ := call_knows hs requires
    obtain rfl := Option.some.inj (run.symm.trans run₁)
    exact ⟨f', w', b', hs', fun all => (next (same all)).mp (all _ _ holds)⟩

/-- The three representations agree. -/
structure Consistent (s : MemoryState) : Prop where
  mapped : ∀ k p, s.mappedMemoryMap.read k = some p → p.has .kMapped = true
  written : ∀ k, k ∈ s.writtenMemorySet.addresses ↔
    (RangeMap.findAt s.writtenMemoryBytes k).isSome
  writtenMapped : ∀ k ∈ s.writtenMemorySet.addresses, s.mappedMemoryMap.contains k = true

theorem Knows.mapped_read (hs : s.Knows f w b) (k : Address) (p : MemoryPerms)
    (h : s.mappedMemoryMap.read k = some p) : p.has .kMapped = true := by
  rw [hs.represents.read_eq] at h
  exact hs.ofProcess.mapped k p h

theorem Knows.addresses_mapped (hs : s.Knows f w b) (k : Address)
    (h : k ∈ s.writtenMemorySet.addresses) : s.mappedMemoryMap.contains k = true := by
  rw [MappedMemoryMap.contains_eq hs.represents]
  exact hs.writtenMapped k ((hs.writtenSet.mem_addresses_iff k).mp h)

theorem Knows.consistent_iff (hs : s.Knows f w b) : s.Consistent ↔ Same w b := by
  have at_k (k : Address) : (k ∈ s.writtenMemorySet.addresses ↔
      (RangeMap.findAt s.writtenMemoryBytes k).isSome) ↔ w k = (b k).isSome := by
    rw [hs.writtenSet.mem_addresses_iff, findAt_eq hs.toBytes, ← Bool.eq_iff_iff]
  constructor
  · exact fun h k => (at_k k).mp (h.written k)
  · exact fun same => ⟨hs.mapped_read, fun k => (at_k k).mpr (same k), hs.addresses_mapped⟩

/-- **Only forgetting known bytes breaks a state.** In every run whose calls of
`ForgetMemoryBytes` forget no known byte the representations agree. In every run
mapped addresses have `kMapped` and written ones are mapped, and a call on a state
that agrees with itself leaves one that does exactly when it is harmless. -/
theorem runs_consistent {P : MemoryState → Call → Prop} {s : MemoryState} (h : Runs P s) :
    ((∀ s c, P s c → c.Harmless s) → s.Consistent) ∧
      (∀ k p, s.mappedMemoryMap.read k = some p → p.has .kMapped = true) ∧
      (∀ k ∈ s.writtenMemorySet.addresses, s.mappedMemoryMap.contains k = true) ∧
      ∀ c : Call, c.Requires s → ∃ s', c.run s = some s' ∧
        (s.Consistent → (s'.Consistent ↔ c.Harmless s)) := by
  obtain ⟨f, w, b, hs, same⟩ := runs_knows h
  refine ⟨fun all => hs.consistent_iff.mpr (same all), hs.mapped_read, hs.addresses_mapped,
    fun c requires => ?_⟩
  obtain ⟨s', run, f', w', b', hs', next⟩ := call_knows hs requires
  refine ⟨s', run, fun consistent => ?_⟩
  rw [hs'.consistent_iff, next (hs.consistent_iff.mp consistent)]

/-- A page with bytes, of which all or none are forgotten. -/
def knownPage : MemoryMapping :=
  ⟨0x1000, 0x1000, .rw, MemoryMapping.page_nonempty, MemoryMapping.firstPage_bounded,
    MemoryPerms.proper_rw, MemoryPerms.unmapped_rw⟩

def knownBytes : MemoryBytes := ⟨0x1000, [1, 2, 3, 4], by decide, by decide⟩

theorem runs_consistent_forget : ∃ s, s.writtenMemorySet = ⟨[⟨0x1000, 0x1004, false⟩]⟩ ∧
    ((∀ s c, Call.Harmless s c → c.Harmless s) → s.Consistent) ∧
      (∀ k p, s.mappedMemoryMap.read k = some p → p.has .kMapped = true) ∧
      (∀ k ∈ s.writtenMemorySet.addresses, s.mappedMemoryMap.contains k = true) ∧
      ∀ c : Call, c.Requires s → ∃ s', c.run s = some s' ∧
        (s.Consistent → (s'.Consistent ↔ c.Harmless s)) := by
  have mapped : Runs (fun s c => c.Harmless s) _ :=
    .call (.addNewMemoryMapping knownPage) .empty ⟨rfl, rfl⟩ trivial rfl
  have known : Runs (fun s c => c.Harmless s) _ :=
    .call (.setMemoryBytes knownBytes) mapped rfl trivial rfl
  have forgotten : Runs (fun s c => c.Harmless s) _ :=
    .call (.forgetMemoryBytes 0x1004 0x1005) known (by decide : 0x1004 < 0x1005)
      (fun k low high => by obtain rfl : k = 0x1004 := by lia
                            rfl) rfl
  exact ⟨_, rfl, runs_consistent forgotten⟩

/-- Forgetting two known bytes leaves them in the written set. -/
theorem runs_inconsistent : ∃ s, Runs (fun _ _ => True) s ∧ ¬ s.Consistent := by
  have mapped : Runs (fun _ _ => True) _ :=
    .call (.addNewMemoryMapping knownPage) .empty ⟨rfl, rfl⟩ trivial rfl
  have known : Runs (fun _ _ => True) _ :=
    .call (.setMemoryBytes knownBytes) mapped rfl trivial rfl
  have forgotten : Runs (fun _ _ => True) _ :=
    .call (.forgetMemoryBytes 0x1000 0x1002) known (by decide : 0x1000 < 0x1002) trivial rfl
  refine ⟨_, forgotten, fun consistent => ?_⟩
  have still := (consistent.written 0x1000).mp (MemoryBytesSet.mem_addresses.mpr
    ⟨⟨0x1000, 0x1004, false⟩, List.mem_singleton.mpr rfl, by decide, by decide⟩)
  cases still

end MemoryState

end Silifuzz
