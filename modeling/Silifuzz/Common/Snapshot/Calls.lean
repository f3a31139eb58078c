import Silifuzz.Common.Snapshot.Invariant

/-!
# Runs of Snapshot mutators

* `Call`: the mutators with what they require;
* `WellFormed`: what a snapshot keeps, in terms of its fields;
* `runs_wellFormed`: over all runs, with the one check that is missing.
-/

namespace Silifuzz

open Segments RangeMap Loops

namespace SnapshotMemory

variable {s s' : SnapshotMemory} {f g : PermsMap} {w : BytesMap}

/-- A mutator with its arguments. -/
inductive Call where
  | addMemoryMapping (x : MemoryMapping)
  | setMemoryMappingPerms (x : MemoryMapping) (index : Nat)
  | setMemoryMappings (xs : List MemoryMapping)
  | addNegativeMemoryMapping (x : MemoryMapping)
  | setNegativeMemoryMappings (xs : List MemoryMapping)
  | addNegativeMemoryMappingsFor (endpoint : Endpoint)
  | addMemoryBytes (x : MemoryBytes)
  | replaceMemoryBytes (xs : List MemoryBytes)
  | normalizeMemoryMappings
  | normalizeMemoryBytes

/-- The REQUIRES of each mutator. -/
def Call.Requires (s : SnapshotMemory) : Call → Prop
  | addMemoryMapping x => s.canAddMemoryMapping x = some (.ok ())
  | setMemoryMappingPerms x index => x.perms.isEmpty = false ∧ ∃ m,
    s.memoryMappings[index]? = some m ∧ m.startAddress = x.startAddress ∧
      m.limitAddress = x.limitAddress
  | setMemoryMappings xs => s.canSetMemoryMappings xs = some (.ok ())
  | addNegativeMemoryMapping x => s.canAddNegativeMemoryMapping x = some (.ok ())
  | setNegativeMemoryMappings xs => ∃ s',
    addWhileOk (canAddNegativeMemoryMapping · ·) SnapshotMemory.addNegativeMemoryMapping
      { s with negativeMappedMemoryMap := .empty, negativeMemoryMappings := [] } xs = some (.ok s')
  | addNegativeMemoryMappingsFor endpoint => endpoint.Valid
  | addMemoryBytes x => s.canAddMemoryBytes x = some (.ok ())
  | replaceMemoryBytes xs => ∃ s', s.replaceMemoryBytes xs = some (.ok s')
  | normalizeMemoryMappings | normalizeMemoryBytes => True

/-- The snapshot after the call. An error of `AddNegativeMemoryMappingsFor` leaves it. -/
def Call.run (s : SnapshotMemory) : Call → Option SnapshotMemory
  | addMemoryMapping x => s.addMemoryMapping x
  | setMemoryMappingPerms x index => s.setMemoryMappingPerms x index
  | setMemoryMappings xs => s.setMemoryMappings xs
  | addNegativeMemoryMapping x => s.addNegativeMemoryMapping x
  | setNegativeMemoryMappings xs => s.setNegativeMemoryMappings xs
  | addNegativeMemoryMappingsFor endpoint => do
    match ← s.addNegativeMemoryMappingsFor endpoint with
    | .ok s' => return s'
    | .error _ => return s
  | addMemoryBytes x => s.addMemoryBytes x
  | replaceMemoryBytes xs => do
    match ← s.replaceMemoryBytes xs with
    | .ok s' => return s'
    -- an undefined state
    | .error _ => none
  | normalizeMemoryMappings => s.normalizeMemoryMappings
  | normalizeMemoryBytes => s.normalizeMemoryBytes

/-- `set_memory_mapping_perms` gives no permission that a negative mapping forbids;
the other mutators check this. -/
def Call.Allowed (s : SnapshotMemory) : Call → Prop
  | setMemoryMappingPerms x _ => ∀ p,
    s.negativeMappedMemoryMap.perms x.startAddress x.limitAddress .kOr = some p →
      x.perms.hasSomeOf p = false
  | _ => True

theorem call_keeps (hs : s.Keeps f g w) {c : Call} (requires : c.Requires s) :
    ∃ s', c.run s = some s' ∧ ∃ f' g' w', s'.Keeps f' g' w' ∧
      (c.Allowed s → f.Apart g → f'.Apart g') := by
  cases c with
  | addMemoryMapping x =>
    have ok := canAddMemoryMapping_ok requires
    obtain ⟨s', run, hs'⟩ := addMemoryMapping_keeps hs ok
    exact ⟨s', run, _, _, _, hs', fun _ h =>
      (h.symm.add (perms_free hs.negativeMapped ok.free)).symm⟩
  | setMemoryMappingPerms x index =>
    obtain ⟨perms, m, at_index, start, limit⟩ := requires
    obtain ⟨s', run, hs'⟩ := setMemoryMappingPerms_keeps hs (isEmpty_false (by simp [perms]))
      at_index start limit
    exact ⟨s', run, _, _, _, hs', fun allowed h =>
      h.set (perms_free hs.negativeMapped allowed)⟩
  | setMemoryMappings xs =>
    obtain ⟨s', run, f', hs', apart⟩ := setMemoryMappings_keeps hs requires
    exact ⟨s', run, _, _, _, hs', fun _ _ => apart⟩
  | addNegativeMemoryMapping x =>
    have ok := canAddNegativeMemoryMapping_ok requires
    obtain ⟨s', run, hs'⟩ := addNegativeMemoryMapping_keeps hs ok (ok.new rfl)
    exact ⟨s', run, _, _, _, hs', fun _ h => h.add (perms_free hs.mapped ok.free)⟩
  | setNegativeMemoryMappings xs =>
    obtain ⟨s', ok⟩ := requires
    obtain ⟨run, g', hs', apart⟩ := setNegativeMemoryMappings_keeps hs ok
    exact ⟨s', run, _, _, _, hs', fun _ _ => apart⟩
  | addNegativeMemoryMappingsFor endpoint =>
    obtain ⟨r, run, after⟩ := addNegativeMemoryMappingsFor_keeps requires hs
    cases r with
    | error e => exact ⟨s, by simp [Call.run, run], f, g, w, hs, fun _ h => h⟩
    | ok s' =>
      rcases after s' rfl with rfl | ⟨x, ok, hs'⟩
      · exact ⟨s', by simp [Call.run, run], f, g, w, hs, fun _ h => h⟩
      · exact ⟨s', by simp [Call.run, run], _, _, _, hs', fun _ h =>
          h.add (perms_free hs.mapped ok.free)⟩
  | addMemoryBytes x =>
    obtain ⟨s', run, -, hs'⟩ := addMemoryBytes_keeps hs (canAddMemoryBytes_ok requires)
    exact ⟨s', run, _, _, _, hs', fun _ h => h⟩
  | replaceMemoryBytes xs =>
    obtain ⟨s', run⟩ := requires
    obtain ⟨w', hs'⟩ := replaceMemoryBytes_keeps hs run
    exact ⟨s', by simp [Call.run, run], _, _, _, hs', fun _ h => h⟩
  | normalizeMemoryMappings =>
    obtain ⟨s', run, hs'⟩ := normalizeMemoryMappings_keeps hs
    exact ⟨s', run, _, _, _, hs', fun _ h => h⟩
  | normalizeMemoryBytes =>
    obtain ⟨s', run, hs'⟩ := normalizeMemoryBytes_keeps hs
    exact ⟨s', run, _, _, _, hs', fun _ h => h⟩

/-- The snapshots made by calls with their REQUIRES met, all of them such that `P`. -/
inductive Runs (P : SnapshotMemory → Call → Prop) : SnapshotMemory → Prop where
  | new (architecture) : Runs P (.new architecture)
  | call {t t'} (c : Call) : Runs P t → c.Requires t → P t c → c.run t = some t' → Runs P t'

theorem runs_keeps {P : SnapshotMemory → Call → Prop} (h : Runs P s) :
    ∃ f g w, s.Keeps f g w ∧ ((∀ s c, P s c → c.Allowed s) → f.Apart g) := by
  induction h with
  | new architecture =>
    exact ⟨_, _, _, new_keeps architecture, fun _ k p hp => by cases hp⟩
  | call c _ requires allowed run ih =>
    obtain ⟨f, g, w, hs, apart⟩ := ih
    obtain ⟨s₁, run₁, f', g', w', hs', next⟩ := call_keeps hs requires
    obtain rfl := Option.some.inj (run.symm.trans run₁)
    exact ⟨f', g', w', hs', fun all => next (all _ _ allowed) (apart all)⟩

/-- A step is a call. -/
theorem step_keeps (h : Step s s') (hs : s.Keeps f g w) : ∃ f g w, s'.Keeps f g w := by
  have called {c : Call} (requires : c.Requires s) (run : c.run s = some s') :
      ∃ f g w, s'.Keeps f g w := by
    obtain ⟨s₁, run₁, f', g', w', hs', -⟩ := call_keeps hs requires
    obtain rfl := Option.some.inj (run.symm.trans run₁)
    exact ⟨f', g', w', hs'⟩
  cases h with
  | addMemoryMapping x can run => exact called (c := .addMemoryMapping x) can run
  | setMemoryMappingPerms x m index perms at_index start limit run =>
    exact called (c := .setMemoryMappingPerms x index) ⟨perms, m, at_index, start, limit⟩ run
  | setMemoryMappings xs can run => exact called (c := .setMemoryMappings xs) can run
  | addNegativeMemoryMapping x can run => exact called (c := .addNegativeMemoryMapping x) can run
  | setNegativeMemoryMappings xs can run =>
    exact called (c := .setNegativeMemoryMappings xs) ⟨s', can⟩ run
  | addNegativeMemoryMappingsFor endpoint run =>
    by_cases valid : endpoint.Valid
    · exact called (c := .addNegativeMemoryMappingsFor endpoint) valid (by simp [Call.run, run])
    · -- such an endpoint cannot be made, and nothing would be done for it
      cases endpoint with
      | kInstruction => exact absurd trivial valid
      | kSignal num cause sigAddress sigInstructionAddress =>
        by_cases segv : num = .kSigSegv
        · subst segv
          obtain rfl : cause = .kGenericSigCause := by simpa [Endpoint.Valid] using valid
          cases run
        · have same : s.addNegativeMemoryMappingsFor
              (.kSignal num cause sigAddress sigInstructionAddress) = some (.ok s) := by
            cases num with
            | kSigSegv => exact absurd rfl segv
            | kSigTrap => rfl
            | kSigFPE => rfl
            | kSigIll => rfl
            | kSigBus => rfl
          obtain rfl : s = s' := by simpa [same] using run
          exact ⟨f, g, w, hs⟩
  | addMemoryBytes x can run => exact called (c := .addMemoryBytes x) can run
  | replaceMemoryBytes xs run =>
    exact called (c := .replaceMemoryBytes xs) ⟨s', run⟩ (by simp [Call.run, run])
  | normalizeMemoryMappings run => exact called (c := .normalizeMemoryMappings) trivial run
  | normalizeMemoryBytes run => exact called (c := .normalizeMemoryBytes) trivial run

theorem reachable_keeps (h : Reachable s) : ∃ f g w, s.Keeps f g w := by
  induction h with
  | new architecture => exact ⟨_, _, _, new_keeps architecture⟩
  | next _ step ih =>
    obtain ⟨f, g, w, hs⟩ := ih
    exact step_keeps step hs

theorem reachable_holds (h : Reachable s) : ∃ f g, s.Holds f g := by
  obtain ⟨f, g, w, hs⟩ := reachable_keeps h
  exact ⟨f, g, hs.toHolds⟩

/-- The mappings, the negative mappings and the bytes, against the map and the set
kept beside them. A negative mapping of the very last page lacks its last byte. -/
structure WellFormed (s : SnapshotMemory) : Prop where
  mappings : Describes s.memoryMappings s.mappedMemoryMap.read
  aligned : ∀ m ∈ s.memoryMappings,
    m.startAddress % s.pageSize = 0 ∧ m.limitAddress % s.pageSize = 0
  negativeMappings : Describes s.negativeMemoryMappings s.negativeMappedMemoryMap.read
  negativeAligned : ∀ m ∈ s.negativeMemoryMappings, m.startAddress % s.pageSize = 0 ∧
    (m.limitAddress % s.pageSize = 0 ∨ m.limitAddress = kMaxAddress)
  disjointBytes : s.memoryBytes.Pairwise MemoryBytes.Disjoint
  mappedBytes : ∀ b ∈ s.memoryBytes, ∀ k, b.Covers k → s.mappedMemoryMap.contains k = true
  writtenBytes : ∀ k, k ∈ s.writtenMemorySet.addresses ↔ ∃ b ∈ s.memoryBytes, b.Covers k

/-- No address has a permission in a positive and in a negative mapping. -/
def ConflictFree (s : SnapshotMemory) : Prop :=
  PermsMap.Apart s.mappedMemoryMap.read s.negativeMappedMemoryMap.read

theorem Keeps.wellFormed (hs : s.Keeps f g w) : s.WellFormed where
  mappings := hs.mapped.read_eq ▸ hs.mappings
  aligned := hs.aligned
  negativeMappings := hs.negativeMapped.read_eq ▸ hs.negativeMappings
  negativeAligned m hm := by
    obtain ⟨start, limit⟩ := hs.negativeAligned m hm
    refine ⟨start.resolve_right fun last => ?_, limit⟩
    have := m.start_lt_limit
    have := m.bounded
    simp only [MemoryMapping.limitAddress] at *
    lia
  disjointBytes := hs.contents.disjoint
  mappedBytes b hb k hk := by
    rw [MappedMemoryMap.contains_eq hs.mapped]
    exact hs.mappedBytes k (hs.contents.isSome_iff.mpr ⟨b, hb, hk⟩)
  writtenBytes k := by rw [hs.written.mem_addresses_iff, hs.contents.isSome_iff]

/-- **What every run of mutators keeps.** Whatever calls were made, the snapshot is
well formed and the next call runs; and no permission is both mapped and forbidden
while `set_memory_mapping_perms` gives none that a negative mapping forbids. -/
theorem runs_wellFormed {P : SnapshotMemory → Call → Prop} {s : SnapshotMemory} (h : Runs P s) :
    s.WellFormed ∧ ((∀ s c, P s c → c.Allowed s) → s.ConflictFree) ∧
      ∀ c : Call, c.Requires s → ∃ s', c.run s = some s' := by
  obtain ⟨f, g, w, hs, apart⟩ := runs_keeps h
  refine ⟨hs.wellFormed, fun all => ?_, fun c requires => ?_⟩
  · rw [ConflictFree, hs.mapped.read_eq, hs.negativeMapped.read_eq]
    exact apart all
  · obtain ⟨s', run, _⟩ := call_keeps hs requires
    exact ⟨s', run⟩

/-- One page with different permissions. -/
def readPage : MemoryMapping :=
  ⟨0x1000, 0x1000, .r, MemoryMapping.page_nonempty, MemoryMapping.firstPage_bounded, by decide,
    by decide⟩

def writePage : MemoryMapping :=
  ⟨0x1000, 0x1000, .of .kWritable, MemoryMapping.page_nonempty, MemoryMapping.firstPage_bounded,
    by decide, by decide⟩

def readWritePage : MemoryMapping :=
  ⟨0x1000, 0x1000, .rw, MemoryMapping.page_nonempty, MemoryMapping.firstPage_bounded,
    MemoryPerms.proper_rw, MemoryPerms.unmapped_rw⟩

def pageBytes : MemoryBytes := ⟨0x1008, [1, 2, 3], by decide, by decide⟩

/-- A read of the very last page faults. -/
def lastPageFault : Endpoint := .kSignal .kSigSegv .kSegvCantRead kMaxAddress 0x1000

theorem lastPageFault_valid : lastPageFault.Valid := by simp [lastPageFault, Endpoint.Valid]

/-- Mapped, given permissions and bytes, and with the last page forbidden. -/
theorem runs_wellFormed_lastPage : ∃ s, s.memoryMappings = [readWritePage] ∧
    s.negativeMemoryMappings.length = 1 ∧ s.memoryBytes.length = 1 ∧
    s.WellFormed ∧ ((∀ s c, Call.Allowed s c → c.Allowed s) → s.ConflictFree) ∧
      ∀ c : Call, c.Requires s → ∃ s', c.run s = some s' := by
  have mapped : Runs (fun s c => c.Allowed s) _ :=
    .call (.addMemoryMapping readPage) (.new .kX86_64) rfl trivial rfl
  have forbidden : Runs (fun s c => c.Allowed s) _ :=
    .call (.addNegativeMemoryMappingsFor lastPageFault) mapped lastPageFault_valid trivial rfl
  have writable : Runs (fun s c => c.Allowed s) _ :=
    .call (.setMemoryMappingPerms readWritePage 0) forbidden
      ⟨rfl, readPage, rfl, rfl, rfl⟩ (by rintro p ⟨⟩; rfl) rfl
  have filled : Runs (fun s c => c.Allowed s) _ :=
    .call (.addMemoryBytes pageBytes) writable rfl trivial rfl
  exact ⟨_, rfl, rfl, rfl, runs_wellFormed filled⟩

/-- The last page ends at `kMaxAddress`, which is not the end of a page; and a page that
may not be written is made writable. -/
theorem runs_break : ∃ s t, Runs (fun _ _ => True) s ∧ Runs (fun _ _ => True) t ∧
    (∃ m ∈ s.negativeMemoryMappings, m.limitAddress % s.pageSize ≠ 0) ∧ ¬ t.ConflictFree := by
  have fault : Runs (fun _ _ => True) _ :=
    .call (.addNegativeMemoryMappingsFor lastPageFault) (.new .kX86_64) lastPageFault_valid trivial rfl
  have mapped : Runs (fun _ _ => True) _ :=
    .call (.addMemoryMapping readPage) (.new .kX86_64) rfl trivial rfl
  have forbidden : Runs (fun _ _ => True) _ :=
    .call (.addNegativeMemoryMapping writePage) mapped rfl
      trivial rfl
  have writable : Runs (fun _ _ => True) _ :=
    .call (.setMemoryMappingPerms readWritePage 0) forbidden
      ⟨rfl, readPage, rfl, rfl, rfl⟩ trivial rfl
  refine ⟨_, _, fault, writable, ⟨_, List.mem_singleton.mpr rfl, by decide⟩, fun free => ?_⟩
  have both := free 0x1000 .rw rfl (.of .kWritable) rfl
  cases both

end SnapshotMemory

end Silifuzz
