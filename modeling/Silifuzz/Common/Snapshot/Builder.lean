import Silifuzz.Common.Snapshot.Calls
import Silifuzz.Common.Snapshot.Checks

/-!
# The values that a Snapshot is given

* `EndState.Built`, `TraceData.Built`: the end states and traces that their constructors
  and mutators make, and `WellFormed`, what these keep;
* `call_mapped`: the calls that do not take mapped memory away;
* `canEndWith_mapped`: the bytes of an accepted end state are mapped.
-/

namespace Silifuzz

open Checked Loops

namespace EndState

variable {x x' : EndState}

/-- The bytes are disjoint and the changed memory is theirs. -/
structure WellFormed (x : EndState) : Prop where
  valid : x.endpoint.Valid
  bytes : ∃ v, Contents x.memoryBytes v ∧ x.changedMemorySet.Represents fun k => (v k).isSome

/-- The end states that the constructor and the mutators make. -/
inductive Built : EndState → Prop where
  | new {endpoint} (registers) : endpoint.Valid → Built (new endpoint registers)
  | addMemoryBytes {y y'} (b) : Built y → y.canAddMemoryBytes b = .ok () →
      y.addMemoryBytes b = .ok y' → Built y'
  | replaceMemoryBytes {y y'} (bs) : Built y → y.replaceMemoryBytes bs = .ok y' → Built y'
  | addPlatform {y} (platform) : Built y → Built (y.addPlatform platform)
  | setPlatforms {y y'} (platforms) : Built y → y.setPlatforms platforms = .ok y' → Built y'
  | setRegisterChecksum {y} (value) : Built y → Built (y.setRegisterChecksum value)
  | setRegisters {y} (registers) : Built y → Built (y.setRegisters registers)

theorem new_wellFormed {endpoint : Endpoint} (valid : endpoint.Valid) (registers : RegisterState) :
    (new endpoint registers).WellFormed where
  valid := valid
  bytes := ⟨_, .nil, MemoryBytesSet.empty_represents⟩

/-- Bytes where there are none are added. -/
theorem addMemoryBytes_run {v : BytesMap} {b : MemoryBytes} (hx : Contents x.memoryBytes v)
    (changed : x.changedMemorySet.Represents fun k => (v k).isSome)
    (free : ∀ k, b.Covers k → v k = none) :
    x.canAddMemoryBytes b = .ok () ∧ ∃ m, x.addMemoryBytes b =
        .ok { x with changedMemorySet := m, memoryBytes := x.memoryBytes ++ [b] } ∧
      ∃ v', Contents (x.memoryBytes ++ [b]) v' ∧ m.Represents fun k => (v' k).isSome := by
  obtain ⟨c, disjoint, iff⟩ := changed.isDisjoint_eq b.start_lt_limit
  obtain ⟨m, add, hm⟩ := changed.add_represents b.start_lt_limit
  have apart : c = true := iff.mpr fun k low high => by simp [free k ⟨low, high⟩]
  refine ⟨by simp [canAddMemoryBytes, disjoint, apart, orAbort, ensure], m,
    by simp [addMemoryBytes, add, orAbort], _, hx.add free, hm.congr fun k => ?_⟩
  by_cases inside : b.Covers k
  · have both : b.startAddress ≤ k ∧ k < b.limitAddress := inside
    simp [inside, both]
  · have neither : ¬ (b.startAddress ≤ k ∧ k < b.limitAddress) := inside
    simp [inside, neither]

/-- Accepted bytes are where there are none. -/
theorem canAddMemoryBytes_free {v : BytesMap} {b : MemoryBytes}
    (changed : x.changedMemorySet.Represents fun k => (v k).isSome)
    (can : x.canAddMemoryBytes b = .ok ()) (k : Address) (hk : b.Covers k) : v k = none := by
  obtain ⟨c, disjoint, iff⟩ := changed.isDisjoint_eq b.start_lt_limit
  obtain ⟨c', run, apart⟩ := bind_eq_ok.mp can
  rw [orAbort_eq_ok] at run
  rw [ensure_eq_ok] at apart
  obtain rfl : c = c' := Option.some.inj (disjoint.symm.trans run)
  simpa using iff.mp apart k hk.1 hk.2

theorem addMemoryBytes_wellFormed {b : MemoryBytes} (hx : x.WellFormed)
    (can : x.canAddMemoryBytes b = .ok ()) (run : x.addMemoryBytes b = .ok x') : x'.WellFormed := by
  obtain ⟨v, contents, changed⟩ := hx.bytes
  obtain ⟨-, m, run', bytes⟩ :=
    addMemoryBytes_run contents changed (canAddMemoryBytes_free changed can)
  obtain rfl := Except.ok.inj (run.symm.trans run')
  exact ⟨hx.valid, bytes⟩

theorem replaceMemoryBytes_wellFormed {bs : List MemoryBytes} (hx : x.WellFormed)
    (run : x.replaceMemoryBytes bs = .ok x') : x'.WellFormed := by
  refine Checked.foldlM_after (fun _ => WellFormed) ?_ ?_ run
  · exact ⟨hx.valid, _, .nil, MemoryBytesSet.empty_represents⟩
  · intro _ b _ y y' _ hy turn
    obtain ⟨_, can, add⟩ := bind_eq_ok.mp turn
    exact addMemoryBytes_wellFormed hy can add

/-- `set_platforms` sets nothing else. -/
theorem foldlM_platforms {f : EndState → PlatformId → Checked EndState}
    (each : ∀ x p x', f x p = .ok x' → ∃ g, x' = { x with platforms := g })
    {ps : List PlatformId} (run : ps.foldlM f x = .ok x') : ∃ g, x' = { x with platforms := g } := by
  refine Checked.foldlM_after (fun _ y => ∃ g, y = { x with platforms := g }) ⟨_, rfl⟩ ?_ run
  rintro _ p _ y y' _ ⟨g, rfl⟩ turn
  obtain ⟨g', rfl⟩ := each _ p y' turn
  exact ⟨g', rfl⟩

theorem setPlatforms_platforms {ps : List PlatformId} (run : x.setPlatforms ps = .ok x') :
    ∃ g, x' = { x with platforms := g } := by
  obtain ⟨g, rfl⟩ := foldlM_platforms (fun x p x' turn => by
    split at turn
    · exact ⟨_, (Except.ok.inj turn).symm⟩
    · cases turn) run
  exact ⟨g, rfl⟩

theorem Built.wellFormed (h : Built x) : x.WellFormed := by
  induction h with
  | new registers valid => exact new_wellFormed valid registers
  | addMemoryBytes b _ can run ih => exact addMemoryBytes_wellFormed ih can run
  | replaceMemoryBytes bs _ run ih => exact replaceMemoryBytes_wellFormed ih run
  | addPlatform platform _ ih => exact ⟨ih.valid, ih.bytes⟩
  | setPlatforms platforms _ run ih =>
    obtain ⟨g, rfl⟩ := setPlatforms_platforms run
    exact ⟨ih.valid, ih.bytes⟩
  | setRegisterChecksum value _ ih => exact ⟨ih.valid, ih.bytes⟩
  | setRegisters registers _ ih => exact ⟨ih.valid, ih.bytes⟩

end EndState

namespace TraceData

/-- The platforms that a trace can have, in the order of their ids. -/
structure WellFormed (t : TraceData) : Prop where
  sorted : t.platforms.Pairwise (· < ·)
  traced : ∀ p ∈ t.platforms, p.Traced

/-- The trace data that the constructor and `add_platform` make. -/
inductive Built : TraceData → Prop where
  | new (numInstructions disassembly) : Built (new numInstructions disassembly)
  | addPlatform {t t'} (platform) : Built t → t.addPlatform true platform = .ok t' → Built t'

theorem mem_insertPlatform {p q : PlatformId} {l : List PlatformId} :
    q ∈ insertPlatform p l ↔ q = p ∨ q ∈ l := by
  induction l with
  | nil => simp [insertPlatform]
  | cons r l ih =>
    unfold insertPlatform
    split_ifs with less same
    · rw [List.mem_cons, ih, List.mem_cons]
      tauto
    · rw [List.mem_cons, same]
      tauto
    · rw [List.mem_cons]

theorem insertPlatform_sorted {p : PlatformId} {l : List PlatformId} (h : l.Pairwise (· < ·)) :
    (insertPlatform p l).Pairwise (· < ·) := by
  induction l with
  | nil => simp [insertPlatform]
  | cons r l ih =>
    obtain ⟨first, rest⟩ := List.pairwise_cons.mp h
    unfold insertPlatform
    split_ifs with less same
    · refine List.pairwise_cons.mpr ⟨fun q hq => ?_, ih rest⟩
      rcases mem_insertPlatform.mp hq with rfl | hq
      · exact less
      · exact first q hq
    · exact h
    · have before : p < r := lt_of_le_of_ne (not_lt.mp less) (Ne.symm same)
      refine List.pairwise_cons.mpr ⟨fun q hq => ?_, h⟩
      rcases List.mem_cons.mp hq with rfl | hq
      · exact before
      · exact before.trans (first q hq)

theorem Built.wellFormed {t : TraceData} (h : Built t) : t.WellFormed := by
  induction h with
  | new numInstructions disassembly => exact ⟨.nil, by simp [TraceData.new]⟩
  | addPlatform platform _ run ih =>
    unfold TraceData.addPlatform at run
    split at run
    · cases run
    · next ok =>
      obtain rfl := Except.ok.inj run
      refine ⟨insertPlatform_sorted ih.sorted, fun p hp => ?_⟩
      rcases mem_insertPlatform.mp hp with rfl | hp
      · simpa [PlatformId.Traced] using ok
      · exact ih.traced p hp

end TraceData

namespace SnapshotMemory

variable {s s' : SnapshotMemory} {f g : PermsMap} {w : BytesMap}

/-- What negative mappings leave alone. -/
theorem addNegativeMemoryMapping_after {x : MemoryMapping}
    (run : s.addNegativeMemoryMapping x = some s') :
    ∃ m l, s' = { s with negativeMappedMemoryMap := m, negativeMemoryMappings := l } := by
  obtain ⟨m, _, run⟩ := Option.bind_eq_some_iff.mp run
  exact ⟨m, _, (Option.some.inj run).symm⟩

theorem addNegativeMemoryMappingOverlapOk_after {x : MemoryMapping}
    (run : s.addNegativeMemoryMappingOverlapOk x = some s') :
    ∃ m l, s' = { s with negativeMappedMemoryMap := m, negativeMemoryMappings := l } := by
  obtain ⟨overlaps, _, run⟩ := Option.bind_eq_some_iff.mp run
  cases overlaps with
  | false => exact addNegativeMemoryMapping_after run
  | true =>
    obtain ⟨m, _, run⟩ := Option.bind_eq_some_iff.mp run
    obtain ⟨l, _, run⟩ := Option.bind_eq_some_iff.mp run
    exact ⟨m, l, (Option.some.inj run).symm⟩

theorem addNegativeMemoryMappingsFor_after {endpoint : Endpoint}
    (run : s.addNegativeMemoryMappingsFor endpoint = some (.ok s')) :
    ∃ m l, s' = { s with negativeMappedMemoryMap := m, negativeMemoryMappings := l } := by
  unfold addNegativeMemoryMappingsFor at run
  split at run
  · next cause sigAddress _ =>
    obtain ⟨perms, _, run⟩ := Option.bind_eq_some_iff.mp run
    cases perms with
    | none =>
      cases run
      exact ⟨_, _, rfl⟩
    | some p =>
      simp only at run
      generalize (if sigAddress ≥ kMaxAddress - s.pageSize + 1 then s.pageSize - 1
        else s.pageSize) = size at run
      split at run
      · cases run
      · split at run
        · cases run
        · obtain ⟨m, _, run⟩ := Option.bind_eq_some_iff.mp run
          obtain ⟨status, _, run⟩ := Option.bind_eq_some_iff.mp run
          cases status with
          | error e => cases run
          | ok _ =>
            obtain ⟨t, added, run⟩ := Option.bind_eq_some_iff.mp run
            cases run
            exact addNegativeMemoryMappingOverlapOk_after added
  · cases run
    exact ⟨_, _, rfl⟩

theorem addMemoryBytes_after {b : MemoryBytes} (run : s.addMemoryBytes b = some s') :
    ∃ w, s' = { s with writtenMemorySet := w, memoryBytes := s.memoryBytes ++ [b] } := by
  obtain ⟨w, _, run⟩ := Option.bind_eq_some_iff.mp run
  exact ⟨w, (Option.some.inj run).symm⟩

theorem addMemoryBytes_map {b : MemoryBytes} (run : s.addMemoryBytes b = some s') :
    s'.mappedMemoryMap = s.mappedMemoryMap := by
  obtain ⟨w, rfl⟩ := addMemoryBytes_after run
  rfl

/-- The calls that change the mappings. -/
def Call.Maps : Call → Prop
  | addMemoryMapping _ | setMemoryMappingPerms _ _ | setMemoryMappings _ => True
  | _ => False

theorem call_map {c : Call} (other : ¬ c.Maps) (run : c.run s = some s') :
    s'.mappedMemoryMap = s.mappedMemoryMap := by
  cases c with
  | addMemoryMapping x => exact absurd trivial other
  | setMemoryMappingPerms x index => exact absurd trivial other
  | setMemoryMappings xs => exact absurd trivial other
  | addNegativeMemoryMapping x =>
    obtain ⟨_, _, rfl⟩ := addNegativeMemoryMapping_after run
    rfl
  | setNegativeMemoryMappings xs =>
    refine Loops.foldlM_after (P := fun _ t => t.mappedMemoryMap = s.mappedMemoryMap) rfl ?_ run
    intro _ x _ t t' _ same step
    obtain ⟨_, _, rfl⟩ := addNegativeMemoryMapping_after step
    exact same
  | addNegativeMemoryMappingsFor endpoint =>
    obtain ⟨status, added, run⟩ := Option.bind_eq_some_iff.mp run
    cases status with
    | error e =>
      cases run
      rfl
    | ok t =>
      cases run
      obtain ⟨_, _, rfl⟩ := addNegativeMemoryMappingsFor_after added
      rfl
  | addMemoryBytes x => exact addMemoryBytes_map run
  | replaceMemoryBytes xs =>
    obtain ⟨status, added, run⟩ := Option.bind_eq_some_iff.mp run
    cases status with
    | error e => cases run
    | ok t =>
      cases run
      refine addWhileOk_keeps (P := fun t => t.mappedMemoryMap = s.mappedMemoryMap) ?_ added rfl
      intro t x t' _ step same
      exact (addMemoryBytes_map step).trans same
  | normalizeMemoryMappings =>
    obtain ⟨l, _, run⟩ := Option.bind_eq_some_iff.mp run
    obtain ⟨l', _, run⟩ := Option.bind_eq_some_iff.mp run
    cases run
    rfl
  | normalizeMemoryBytes =>
    obtain ⟨l, _, run⟩ := Option.bind_eq_some_iff.mp run
    cases run
    rfl

/-- A call other than `set_memory_mappings` unmaps nothing. -/
theorem call_mapped (hs : s.Keeps f g w) {c : Call} (requires : c.Requires s)
    (run : c.run s = some s') (other : ∀ xs, c ≠ .setMemoryMappings xs) :
    ∃ f' g' w', s'.Keeps f' g' w' ∧ ∀ k, (f k).isSome → (f' k).isSome := by
  by_cases maps : c.Maps
  · cases c with
    | addMemoryMapping x =>
      obtain ⟨s₁, run₁, hs₁⟩ := addMemoryMapping_keeps hs (canAddMemoryMapping_ok requires)
      obtain rfl := Option.some.inj (run.symm.trans run₁)
      refine ⟨_, _, _, hs₁, fun k hk => ?_⟩
      simp only [PermsMap.add]
      split
      · rfl
      · exact hk
    | setMemoryMappingPerms x index =>
      obtain ⟨perms, m, at_index, start, limit⟩ := requires
      obtain ⟨s₁, run₁, hs₁⟩ := setMemoryMappingPerms_keeps hs (isEmpty_false (by simp [perms]))
        at_index start limit
      obtain rfl := Option.some.inj (run.symm.trans run₁)
      refine ⟨_, _, _, hs₁, fun k hk => ?_⟩
      simp only [PermsMap.set]
      split
      · rfl
      · exact hk
    | setMemoryMappings xs => exact absurd rfl (other xs)
    | _ => exact absurd maps id
  · obtain ⟨s₁, run₁, f', g', w', hs₁, -⟩ := call_keeps hs requires
    obtain rfl := Option.some.inj (run.symm.trans run₁)
    refine ⟨f', g', w', hs₁, fun k hk => ?_⟩
    have same : f' = f := by
      rw [← hs₁.mapped.read_eq, call_map maps run, hs.mapped.read_eq]
    exact same ▸ hk

theorem isWritable_mapped {start limit : Address} (hm : s.mappedMemoryMap.Represents f)
    (h : start < limit) (writable : s.isWritable start limit = .ok true) {k : Address}
    (low : start ≤ k) (high : k < limit) : (f k).isSome := by
  obtain ⟨p, run, has⟩ := MappedMemoryMap.perms_has hm h
  simp only [isWritable, run, orAbort, ok_bind, pure_ok, Except.ok.injEq] at writable
  obtain ⟨v, hv, -⟩ := (has .kWritable).mp writable k low high
  exact Option.isSome_of_mem hv

/-- The bytes of an accepted end state are writable. -/
theorem canEndWith_writable {x : EndState} (can : s.canEndWith x = .ok ()) :
    ∀ b ∈ x.memoryBytes, s.isWritable b.startAddress b.limitAddress = .ok true := by
  have each : (x.memoryBytes.forM fun r => do
      let writable ← s.isWritable r.startAddress r.limitAddress
      ensure writable ("memory_bytes at [" ++ hexStr r.startAddress ++ "; " ++
        hexStr r.limitAddress ++ ") is not in an existing writable MemoryMapping")) = .ok () := by
    unfold canEndWith at can
    split at can
    · obtain ⟨_, _, can⟩ := bind_eq_ok.mp can
      obtain ⟨_, each, _⟩ := bind_eq_ok.mp can
      exact each
    · obtain ⟨_, _, can⟩ := bind_eq_ok.mp can
      obtain ⟨_, each, _⟩ := bind_eq_ok.mp can
      exact each
  intro b hb
  obtain ⟨c, writable, ok⟩ := bind_eq_ok.mp (forM_eq_ok.mp each b hb)
  obtain rfl : c = true := by simpa using ok
  exact writable

theorem canEndWith_mapped {x : EndState} (hm : s.mappedMemoryMap.Represents f)
    (can : s.canEndWith x = .ok ()) : ∀ b ∈ x.memoryBytes, ∀ k, b.Covers k → (f k).isSome := by
  intro b hb k hk
  exact isWritable_mapped hm b.start_lt_limit (canEndWith_writable can b hb) hk.1 hk.2

end SnapshotMemory

end Silifuzz
