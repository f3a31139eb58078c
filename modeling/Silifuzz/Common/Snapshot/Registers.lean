import Silifuzz.Common.Snapshot.Runs

/-!
# The registers of the end states

* `canEndWith_eq_ok`: what is checked of an end state beside its endpoint;
* `runs_registersFit`: the registers of every end state are ones of the architecture.
-/

namespace Silifuzz

open Checked Serialize

/-- The registers are not set or are those of the architecture, and so is their checksum. -/
structure RegistersFit (arch : Architecture) (x : EndState) : Prop where
  registers : x.registers.isUnset = true ∨
    (deserializeGRegs arch x.registers.gregs).isSome ∧
      (deserializeFPRegs arch x.registers.fpregs).isSome
  checksum : (x.registerChecksum.isEmpty ||
    isValidRegisterChecksumForArch arch x.registerChecksum) = true

theorem RegistersFit.congr {arch : Architecture} {x y : EndState} (h : RegistersFit arch x)
    (registers : y.registers = x.registers) (checksum : y.registerChecksum = x.registerChecksum) :
    RegistersFit arch y := by
  constructor
  · rw [registers]
    exact h.registers
  · rw [checksum]
    exact h.checksum

/-- A normal end state has registers. -/
theorem EndState.isUnset_of_complete {x : EndState} (complete : x.isComplete .kNormalState = .ok ()) :
    x.registers.isUnset = false := by
  simp only [EndState.isComplete, bind_eq_ok, ensure_eq_ok] at complete
  obtain ⟨_, known, -⟩ := complete
  unfold RegisterState.isUnset
  simp_all

namespace SnapshotMemory

variable {s s' : SnapshotMemory} {f : PermsMap}

/-- A range is writable when every address of it is. -/
theorem isWritable_eq_ok {start limit : Address} (hm : s.mappedMemoryMap.Represents f)
    (h : start < limit) : s.isWritable start limit = .ok true ↔
      ∀ k, start ≤ k → k < limit → ∃ p ∈ f k, p.has .kWritable = true := by
  obtain ⟨p, run, has⟩ := MappedMemoryMap.perms_has hm h
  simp only [isWritable, run, orAbort, ok_bind, pure_ok, Except.ok.injEq]
  exact has .kWritable

theorem canSetRegisters_eq_ok {x : RegisterState} {u : Unit} : s.canSetRegisters x true = .ok u ↔
    (deserializeGRegs s.architecture x.gregs).isSome ∧
      (deserializeFPRegs s.architecture x.fpregs).isSome := by
  simp [canSetRegisters, bind_eq_ok, Option.isSome_iff_exists]

theorem canEndWith_eq_ok {x : EndState} : s.canEndWith x = .ok () ↔
    RegistersFit s.architecture x ∧ (x.registers.isUnset = true → x.memoryBytes = []) ∧
      ∀ b ∈ x.memoryBytes, s.isWritable b.startAddress b.limitAddress = .ok true := by
  have each : (x.memoryBytes.forM fun r => do
      let writable ← s.isWritable r.startAddress r.limitAddress
      ensure writable ("memory_bytes at [" ++ hexStr r.startAddress ++ "; " ++
        hexStr r.limitAddress ++ ") is not in an existing writable MemoryMapping")) = .ok () ↔
      ∀ b ∈ x.memoryBytes, s.isWritable b.startAddress b.limitAddress = .ok true := by
    simp only [forM_eq_ok, bind_eq_ok, ensure_eq_ok, exists_eq_right]
  unfold canEndWith
  split
  · next unset =>
    simp only [bind_eq_ok, each, ensure_eq_ok, List.isEmpty_iff]
    constructor
    · rintro ⟨-, empty, -, writable, checksum⟩
      exact ⟨⟨.inl unset, checksum⟩, fun _ => empty, writable⟩
    · rintro ⟨fit, empty, writable⟩
      exact ⟨(), empty unset, (), writable, fit.checksum⟩
  · next set =>
    simp only [bind_eq_ok, each, plus_eq_ok, ensure_eq_ok, canSetRegisters_eq_ok]
    constructor
    · rintro ⟨-, registers, -, writable, checksum⟩
      exact ⟨⟨.inr registers, checksum⟩, fun unset => absurd unset set, writable⟩
    · rintro ⟨fit, -, writable⟩
      exact ⟨(), fit.registers.resolve_left set, (), writable, fit.checksum⟩

/-- No mutator of the memory changes the architecture. -/
theorem call_architecture {c : Call} (run : c.run s = some s') :
    s'.architecture = s.architecture := by
  cases c with
  | addMemoryMapping x | setMemoryMappingPerms x index | setMemoryMappings xs =>
    obtain ⟨m, -, run⟩ := Option.bind_eq_some_iff.mp run
    cases run
    rfl
  | addNegativeMemoryMapping x =>
    obtain ⟨_, _, rfl⟩ := addNegativeMemoryMapping_after run
    rfl
  | setNegativeMemoryMappings xs =>
    refine Loops.foldlM_after (P := fun _ t => t.architecture = s.architecture) rfl ?_ run
    intro _ x _ t t' _ same step
    obtain ⟨_, _, rfl⟩ := addNegativeMemoryMapping_after step
    exact same
  | addNegativeMemoryMappingsFor endpoint =>
    obtain ⟨status, added, run⟩ := Option.bind_eq_some_iff.mp run
    cases status with
    | error e =>
      cases run
      rfl
    | ok t =>
      cases run
      obtain ⟨_, _, rfl⟩ := addNegativeMemoryMappingsFor_after added
      rfl
  | addMemoryBytes x =>
    obtain ⟨_, rfl⟩ := addMemoryBytes_after run
    rfl
  | replaceMemoryBytes xs =>
    obtain ⟨status, added, run⟩ := Option.bind_eq_some_iff.mp run
    cases status with
    | error e => cases run
    | ok t =>
      cases run
      refine addWhileOk_keeps (P := fun t => t.architecture = s.architecture) ?_ added rfl
      intro t x t' _ step same
      obtain ⟨_, rfl⟩ := addMemoryBytes_after step
      exact same
  | normalizeMemoryMappings =>
    obtain ⟨l, -, run⟩ := Option.bind_eq_some_iff.mp run
    obtain ⟨l', -, run⟩ := Option.bind_eq_some_iff.mp run
    cases run
    rfl
  | normalizeMemoryBytes =>
    obtain ⟨l, -, run⟩ := Option.bind_eq_some_iff.mp run
    cases run
    rfl

end SnapshotMemory

namespace Snapshot

variable {s s' : Snapshot}

theorem normalizeMemoryBytes_after (run : s.normalizeMemoryBytes = some s') :
    s'.architecture = s.architecture ∧ ∀ x ∈ s'.expectedEndStates, ∃ y ∈ s.expectedEndStates,
      x.registers = y.registers ∧ x.registerChecksum = y.registerChecksum := by
  obtain ⟨m, memory, run⟩ := Option.bind_eq_some_iff.mp run
  obtain ⟨states, each, run⟩ := Option.bind_eq_some_iff.mp run
  cases run
  refine ⟨SnapshotMemory.call_architecture (c := .normalizeMemoryBytes) memory, fun x hx => ?_⟩
  obtain ⟨y, hy, made⟩ := Loops.mapM_mem each hx
  obtain ⟨l, -, made⟩ := Option.bind_eq_some_iff.mp made
  cases made
  exact ⟨y, hy, rfl, rfl⟩

theorem memory_run {c : SnapshotMemory.Call} (other : c ≠ .normalizeMemoryBytes) :
    (Call.memory c).run s = do
      let memory ← orAbort (c.run s.toSnapshotMemory)
      return { s with toSnapshotMemory := memory } := by
  cases c with
  | normalizeMemoryBytes => exact absurd rfl other
  | _ => rfl

/-- No mutator changes the architecture, and the registers that it adds are checked. -/
theorem call_registersFit {c : Call} (requires : c.Requires s) (run : c.run s = .ok s')
    (fit : ∀ x ∈ s.expectedEndStates, RegistersFit s.architecture x) :
    ∀ x ∈ s'.expectedEndStates, RegistersFit s'.architecture x := by
  cases c with
  | memory c =>
    by_cases normalize : c = .normalizeMemoryBytes
    · subst normalize
      obtain ⟨arch, same⟩ := normalizeMemoryBytes_after (orAbort_eq_ok.mp run)
      intro x hx
      obtain ⟨y, hy, registers, checksum⟩ := same x hx
      rw [arch]
      exact (fit y hy).congr registers checksum
    · rw [memory_run normalize] at run
      obtain ⟨m, called, made⟩ := bind_eq_ok.mp run
      obtain rfl := Except.ok.inj made
      have arch := SnapshotMemory.call_architecture (orAbort_eq_ok.mp called)
      intro x hx
      rw [arch]
      exact fit x hx
  | setRegisters x =>
    obtain rfl := setRegisters_after run
    exact fit
  | addExpectedEndState x unmappedEndpointOk =>
    obtain rfl := Except.ok.inj run
    intro y hy
    rcases List.mem_append.mp hy with hy | hy
    · exact fit y hy
    · obtain rfl := List.mem_singleton.mp hy
      obtain ⟨_, -, can⟩ := bind_eq_ok.mp requires.2
      obtain ⟨_, ends, -⟩ := bind_eq_ok.mp can
      exact (SnapshotMemory.canEndWith_eq_ok.mp ends).1
  | addPlatformToExpectedEndState i platform =>
    obtain rfl := Except.ok.inj run
    intro y hy
    rcases mem_modify hy with hy | ⟨x, hx, rfl⟩
    · exact fit y hy
    · exact (fit x hx).congr rfl rfl
  | addPlatformsToExpectedEndState i x =>
    obtain rfl := Except.ok.inj run
    intro y hy
    rcases mem_modify hy with hy | ⟨x, hx, rfl⟩
    · exact fit y hy
    · exact (fit x hx).congr rfl rfl
  | setExpectedEndStates xs =>
    obtain ⟨rfl, all⟩ := setExpectedEndStates_after run
    intro x hx
    exact (SnapshotMemory.canEndWith_eq_ok.mp (all x hx)).1
  | removeExpectedEndState i =>
    obtain rfl := Except.ok.inj run
    intro x hx
    exact fit x (List.mem_of_mem_eraseIdx hx)
  | limitEndStatesToPlatform platform =>
    obtain rfl := Except.ok.inj run
    intro x hx
    exact fit x (List.mem_of_mem_filter hx)
  | tryRemoveUndefinedEndStates =>
    obtain rfl := Except.ok.inj run
    unfold Snapshot.tryRemoveUndefinedEndStates
    split
    · intro x hx
      exact fit x (List.mem_of_mem_filter hx)
    · exact fit
  | setId _ | setMetadata _ | setTraceData _ =>
    obtain rfl := Except.ok.inj run
    exact fit

/-- **The registers of every end state can be deserialized**, if there are any. -/
theorem runs_registersFit (h : Runs s) :
    ∀ x ∈ s.expectedEndStates, RegistersFit s.architecture x := by
  induction h with
  | new architecture id valid => simp [Snapshot.new]
  | call c _ requires run ih => exact call_registersFit requires run ih

end Snapshot

end Silifuzz
