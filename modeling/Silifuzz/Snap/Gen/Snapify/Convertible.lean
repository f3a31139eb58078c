import Silifuzz.Common.Snapshot.Registers
import Silifuzz.Snap.Gen.Snapify.Idempotent

/-!
# When Snapify does what CanSnapify says

* `canSnapify_settles`: `CanSnapify` answers, unless the exit sequence would go past the last
  address;
* `snapify_succeeds`: what `Snapify` needs beside what `CanSnapify` checks;
* `canSnapify_exact`: both together.
-/

namespace Silifuzz

open Checked ExitSequence Serialize ReservedMemoryMappings RawInsns

namespace Snapify

variable {debug : Bool} {host : Architecture} {s : Snapshot} {opts : SnapifyOptions}
  {es : EndState} {address : Address} {pos neg : PermsMap} {sb c : BytesMap}

theorem dcheckStatus_eq_ok {status : Checked Unit} {u : Unit} :
    dcheckStatus debug status = .ok u ↔ (debug = true → status = .ok ()) := by
  unfold dcheckStatus
  cases debug with
  | false => simp
  | true =>
    cases status with
    | ok a => simp
    | error e => cases e <;> simp

theorem pickEndState_settles (hm : s.mappedMemoryMap.Represents pos) :
    Settles (pickEndState s opts) fun es => es ∈ s.expectedEndStates := by
  have answers : pickEndState s opts ≠ .error .abort := by
    unfold pickEndState
    split
    · split
      · apply settles_ne_abort (Q := fun _ => True)
        apply settles_bind (Snapshot.isCompleteSomeState_settles hm)
        intro _ _
        exact settles_ok trivial
      · exact settles_ne_abort (settles_status _ fun _ => True)
    · split
      · apply settles_ne_abort (Q := fun _ => True)
        apply settles_bind (EndState.isComplete_settles _ _)
        intro _ _
        exact settles_ok trivial
      · exact settles_ne_abort (settles_status _ fun _ => True)
  exact settles_iff.mpr ⟨answers, fun es picked => pickEndState_mem picked⟩

/-- An end state that is picked is a normal one, or an undefined one as the options allow. -/
theorem pickEndState_kind (hm : s.mappedMemoryMap.Represents pos)
    (picked : pickEndState s opts = .ok es) : es.isComplete .kNormalState = .ok () ∨
      opts.allowUndefinedEndState = true ∧ es.memoryBytes = [] := by
  unfold pickEndState at picked
  split at picked
  · next allowed =>
    split at picked
    · next first states =>
      obtain ⟨_, complete, same⟩ := bind_eq_ok.mp picked
      obtain rfl : first = es := Except.ok.inj same
      obtain ⟨state, complete⟩ := (Snapshot.isCompleteSomeState_eq_ok hm).mp complete
      obtain ⟨-, -, -, -, -, each⟩ := Snapshot.isComplete_eq_ok.mp complete
      have checked := each (first, 0) (by simp [states])
      rw [Snapshot.isCompleteEndState, plus_eq_ok] at checked
      obtain ⟨_, kind, -⟩ := bind_eq_ok.mp checked
      cases state with
      | kNormalState => exact .inl kind
      | kUndefinedEndState | kMakingState =>
        simp only [EndState.isComplete, bind_eq_ok, ensure_eq_ok, List.isEmpty_iff] at kind
        obtain ⟨-, -, -, empty, -⟩ := kind
        exact .inr ⟨allowed, empty⟩
    · cases picked
  · split at picked
    · obtain ⟨_, complete, same⟩ := bind_eq_ok.mp picked
      obtain rfl := Except.ok.inj same
      exact .inl complete
    · cases picked

/-- The stack pointer of an end state can be read. -/
theorem hasStack_settles (hm : s.mappedMemoryMap.Represents pos)
    (fit : RegistersFit s.architecture es) : Settles (hasStack s es) fun _ => True := by
  have read : ∃ rsp, s.extractRsp es.registers = some rsp := by
    unfold SnapshotMemory.extractRsp
    split
    · exact ⟨0, rfl⟩
    · next some =>
      have set : es.registers.isUnset ≠ true := by simp [RegisterState.isUnset, some]
      obtain ⟨gregs, known⟩ := Option.isSome_iff_exists.mp (fit.registers.resolve_left set).1
      rw [known]
      exact ⟨_, rfl⟩
  obtain ⟨rsp, read⟩ := read
  apply settles_bind (settles_orAbort (Q := fun _ => True) read trivial)
  intro rsp _
  have answer : ∀ mapped : Bool, Settles (ensure mapped "need at least 8 bytes on stack")
      fun _ => True := fun _ => settles_ensure fun _ => trivial
  dsimp only
  split
  · exact answer false
  · next room =>
    obtain ⟨b, contains, -⟩ := MappedMemoryMap.containsRange_eq hm (show rsp - 8 < rsp by lia)
    apply settles_bind (settles_orAbort (Q := fun _ => True) contains trivial)
    intro b _
    exact answer b

theorem getSnapExitSequenceSize_lt (arch : Architecture) : getSnapExitSequenceSize arch < 2 ^ 64 := by
  cases arch <;> decide

/-- A range whose end comes before its start fails the `CHECK` of `RangeMap::Find`. -/
theorem containsRange_backward {m : MappedMemoryMap} {start limit : Address}
    (backward : ¬ start ≤ limit) : m.containsRange start limit = none := by
  unfold MappedMemoryMap.containsRange RangeMap.covers RangeMap.find
  rw [if_neg backward]
  rfl

/-- `CanSnapify` answers about an end state exactly if the exit sequence does not go past the
last address. -/
theorem canSnapify_answers (hs : s.Sound pos neg sb)
    (fit : ∀ x ∈ s.expectedEndStates, RegistersFit s.architecture x) :
    canSnapify host s opts ≠ .error .abort ↔ ∀ es address, pickEndState s opts = .ok es →
      es.endpoint = .kInstruction address →
      overlapReservedMemoryMappings host s.memoryMappings = some false →
      address + getSnapExitSequenceSize s.architecture ≤ kMaxAddress := by
  have hm := hs.memory.mapped
  have positive := getSnapExitSequenceSize_pos s.architecture
  have small := getSnapExitSequenceSize_lt s.architecture
  constructor
  · intro answers es address picked endpoint apart
    by_contra beyond
    refine answers (bind_eq_abort.mpr (.inr ⟨es, picked, ?_⟩))
    have none : s.mappedMemoryMap.containsRange address
        ((address + getSnapExitSequenceSize s.architecture) % 2 ^ 64) = none := by
      apply containsRange_backward
      simp only [kMaxAddress] at beyond
      lia
    simp only [endpoint, apart, none, orAbort, ensure, Bool.not_false, if_true, ok_bind, error_bind]
  · intro within
    apply settles_ne_abort (Q := fun _ => True)
    apply settles_bind (settles_self (pickEndState_settles hm))
    rintro es ⟨picked, member⟩
    cases endpoint : es.endpoint with
    | kSignal => exact settles_status _ _
    | kInstruction address =>
      obtain ⟨overlap, reserved, -⟩ := overlapReservedMemoryMappings_eq host hs.memory.mappings
      simp only
      apply settles_bind (settles_orAbort (Q := fun b => b = overlap) reserved rfl)
      rintro overlap rfl
      apply settles_bind (settles_ensure (Q := fun _ => (!overlap) = true) fun ok => ok)
      intro _ apart
      obtain rfl : overlap = false := by simpa using apart
      have fits := within es address picked endpoint reserved
      have sum : (address + getSnapExitSequenceSize s.architecture) % 2 ^ 64 =
          address + getSnapExitSequenceSize s.architecture := by
        simp only [kMaxAddress] at fits
        lia
      obtain ⟨b, contains, -⟩ := MappedMemoryMap.containsRange_eq hm
        (Nat.lt_add_of_pos_right (n := address) positive)
      rw [sum]
      apply settles_bind (settles_orAbort (Q := fun _ => True) contains trivial)
      intro _ _
      apply settles_bind (Q := fun _ => True) (settles_ensure fun _ => trivial)
      intro _ _
      apply settles_bind (settles_isOk (EndState.isComplete_settles es .kUndefinedEndState))
      intro _ _
      split
      · exact settles_ok trivial
      · exact hasStack_settles hm (fit es member)

/-- An end state at an instruction can be added to a snapshot without others. -/
theorem canAdd_withParts {m : SnapshotMemory} {e : EndState}
    (endpoint : e.endpoint = .kInstruction address) :
    (s.withParts m []).canAddExpectedEndState e false false = .ok () ↔
      m.isExecutable address 1 = .ok true ∧ m.canEndWith e = .ok () := by
  have dup : (s.withParts m []).checkDuplicate e = .ok () := rfl
  simp only [Snapshot.canAddExpectedEndState, endpoint, SnapshotMemory.canEndAt, bind_eq_ok,
    ensure_eq_ok, dup, Bool.false_eq_true, if_false, Bool.false_or]
  constructor
  · rintro ⟨-, ⟨b, executable, rfl⟩, _, ends, -⟩
    exact ⟨executable, ends⟩
  · rintro ⟨executable, ends⟩
    exact ⟨(), ⟨true, executable, rfl⟩, (), ends, trivial⟩

/-- The end state that is picked becomes one that can be added, but for its endpoint. -/
theorem snapifyEndState_succeeds (debug : Bool) (hs : s.toSnapshotMemory.Keeps pos neg c)
    (filled : ∀ k, (c k).isSome = (pos k).isSome) (fit : RegistersFit s.architecture es)
    (kind : es.isComplete .kNormalState = .ok () ∨
      opts.allowUndefinedEndState = true ∧ es.memoryBytes = [])
    {d : BytesMap} (contents : Contents es.memoryBytes d)
    (mapped : ∀ k, (d k).isSome → (pos k).isSome) :
    ∃ e, snapifyEndState debug s opts es = .ok e ∧ e.endpoint = es.endpoint ∧
      s.canEndWith e = .ok () := by
  by_cases complete : es.isComplete .kNormalState = .ok ()
  · obtain ⟨set, l, run, bytes⟩ := snapifyEndState_contents debug opts hs filled complete contents mapped
    refine ⟨es.withBytes set l, run, rfl, SnapshotMemory.canEndWith_eq_ok.mpr ⟨?_, ?_, ?_⟩⟩
    · exact fit.congr rfl rfl
    · intro unset
      have set := EndState.isUnset_of_complete complete
      cases set.symm.trans unset
    · intro b hb
      apply (SnapshotMemory.isWritable_eq_ok hs.mapped b.start_lt_limit).mpr
      intro k low high
      exact (snapEndBytes_isSome filled mapped k).mp (bytes.isSome_iff.mpr ⟨b, hb, low, high⟩)
  · obtain ⟨allowed, empty⟩ := kind.resolve_left complete
    have answers := isOk_eq_ok (settles_ne_abort (EndState.isComplete_settles es .kNormalState))
    refine ⟨es, ?_, rfl, SnapshotMemory.canEndWith_eq_ok.mpr ⟨fit, fun _ => empty, by simp [empty]⟩⟩
    simp [snapifyEndState, answers, complete, allowed]

/-- **`Snapify` after `CanSnapify` needs an executable endpoint**, and in a debug build also
that the changes of the end state are still in writable memory. -/
theorem snapify_succeeds (debug : Bool) (hs : s.Sound pos neg sb)
    (fit : ∀ x ∈ s.expectedEndStates, RegistersFit s.architecture x)
    (picked : pickEndState s opts = .ok es) (endable : Endable host s opts es address) :
    (∃ t, snapify debug host s opts = .ok t) ↔ s.isExecutable address 1 = .ok true ∧
      (debug = true → ∀ b ∈ es.memoryBytes, s.isWritable b.startAddress b.limitAddress = .ok true) := by
  obtain ⟨fits, inside⟩ := endable.fits hs.memory.mapped
  obtain ⟨m, m', normalize, snap, hm, eq⟩ := snapify_eq debug hs.memory picked endable
  have filled := snapBytes_filled s.architecture hs.memory.mappedBytes inside
  have member := pickEndState_mem picked
  have within := hs.states es member
  obtain ⟨d, contents, -⟩ := within.wellFormed.bytes
  have mapped : ∀ k, (d k).isSome → (pos k).isSome := by
    intro k hk
    obtain ⟨b, hb, cover⟩ := contents.isSome_iff.mp hk
    exact within.mapped b hb k cover
  -- the maps and the architecture stay
  have arch : m.architecture = s.architecture :=
    SnapshotMemory.call_architecture (c := .normalizeMemoryMappings) normalize
  have map : m.mappedMemoryMap = s.mappedMemoryMap :=
    SnapshotMemory.call_map (c := .normalizeMemoryMappings) id normalize
  obtain ⟨_, l, set, -, -, -, rfl⟩ := snap
  have kind := pickEndState_kind hs.memory.mapped picked
  have fits := fit es member
  rw [← arch] at fits
  obtain ⟨e, ended, endpoint, ends⟩ := snapifyEndState_succeeds debug
    (s := s.withParts (m.withBytes set l) []) hm filled fits kind contents mapped
  have executable : (m.withBytes set l).isExecutable address 1 = s.isExecutable address 1 := by
    simp only [SnapshotMemory.isExecutable, SnapshotMemory.withBytes, map]
  have executable' : m.isExecutable address 1 = s.isExecutable address 1 := by
    simp only [SnapshotMemory.isExecutable, map]
  have added := canAdd_withParts (s := s) (m := m.withBytes set l) (endpoint.trans endable.endpoint)
  have first := canAdd_withParts (s := s) (m := m) endable.endpoint
  -- what the end state has before
  have before : m.canEndWith es = .ok () ↔
      ∀ b ∈ es.memoryBytes, s.isWritable b.startAddress b.limitAddress = .ok true := by
    have same : ∀ start limit, m.isWritable start limit = s.isWritable start limit := by
      intro start limit
      simp only [SnapshotMemory.isWritable, map]
    simp only [SnapshotMemory.canEndWith_eq_ok, same]
    constructor
    · rintro ⟨-, -, writable⟩
      exact writable
    · intro writable
      refine ⟨fits, fun unset => ?_, writable⟩
      rcases kind with complete | ⟨-, empty⟩
      · rw [EndState.isUnset_of_complete complete] at unset
        cases unset
      · exact empty
  rw [executable] at added
  rw [executable', before] at first
  rw [eq]
  simp only [bind_eq_ok, dcheckStatus_eq_ok, first, ended, Except.ok.injEq, pure_ok]
  constructor
  · rintro ⟨t, _, both, _, rfl, _, run, -⟩
    exact ⟨(added.mp run).1, fun checked => (both checked).2⟩
  · rintro ⟨run, writable⟩
    exact ⟨_, (), fun checked => ⟨run, writable checked⟩, e, rfl, (), added.mpr ⟨run, ends⟩, rfl⟩

/-- What `CanSnapify` does not see to: the endpoint plus the size of the exit sequence is at most
`kMaxAddress`; and if the exit sequence is in mapped memory and there is a stack to exit with, then
the endpoint is executable and, for a debug build, the changes of the end state are in writable
memory. -/
def Convertible (debug : Bool) (host : Architecture) (s : Snapshot) (opts : SnapifyOptions) : Prop :=
  ∀ es address, pickEndState s opts = .ok es → es.endpoint = .kInstruction address →
    overlapReservedMemoryMappings host s.memoryMappings = some false →
    address + getSnapExitSequenceSize s.architecture ≤ kMaxAddress ∧
      (s.mappedMemoryMap.containsRange address
          (address + getSnapExitSequenceSize s.architecture) = some true →
        (opts.allowUndefinedEndState = true ∧ es.isComplete .kUndefinedEndState = .ok () ∨
          hasStack s es = .ok ()) →
        s.isExecutable address 1 = .ok true ∧ (debug = true →
          ∀ b ∈ es.memoryBytes, s.isWritable b.startAddress b.limitAddress = .ok true))

/-- **`CanSnapify` answers, and is right when it says yes**, exactly if the snapshot is
`Convertible`. -/
theorem canSnapify_exact (debug : Bool) (host : Architecture) (opts : SnapifyOptions)
    (built : s.Runs) :
    (canSnapify host s opts ≠ .error .abort ∧
      (canSnapify host s opts = .ok () → ∃ t, snapify debug host s opts = .ok t)) ↔
    Convertible debug host s opts := by
  obtain ⟨pos, neg, sb, hs⟩ := Snapshot.runs_sound built
  have fit := Snapshot.runs_registersFit built
  have sum : ∀ address : Address, address + getSnapExitSequenceSize s.architecture ≤ kMaxAddress →
      (address + getSnapExitSequenceSize s.architecture) % 2 ^ 64 =
        address + getSnapExitSequenceSize s.architecture := by
    intro address fits
    simp only [kMaxAddress] at fits
    lia
  rw [canSnapify_answers hs fit]
  constructor
  · rintro ⟨within, converts⟩ es address picked endpoint apart
    have fits := within es address picked endpoint apart
    refine ⟨fits, fun room stack => ?_⟩
    have endable : Endable host s opts es address :=
      ⟨endpoint, apart, by rwa [sum address fits], stack⟩
    exact (snapify_succeeds debug hs fit picked endable).mp
      (converts (canSnapify_eq_ok.mpr ⟨es, address, picked, endable⟩))
  · intro convertible
    refine ⟨fun es address picked endpoint apart => (convertible es address picked endpoint apart).1,
      fun can => ?_⟩
    obtain ⟨es, address, picked, endable⟩ := canSnapify_eq_ok.mp can
    obtain ⟨fits, rest⟩ := convertible es address picked endable.endpoint endable.apart
    have room := endable.room
    rw [sum address fits] at room
    exact (snapify_succeeds debug hs fit picked endable).mpr (rest room endable.stack)

/-- The page with all permissions can be converted. -/
theorem canSnapify_exact_highPage :
    Convertible true .kX86_64 highSnapshot { compressRepeatingBytes := false } := by
  have succeeds : (snapify true .kX86_64 highSnapshot
      { compressRepeatingBytes := false }).toOption.isSome = true := by decide +kernel
  obtain ⟨t, run⟩ := exists_ok succeeds
  obtain ⟨_, can, -⟩ := bind_eq_ok.mp run
  apply (canSnapify_exact true .kX86_64 { compressRepeatingBytes := false } highSnapshot_runs).mp
  constructor
  · rw [can]
    rintro ⟨⟩
  · intro _
    exact ⟨t, run⟩

/-- An end state at one of the last addresses, where nothing is mapped. -/
def topEndState : EndState :=
  (EndState.new (.kInstruction 0xfffffffffffffff8) highRegisters).addPlatform 1

def topSnapshot : Snapshot := highSnapshot.withParts highSnapshot.toSnapshotMemory [topEndState]

/-- The page without its executable permission. -/
def dataPage : MemoryMapping :=
  ⟨0x20000, 0x1000, ⟨3⟩, MemoryMapping.page_nonempty, MemoryMapping.freePage_bounded,
    MemoryPerms.proper_rw, MemoryPerms.unmapped_rw⟩

/-- The page that ends where it cannot be executed. -/
def dataSnapshot : Snapshot :=
  { highSnapshot with
    mappedMemoryMap := ⟨[⟨0x20000, 0x21000, ⟨3⟩⟩]⟩
    memoryMappings := [dataPage]
    registers := none }

set_option maxRecDepth 10000 in
theorem topSnapshot_runs : topSnapshot.Runs := by
  have mapped : Snapshot.Runs _ := .call (.memory (.addMemoryMapping highPage))
    (.new .kX86_64 unsetId rfl) rfl rfl
  have filled : Snapshot.Runs { highSnapshot with registers := none, expectedEndStates := [] } :=
    .call (.memory (.addMemoryBytes highBytes)) mapped rfl rfl
  have started : Snapshot.Runs { highSnapshot with expectedEndStates := [] } :=
    .call (.setRegisters highRegisters) filled rfl rfl
  have endStateBuilt : topEndState.Built := .addPlatform 1 (.new highRegisters trivial)
  exact .call (.addExpectedEndState topEndState true) started ⟨endStateBuilt, rfl⟩ rfl

set_option maxRecDepth 10000 in
theorem dataSnapshot_runs : dataSnapshot.Runs := by
  have mapped : Snapshot.Runs _ := .call (.memory (.addMemoryMapping dataPage))
    (.new .kX86_64 unsetId rfl) rfl rfl
  have filled : Snapshot.Runs { dataSnapshot with expectedEndStates := [] } :=
    .call (.memory (.addMemoryBytes highBytes)) mapped rfl rfl
  have endStateBuilt : highEndState.Built := .addPlatform 1 (.new highRegisters trivial)
  exact .call (.addExpectedEndState highEndState true) filled ⟨endStateBuilt, rfl⟩ rfl

/-- `CanSnapify` aborts on the one, and `Snapify` fails on the other after `CanSnapify`. -/
theorem canSnapify_wrong :
    (topSnapshot.Runs ∧ canSnapify .kX86_64 topSnapshot {} = .error .abort) ∧
      dataSnapshot.Runs ∧ canSnapify .kX86_64 dataSnapshot { compressRepeatingBytes := false } = .ok () ∧
      ¬ ∃ t, snapify false .kX86_64 dataSnapshot { compressRepeatingBytes := false } = .ok t := by
  have can : (canSnapify .kX86_64 dataSnapshot
      { compressRepeatingBytes := false }).toOption.isSome = true := by decide +kernel
  have fails : (snapify false .kX86_64 dataSnapshot
      { compressRepeatingBytes := false }).toOption.isSome = false := by decide +kernel
  obtain ⟨_, can⟩ := exists_ok can
  refine ⟨⟨topSnapshot_runs, rfl⟩, dataSnapshot_runs, can, ?_⟩
  rintro ⟨t, run⟩
  rw [run] at fails
  cases fails

end Snapify

end Silifuzz
