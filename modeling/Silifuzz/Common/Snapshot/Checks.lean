import Silifuzz.Common.Snapshot.Full
import Silifuzz.Common.Snapshot.Invariant

/-!
# The checks of a Snapshot answer

No check of `common/snapshot.cc` aborts on a snapshot whose maps represent something,
whatever it is asked about; and what it accepts can be added.
-/

namespace Silifuzz

open Checked Serialize RangeMap

theorem MappedMemoryMap.perms_total {m : MappedMemoryMap} {f : PermsMap} (hm : m.Represents f)
    (start limit : Address) : ∃ p, m.perms start limit .kAnd = some p := by
  by_cases h : start < limit
  · obtain ⟨p, run, -⟩ := perms_and hm h
    exact ⟨p, run⟩
  · exact ⟨.none, if_pos (not_lt.mp h)⟩

theorem MemoryMapping.checkSized_settles (start numBytes : Nat) :
    Settles (MemoryMapping.checkSized start numBytes) fun _ =>
      0 < numBytes ∧ start + numBytes ≤ kMaxAddress := by
  apply settles_bind (Q := fun _ => 0 < numBytes)
  · apply settles_ensure
    intro positive
    simpa using positive
  · intro _ positive
    apply settles_ensure
    intro fits
    exact ⟨positive, by simpa using fits⟩

theorem ofStatus_settles {x : Option (Except SnapshotError Unit)} (total : ∃ r, x = some r) :
    Settles (ofStatus x) fun _ => x = some (.ok ()) := by
  obtain ⟨r, rfl⟩ := total
  cases r with
  | error e => exact settles_status e.text _
  | ok u => exact settles_ok rfl

@[simp] theorem ofStatus_eq_ok {α : Type} {x : Option (Except SnapshotError α)} {a : α} :
    ofStatus x = .ok a ↔ x = some (.ok a) := by
  cases x with
  | none => simp [ofStatus]
  | some r =>
    cases r with
    | error e => simp [ofStatus, invalidArgument]
    | ok b => simp [ofStatus]

theorem EndState.isComplete_settles (x : EndState) (state : State) :
    Settles (x.isComplete state) fun _ => True := by
  have two (a b : Bool) (m n : String) : Settles (do ensure a m; ensure b n) fun _ => True := by
    apply settles_bind (Q := fun _ => True) (settles_ensure fun _ => trivial)
    intro _ _
    exact settles_ensure fun _ => trivial
  have three (a b c : Bool) (m n o : String) :
      Settles (do ensure a m; ensure b n; ensure c o) fun _ => True := by
    apply settles_bind (Q := fun _ => True) (settles_ensure fun _ => trivial)
    intro _ _
    exact two b c n o
  cases state with
  | kUndefinedEndState => exact three _ _ _ _ _ _
  | kMakingState => exact three _ _ _ _ _ _
  | kNormalState => exact two _ _ _ _

namespace SnapshotMemory

variable {s : SnapshotMemory} {f g : PermsMap} {w : BytesMap}

theorem isExecutable_settles (hm : s.mappedMemoryMap.Represents f) (addr size : Nat) :
    Settles (s.isExecutable addr size) fun _ => True := by
  apply settles_bind (MemoryMapping.checkSized_settles addr size)
  intro _ _
  obtain ⟨p, perms⟩ := MappedMemoryMap.perms_total hm addr (addr + size)
  apply settles_bind (settles_orAbort (Q := fun _ => True) perms trivial)
  intro _ _
  exact settles_ok trivial

theorem isWritable_settles (hm : s.mappedMemoryMap.Represents f) (start limit : Address) :
    Settles (s.isWritable start limit) fun _ => True := by
  obtain ⟨p, perms⟩ := MappedMemoryMap.perms_total hm start limit
  apply settles_bind (settles_orAbort (Q := fun _ => True) perms trivial)
  intro _ _
  exact settles_ok trivial

theorem canStart_settles (hm : s.mappedMemoryMap.Represents f) (gregs : ByteData) :
    Settles (s.canStart gregs) fun _ => True := by
  apply settles_bind (isExecutable_settles hm _ _)
  intro _ _
  apply settles_bind (Q := fun _ => True) (settles_ensure fun _ => trivial)
  intro _ _
  apply settles_bind (Q := fun _ => True)
  · split
    · exact settles_ok trivial
    · exact isWritable_settles hm _ _
  · intro _ _
    exact settles_ensure fun _ => trivial

/-- Registers that can be set are registers of the architecture. -/
theorem canSetRegisters_settles (hm : s.mappedMemoryMap.Represents f) (x : RegisterState)
    (isEndState : Bool) :
    Settles (s.canSetRegisters x isEndState) fun _ => s.registersMatchArch x = true := by
  apply settles_bind (settles_orStatus fun gregs h => mayBeSerializedGRegs_of_some h)
  intro gregs hg
  apply settles_bind (settles_orStatus fun fpregs h => mayBeSerializedFPRegs_of_some h)
  intro fpregs hf
  have both : s.registersMatchArch x = true := by
    rw [registersMatchArch, hg, hf]
    rfl
  split
  · exact settles_ok both
  · exact settles_post (canStart_settles hm gregs) fun _ _ => both

theorem canEndAt_settles (hm : s.mappedMemoryMap.Represents f) (unmappedEndpointOk : Bool)
    (endpoint : Endpoint) : Settles (s.canEndAt unmappedEndpointOk endpoint) fun _ => True := by
  cases endpoint with
  | kInstruction instructionAddress =>
    apply settles_bind (isExecutable_settles hm _ _)
    intro _ _
    exact settles_ensure fun _ => trivial
  | kSignal sigNum sigCause sigAddress sigInstructionAddress =>
    apply settles_bind (Q := fun _ => True) (settles_ensure fun _ => trivial)
    intro _ _
    exact settles_ensure fun _ => trivial

theorem writableBytes_settles (hm : s.mappedMemoryMap.Represents f) (l : List MemoryBytes) :
    Settles (l.forM fun r => do
      let writable ← s.isWritable r.startAddress r.limitAddress
      ensure writable ("memory_bytes at [" ++ hexStr r.startAddress ++ "; " ++
        hexStr r.limitAddress ++ ") is not in an existing writable MemoryMapping"))
      fun _ => True := by
  induction l with
  | nil => exact settles_ok trivial
  | cons r l ih =>
    apply settles_bind (Q := fun _ => True)
    · apply settles_bind (isWritable_settles hm _ _)
      intro _ _
      exact settles_ensure fun _ => trivial
    · intro _ _
      exact ih

theorem canEndWith_settles (hm : s.mappedMemoryMap.Represents f) (x : EndState) :
    Settles (s.canEndWith x) fun _ => True := by
  have rest : Settles (do
      x.memoryBytes.forM fun r => do
        let writable ← s.isWritable r.startAddress r.limitAddress
        ensure writable ("memory_bytes at [" ++ hexStr r.startAddress ++ "; " ++
          hexStr r.limitAddress ++ ") is not in an existing writable MemoryMapping")
      ensure (x.registerChecksum.isEmpty ||
        isValidRegisterChecksumForArch s.architecture x.registerChecksum) "Bad register checksum")
      fun _ => True := by
    apply settles_bind (writableBytes_settles hm x.memoryBytes)
    intro _ _
    exact settles_ensure fun _ => trivial
  unfold canEndWith
  split
  · apply settles_bind (Q := fun _ => True) (settles_ensure fun _ => trivial)
    intro _ _
    exact rest
  · apply settles_bind (settles_plus (canSetRegisters_settles hm x.registers true))
    intro _ _
    exact rest

/-- The check of a mapping always answers. -/
theorem canAddMemoryMapping_total (hs : s.Holds f g) (x : MemoryMapping) :
    ∃ r, s.canAddMemoryMapping x = some r := by
  obtain ⟨b, overlaps, -⟩ := MappedMemoryMap.overlaps_eq hs.mapped x.start_lt_limit
  obtain ⟨p, perms, -⟩ := MappedMemoryMap.perms_or hs.negativeMapped x.start_lt_limit
  unfold canAddMemoryMapping
  split_ifs
  · exact ⟨_, rfl⟩
  · exact ⟨_, rfl⟩
  · exact ⟨_, rfl⟩
  · rw [overlaps, perms]
    cases b
    · simp only [Option.bind_eq_bind, Option.bind_some, Bool.false_eq_true, if_false]
      split <;> exact ⟨_, rfl⟩
    · exact ⟨_, rfl⟩

/-- A mapping is accepted when it fulfils what is asked of it. -/
theorem Accepted.can {x : MemoryMapping} (hs : s.Holds f g) (ok : s.Accepted x) :
    s.canAddMemoryMapping x = some (.ok ()) := by
  obtain ⟨p, perms, -⟩ := MappedMemoryMap.perms_or hs.negativeMapped x.start_lt_limit
  unfold canAddMemoryMapping
  rw [if_neg (by simpa using ok.perms), if_neg x.start_lt_limit.ne,
    if_neg (by simpa using ok.aligned), ok.new, perms]
  simp [ok.free p perms]

theorem AcceptedNegative.can {x : MemoryMapping} (hs : s.Holds f g)
    (ok : s.AcceptedNegative x false) :
    s.canAddNegativeMemoryMapping x false = some (.ok ()) := by
  obtain ⟨p, perms, -⟩ := MappedMemoryMap.perms_or hs.mapped x.start_lt_limit
  unfold canAddNegativeMemoryMapping
  rw [if_neg (by simpa using ok.perms), if_neg x.start_lt_limit.ne,
    if_neg (by simpa [or_iff_not_imp_left] using ok.aligned), ok.new rfl, perms]
  simp [ok.free p perms]

theorem overlaps_new {m : MappedMemoryMap} {x : MemoryMapping} (hm : m.Represents f)
    (new : ∀ k, x.Covers k → f k = none) :
    m.overlaps x.startAddress x.limitAddress = some false := by
  obtain ⟨b, overlaps, iff⟩ := MappedMemoryMap.overlaps_eq hm x.start_lt_limit
  cases b with
  | false => exact overlaps
  | true =>
    obtain ⟨k, low, high, some⟩ := iff.mp rfl
    simp [new k ⟨low, high⟩] at some

theorem perms_apart {m : MappedMemoryMap} {x : MemoryMapping} (hm : m.Represents f)
    (free : ∀ k, x.Covers k → ∀ q ∈ f k, x.perms.hasSomeOf q = false) (p : MemoryPerms)
    (run : m.perms x.startAddress x.limitAddress .kOr = some p) : x.perms.hasSomeOf p = false := by
  obtain ⟨p', run', iff⟩ := MappedMemoryMap.perms_or hm x.start_lt_limit
  obtain rfl : p' = p := Option.some.inj (run'.symm.trans run)
  exact (iff x.perms).mpr fun k low high => free k ⟨low, high⟩

/-- What is accepted, by what the maps represent. -/
theorem acceptedBytes_of {b : MemoryBytes} (hs : s.Keeps f g w)
    (mapped : ∀ k, b.Covers k → (f k).isSome) (free : ∀ k, b.Covers k → w k = none) :
    s.AcceptedBytes b := by
  obtain ⟨inside, contains, full⟩ := MappedMemoryMap.containsRange_eq hs.mapped b.start_lt_limit
  obtain ⟨apart, disjoint, empty⟩ := hs.written.isDisjoint_eq b.start_lt_limit
  obtain rfl : inside = true := full.mpr fun k low high => mapped k ⟨low, high⟩
  obtain rfl : apart = true := empty.mpr fun k low high => by simp [free k ⟨low, high⟩]
  exact ⟨contains, disjoint⟩

theorem AcceptedBytes.can {b : MemoryBytes} (ok : s.AcceptedBytes b) :
    s.canAddMemoryBytes b = some (.ok ()) := by
  simp [canAddMemoryBytes, ok.mapped, ok.new]

theorem canAddMemoryBytes_total (hs : s.Keeps f g w) (b : MemoryBytes) :
    ∃ r, s.canAddMemoryBytes b = some r := by
  obtain ⟨inside, contains, -⟩ := MappedMemoryMap.containsRange_eq hs.mapped b.start_lt_limit
  obtain ⟨apart, disjoint, -⟩ := hs.written.isDisjoint_eq b.start_lt_limit
  simp only [canAddMemoryBytes, contains, disjoint, Option.bind_eq_bind, Option.bind_some]
  cases inside
  · exact ⟨_, rfl⟩
  · cases apart <;> exact ⟨_, rfl⟩

end SnapshotMemory

namespace Snapshot

variable {s : Snapshot} {f : PermsMap}

theorem checkDuplicate_settles (s : Snapshot) (x : EndState) :
    Settles (s.checkDuplicate x) fun _ => True := by
  unfold checkDuplicate
  split
  · exact settles_status _ _
  · exact settles_ok trivial

theorem canAddExpectedEndState_settles (hm : s.mappedMemoryMap.Represents f) (x : EndState)
    (unmappedEndpointOk duplicateOk : Bool) :
    Settles (s.canAddExpectedEndState x unmappedEndpointOk duplicateOk) fun _ => True := by
  apply settles_bind (SnapshotMemory.canEndAt_settles hm _ _)
  intro _ _
  apply settles_bind (SnapshotMemory.canEndWith_settles hm x)
  intro _ _
  split
  · exact settles_ok trivial
  · exact checkDuplicate_settles s x

theorem isCompleteEndState_settles (hm : s.mappedMemoryMap.Represents f) (state : State)
    (x : EndState × Nat) : Settles (s.isCompleteEndState state x) fun _ => True := by
  apply settles_plus
  apply settles_bind (EndState.isComplete_settles x.1 state)
  intro _ _
  split
  · exact settles_ok trivial
  · exact canAddExpectedEndState_settles hm x.1 _ _

theorem isComplete_settles (hm : s.mappedMemoryMap.Represents f) (state : State) :
    Settles (s.isComplete state) fun _ => True := by
  have pass {ok : Bool} {message : String} : Settles (ensure ok message) fun _ => True :=
    settles_ensure fun _ => trivial
  iterate 6
    apply settles_bind pass
    intro _ _
  induction s.expectedEndStates.zipIdx with
  | nil => exact settles_ok trivial
  | cons x l ih =>
    apply settles_bind (isCompleteEndState_settles hm state x)
    intro _ _
    exact ih

theorem isCompleteSomeState_settles (hm : s.mappedMemoryMap.Represents f) :
    Settles s.isCompleteSomeState fun _ => True := by
  apply settles_bind (settles_isOk (isComplete_settles hm .kNormalState))
  intro normal _
  split
  · exact settles_ok trivial
  · apply settles_bind (settles_isOk (isComplete_settles hm .kUndefinedEndState))
    intro undefined _
    split
    · exact settles_ok trivial
    · exact isComplete_settles hm .kMakingState

end Snapshot

end Silifuzz
