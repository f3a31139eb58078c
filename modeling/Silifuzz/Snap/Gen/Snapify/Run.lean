import Silifuzz.Snap.Gen.Snapify.Contents

/-!
# A run of Snapify

* `canSnapify_eq_ok`: what `CanSnapify` checks of the end state that is picked, `Endable`;
* `snapify_eq`: `Snapify` after that check, where `SnapMemory` is the memory of its result.
-/

namespace Silifuzz

open Checked ExitSequence RepeatingByteRuns ReservedMemoryMappings RawInsns

namespace Snapshot

variable {s : Snapshot} {f : PermsMap}

/-- The snapshot with other memory and other end states. -/
def withParts (s : Snapshot) (m : SnapshotMemory) (xs : List EndState) : Snapshot :=
  { s with toSnapshotMemory := m, expectedEndStates := xs }

theorem isComplete_eq_ok {state : State} : s.isComplete state = .ok () ↔
    s.memoryMappings ≠ [] ∧
      s.expectedEndStates.any needsNegativeMapping = !s.negativeMemoryMappings.isEmpty ∧
      s.memoryBytes ≠ [] ∧ s.registers.isSome ∧
      (s.expectedEndStates = [] → state ≠ .kNormalState) ∧
      ∀ x ∈ s.expectedEndStates.zipIdx, s.isCompleteEndState state x = .ok () := by
  have negative : ∀ needs has : Bool, (!(needs && !has)) = true ∧ (!(!needs && has)) = true ↔
      needs = has := by decide
  simp only [isComplete, bind_eq_ok, ensure_eq_ok, forM_eq_ok]
  constructor
  · rintro ⟨-, mappings, -, needed, -, needless, -, bytes, -, registers, -, states, each⟩
    refine ⟨by simpa using mappings, (negative _ _).mp ⟨needed, needless⟩, by simpa using bytes,
      registers, fun empty normal => ?_, each⟩
    simp [empty, normal] at states
  · rintro ⟨mappings, negatives, bytes, registers, states, each⟩
    obtain ⟨needed, needless⟩ := (negative _ _).mpr negatives
    refine ⟨(), by simpa using mappings, (), needed, (), needless, (), by simpa using bytes, (),
      registers, (), ?_, each⟩
    cases empty : s.expectedEndStates with
    | nil => simpa using states empty
    | cons => rfl

/-- A snapshot is complete in some state if it is in one of the three. -/
theorem isCompleteSomeState_eq_ok (hm : s.mappedMemoryMap.Represents f) :
    s.isCompleteSomeState = .ok () ↔ ∃ state, s.isComplete state = .ok () := by
  have settles := fun state => isOk_eq_ok (settles_ne_abort (isComplete_settles hm state))
  simp only [isCompleteSomeState, settles, ok_bind]
  constructor
  · intro run
    by_cases normal : s.isComplete .kNormalState = .ok ()
    · exact ⟨_, normal⟩
    · by_cases undefined : s.isComplete .kUndefinedEndState = .ok ()
      · exact ⟨_, undefined⟩
      · exact ⟨_, by simpa [normal, undefined] using run⟩
  · rintro ⟨state, complete⟩
    cases state with
    | kNormalState => simp [complete]
    | kUndefinedEndState => simp [complete]
    | kMakingState =>
      split
      · rfl
      · split
        · rfl
        · exact complete

end Snapshot

namespace Snapify

variable {debug : Bool} {host : Architecture} {s : Snapshot} {opts : SnapifyOptions}
  {es : EndState} {address : Address} {pos neg : PermsMap} {sb c : BytesMap}

/-- A snap can end at `address`, with the end state `es`. -/
structure Endable (host : Architecture) (s : Snapshot) (opts : SnapifyOptions) (es : EndState)
    (address : Address) : Prop where
  endpoint : es.endpoint = .kInstruction address
  apart : overlapReservedMemoryMappings host s.memoryMappings = some false
  room : s.mappedMemoryMap.containsRange address
    ((address + getSnapExitSequenceSize s.architecture) % 2 ^ 64) = some true
  stack : opts.allowUndefinedEndState = true ∧ es.isComplete .kUndefinedEndState = .ok () ∨
    hasStack s es = .ok ()

theorem canSnapify_eq_ok : canSnapify host s opts = .ok () ↔
    ∃ es address, pickEndState s opts = .ok es ∧ Endable host s opts es address := by
  have undefined := fun es : EndState => isOk_eq_ok
    (settles_ne_abort (EndState.isComplete_settles es .kUndefinedEndState))
  constructor
  · intro run
    obtain ⟨es, picked, run⟩ := bind_eq_ok.mp run
    cases endpoint : es.endpoint with
    | kSignal => simp [endpoint, invalidArgument] at run
    | kInstruction address =>
      simp only [endpoint, bind_eq_ok, orAbort_eq_ok, ensure_eq_ok] at run
      obtain ⟨overlap, reserved, -, apart, room, contains, -, fits, isUndefined, eq, run⟩ := run
      obtain rfl : overlap = false := by simpa using apart
      subst fits
      rw [undefined, Except.ok.injEq] at eq
      refine ⟨es, address, picked, endpoint, reserved, contains, ?_⟩
      subst eq
      split at run
      · next both => exact .inl (by simpa using both)
      · exact .inr run
  · rintro ⟨es, address, picked, endpoint, apart, room, stack⟩
    refine bind_eq_ok.mpr ⟨es, picked, ?_⟩
    simp only [endpoint, bind_eq_ok, orAbort_eq_ok, ensure_eq_ok]
    refine ⟨false, apart, (), rfl, true, room, (), rfl, _, undefined es, ?_⟩
    split
    · rfl
    · next both => exact stack.resolve_left (by simpa using both)

/-- The exit sequence does not go past the last address, and all of it is mapped. -/
theorem Endable.fits (h : Endable host s opts es address) (hm : s.mappedMemoryMap.Represents pos) :
    address + getSnapExitSequenceSize s.architecture ≤ kMaxAddress ∧
      ∀ k, address ≤ k → k < address + getSnapExitSequenceSize s.architecture → (pos k).isSome := by
  have small : 0 < getSnapExitSequenceSize s.architecture ∧
      getSnapExitSequenceSize s.architecture < 2 ^ 64 := by
    cases s.architecture <;> decide
  have room := h.room
  generalize getSnapExitSequenceSize s.architecture = size at small room ⊢
  have forward : address ≤ (address + size) % 2 ^ 64 := by
    by_contra backward
    have none : s.mappedMemoryMap.containsRange address ((address + size) % 2 ^ 64) = none := by
      unfold MappedMemoryMap.containsRange RangeMap.covers RangeMap.find
      rw [if_neg backward]
      rfl
    rw [none] at room
    cases room
  have sum : (address + size) % 2 ^ 64 = address + size := by lia
  rw [sum] at room
  obtain ⟨b, contains, iff⟩ := MappedMemoryMap.containsRange_eq hm (Nat.lt_add_of_pos_right small.1)
  obtain rfl : b = true := Option.some.inj (contains.symm.trans room)
  refine ⟨?_, iff.mp rfl⟩
  have := Nat.mod_lt (address + size) (show 2 ^ 64 > 0 by decide)
  simp only [kMaxAddress]
  lia

/-- The picked end state is one of the snapshot, and either of a normal kind or the one that
all options of an undefined one ask for. -/
theorem pickEndState_mem (picked : pickEndState s opts = .ok es) : es ∈ s.expectedEndStates := by
  unfold pickEndState at picked
  split at picked
  · split at picked
    · next states =>
      obtain ⟨_, _, same⟩ := bind_eq_ok.mp picked
      obtain rfl := Except.ok.inj same
      simp [states]
    · cases picked
  · split at picked
    · next found =>
      obtain ⟨_, _, same⟩ := bind_eq_ok.mp picked
      obtain rfl := Except.ok.inj same
      exact List.mem_of_find?_eq_some found
    · cases picked

/-- The memory `m` with the bytes of a snap, as `Snapify` writes them down. -/
def SnapMemory (opts : SnapifyOptions) (pos : PermsMap) (c : BytesMap) (m m' : SnapshotMemory) :
    Prop :=
  ∃ (n : MemoryState) (l : List MemoryBytes) (set : MemoryBytesSet), n.Filled pos.process c ∧
    snapifyMemoryByteList n (shouldCompressInitial opts) = .ok l ∧
    set.Represents (fun k => (c k).isSome) ∧ m' = m.withBytes set l

/-- The bytes leave one such memory, whatever bytes `m` has. -/
theorem SnapMemory.unique {m m₁ m₂ : SnapshotMemory} {set : MemoryBytesSet} {l : List MemoryBytes}
    (h₁ : SnapMemory opts pos c m m₁) (h₂ : SnapMemory opts pos c (m.withBytes set l) m₂) :
    m₁ = m₂ := by
  obtain ⟨n₁, l₁, set₁, filled₁, list₁, hset₁, rfl⟩ := h₁
  obtain ⟨n₂, l₂, set₂, filled₂, list₂, hset₂, rfl⟩ := h₂
  obtain rfl := filled₁.unique filled₂
  obtain rfl : l₁ = l₂ := Except.ok.inj (list₁.symm.trans list₂)
  obtain rfl := hset₁.unique hset₂
  rfl

theorem replaceMemoryBytes_withParts {m m' : SnapshotMemory} {xs : List EndState}
    {l : List MemoryBytes} (run : m.replaceMemoryBytes l = some (.ok m')) :
    (s.withParts m xs).replaceMemoryBytes l = .ok (s.withParts m' xs) := by
  simp only [Snapshot.replaceMemoryBytes, Snapshot.withParts, run]
  rfl

/-- **`Snapify` makes the memory of the snap, and then its end state from the one picked.** -/
theorem snapify_eq (debug : Bool) (hs : s.toSnapshotMemory.Keeps pos neg sb)
    (picked : pickEndState s opts = .ok es) (endable : Endable host s opts es address) :
    ∃ m m', s.toSnapshotMemory.normalizeMemoryMappings = some m ∧
      SnapMemory opts pos (snapBytes s.architecture address pos sb) m m' ∧
      m'.Keeps pos neg (snapBytes s.architecture address pos sb) ∧
      snapify debug host s opts = (do
        dcheckStatus debug ((s.withParts m []).canAddExpectedEndState es false false)
        let e ← snapifyEndState debug (s.withParts m' []) opts es
        (s.withParts m' []).canAddExpectedEndState e false false
        return s.withParts m' [e]) := by
  obtain ⟨fits, inside⟩ := endable.fits hs.mapped
  obtain ⟨m, normalize, hm⟩ := SnapshotMemory.normalizeMemoryMappings_keeps hs
  have arch : m.architecture = s.architecture := by
    obtain ⟨l, l', eq, -⟩ := SnapshotMemory.normalizeMemoryMappings_holds hs.toHolds
    obtain rfl : _ = m := Option.some.inj (eq.symm.trans normalize)
    rfl
  have filled := snapBytes_filled s.architecture hs.mappedBytes inside
  have mapped : ∀ k, (snapBytes s.architecture address pos sb k).isSome → (pos k).isSome :=
    fun k hk => (filled k).symm.trans hk
  -- the exit sequence
  obtain ⟨n, hn, merge⟩ := mergeExitSequence_state (s.withParts m [es]) hm
    (by rw [← arch] at fits; exact fits) (by rw [← arch] at inside; exact inside)
  have sameArch : (s.withParts m [es]).architecture = s.architecture := arch
  rw [sameArch] at hn
  obtain ⟨l, read, contents⟩ := MemoryState.memoryBytesList_filled hn
  obtain ⟨set, replace, hm₁⟩ := SnapshotMemory.replaceMemoryBytes_run hm contents mapped
  -- the bytes as a snap has them
  obtain ⟨n', initial, hn'⟩ := MemoryState.makeInitial_filled hm₁
  rw [zeroFilled_of_filled filled] at hn'
  obtain ⟨l', cut, contents'⟩ :=
    snapifyMemoryByteList_run hn' (process_paged hm) (shouldCompressInitial opts)
  obtain ⟨set', replace', hm₂⟩ := SnapshotMemory.replaceMemoryBytes_run hm₁ contents' mapped
  refine ⟨m, m.withBytes set' l', normalize, ⟨n', l', set', hn', cut, hm₂.written, rfl⟩, hm₂, ?_⟩
  have can := canSnapify_eq_ok.mpr ⟨es, address, picked, endable⟩
  have merged : mergeExitSequence (s.withParts m [es]) address =
      .ok (s.withParts (m.withBytes set l) [es]) := by
    rw [merge, read]
    exact replaceMemoryBytes_withParts replace
  have added : Snapshot.checkedAddExpectedEndState debug (s.withParts m []) es = (do
      dcheckStatus debug ((s.withParts m []).canAddExpectedEndState es false false)
      return s.withParts m [es]) := rfl
  have at_address : es.endpoint.instructionAddress = address := by
    rw [endable.endpoint]
    rfl
  have cutBytes : snapifyMemoryBytes debug (s.withParts (m.withBytes set l) [es]) opts = (do
      let e ← snapifyEndState debug (s.withParts (m.withBytes set' l') []) opts es
      (s.withParts (m.withBytes set' l') []).canAddExpectedEndState e false false
      return s.withParts (m.withBytes set' l') [e]) := by
    have initial' : MemoryState.makeInitial
        (s.withParts (m.withBytes set l) [es]).toSnapshotMemory .kZeroMappedBytes = some n' := initial
    rw [snapifyMemoryBytes, initial']
    simp only [orAbort, ok_bind, cut, replaceMemoryBytes_withParts replace']
    simp only [Snapshot.withParts, List.foldlM_cons, List.foldlM_nil, bind_pure]
    rfl
  have start : ({ s with toSnapshotMemory := m, expectedEndStates := [] } : Snapshot) =
      s.withParts m [] := rfl
  simp only [snapify, can, picked, normalize, orAbort, ok_bind, start, added, at_address, bind_assoc,
    pure_ok, merged, cutBytes]

end Snapify

end Silifuzz
