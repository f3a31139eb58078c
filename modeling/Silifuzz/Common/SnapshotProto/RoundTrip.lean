import Silifuzz.Common.Snapshot.Equality
import Silifuzz.Common.Snapshot.Runs
import Silifuzz.Common.SnapshotProto.Decode

/-!
# Snapshots that come back from their protos

A snapshot is decoded by building it again, with the checks of its mutators.

* one lemma for each part: its message is decoded to it;
* `memoryFromProto_iff`, `endStates_iff`: the two loops with a condition of their own;
* `Restorable`, `fromProto_toProto_iff`: the snapshots that come back.
-/

namespace Silifuzz

open Checked

namespace SnapshotProto

theorem memoryMappingFromProto_toProto (m : MemoryMapping) :
    memoryMappingFromProto (memoryMappingToProto m) = .ok m := by
  have low : (m.perms.permissionBits &&& ~~~7 == 0) = true := by
    have proper := m.proper
    have unmapped := m.unmapped
    simp only [MemoryPerms.Proper, MemoryPerms.clear, MemoryPerms.none, MemoryPerms.allPlusMapped,
      MemoryPerms.mk.injEq] at proper
    simp only [MemoryPerms.has, Permission.toInt, bne_eq_false_iff_eq] at unmapped
    rw [beq_iff_eq, show (~~~7 : BitVec 32) = ~~~(1 ||| 2 ||| 4 ||| 8) ||| 8 from by decide,
      BitVec.and_or_distrib_left, proper, unmapped]
    rfl
  simp only [memoryMappingFromProto, memoryMappingToProto, mustHaveField, orStatus, ok_bind,
    MemoryMapping.checkSized, ensure, m.nonempty, m.bounded, decide_true, if_true, low]
  exact congrArg orAbort (dif_pos ⟨m.nonempty, m.bounded, m.proper, m.unmapped⟩)

theorem memoryBytesFromProto_toProto (b : MemoryBytes) :
    memoryBytesFromProto (memoryBytesToProto b) = .ok b := by
  have some : (!b.byteValues.isEmpty) = true := by simpa using b.nonempty
  simp only [memoryBytesFromProto, memoryBytesToProto, mustHaveField, orStatus, ok_bind, ensure,
    some, b.bounded, decide_true, if_true]
  exact congrArg orAbort (MemoryBytes.make_some b.nonempty b.bounded)

theorem registerStateFromProto_toProto (r : RegisterState) :
    registerStateFromProto (registerStateToProto r) = .ok r := rfl

theorem endpointFromProto_toProto {e : Endpoint} (valid : e.Valid) :
    endpointFromProto (endpointToProto e) = .ok e := by
  cases e with
  | kInstruction instructionAddress => rfl
  | kSignal sigNum sigCause sigAddress sigInstructionAddress =>
    have same : ((sigCause != .kGenericSigCause) == (sigNum == .kSigSegv)) = true := by
      rw [beq_iff_eq, Bool.eq_iff_iff, bne_iff_ne, beq_iff_eq]
      exact valid
    simp only [endpointToProto, endpointFromProto, signalFromProto, mustHaveField, orStatus,
      ok_bind, same, ensure, if_true, pure_ok]

/-! ## The memory -/

variable {s t t' : SnapshotMemory} {f g : PermsMap} {w : BytesMap} {x : MemoryMapping}
  {b : MemoryBytes}

/-- A check, and what it allows. -/
theorem added_iff {α : Type} {can : Option (Except SnapshotError Unit)} {add : Option α} {a : α}
    {message : String} : (do plus message (ofStatus can); orAbort add) = .ok a ↔
      can = some (.ok ()) ∧ add = some a := by
  rw [bind_eq_ok]
  constructor
  · rintro ⟨_, ok, run⟩
    exact ⟨ofStatus_eq_ok.mp (plus_eq_ok.mp ok), orAbort_eq_ok.mp run⟩
  · rintro ⟨ok, run⟩
    exact ⟨(), plus_eq_ok.mpr (ofStatus_eq_ok.mpr ok), orAbort_eq_ok.mpr run⟩

theorem addMappingFromProto_iff : addMappingFromProto t (memoryMappingToProto x) = .ok t' ↔
    t.canAddMemoryMapping x = some (.ok ()) ∧ t.addMemoryMapping x = some t' := by
  rw [addMappingFromProto, memoryMappingFromProto_toProto]
  exact added_iff

theorem addNegativeFromProto_iff : addNegativeFromProto t (memoryMappingToProto x) = .ok t' ↔
    t.canAddNegativeMemoryMapping x = some (.ok ()) ∧ t.addNegativeMemoryMapping x = some t' := by
  rw [addNegativeFromProto, memoryMappingFromProto_toProto]
  exact added_iff

theorem addBytesFromProto_iff : addBytesFromProto t (memoryBytesToProto b) = .ok t' ↔
    t.canAddMemoryBytes b = some (.ok ()) ∧ t.addMemoryBytes b = some t' := by
  rw [addBytesFromProto, memoryBytesFromProto_toProto]
  exact added_iff

/-- Memory with the architecture of `s` and with these mappings and bytes so far. -/
structure Rebuilt (s t : SnapshotMemory) (mappings negatives : List MemoryMapping)
    (bytes : List MemoryBytes) : Prop where
  keeps : ∃ f g w, t.Keeps f g w
  architecture : t.architecture = s.architecture
  mappings : t.memoryMappings = mappings
  negatives : t.negativeMemoryMappings = negatives
  bytes : t.memoryBytes = bytes

/-- The lists say everything. -/
theorem Rebuilt.eq (hs : s.Keeps f g w)
    (ht : Rebuilt s t s.memoryMappings s.negativeMemoryMappings s.memoryBytes) : t = s := by
  obtain ⟨⟨f', g', w', keeps⟩, architecture, mappings, negatives, bytes⟩ := ht
  obtain rfl : f' = f := (mappings ▸ keeps.mappings).unique hs.mappings
  obtain rfl : g' = g := (negatives ▸ keeps.negativeMappings).unique hs.negativeMappings
  obtain rfl : w' = w := (bytes ▸ keeps.contents).unique hs.contents
  have mapped := keeps.mapped.unique hs.mapped
  have negativeMapped := keeps.negativeMapped.unique hs.negativeMapped
  have written := keeps.written.unique hs.written
  cases t
  cases s
  simp only at architecture mappings negatives bytes mapped negativeMapped written
  rw [architecture, mappings, negatives, bytes, mapped, negativeMapped, written]

theorem rebuilt_new (s : SnapshotMemory) : Rebuilt s (.new s.architecture) [] [] [] :=
  ⟨⟨_, _, _, SnapshotMemory.new_keeps s.architecture⟩, rfl, rfl, rfl, rfl⟩

theorem pageEnd_congr (same : t.architecture = s.architecture) (k : Address) :
    t.PageEnd k ↔ s.PageEnd k := by
  rw [SnapshotMemory.PageEnd, SnapshotMemory.PageEnd, SnapshotMemory.pageSize,
    SnapshotMemory.pageSize, same]

theorem disjoint_of_split {before after : List MemoryMapping} {l : List MemoryMapping}
    (disjoint : l.Pairwise MemoryMapping.Disjoint) (at_x : l = before ++ x :: after)
    (hf : Describes before f) : ∀ k, x.Covers k → f k = none := by
  intro k hk
  refine hf.uncovered k fun m hm hk' => ?_
  rw [at_x] at disjoint
  exact ((List.pairwise_append.mp disjoint).2.2 m hm x (by simp)).covers hk' hk

/-- No mapping is refused while there are no negative mappings. -/
theorem rebuilt_mapping {before after : List MemoryMapping} (hs : s.Keeps f g w)
    (at_x : s.memoryMappings = before ++ x :: after) (ht : Rebuilt s t before [] []) :
    ∃ t', addMappingFromProto t (memoryMappingToProto x) = .ok t' ∧
      Rebuilt s t' (before ++ [x]) [] [] := by
  obtain ⟨⟨f', g', w', keeps⟩, architecture, mappings, negatives, bytes⟩ := ht
  have mem : x ∈ s.memoryMappings := by simp [at_x]
  have empty : ∀ k, g' k = none := fun k =>
    (negatives ▸ keeps.negativeMappings).uncovered k (by simp)
  have aligned := hs.aligned x mem
  rw [← pageEnd_congr architecture, ← pageEnd_congr architecture] at aligned
  have ok : t.Accepted x := by
    refine ⟨hs.mappings.nonempty x mem, aligned, SnapshotMemory.overlaps_new keeps.mapped ?_,
      SnapshotMemory.perms_apart keeps.negativeMapped fun k _ q hq => ?_⟩
    · exact disjoint_of_split hs.mappings.disjoint at_x (mappings ▸ keeps.mappings)
    · simp [empty k] at hq
  obtain ⟨t', run, keeps'⟩ := SnapshotMemory.addMemoryMapping_keeps keeps ok
  refine ⟨t', addMappingFromProto_iff.mpr ⟨ok.can keeps.toHolds, run⟩, ?_⟩
  obtain ⟨m, _, run⟩ := Option.bind_eq_some_iff.mp run
  obtain rfl := Option.some.inj run
  exact ⟨⟨_, _, _, keeps'⟩, architecture, by rw [← mappings], negatives, bytes⟩

/-- A negative mapping forbids no permission that is mapped. -/
def Allowed (s : SnapshotMemory) (x : MemoryMapping) : Prop :=
  ∀ k, x.Covers k → ∀ q ∈ s.mappedMemoryMap.read k, x.perms.hasSomeOf q = false

/-- A negative mapping is refused when it forbids what is mapped, and for nothing else. -/
theorem rebuilt_negative {before after : List MemoryMapping} (hs : s.Keeps f g w)
    (at_x : s.negativeMemoryMappings = before ++ x :: after)
    (ht : Rebuilt s t s.memoryMappings before []) :
    (Allowed s x → ∃ t', addNegativeFromProto t (memoryMappingToProto x) = .ok t') ∧
    ∀ t', addNegativeFromProto t (memoryMappingToProto x) = .ok t' →
      Allowed s x ∧ Rebuilt s t' s.memoryMappings (before ++ [x]) [] := by
  obtain ⟨⟨f', g', w', keeps⟩, architecture, mappings, negatives, bytes⟩ := ht
  obtain rfl : f' = f := (mappings ▸ keeps.mappings).unique hs.mappings
  have mem : x ∈ s.negativeMemoryMappings := by simp [at_x]
  have read : s.mappedMemoryMap.read = f' := hs.mapped.read_eq
  have aligned := hs.wellFormed.negativeAligned x mem
  rw [← SnapshotMemory.PageEnd, ← SnapshotMemory.PageEnd, ← pageEnd_congr architecture,
    ← pageEnd_congr architecture] at aligned
  constructor
  · intro allowed
    have ok : t.AcceptedNegative x false := by
      refine ⟨hs.negativeMappings.nonempty x mem, aligned,
        fun _ => SnapshotMemory.overlaps_new keeps.negativeMapped ?_,
        SnapshotMemory.perms_apart keeps.mapped fun k hk q hq => allowed k hk q (read ▸ hq)⟩
      exact disjoint_of_split hs.negativeMappings.disjoint at_x (negatives ▸ keeps.negativeMappings)
    obtain ⟨t', run, -⟩ := SnapshotMemory.addNegativeMemoryMapping_keeps keeps ok (ok.new rfl)
    exact ⟨t', addNegativeFromProto_iff.mpr ⟨ok.can keeps.toHolds, run⟩⟩
  · intro t' run
    obtain ⟨can, run⟩ := addNegativeFromProto_iff.mp run
    have ok := SnapshotMemory.canAddNegativeMemoryMapping_ok can
    obtain ⟨t₁, run₁, keeps'⟩ := SnapshotMemory.addNegativeMemoryMapping_keeps keeps ok (ok.new rfl)
    obtain rfl : t' = t₁ := Option.some.inj (run.symm.trans run₁)
    obtain ⟨m, _, run⟩ := Option.bind_eq_some_iff.mp run
    obtain rfl := Option.some.inj run
    constructor
    · intro k hk q hq
      exact SnapshotMemory.perms_free keeps.mapped ok.free k hk.1 hk.2 q (read ▸ hq)
    · exact ⟨⟨_, _, _, keeps'⟩, architecture, mappings, by rw [← negatives], bytes⟩

/-- No bytes are refused: they are mapped, and apart from each other. -/
theorem rebuilt_bytes {before after : List MemoryBytes} (hs : s.Keeps f g w)
    (at_b : s.memoryBytes = before ++ b :: after)
    (ht : Rebuilt s t s.memoryMappings s.negativeMemoryMappings before) :
    ∃ t', addBytesFromProto t (memoryBytesToProto b) = .ok t' ∧
      Rebuilt s t' s.memoryMappings s.negativeMemoryMappings (before ++ [b]) := by
  obtain ⟨⟨f', g', w', keeps⟩, architecture, mappings, negatives, bytes⟩ := ht
  obtain rfl : f' = f := (mappings ▸ keeps.mappings).unique hs.mappings
  have ok : t.AcceptedBytes b := by
    apply SnapshotMemory.acceptedBytes_of keeps
    · intro k hk
      exact hs.mappedBytes k (hs.contents.isSome_iff.mpr ⟨b, by simp [at_b], hk⟩)
    · intro k hk
      refine (bytes ▸ keeps.contents).uncovered k fun c hc hk' => ?_
      have disjoint := hs.contents.disjoint
      rw [at_b] at disjoint
      exact ((List.pairwise_append.mp disjoint).2.2 c hc b (by simp)).covers hk' hk
  obtain ⟨t', run, added, keeps'⟩ := SnapshotMemory.addMemoryBytes_keeps keeps ok
  refine ⟨t', addBytesFromProto_iff.mpr ⟨ok.can, run⟩, ?_⟩
  obtain ⟨m, _, run⟩ := Option.bind_eq_some_iff.mp run
  obtain rfl := Option.some.inj run
  exact ⟨⟨_, _, _, keeps'⟩, architecture, mappings, negatives, by rw [← bytes]⟩

theorem conflictFree_iff (hs : s.Keeps f g w) :
    s.ConflictFree ↔ ∀ x ∈ s.negativeMemoryMappings, Allowed s x := by
  rw [SnapshotMemory.ConflictFree, hs.negativeMapped.read_eq]
  constructor
  · intro free x hx k hk q hq
    rw [MemoryPerms.hasSomeOf_comm]
    exact free k q hq x.perms (hs.negativeMappings.covered x hx k hk)
  · intro allowed k p hp q hq
    obtain ⟨x, hx, hk⟩ := hs.negativeMappings.exists_mapping (Option.isSome_of_mem hq)
    obtain rfl : x.perms = q :=
      Option.some.inj ((hs.negativeMappings.covered x hx k hk).symm.trans hq)
    rw [MemoryPerms.hasSomeOf_comm]
    exact allowed x hx k hk p hp

/-- **The loops over the memory.** They rebuild it when no permission is both mapped and
forbidden, and stop otherwise. -/
theorem memoryFromProto_iff {proto : Proto.Snapshot} (hs : s.Keeps f g w)
    (mappings : proto.memoryMappings = s.memoryMappings.map memoryMappingToProto)
    (negatives : proto.negativeMemoryMappings = s.negativeMemoryMappings.map memoryMappingToProto)
    (bytes : proto.memoryBytes = s.memoryBytes.map memoryBytesToProto) :
    memoryFromProto s.architecture proto = .ok t ↔ s.ConflictFree ∧ t = s := by
  obtain ⟨t₁, run₁, ht₁⟩ := foldlM_ok (fun done t => Rebuilt s t done [] []) (rebuilt_new s)
    fun before x after t at_x ht => rebuilt_mapping hs at_x ht
  -- the loop over the negative mappings, once it has ended
  have second {t₂ : SnapshotMemory} (run₂ : s.negativeMemoryMappings.foldlM
      (fun t x => addNegativeFromProto t (memoryMappingToProto x)) t₁ = .ok t₂) :=
    foldlM_conditions (fun done t => Rebuilt s t s.memoryMappings done []) (fun _ => Allowed s) ht₁
      (fun before x after t t' at_x ht run => (rebuilt_negative hs at_x ht).2 t' run) run₂
  have third {t₂ : SnapshotMemory}
      (ht₂ : Rebuilt s t₂ s.memoryMappings s.negativeMemoryMappings []) :
      s.memoryBytes.foldlM (fun t b => addBytesFromProto t (memoryBytesToProto b)) t₂ = .ok s := by
    obtain ⟨t₃, run₃, ht₃⟩ := foldlM_ok
      (fun done t => Rebuilt s t s.memoryMappings s.negativeMemoryMappings done) ht₂
      fun before b after t at_b ht => rebuilt_bytes hs at_b ht
    exact ht₃.eq hs ▸ run₃
  rw [memoryFromProto, mappings, negatives, bytes]
  simp only [List.foldlM_map]
  rw [run₁, ok_bind, bind_eq_ok, conflictFree_iff hs]
  constructor
  · rintro ⟨t₂, run₂, run₃⟩
    obtain ⟨ht₂, each⟩ := second run₂
    refine ⟨fun x hx => ?_, Except.ok.inj (run₃.symm.trans (third ht₂))⟩
    obtain ⟨before, after, at_x⟩ := List.append_of_mem hx
    exact each before x after at_x
  · rintro ⟨allowed, rfl⟩
    obtain ⟨t₂, run₂, ht₂⟩ := foldlM_ok
      (fun done u => Rebuilt t u t.memoryMappings done []) ht₁ fun before x after u at_x hu => by
        obtain ⟨ok, only⟩ := rebuilt_negative hs at_x hu
        obtain ⟨u', run⟩ := ok (allowed x (by simp [at_x]))
        exact ⟨u', run, (only u' run).2⟩
    exact ⟨t₂, run₂, third ht₂⟩

/-! ## The end states -/

theorem getLsbD_platformBit (p q : PlatformId) :
    ((1 : BitVec 64) <<< q.val).getLsbD p.val = decide (p = q) := by
  have bound : p.val < 64 := p.isLt.trans (by decide)
  rw [show (1 : BitVec 64) = 1#64 from rfl, BitVec.getLsbD_shiftLeft, BitVec.getLsbD_one,
    Bool.eq_iff_iff]
  simp only [bound, Bool.and_eq_true, decide_eq_true_eq, Bool.not_eq_true',
    decide_eq_false_iff_not, Fin.ext_iff]
  constructor
  · rintro ⟨⟨_, low⟩, _, high⟩
    omega
  · intro same
    simp [same]

theorem getLsbD_platformsToBitmask (ps : List PlatformId) (p : PlatformId) :
    (platformsToBitmask ps).getLsbD p.val = decide (p ∈ ps) := by
  suffices gen : ∀ b : BitVec 64,
      (ps.foldl (fun result p => result ||| ((1 : BitVec 64) <<< p.val)) b).getLsbD p.val =
        (b.getLsbD p.val || decide (p ∈ ps)) by
    rw [platformsToBitmask, gen]
    simp
  intro b
  induction ps generalizing b with
  | nil => simp
  | cons q ps ih =>
    rw [List.foldl_cons, ih, BitVec.getLsbD_or, getLsbD_platformBit]
    simp only [List.mem_cons, Bool.decide_or, Bool.or_assoc]

theorem mem_bitmaskToPlatforms_platformsToBitmask {ps : List PlatformId} {p : PlatformId} :
    p ∈ bitmaskToPlatforms (platformsToBitmask ps) ↔ p ∈ ps := by
  rw [mem_bitmaskToPlatforms, getLsbD_platformsToBitmask, decide_eq_true_eq]

theorem addEndStateBytes_toProto (e : EndState) (b : MemoryBytes) :
    addEndStateBytes e (memoryBytesToProto b) =
      (do plus "Can't add MemoryBytes: " (e.canAddMemoryBytes b); e.addMemoryBytes b) := by
  rw [addEndStateBytes, memoryBytesFromProto_toProto]
  rfl

variable {e : EndState}

/-- The bytes of an end state come back one by one. -/
theorem endStateBytes_run (he : e.WellFormed) {x : EndState}
    (blank : x.memoryBytes = [] ∧ x.changedMemorySet = .empty) :
    (e.memoryBytes.map memoryBytesToProto).foldlM addEndStateBytes x =
      .ok { x with changedMemorySet := e.changedMemorySet, memoryBytes := e.memoryBytes } := by
  obtain ⟨v, contents, changed⟩ := he.bytes
  have loop := foldlM_ok (l := e.memoryBytes)
    (f := fun y b => addEndStateBytes y (memoryBytesToProto b)) (a := x)
    (fun done y => ∃ m, y = { x with changedMemorySet := m, memoryBytes := done } ∧
      ∃ u, Contents done u ∧ m.Represents fun k => (u k).isSome)
    ⟨.empty, by rw [← blank.1, ← blank.2], _, .nil, MemoryBytesSet.empty_represents⟩ ?_
  · obtain ⟨_, run, m, rfl, u, contents', changed'⟩ := loop
    obtain rfl := contents'.unique contents
    rw [List.foldlM_map, run, changed'.unique changed]
  · rintro done b rest _ at_b ⟨m, rfl, u, contents', changed'⟩
    have disjoint := contents.disjoint
    rw [at_b] at disjoint
    obtain ⟨can, m', add, u', after⟩ := EndState.addMemoryBytes_run contents' changed' (b := b)
      (x := { x with changedMemorySet := m, memoryBytes := done }) fun k hk =>
        contents'.uncovered k fun c hc hk' =>
          ((List.pairwise_append.mp disjoint).2.2 c hc b (by simp)).covers hk' hk
    refine ⟨_, ?_, m', rfl, u', after⟩
    rw [addEndStateBytes_toProto, can, add]
    rfl

theorem endStateDataFromProto_toProto (he : e.WellFormed) :
    endStateDataFromProto (endStateToProto e) =
      .ok { e with platforms := fun _ => false, registerChecksum := [] } := by
  have bytes := endStateBytes_run he (x := EndState.new e.endpoint e.registers) ⟨rfl, rfl⟩
  simp only [endStateDataFromProto, endStateToProto, mustHaveField, orStatus, ok_bind,
    endpointFromProto_toProto he.valid, registerStateFromProto_toProto, plus_ok]
  exact bytes

theorem platforms_of_empty (h : e.emptyPlatforms = true) : e.platforms = fun _ => false := by
  funext p
  simpa [EndState.emptyPlatforms] using List.all_eq_true.mp h p (List.mem_finRange p)

/-- An end state comes back, unless it has the platform `kNonExistent`. -/
theorem endStateFromProto_toProto (he : e.WellFormed) {y : EndState} :
    endStateFromProto (endStateToProto e) = .ok y ↔
      e.hasPlatform .kNonExistent = false ∧ y = e := by
  have mask : ∀ p, p ∈ bitmaskToPlatforms (platformsToBitmask e.platformList) ↔
      e.platforms p = true := fun p => by
    rw [mem_bitmaskToPlatforms_platformsToBitmask]
    simp [EndState.platformList]
  rw [endStateFromProto, endStateDataFromProto_toProto he, ok_bind]
  by_cases none : e.emptyPlatforms = true
  · have all := platforms_of_empty none
    simp only [endStateToProto, none, if_true, ok_bind, pure_ok, EndState.setRegisterChecksum,
      Except.ok.injEq]
    constructor
    · rintro rfl
      exact ⟨by rw [EndState.hasPlatform, all], by rw [← all]⟩
    · rintro ⟨_, rfl⟩
      rw [← all]
  · simp only [endStateToProto, none, Bool.false_eq_true, if_false]
    by_cases last : e.hasPlatform .kNonExistent = true
    · rw [EndState.setPlatforms_abort ((mask _).mpr last), error_bind]
      simp [last]
    · rw [EndState.setPlatforms_eq fun inside => last ((mask _).mp inside), ok_bind]
      have same : (fun p => decide (p ∈ bitmaskToPlatforms (platformsToBitmask e.platformList))) =
          e.platforms := by
        funext p
        rw [Bool.eq_iff_iff, decide_eq_true_eq, mask]
      rw [same]
      simp only [EndState.setRegisterChecksum, pure_ok, Except.ok.injEq, Bool.not_eq_true] at last ⊢
      constructor
      · rintro rfl
        exact ⟨last, rfl⟩
      · rintro ⟨_, rfl⟩
        rfl

end SnapshotProto

namespace Snapshot

variable {s : Snapshot} {x : EndState} {f g : PermsMap} {w : BytesMap}

theorem checkDuplicate_iff : s.checkDuplicate x = .ok () ↔
    ∀ y ∈ s.expectedEndStates, x.dataEquals y = false := by
  unfold checkDuplicate
  cases h : s.expectedEndStates.findIdx? x.dataEquals with
  | none => simpa using List.findIdx?_eq_none_iff.mp h
  | some i =>
    simp only [invalidArgument, reduceCtorEq, false_iff]
    intro different
    rw [List.findIdx?_eq_none_iff.mpr different] at h
    cases h

theorem canAddExpectedEndState_iff : s.canAddExpectedEndState x false false = .ok () ↔
    s.canAddExpectedEndState x false true = .ok () ∧
      ∀ y ∈ s.expectedEndStates, x.dataEquals y = false := by
  rw [← checkDuplicate_iff]
  unfold canAddExpectedEndState
  simp only [bind_eq_ok, Bool.false_eq_true, if_false, if_true, and_true]
  constructor
  · rintro ⟨_, endpoint, _, rest, duplicate⟩
    exact ⟨⟨_, endpoint, _, rest⟩, duplicate⟩
  · rintro ⟨⟨_, endpoint, _, rest⟩, duplicate⟩
    exact ⟨_, endpoint, _, rest, duplicate⟩

/-- What FromProto asks of a snapshot beside what its mutators and `IsCompleteSomeState` do.

* no permission is mapped and forbidden, which `set_memory_mapping_perms` can bring about;
* the registers can be set in the memory as it is now;
* the end states can be added, with endpoints that are mapped;
* no two end states have the same data, which normalizing their bytes can bring about;
* no end state has the platform `kNonExistent`. -/
structure Restorable (s : Snapshot) : Prop where
  conflictFree : s.ConflictFree
  registers : ∀ r, s.registers = some r → s.canSetRegisters r false = .ok ()
  endStates : ∀ x ∈ s.expectedEndStates, s.canAddExpectedEndState x false true = .ok ()
  distinct : s.expectedEndStates.Pairwise fun x y => y.dataEquals x = false
  platforms : ∀ x ∈ s.expectedEndStates, x.hasPlatform .kNonExistent = false

end Snapshot

namespace SnapshotProto

variable {snap snap' : Snapshot} {e : EndState}

theorem addEndStateFromProto_iff (he : e.WellFormed) :
    addEndStateFromProto snap (endStateToProto e) = .ok snap' ↔
      e.hasPlatform .kNonExistent = false ∧ snap.canAddExpectedEndState e false false = .ok () ∧
        snap' = snap.addExpectedEndState e := by
  rw [addEndStateFromProto, bind_eq_ok]
  constructor
  · rintro ⟨y, decoded, run⟩
    obtain ⟨platform, rfl⟩ := (endStateFromProto_toProto he).mp (plus_eq_ok.mp decoded)
    obtain ⟨_, can, run⟩ := bind_eq_ok.mp run
    exact ⟨platform, plus_eq_ok.mp can, (Except.ok.inj run).symm⟩
  · rintro ⟨platform, can, rfl⟩
    refine ⟨e, plus_eq_ok.mpr ((endStateFromProto_toProto he).mpr ⟨platform, rfl⟩), ?_⟩
    rw [can]
    rfl

theorem pairwise_iff_splits {α : Type} {R : α → α → Prop} {l : List α} :
    l.Pairwise R ↔ ∀ before x after, l = before ++ x :: after → ∀ y ∈ before, R y x := by
  constructor
  · rintro pairwise before x after rfl y hy
    exact (List.pairwise_append.mp pairwise).2.2 y hy x (by simp)
  · intro splits
    rw [List.pairwise_iff_getElem]
    intro i j hi hj lt
    have at_j : l = l.take j ++ l[j] :: l.drop (j + 1) := by
      rw [← List.drop_eq_getElem_cons hj, List.take_append_drop]
    exact splits _ _ _ at_j l[i] (List.mem_take_iff_getElem.mpr ⟨i, by omega, rfl⟩)

/-- **The loop over the end states.** -/
theorem endStates_iff {l : List EndState} (wellFormed : ∀ x ∈ l, x.WellFormed)
    (blank : snap.expectedEndStates = []) :
    (l.map endStateToProto).foldlM addEndStateFromProto snap = .ok snap' ↔
      (∀ x ∈ l, x.hasPlatform .kNonExistent = false ∧
        snap.canAddExpectedEndState x false true = .ok ()) ∧
      (l.Pairwise fun x y => y.dataEquals x = false) ∧
      snap' = { snap with expectedEndStates := l } := by
  rw [List.foldlM_map, pairwise_iff_splits]
  constructor
  · intro run
    obtain ⟨rfl, each⟩ := foldlM_conditions
      (fun done t => t = { snap with expectedEndStates := done })
      (fun done x => x.hasPlatform .kNonExistent = false ∧
        snap.canAddExpectedEndState x false true = .ok () ∧ ∀ y ∈ done, x.dataEquals y = false)
      (by rw [← blank]) (fun before x after t t' at_x ht turn => by
        subst ht
        obtain ⟨platform, can, rfl⟩ :=
          (addEndStateFromProto_iff (wellFormed x (by simp [at_x]))).mp turn
        obtain ⟨can, different⟩ := Snapshot.canAddExpectedEndState_iff.mp can
        exact ⟨⟨platform, can, different⟩, rfl⟩) run
    refine ⟨fun x hx => ?_, fun before x after at_x => (each before x after at_x).2.2, rfl⟩
    obtain ⟨before, after, at_x⟩ := List.append_of_mem hx
    exact ⟨(each before x after at_x).1, (each before x after at_x).2.1⟩
  · rintro ⟨each, different, rfl⟩
    obtain ⟨t, run, rfl⟩ := foldlM_ok (l := l)
      (f := fun t x => addEndStateFromProto t (endStateToProto x))
      (fun done t => t = { snap with expectedEndStates := done }) (a := snap) (by rw [← blank])
      fun before x after t at_x ht => by
        subst ht
        obtain ⟨platform, can⟩ := each x (by simp [at_x])
        refine ⟨_, (addEndStateFromProto_iff (wellFormed x (by simp [at_x]))).mpr
          ⟨platform, Snapshot.canAddExpectedEndState_iff.mpr ⟨can, ?_⟩, rfl⟩, rfl⟩
        exact different before x after at_x
    exact run

/-! ## The traces -/

theorem foldl_insertPlatform {ps l : List PlatformId} (sorted : l.Pairwise (· < ·)) :
    (ps.foldl (fun l p => TraceData.insertPlatform p l) l).Pairwise (· < ·) ∧
      ∀ q, q ∈ ps.foldl (fun l p => TraceData.insertPlatform p l) l ↔ q ∈ ps ∨ q ∈ l := by
  induction ps generalizing l with
  | nil => exact ⟨sorted, by simp⟩
  | cons p ps ih =>
    obtain ⟨sorted', mem⟩ := ih (TraceData.insertPlatform_sorted (p := p) sorted)
    refine ⟨sorted', fun q => ?_⟩
    rw [List.foldl_cons, mem, TraceData.mem_insertPlatform, List.mem_cons]
    tauto

/-- The platforms of a trace are in the order of their ids, as those of a mask are. -/
theorem traceDataFromProto_toProto {debug : Bool} {t : TraceData} (ht : t.WellFormed) :
    traceDataFromProto debug (traceDataToProto t) = .ok t := by
  refine (TraceData.addPlatforms_eq (TraceData.new t.numInstructions t.humanReadableDisassembly)
    fun _ p hp => ht.traced p (mem_bitmaskToPlatforms_platformsToBitmask.mp hp)).trans ?_
  have inserted := @foldl_insertPlatform (bitmaskToPlatforms (platformsToBitmask t.platforms)) []
  obtain ⟨sorted, mem⟩ := inserted .nil
  have same := sorted.eq_of_mem_iff ht.sorted fun p => by
    rw [mem, mem_bitmaskToPlatforms_platformsToBitmask]
    simp
  simp only [TraceData.new, same]

/-! ## The snapshot -/

variable {s : Snapshot} {f g : PermsMap} {w : BytesMap} {r : RegisterState}
  {proto : Proto.Snapshot}

theorem toProto_eq (hr : s.registers = some r) : toProto s = some {
    id := some s.id
    architecture := some (architectureToProto s.architecture)
    metadata := some (metadataToProto s.metadata)
    memoryMappings := s.memoryMappings.map memoryMappingToProto
    negativeMemoryMappings := s.negativeMemoryMappings.map memoryMappingToProto
    memoryBytes := s.memoryBytes.map memoryBytesToProto
    registers := some (registerStateToProto r)
    expectedEndStates := s.expectedEndStates.map endStateToProto
    traceData := s.traceMetadata.map traceDataToProto } := by
  rw [toProto, hr]
  rfl

theorem setRegisters_of_can {m : Snapshot} (hm : m.mappedMemoryMap.Represents f)
    (can : m.canSetRegisters r false = .ok ()) :
    m.setRegisters r = .ok { m with registers := some r } := by
  have matched := (settles_iff.mp (SnapshotMemory.canSetRegisters_settles hm r false)).2 () can
  exact if_pos matched

theorem beforeEndStates_iff (hs : s.Sound f g w) (hr : s.registers = some r)
    (hp : toProto s = some proto) : beforeEndStatesFromProto proto = .ok snap ↔
      s.ConflictFree ∧ s.canSetRegisters r false = .ok () ∧ snap =
        { s with expectedEndStates := [], metadata := .default, traceMetadata := [] } := by
  obtain rfl := Option.some.inj ((toProto_eq hr).symm.trans hp)
  simp only [beforeEndStatesFromProto, mustHaveField, orStatus, ok_bind, Option.getD_some, hs.id,
    architectureToProto, registerStateFromProto_toProto, plus_ok]
  have set := setRegisters_of_can (r := r) (f := f)
    (m := { Snapshot.new s.architecture s.id with toSnapshotMemory := s.toSnapshotMemory })
    hs.memory.mapped
  rw [bind_eq_ok]
  constructor
  · rintro ⟨m, memory, run⟩
    obtain ⟨free, rfl⟩ := (memoryFromProto_iff hs.memory rfl rfl rfl).mp memory
    obtain ⟨_, can, run⟩ := bind_eq_ok.mp run
    have can := plus_eq_ok.mp can
    refine ⟨free, can, ?_⟩
    rw [set can] at run
    rw [← Except.ok.inj run, ← hr]
    rfl
  · rintro ⟨free, can, rfl⟩
    refine ⟨s.toSnapshotMemory, (memoryFromProto_iff hs.memory rfl rfl rfl).mpr ⟨free, rfl⟩, ?_⟩
    refine bind_eq_ok.mpr ⟨(), plus_eq_ok.mpr can, ?_⟩
    rw [set can, ← hr]
    rfl

theorem metadataFromProto_toProto {x : Metadata}
    (origin : x.origin ≠ .kUseString → x.originString = []) :
    metadataFromProto (metadataToProto x) = x := by
  obtain ⟨kind, text⟩ := x
  by_cases own : kind = .kUseString
  · simp [metadataFromProto, metadataToProto, own]
  · simp only [metadataFromProto, metadataToProto, own, if_false, Option.getD_some, Option.getD_none]
    rw [show text = [] from origin own]

theorem traces_run {debug : Bool} {l : List TraceData} (h : ∀ t ∈ l, t.WellFormed) :
    ((l.map traceDataToProto).mapM fun m => plus "Bad TraceData: " (traceDataFromProto debug m)) =
      .ok l := by
  induction l with
  | nil => rfl
  | cons t l ih =>
    rw [List.map_cons, List.mapM_cons, traceDataFromProto_toProto (h t (by simp)), plus_ok, ok_bind,
      ih fun t' ht' => h t' (by simp [ht'])]
    rfl

/-- What is decoded is the snapshot itself. -/
theorem fromProto_eq_ok (debug : Bool) (hs : s.Sound f g w) (hr : s.registers = some r)
    (hp : toProto s = some proto) (complete : s.isCompleteSomeState = .ok ())
    (origin : s.metadata.origin ≠ .kUseString → s.metadata.originString = []) :
    fromProto debug proto = .ok snap ↔ s.Restorable ∧ snap = s := by
  have before {t : Snapshot} : beforeEndStatesFromProto proto = .ok t ↔ _ :=
    beforeEndStates_iff hs hr hp
  have states {t t' : Snapshot} : t.expectedEndStates = [] →
      ((s.expectedEndStates.map endStateToProto).foldlM addEndStateFromProto t = .ok t' ↔ _) :=
    endStates_iff fun x hx => (hs.states x hx).wellFormed
  obtain rfl := Option.some.inj ((toProto_eq hr).symm.trans hp)
  rw [fromProto_eq, endStatesFromProto, bind_assoc, bind_eq_ok]
  constructor
  · rintro ⟨t, first, run⟩
    obtain ⟨free, can, rfl⟩ := before.mp first
    obtain ⟨t', second, run⟩ := bind_eq_ok.mp run
    obtain ⟨each, distinct, rfl⟩ := (states rfl).mp second
    refine ⟨⟨free, fun r' hr' => ?_, fun x hx => (each x hx).2, distinct,
      fun x hx => (each x hx).1⟩, ?_⟩
    · obtain rfl : r = r' := Option.some.inj (hr.symm.trans hr')
      exact can
    · rw [traces_run hs.traces, ok_bind] at run
      obtain ⟨_, _, run⟩ := bind_eq_ok.mp run
      rw [← Except.ok.inj run, Option.getD_some, metadataFromProto_toProto origin]
  · rintro ⟨restorable, rfl⟩
    refine ⟨_, before.mpr ⟨restorable.conflictFree, restorable.registers r hr, rfl⟩, ?_⟩
    refine bind_eq_ok.mpr ⟨_, (states rfl).mpr
      ⟨fun x hx => ⟨restorable.platforms x hx, restorable.endStates x hx⟩, restorable.distinct, rfl⟩, ?_⟩
    rw [traces_run hs.traces, ok_bind, Option.getD_some, metadataFromProto_toProto origin]
    exact bind_eq_ok.mpr ⟨(), plus_eq_ok.mpr complete, rfl⟩

/-- Only a complete snapshot is written, and it has registers. -/
theorem registers_of_complete (complete : s.isCompleteSomeState = .ok ()) :
    ∃ r, s.registers = some r := by
  have some {state : State} (ok : s.isComplete state = .ok ()) : s.registers.isSome = true := by
    obtain ⟨_, _, ok⟩ := bind_eq_ok.mp ok
    obtain ⟨_, _, ok⟩ := bind_eq_ok.mp ok
    obtain ⟨_, _, ok⟩ := bind_eq_ok.mp ok
    obtain ⟨_, _, ok⟩ := bind_eq_ok.mp ok
    obtain ⟨_, registers, _⟩ := bind_eq_ok.mp ok
    exact ensure_eq_ok.mp registers
  obtain ⟨normal, hn, rest⟩ := bind_eq_ok.mp complete
  apply Option.isSome_iff_exists.mp
  split at rest
  · next yes => exact some (isOk_true (yes ▸ hn))
  · obtain ⟨undetermined, hu, rest⟩ := bind_eq_ok.mp rest
    split at rest
    · next yes => exact some (isOk_true (yes ▸ hu))
    · exact some rest

/-- **The snapshots that come back.** A snapshot that was built by its mutators, is complete
in some state and has an origin string only for the origin that uses one is written to a
proto that is decoded to an equal snapshot exactly when it is `Restorable`. -/
theorem fromProto_toProto_iff (debug : Bool) {s : Snapshot} (built : s.Runs)
    (complete : s.isCompleteSomeState = .ok ())
    (origin : s.metadata.origin ≠ .kUseString → s.metadata.originString = []) :
    (∃ proto s', toProto s = some proto ∧ fromProto debug proto = .ok s' ∧ s'.eq s = some true) ↔
      s.Restorable := by
  obtain ⟨f, g, w, hs⟩ := Snapshot.runs_sound built
  obtain ⟨r, hr⟩ := registers_of_complete complete
  constructor
  · rintro ⟨proto, s', written, decoded, -⟩
    exact ((fromProto_eq_ok debug hs hr written complete origin).mp decoded).1
  · intro restorable
    refine ⟨_, s, toProto_eq hr, ?_, (Snapshot.eq_iff s s).mpr ⟨rfl, ?_, ?_⟩⟩
    · exact (fromProto_eq_ok debug hs hr (toProto_eq hr) complete origin).mpr ⟨restorable, rfl⟩
    · exact vectorsEqualAsSet_refl EndState.eq_iff _
    · exact vectorsEqualAsSet_refl TraceData.eq_iff _

/-- A page with all permissions, registers that start and have their stack in it, and bytes. -/
def page : MemoryMapping :=
  ⟨0x1000, 0x1000, ⟨7⟩, MemoryMapping.page_nonempty, MemoryMapping.firstPage_bounded,
    MemoryPerms.proper_all, MemoryPerms.unmapped_all⟩

def pageRegisters : RegisterState := ⟨pageGRegs, pageFPRegs⟩

def firstByte : MemoryBytes := ⟨0x1010, [1], by decide, by decide⟩
def secondByte : MemoryBytes := ⟨0x1011, [2], by decide, by decide⟩
def bothBytes : MemoryBytes := ⟨0x1010, [1, 2], MemoryBytes.two_nonempty, by decide⟩

/-- An end state in the page, on one platform. -/
def pageEndState : EndState := (EndState.new (.kInstruction 0x1008) pageRegisters).addPlatform 1

theorem pageEndState_built : pageEndState.Built := .addPlatform 1 (.new pageRegisters trivial)

set_option maxRecDepth 10000 in
/-- A snapshot of the page with that end state comes back. -/
theorem fromProto_toProto_page : ∃ s : Snapshot, s.Runs ∧ s.isCompleteSomeState = .ok () ∧
    ((∃ proto s', toProto s = some proto ∧ fromProto true proto = .ok s' ∧
      s'.eq s = some true) ↔ s.Restorable) ∧ s.Restorable := by
  have mapped : Snapshot.Runs _ := .call (.memory (.addMemoryMapping page))
    (.new .kX86_64 unsetId rfl) rfl rfl
  have filled : Snapshot.Runs _ := .call (.memory (.addMemoryBytes bothBytes)) mapped rfl rfl
  have started : Snapshot.Runs _ := .call (.setRegisters pageRegisters) filled rfl rfl
  have ended : Snapshot.Runs _ := .call (.addExpectedEndState pageEndState false) started
    ⟨pageEndState_built, rfl⟩ rfl
  refine ⟨_, ended, rfl, fromProto_toProto_iff true ended rfl fun _ => rfl, ?_, ?_, ?_, ?_, ?_⟩
  · intro k p _ q hq
    cases hq
  · rintro r ⟨⟩
    rfl
  · intro x hx
    obtain rfl := List.mem_singleton.mp hx
    rfl
  · exact List.pairwise_singleton _ _
  · intro x hx
    obtain rfl := List.mem_singleton.mp hx
    rfl

set_option maxRecDepth 10000 in
/-- Two end states with the same bytes, cut in two ways, are not duplicates until the bytes
are normalized. The snapshot is complete, and its proto is refused. -/
theorem fromProto_toProto_duplicates : ∃ s : Snapshot, s.Runs ∧
    s.isComplete .kNormalState = .ok () ∧ s.metadata = .default ∧ s.traceMetadata = [] ∧
    ∀ debug proto s', toProto s = some proto → fromProto debug proto ≠ .ok s' := by
  have whole : EndState.Built _ := .addMemoryBytes bothBytes pageEndState_built rfl rfl
  have half : EndState.Built _ := .addMemoryBytes firstByte pageEndState_built rfl rfl
  have halves : EndState.Built _ := .addMemoryBytes secondByte half rfl rfl
  have mapped : Snapshot.Runs _ := .call (.memory (.addMemoryMapping page))
    (.new .kX86_64 unsetId rfl) rfl rfl
  have filled : Snapshot.Runs _ := .call (.memory (.addMemoryBytes bothBytes)) mapped rfl rfl
  have started : Snapshot.Runs _ := .call (.setRegisters pageRegisters) filled rfl rfl
  have first : Snapshot.Runs _ := .call (.addExpectedEndState _ false) started ⟨whole, rfl⟩ rfl
  have second : Snapshot.Runs _ := .call (.addExpectedEndState _ false) first ⟨halves, rfl⟩ rfl
  have normal : Snapshot.Runs _ := .call (.memory .normalizeMemoryBytes) second trivial rfl
  refine ⟨_, normal, rfl, rfl, rfl, fun debug proto s' written decoded => ?_⟩
  obtain ⟨f, g, w, sound⟩ := Snapshot.runs_sound normal
  have restorable := ((fromProto_eq_ok debug sound rfl written rfl fun _ => rfl).mp decoded).1
  have different := (List.pairwise_cons.mp restorable.distinct).1 _ (List.mem_singleton.mpr rfl)
  cases different

end SnapshotProto

end Silifuzz
