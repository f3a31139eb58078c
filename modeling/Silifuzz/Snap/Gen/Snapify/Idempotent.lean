import Silifuzz.Snap.Gen.Snapify.Run

/-!
# Snapify once more

What `Snapify` returns depends on the mappings, the byte at every address and the end state
that is picked, and these are the same for its own result.
-/

namespace Silifuzz

open Checked ExitSequence ReservedMemoryMappings RawInsns

namespace Snapify

variable {debug : Bool} {host : Architecture} {s : Snapshot} {opts : SnapifyOptions}
  {es : EndState} {address : Address} {pos neg : PermsMap} {sb c : BytesMap}

/-- The changes of an end state that says all of its writable memory are that again. -/
theorem snapEndBytes_again (pos : PermsMap) (c d : BytesMap) :
    snapEndBytes pos c (snapEndBytes pos c d) = snapEndBytes pos c d := by
  funext k
  unfold snapEndBytes PermsMap.writablePart BytesMap.under
  split
  · rfl
  · next writable =>
    simp only [if_neg writable]
    cases d k <;> cases c k <;> rfl

/-- An end state that has been through `Snapify` differs in its bytes only, and only if it was
complete; and it goes through once more as it is. -/
theorem snapifyEndState_again {e : EndState} {d : BytesMap}
    (hs : s.toSnapshotMemory.Keeps pos neg c) (filled : ∀ k, (c k).isSome = (pos k).isSome)
    (contents : Contents es.memoryBytes d) (mapped : ∀ k, (d k).isSome → (pos k).isSome)
    (run : snapifyEndState debug s opts es = .ok e) :
    snapifyEndState debug s opts e = .ok e ∧ (∃ set l, e = es.withBytes set l) ∧
      (es.isComplete .kNormalState = .ok () ∨ e = es) := by
  by_cases complete : es.isComplete .kNormalState = .ok ()
  · obtain ⟨n, hn, made⟩ := snapifyEndState_state debug s opts hs complete contents mapped
    rw [zeroFilled_of_filled filled] at hn
    obtain ⟨l, cut, bytes⟩ :=
      snapifyMemoryByteList_run hn (writable_paged hs) (shouldCompressEndState opts)
    obtain ⟨set, replace⟩ := es.replaceMemoryBytes_run bytes
    have first : snapifyEndState debug s opts es = .ok (es.withBytes set l) := by
      rw [made, cut]
      exact replace
    obtain rfl : e = es.withBytes set l := Except.ok.inj (run.symm.trans first)
    have within : ∀ k, (snapEndBytes pos c d k).isSome → (pos k).isSome := by
      intro k hk
      unfold snapEndBytes PermsMap.writablePart BytesMap.under at hk
      split at hk
      · cases hk
      · rw [Option.isSome_or, Bool.or_eq_true] at hk
        rcases hk with hk | hk
        · exact mapped k hk
        · rw [← filled]
          exact hk
    have complete' : (es.withBytes set l).isComplete .kNormalState = .ok () := complete
    obtain ⟨n', hn', made'⟩ := snapifyEndState_state debug s opts hs complete' bytes within
    rw [zeroFilled_of_filled filled, snapEndBytes_again] at hn'
    obtain rfl := hn.unique hn'
    refine ⟨?_, ⟨set, l, rfl⟩, .inl complete⟩
    rw [made', cut]
    exact replace
  · have settles := isOk_eq_ok (settles_ne_abort (EndState.isComplete_settles es .kNormalState))
    have same : e = es := by
      simp only [snapifyEndState, settles, complete, decide_false, ok_bind, Bool.false_eq_true,
        if_false] at run
      split at run
      · cases run
      · exact (Except.ok.inj run).symm
    subst same
    exact ⟨run, ⟨e.changedMemorySet, e.memoryBytes, rfl⟩, .inr rfl⟩

theorem isComplete_snapified {e : EndState} {state : State} (bytes : ∃ set l, e = es.withBytes set l)
    (kind : es.isComplete .kNormalState = .ok () ∨ e = es) (complete : es.isComplete state = .ok ()) :
    e.isComplete state = .ok () := by
  rcases kind with normal | rfl
  · obtain ⟨set, l, rfl⟩ := bytes
    -- an undefined end state has no registers
    have registers : ¬ (es.registers.gregs.isEmpty && es.registers.fpregs.isEmpty) = true := by
      intro unset
      simp only [EndState.isComplete, bind_eq_ok, ensure_eq_ok] at normal
      obtain ⟨_, set, _⟩ := normal
      simp_all
    cases state with
    | kNormalState => exact complete
    | kUndefinedEndState =>
      simp only [EndState.isComplete, bind_eq_ok, ensure_eq_ok] at complete
      exact absurd complete.choose_spec.1 registers
    | kMakingState =>
      simp only [EndState.isComplete, bind_eq_ok, ensure_eq_ok] at complete
      exact absurd complete.choose_spec.1 registers
  · exact complete

/-- Normal mappings are normalized to themselves. -/
theorem normalizeMemoryMappings_again {m m' : SnapshotMemory} (set : MemoryBytesSet)
    (l : List MemoryBytes) (run : m.normalizeMemoryMappings = some m') :
    (m'.withBytes set l).normalizeMemoryMappings = some (m'.withBytes set l) := by
  obtain ⟨mappings, sorted, run⟩ := Option.bind_eq_some_iff.mp run
  obtain ⟨negatives, sorted', run⟩ := Option.bind_eq_some_iff.mp run
  obtain rfl := Option.some.inj run
  simp only [SnapshotMemory.normalizeMemoryMappings, SnapshotMemory.withBytes, sorted, sorted']
  rfl

/-- A snapshot that was complete with the end state picked is so after `Snapify`. -/
theorem isComplete_withParts {m : SnapshotMemory} {e : EndState} {state : State}
    (hs : s.toSnapshotMemory.Keeps pos neg sb) (hm : m.Keeps pos neg c)
    (states : s.expectedEndStates = [es]) (endpoint : es.endpoint = .kInstruction address)
    (known : (c address).isSome) (bytes : ∃ set l, e = es.withBytes set l)
    (kind : es.isComplete .kNormalState = .ok () ∨ e = es)
    (can : (s.withParts m []).canAddExpectedEndState e false false = .ok ())
    (complete : s.isComplete state = .ok ()) : (s.withParts m [e]).isComplete state = .ok () := by
  rw [Snapshot.isComplete_eq_ok, states] at complete
  obtain ⟨-, needed, -, registers, -, each⟩ := complete
  have none : s.negativeMemoryMappings = [] := by
    simpa [Snapshot.needsNegativeMapping, endpoint] using needed
  have clear : neg = PermsMap.empty := (none ▸ hs.negativeMappings).unique .nil
  have negatives : m.negativeMemoryMappings = [] := by
    by_contra some
    obtain ⟨x, hx⟩ := List.exists_mem_of_ne_nil _ some
    have here := hm.negativeMappings.covered x hx x.startAddress ⟨le_rfl, x.start_lt_limit⟩
    rw [clear] at here
    cases here
  have mappings : m.memoryMappings ≠ [] := by
    obtain ⟨x, hx, -⟩ := hm.mappings.exists_mapping (hm.mappedBytes address known)
    exact List.ne_nil_of_mem hx
  have filled : m.memoryBytes ≠ [] := by
    obtain ⟨x, hx, -⟩ := hm.contents.isSome_iff.mp known
    exact List.ne_nil_of_mem hx
  have same : e.endpoint = es.endpoint := by
    obtain ⟨set, l, rfl⟩ := bytes
    rfl
  rw [Snapshot.isComplete_eq_ok]
  refine ⟨mappings, ?_, filled, registers, by simp [Snapshot.withParts], ?_⟩
  · simp [Snapshot.withParts, Snapshot.needsNegativeMapping, same, endpoint, negatives]
  · intro x hx
    obtain rfl : x = (e, 0) := by simpa [Snapshot.withParts] using hx
    have first := each (es, 0) (by simp)
    simp only [Snapshot.isCompleteEndState, plus_eq_ok, bind_eq_ok] at first ⊢
    obtain ⟨_, complete, -⟩ := first
    refine ⟨(), isComplete_snapified bytes kind complete, ?_⟩
    split
    · rfl
    · obtain ⟨_, at_end, can⟩ := bind_eq_ok.mp can
      obtain ⟨_, with_end, -⟩ := bind_eq_ok.mp can
      exact bind_eq_ok.mpr ⟨(), at_end, bind_eq_ok.mpr ⟨(), with_end, rfl⟩⟩

/-- The options pick the end state that `Snapify` has made of the one they picked. -/
theorem pickEndState_again {m : SnapshotMemory} {e : EndState}
    (hs : s.toSnapshotMemory.Keeps pos neg sb) (hm : m.Keeps pos neg c)
    (picked : pickEndState s opts = .ok es) (endpoint : es.endpoint = .kInstruction address)
    (known : (c address).isSome) (bytes : ∃ set l, e = es.withBytes set l)
    (kind : es.isComplete .kNormalState = .ok () ∨ e = es)
    (can : (s.withParts m []).canAddExpectedEndState e false false = .ok ()) :
    pickEndState (s.withParts m [e]) opts = .ok e := by
  unfold pickEndState at picked ⊢
  by_cases undefined : opts.allowUndefinedEndState = true
  · rw [if_pos undefined] at picked ⊢
    split at picked
    · next _ states =>
      obtain ⟨_, complete, same⟩ := bind_eq_ok.mp picked
      obtain rfl := Except.ok.inj same
      obtain ⟨state, complete⟩ := (Snapshot.isCompleteSomeState_eq_ok hs.mapped).mp complete
      have again := (Snapshot.isCompleteSomeState_eq_ok (s := s.withParts m [e]) hm.mapped).mpr
        ⟨state, isComplete_withParts hs hm states endpoint known bytes kind can complete⟩
      exact bind_eq_ok.mpr ⟨(), again, rfl⟩
    · cases picked
  · rw [if_neg undefined] at picked ⊢
    split at picked
    · next first found =>
      obtain ⟨_, complete, same⟩ := bind_eq_ok.mp picked
      obtain rfl := Except.ok.inj same
      have chosen := List.find?_some found
      have platforms : e.hasPlatform opts.platformId = first.hasPlatform opts.platformId := by
        obtain ⟨set, l, rfl⟩ := bytes
        rfl
      rw [← platforms] at chosen
      have again : [e].find? (fun es : EndState =>
          es.hasPlatform opts.platformId || opts.platformId == .kAny) = some e := List.find?_cons_of_pos chosen
      simp only [Snapshot.withParts, again]
      exact bind_eq_ok.mpr ⟨(), isComplete_snapified bytes kind complete, rfl⟩
    · cases picked

theorem endable_again {m : SnapshotMemory} {e : EndState}
    (hs : s.toSnapshotMemory.Keeps pos neg sb) (hm : m.Keeps pos neg c)
    (arch : m.architecture = s.architecture) (map : m.mappedMemoryMap = s.mappedMemoryMap)
    (h : Endable host s opts es address) (bytes : ∃ set l, e = es.withBytes set l)
    (kind : es.isComplete .kNormalState = .ok () ∨ e = es) :
    Endable host (s.withParts m [e]) opts e address := by
  have same : e.endpoint = es.endpoint ∧ e.registers = es.registers := by
    obtain ⟨set, l, rfl⟩ := bytes
    exact ⟨rfl, rfl⟩
  refine ⟨same.1.trans h.endpoint, ?_, ?_, ?_⟩
  · rw [← h.apart]
    exact overlapReservedMemoryMappings_congr hm.mappings hs.mappings
  · have room := h.room
    rw [← arch, ← map] at room
    exact room
  · rcases h.stack with ⟨allowed, undefined⟩ | stack
    · exact .inl ⟨allowed, isComplete_snapified bytes kind undefined⟩
    · right
      rw [← stack]
      simp only [hasStack, SnapshotMemory.extractRsp, Snapshot.withParts, same.2, arch, map]

/-- **What `Snapify` has made stays as it is**: `Snapify` with the same options succeeds on it
and returns the same snapshot. -/
theorem snapify_idempotent (debug : Bool) (host : Architecture) (opts : SnapifyOptions)
    {s t : Snapshot} (built : s.Runs) (run : snapify debug host s opts = .ok t) :
    snapify debug host t opts = .ok t := by
  obtain ⟨pos, neg, sb, hs⟩ := Snapshot.runs_sound built
  obtain ⟨_, can, -⟩ := bind_eq_ok.mp run
  obtain ⟨es, address, picked, endable⟩ := canSnapify_eq_ok.mp can
  obtain ⟨fits, inside⟩ := endable.fits hs.memory.mapped
  obtain ⟨m, m', normalize, snap, hm, eq⟩ := snapify_eq debug hs.memory picked endable
  have filled := snapBytes_filled s.architecture hs.memory.mappedBytes inside
  rw [eq] at run
  obtain ⟨_, -, run⟩ := bind_eq_ok.mp run
  obtain ⟨e, ended, run⟩ := bind_eq_ok.mp run
  obtain ⟨_, can, run⟩ := bind_eq_ok.mp run
  obtain rfl := Except.ok.inj run
  -- the end state goes through once more
  have within := hs.states es (pickEndState_mem picked)
  obtain ⟨d, contents, -⟩ := within.wellFormed.bytes
  have mapped : ∀ k, (d k).isSome → (pos k).isSome := by
    intro k hk
    obtain ⟨b, hb, cover⟩ := contents.isSome_iff.mp hk
    exact within.mapped b hb k cover
  obtain ⟨again, bytes, kind⟩ :=
    snapifyEndState_again (s := s.withParts m' []) hm filled contents mapped ended
  -- the memory is normal, and has the exit sequence
  obtain ⟨n, l, set, hn, cut, written, rfl⟩ := snap
  have fixed := normalizeMemoryMappings_again set l normalize
  have same : m.architecture = s.architecture ∧ m.mappedMemoryMap = s.mappedMemoryMap := by
    obtain ⟨mappings, negatives, eq, -⟩ := SnapshotMemory.normalizeMemoryMappings_holds hs.memory.toHolds
    obtain rfl : _ = m := Option.some.inj (eq.symm.trans normalize)
    exact ⟨rfl, rfl⟩
  have known : (snapBytes s.architecture address pos sb address).isSome := by
    rw [filled]
    exact inside address le_rfl (Nat.lt_add_of_pos_right (getSnapExitSequenceSize_pos _))
  have picked' := pickEndState_again hs.memory hm picked endable.endpoint known bytes kind can
  have endable' := endable_again hs.memory hm same.1 same.2 endable bytes kind
  obtain ⟨m₂, m₂', normalize₂, snap₂, -, eq₂⟩ :=
    snapify_eq debug (s := s.withParts (m.withBytes set l) [e]) hm picked' endable'
  obtain rfl : m.withBytes set l = m₂ := Option.some.inj (fixed.symm.trans normalize₂)
  have arch : (s.withParts (m.withBytes set l) [e]).architecture = s.architecture := same.1
  rw [arch, snapBytes_again filled] at snap₂
  obtain rfl : m.withBytes set l = m₂' :=
    SnapMemory.unique ⟨n, l, set, hn, cut, written, rfl⟩ snap₂
  have checked : dcheckStatus debug (.ok ()) = .ok () := by cases debug <;> rfl
  have parts : ∀ xs, (s.withParts (m.withBytes set l) [e]).withParts (m.withBytes set l) xs =
      s.withParts (m.withBytes set l) xs := fun _ => rfl
  rw [eq₂]
  simp only [parts, can, checked, again, ok_bind, pure_ok]

/-- A page with all permissions, out of the reserved memory. -/
def highPage : MemoryMapping :=
  ⟨0x20000, 0x1000, ⟨7⟩, MemoryMapping.page_nonempty, MemoryMapping.freePage_bounded,
    MemoryPerms.proper_all, MemoryPerms.unmapped_all⟩

def highBytes : MemoryBytes := ⟨0x20010, [1, 2], MemoryBytes.two_nonempty, by decide⟩

/-- Serialized registers with `rip` and `rsp` at the ends of the page. -/
def highRegisters : RegisterState where
  gregs := [0x69, 0x67, 0, 0, 0, 0, 0, 0] ++ List.replicate 120 0 ++ [0, 0x10, 2, 0, 0, 0, 0, 0] ++
    [0, 0, 2, 0, 0, 0, 0, 0] ++ List.replicate 40 0
  fpregs := [0x69, 0x66, 0, 0, 0, 0, 0, 0] ++ List.replicate 512 0

def highEndState : EndState := (EndState.new (.kInstruction 0x20008) highRegisters).addPlatform 1

/-- The page with that end state. -/
def highSnapshot : Snapshot where
  architecture := .kX86_64
  mappedMemoryMap := ⟨[⟨0x20000, 0x21000, ⟨7⟩⟩]⟩
  negativeMappedMemoryMap := .empty
  writtenMemorySet := ⟨[⟨0x20010, 0x20012, false⟩]⟩
  memoryMappings := [highPage]
  negativeMemoryMappings := []
  memoryBytes := [highBytes]
  id := unsetId
  registers := some highRegisters
  expectedEndStates := [highEndState]
  metadata := .default
  traceMetadata := []

set_option maxRecDepth 10000 in
theorem highSnapshot_runs : highSnapshot.Runs := by
  have mapped : Snapshot.Runs _ := .call (.memory (.addMemoryMapping highPage))
    (.new .kX86_64 unsetId rfl) rfl rfl
  have filled : Snapshot.Runs { highSnapshot with registers := none, expectedEndStates := [] } :=
    .call (.memory (.addMemoryBytes highBytes)) mapped rfl rfl
  have started : Snapshot.Runs { highSnapshot with expectedEndStates := [] } :=
    .call (.setRegisters highRegisters) filled rfl rfl
  have endStateBuilt : highEndState.Built := .addPlatform 1 (.new highRegisters trivial)
  exact .call (.addExpectedEndState highEndState false) started ⟨endStateBuilt, rfl⟩ rfl

/-- `Snapify` of the page, and of what it has made of it. -/
theorem snapify_idempotent_highPage : ∃ t,
    snapify true .kX86_64 highSnapshot { compressRepeatingBytes := false } = .ok t ∧
      snapify true .kX86_64 t { compressRepeatingBytes := false } = .ok t := by
  have succeeds : (snapify true .kX86_64 highSnapshot
      { compressRepeatingBytes := false }).toOption.isSome = true := by decide +kernel
  obtain ⟨t, run⟩ := exists_ok succeeds
  exact ⟨t, run, snapify_idempotent true .kX86_64 { compressRepeatingBytes := false }
    highSnapshot_runs run⟩

end Snapify

end Silifuzz

/-!
## What the snapshot of a snap says

The mappings and the bytes of the result of `Snapify`, address by address, from those of the
snapshot and of the end state that is picked.
-/

namespace Silifuzz

open Checked ExitSequence

namespace Snapify

variable {debug : Bool} {host : Architecture} {s t : Snapshot} {opts : SnapifyOptions}
  {es e : EndState} {pos neg : PermsMap} {c d : BytesMap}

/-- The bytes that a complete end state is left with. -/
theorem snapifyEndState_contents (debug : Bool) (opts : SnapifyOptions) (hs : s.toSnapshotMemory.Keeps pos neg c)
    (filled : ∀ k, (c k).isSome = (pos k).isSome) (complete : es.isComplete .kNormalState = .ok ())
    (contents : Contents es.memoryBytes d) (mapped : ∀ k, (d k).isSome → (pos k).isSome) :
    ∃ set l, snapifyEndState debug s opts es = .ok (es.withBytes set l) ∧
      Contents l (snapEndBytes pos c d) := by
  obtain ⟨n, hn, made⟩ := snapifyEndState_state debug s opts hs complete contents mapped
  rw [zeroFilled_of_filled filled] at hn
  obtain ⟨l, cut, bytes⟩ :=
    snapifyMemoryByteList_run hn (writable_paged hs) (shouldCompressEndState opts)
  obtain ⟨set, replace⟩ := es.replaceMemoryBytes_run bytes
  refine ⟨set, l, ?_, bytes⟩
  rw [made, cut]
  exact replace

/-- The end state of a snap covers the writable memory. -/
theorem snapEndBytes_isSome (filled : ∀ k, (c k).isSome = (pos k).isSome)
    (mapped : ∀ k, (d k).isSome → (pos k).isSome) (k : Address) :
    (snapEndBytes pos c d k).isSome ↔ ∃ p ∈ pos k, p.has .kWritable = true := by
  have known := filled k
  have inside := mapped k
  unfold snapEndBytes PermsMap.writablePart PermsMap.readOnly BytesMap.under
  cases h : pos k with
  | none =>
    rw [h] at known inside
    cases hd : d k <;> simp_all
  | some p =>
    rw [h] at known
    cases writable : p.has .kWritable <;> simp [writable, known]

/-- **What `Snapify` returns.** The mappings are those of the snapshot; its bytes define all
that is mapped, with the exit sequence at the endpoint over the bytes of the snapshot over
zeros; and the bytes of its one end state define all that is mapped for writing, with the
changes of the end state that was picked over the new initial bytes. -/
theorem snapify_contents (debug : Bool) (host : Architecture) (opts : SnapifyOptions)
    {s t : Snapshot} {es : EndState} (built : s.Runs) (run : snapify debug host s opts = .ok t)
    (picked : pickEndState s opts = .ok es) (complete : es.isComplete .kNormalState = .ok ()) :
    ∃ (pos : PermsMap) (sb d : BytesMap) (address : Address) (e : EndState),
      Describes s.memoryMappings pos ∧ Contents s.memoryBytes sb ∧ Contents es.memoryBytes d ∧
      es.endpoint = .kInstruction address ∧
      Describes t.memoryMappings pos ∧
      Contents t.memoryBytes (snapBytes s.architecture address pos sb) ∧
      (∀ k, (snapBytes s.architecture address pos sb k).isSome = (pos k).isSome) ∧
      t.expectedEndStates = [e] ∧
      Contents e.memoryBytes (snapEndBytes pos (snapBytes s.architecture address pos sb) d) ∧
      ∀ k, (snapEndBytes pos (snapBytes s.architecture address pos sb) d k).isSome ↔
        ∃ p ∈ pos k, p.has .kWritable = true := by
  obtain ⟨pos, neg, sb, hs⟩ := Snapshot.runs_sound built
  obtain ⟨_, can, -⟩ := bind_eq_ok.mp run
  obtain ⟨es', address, picked', endable⟩ := canSnapify_eq_ok.mp can
  obtain rfl : es = es' := Except.ok.inj (picked.symm.trans picked')
  obtain ⟨fits, inside⟩ := endable.fits hs.memory.mapped
  obtain ⟨m, m', -, -, hm, eq⟩ := snapify_eq debug hs.memory picked endable
  have filled := snapBytes_filled s.architecture hs.memory.mappedBytes inside
  have within := hs.states es (pickEndState_mem picked)
  obtain ⟨d, contents, -⟩ := within.wellFormed.bytes
  have mapped : ∀ k, (d k).isSome → (pos k).isSome := by
    intro k hk
    obtain ⟨b, hb, cover⟩ := contents.isSome_iff.mp hk
    exact within.mapped b hb k cover
  obtain ⟨set, l, ended, bytes⟩ := snapifyEndState_contents debug opts
    (s := s.withParts m' []) hm filled complete contents mapped
  rw [eq] at run
  obtain ⟨_, -, run⟩ := bind_eq_ok.mp run
  obtain ⟨e, ended', run⟩ := bind_eq_ok.mp run
  obtain ⟨_, -, run⟩ := bind_eq_ok.mp run
  obtain rfl := Except.ok.inj run
  obtain rfl : es.withBytes set l = e := Except.ok.inj (ended.symm.trans ended')
  exact ⟨pos, sb, d, address, es.withBytes set l, hs.memory.mappings, hs.memory.contents, contents,
    endable.endpoint, hm.mappings, hm.contents, filled, rfl, bytes, snapEndBytes_isSome filled mapped⟩

/-- Bytes that the exit sequence covers in part, and changes of both parts. -/
def underExit : MemoryBytes := ⟨0x20014, [1, 2, 3, 4], List.cons_ne_nil _ _, by decide⟩

def exitChange : MemoryBytes := ⟨0x20015, [5, 6], List.cons_ne_nil _ _, by decide⟩

def changedEndState : EndState :=
  { highEndState with
    changedMemorySet := ⟨[⟨0x20015, 0x20017, false⟩]⟩
    memoryBytes := [exitChange] }

def changedSnapshot : Snapshot :=
  { highSnapshot with
    writtenMemorySet := ⟨[⟨0x20014, 0x20018, false⟩]⟩
    memoryBytes := [underExit]
    expectedEndStates := [changedEndState] }

set_option maxRecDepth 10000 in
theorem changedSnapshot_runs : changedSnapshot.Runs := by
  have mapped : Snapshot.Runs _ := .call (.memory (.addMemoryMapping highPage))
    (.new .kX86_64 unsetId rfl) rfl rfl
  have filled : Snapshot.Runs { changedSnapshot with registers := none, expectedEndStates := [] } :=
    .call (.memory (.addMemoryBytes underExit)) mapped rfl rfl
  have started : Snapshot.Runs { changedSnapshot with expectedEndStates := [] } :=
    .call (.setRegisters highRegisters) filled rfl rfl
  have endStateBuilt : highEndState.Built := .addPlatform 1 (.new highRegisters trivial)
  have changed : changedEndState.Built := .addMemoryBytes exitChange endStateBuilt rfl rfl
  exact .call (.addExpectedEndState changedEndState false) started ⟨changed, rfl⟩ rfl

/-- The end state's bytes over the exit sequence, over the snapshot's bytes, over zeros. -/
theorem snapify_contents_changed : ∃ t e initial final,
    snapify true .kX86_64 changedSnapshot { compressRepeatingBytes := false } = .ok t ∧
      Contents t.memoryBytes initial ∧ t.expectedEndStates = [e] ∧
      Contents e.memoryBytes final ∧
      [0x20007, 0x20008, 0x20015, 0x20016, 0x20017].map initial =
        [some 0, some 0xff, some 0, some 3, some 4] ∧
      [0x20007, 0x20008, 0x20015, 0x20016, 0x20017].map final =
        [some 0, some 0xff, some 5, some 6, some 4] := by
  have succeeds : (snapify true .kX86_64 changedSnapshot
      { compressRepeatingBytes := false }).toOption.isSome = true := by decide +kernel
  obtain ⟨t, run⟩ := exists_ok succeeds
  obtain ⟨pos, sb, d, address, e, mapped, bytes, change, ends, -, initial, -, states, final, -⟩ :=
    @snapify_contents true .kX86_64 { compressRepeatingBytes := false } _ _ changedEndState
      changedSnapshot_runs run rfl rfl
  cases ends
  have writable : ∀ k, 0x20000 ≤ k → k < 0x21000 → pos k = some ⟨7⟩ := fun k low high =>
    mapped.covered highPage (List.mem_singleton_self _) k ⟨low, high⟩
  have known : ∀ k, 0x20014 ≤ k → k < 0x20018 → sb k = some (underExit.byteAt k) :=
    fun k low high => bytes.covered underExit (List.mem_singleton_self _) k ⟨low, high⟩
  have unknown : ∀ k, k < 0x20014 → sb k = none := fun k before =>
    bytes.uncovered k fun b mem cover => by
      rw [List.mem_singleton.mp mem] at cover
      exact absurd cover.1 (Nat.not_le.mpr before)
  have changed : ∀ k, 0x20015 ≤ k → k < 0x20017 → d k = some (exitChange.byteAt k) :=
    fun k low high => change.covered exitChange (List.mem_singleton_self _) k ⟨low, high⟩
  have kept : ∀ k, k < 0x20015 ∨ 0x20017 ≤ k → d k = none := fun k out =>
    change.uncovered k fun b mem cover => by
      rw [List.mem_singleton.mp mem] at cover
      cases out with
      | inl before => exact absurd cover.1 (Nat.not_le.mpr before)
      | inr after => exact absurd cover.2 (Nat.not_lt.mpr after)
  refine ⟨t, e, _, _, run, initial, states, final, ?_, ?_⟩
  · simp [snapBytes, BytesMap.under, BytesMap.zeroFilled, exitBytes, writable, known, unknown]
    decide
  · simp [snapEndBytes, PermsMap.writablePart, PermsMap.readOnly, snapBytes, BytesMap.under,
      BytesMap.zeroFilled, exitBytes, writable, known, unknown, changed, kept]
    decide

end Snapify

end Silifuzz
