import Silifuzz.Common.Snapshot.Checks
import Silifuzz.Common.SnapshotProto

/-!
# What FromProto makes of any message

Decoding checks every part of a message before it is used, with one exception: a
platform that `set_platforms` does not take.

* one lemma for each part: it settles, and what it returns can be used;
* `setPlatforms_eq`, `setPlatforms_abort`: the exception;
* `fromProto_settles_iff`: the messages that are decoded or refused.
-/

namespace Silifuzz

open Checked

namespace EndState

/-- The platforms are those of the list, unless one of them is `kNonExistent`. -/
theorem setPlatforms_eq {x : EndState} {ps : List PlatformId} (h : PlatformId.kNonExistent ∉ ps) :
    x.setPlatforms ps = .ok { x with platforms := fun p => decide (p ∈ ps) } := by
  suffices gen : ∀ (g : PlatformId → Bool) (ps : List PlatformId), PlatformId.kNonExistent ∉ ps →
      ps.foldlM (fun x p => if p.val < kMaxPlatformId then (.ok (x.addPlatform p) : Checked EndState)
        else .error .abort) { x with platforms := g } =
          .ok { x with platforms := fun p => g p || decide (p ∈ ps) } by
    have all := gen (fun _ => false) ps h
    simp only [Bool.false_or] at all
    exact all
  intro g ps
  induction ps generalizing g with
  | nil =>
    intro _
    simp
  | cons q ps ih =>
    intro out
    have small : q.val < kMaxPlatformId := by
      have different : q ≠ PlatformId.kNonExistent := fun same => out (by simp [same])
      have bound := q.isLt
      have value : q.val ≠ kMaxPlatformId := fun same => different (Fin.ext same)
      omega
    rw [List.foldlM_cons, if_pos small]
    refine (ih (Function.update g q true) fun bad => out (by simp [bad])).trans ?_
    congr 2
    funext p
    by_cases same : p = q
    · simp [same]
    · simp [same]

/-- `CHECK_LT(i, ToInt(kMaxPlatformId))` fails. -/
theorem setPlatforms_abort {x : EndState} {ps : List PlatformId} (h : PlatformId.kNonExistent ∈ ps) :
    x.setPlatforms ps = .error .abort := by
  suffices gen : ∀ x : EndState,
      ps.foldlM (fun x p => if p.val < kMaxPlatformId then (.ok (x.addPlatform p) : Checked EndState)
        else .error .abort) x = .error .abort from gen _
  induction ps with
  | nil => simp at h
  | cons q ps ih =>
    intro x
    rw [List.foldlM_cons]
    split
    · next small =>
      have different : PlatformId.kNonExistent ≠ q := by
        rintro rfl
        exact absurd small (by decide)
      exact ih ((List.mem_cons.mp h).resolve_left different) _
    · rfl

/-- The changed memory is a set of addresses. -/
def Changed (x : EndState) : Prop := ∃ t, x.changedMemorySet.Represents t

end EndState

namespace TraceData

variable {t : TraceData} {ps : List PlatformId} {p : PlatformId} {debug : Bool}

theorem addPlatform_eq (h : debug = true → p.Traced) :
    t.addPlatform debug p = .ok { t with platforms := insertPlatform p t.platforms } := by
  unfold addPlatform
  cases debug with
  | false => rfl
  | true => simp [(h rfl).1, (h rfl).2]

theorem addPlatform_abort (h : ¬ p.Traced) : t.addPlatform true p = .error .abort := by
  unfold addPlatform
  rw [PlatformId.Traced, Decidable.not_and_iff_not_or_not, not_not, not_lt] at h
  rcases h with rfl | h
  · rfl
  · simp [h]

theorem addPlatforms_eq (t : TraceData) (h : debug = true → ∀ p ∈ ps, p.Traced) :
    ps.foldlM (addPlatform debug) t =
      .ok { t with platforms := ps.foldl (fun l p => insertPlatform p l) t.platforms } := by
  induction ps generalizing t with
  | nil => rfl
  | cons p ps ih =>
    rw [List.foldlM_cons, addPlatform_eq fun on => h on p (by simp), ok_bind]
    exact ih _ fun on q hq => h on q (by simp [hq])

theorem addPlatforms_abort (t : TraceData) (h : ∃ p ∈ ps, ¬ p.Traced) :
    ps.foldlM (addPlatform true) t = .error .abort := by
  induction ps generalizing t with
  | nil => simp at h
  | cons p ps ih =>
    rw [List.foldlM_cons]
    by_cases first : p.Traced
    · obtain ⟨q, hq, bad⟩ := h
      have later : q ∈ ps := (List.mem_cons.mp hq).resolve_left fun same => bad (same ▸ first)
      rw [addPlatform_eq fun _ => first, ok_bind]
      exact ih _ ⟨q, later, bad⟩
    · rw [addPlatform_abort first, error_bind]

end TraceData

namespace Proto

/-- The platforms that a bit of the mask stands for. -/
def encoded (bitmask : Option (BitVec 64)) (p : PlatformId) : Bool :=
  bitmask.elim false fun b => b.getLsbD p.val

end Proto

namespace SnapshotProto

variable {s : SnapshotMemory} {f g : PermsMap} {w : BytesMap} {e : EndState}

theorem mem_bitmaskToPlatforms {bitmask : BitVec 64} {p : PlatformId} :
    p ∈ bitmaskToPlatforms bitmask ↔ bitmask.getLsbD p.val = true := by
  simp [bitmaskToPlatforms]

theorem mustHaveField_settles {α : Type} (fieldName : String) (field : Option α) :
    Settles (mustHaveField fieldName field) fun _ => True :=
  settles_orStatus fun _ _ => trivial

/-- The bits of the mask are those that `MemoryPerms` keeps. -/
theorem permissions_proper {permissions : BitVec 32} (h : (permissions &&& ~~~7 == 0) = true) :
    (MemoryPerms.mk permissions).Proper ∧ (MemoryPerms.mk permissions).has .kMapped = false := by
  have none : permissions &&& ~~~7 = 0 := by simpa using h
  have low : permissions = permissions &&& 7 := by
    have all : permissions &&& (7 ||| ~~~7) = permissions &&& 7 := by
      rw [BitVec.and_or_distrib_left, none]
      exact BitVec.or_zero
    rw [show (7 ||| ~~~7 : BitVec 32) = BitVec.allOnes 32 from by decide, BitVec.and_allOnes] at all
    exact all
  rw [low]
  constructor
  · simp only [MemoryPerms.Proper, MemoryPerms.clear, MemoryPerms.none, MemoryPerms.allPlusMapped,
      BitVec.and_assoc, MemoryPerms.mk.injEq]
    exact BitVec.and_zero
  · simp only [MemoryPerms.has, Permission.toInt, BitVec.and_assoc]
    simp

theorem memoryMappingFromProto_settles (proto : Proto.MemoryMapping) :
    Settles (memoryMappingFromProto proto) fun _ => True := by
  apply settles_bind (mustHaveField_settles _ _)
  intro start _
  apply settles_bind (mustHaveField_settles _ _)
  intro numBytes _
  apply settles_bind (mustHaveField_settles _ _)
  intro permissions _
  apply settles_bind (MemoryMapping.checkSized_settles start numBytes)
  rintro _ ⟨positive, fits⟩
  apply settles_bind (Q := fun _ => (MemoryPerms.mk permissions).Proper ∧
    (MemoryPerms.mk permissions).has .kMapped = false) (settles_ensure permissions_proper)
  rintro _ ⟨proper, unmapped⟩
  exact settles_orAbort (dif_pos ⟨positive, fits, proper, unmapped⟩) trivial

theorem memoryBytesFromProto_settles (proto : Proto.MemoryBytes) :
    Settles (memoryBytesFromProto proto) fun _ => True := by
  apply settles_bind (mustHaveField_settles _ _)
  intro start _
  apply settles_bind (mustHaveField_settles _ _)
  intro bytes _
  apply settles_bind (Q := fun _ => bytes ≠ []) (settles_ensure fun some => by simpa using some)
  intro _ nonempty
  apply settles_bind (Q := fun _ => start + bytes.length ≤ kMaxAddress)
    (settles_ensure fun fits => by simpa using fits)
  intro _ fits
  exact settles_orAbort (MemoryBytes.make_some nonempty fits) trivial

theorem registerStateFromProto_settles (proto : Proto.RegisterState) :
    Settles (registerStateFromProto proto) fun _ => True := by
  apply settles_bind (mustHaveField_settles _ _)
  intro _ _
  apply settles_bind (mustHaveField_settles _ _)
  intro _ _
  exact settles_ok trivial

theorem endpointFromProto_settles (proto : Proto.Endpoint) :
    Settles (endpointFromProto proto) Endpoint.Valid := by
  unfold endpointFromProto
  split
  · exact settles_ok trivial
  · apply settles_bind (mustHaveField_settles _ _)
    intro num _
    apply settles_bind (mustHaveField_settles _ _)
    intro cause _
    apply settles_bind (mustHaveField_settles _ _)
    intro address _
    apply settles_bind (mustHaveField_settles _ _)
    intro instructionAddress _
    split
    · exact settles_status _ _
    · exact settles_status _ _
    · next num cause =>
      apply settles_bind (Q := fun _ => cause ≠ .kGenericSigCause ↔ num = .kSigSegv)
      · apply settles_ensure
        intro same
        rw [beq_iff_eq, Bool.eq_iff_iff] at same
        simpa only [bne_iff_ne, beq_iff_eq] using same
      · intro _ same
        exact settles_ok same
  · exact settles_status _ _

theorem addEndStateBytes_settles (h : e.Changed) (p : Proto.MemoryBytes) :
    Settles (addEndStateBytes e p) EndState.Changed := by
  obtain ⟨t, ht⟩ := h
  apply settles_bind (settles_plus (memoryBytesFromProto_settles p))
  intro b _
  apply settles_bind (Q := fun _ => True)
  · obtain ⟨c, disjoint, -⟩ := ht.isDisjoint_eq b.start_lt_limit
    apply settles_plus
    apply settles_bind (settles_orAbort (Q := fun _ => True) disjoint trivial)
    intro _ _
    exact settles_ensure fun _ => trivial
  · intro _ _
    obtain ⟨m, add, hm⟩ := ht.add_represents b.start_lt_limit
    apply settles_bind (settles_orAbort (Q := fun m => ∃ t, m.Represents t) add ⟨_, hm⟩)
    rintro m ⟨t, hm⟩
    exact settles_ok ⟨t, hm⟩

theorem endStateDataFromProto_settles (proto : Proto.EndState) :
    Settles (endStateDataFromProto proto) fun _ => True := by
  apply settles_bind (mustHaveField_settles _ _)
  intro endpoint _
  apply settles_bind (mustHaveField_settles _ _)
  intro registers _
  apply settles_bind (settles_plus (endpointFromProto_settles endpoint))
  intro e _
  apply settles_bind (settles_plus (registerStateFromProto_settles registers))
  intro r _
  have start : (EndState.new e r).Changed := ⟨_, MemoryBytesSet.empty_represents⟩
  apply settles_post (settles_foldlM (fun _ => EndState.Changed) start ?_) fun _ _ => trivial
  intro done p rest e hl he
  exact addEndStateBytes_settles he p

/-- The end state has the platforms of its message. -/
def SamePlatforms (x : EndState) (proto : Proto.EndState) : Prop :=
  ∀ p, x.hasPlatform p = Proto.encoded proto.platforms p

/-- Platforms that `set_platforms` takes. -/
def Settable (proto : Proto.EndState) : Prop :=
  Proto.encoded proto.platforms .kNonExistent = false

theorem setPlatformsFromProto_settles {proto : Proto.EndState} (e : EndState)
    (blank : ∀ p, e.platforms p = false) (h : Settable proto) :
    Settles (match proto.platforms with
      | some bitmask => e.setPlatforms (bitmaskToPlatforms bitmask)
      | none => .ok e) fun x => SamePlatforms x proto := by
  unfold SamePlatforms
  unfold Settable at h
  cases hp : proto.platforms with
  | none => exact settles_ok fun p => blank p
  | some bitmask =>
    rw [hp] at h
    have out : PlatformId.kNonExistent ∉ bitmaskToPlatforms bitmask := by
      rw [mem_bitmaskToPlatforms]
      exact Bool.eq_false_iff.mp h
    change Settles (e.setPlatforms (bitmaskToPlatforms bitmask)) _
    rw [EndState.setPlatforms_eq out]
    apply settles_ok
    intro p
    rw [Bool.eq_iff_iff]
    simp [EndState.hasPlatform, Proto.encoded, mem_bitmaskToPlatforms]

/-- The end state has no platforms before `set_platforms`. -/
theorem addEndStateBytes_platforms {p : Proto.MemoryBytes} {e' : EndState}
    (run : addEndStateBytes e p = .ok e') : e'.platforms = e.platforms := by
  obtain ⟨b, _, run⟩ := bind_eq_ok.mp run
  obtain ⟨_, _, run⟩ := bind_eq_ok.mp run
  obtain ⟨m, _, run⟩ := bind_eq_ok.mp run
  cases run
  rfl

theorem endStateDataFromProto_platforms {proto : Proto.EndState}
    (run : endStateDataFromProto proto = .ok e) : e.platforms = fun _ => false := by
  obtain ⟨endpoint, _, run⟩ := bind_eq_ok.mp run
  obtain ⟨registers, _, run⟩ := bind_eq_ok.mp run
  obtain ⟨ep, _, run⟩ := bind_eq_ok.mp run
  obtain ⟨r, _, run⟩ := bind_eq_ok.mp run
  have kept : ∀ (l : List Proto.MemoryBytes) (x : EndState), l.foldlM addEndStateBytes x = .ok e →
      e.platforms = x.platforms := by
    intro l
    induction l with
    | nil =>
      intro x run
      cases run
      rfl
    | cons p l ih =>
      intro x run
      obtain ⟨y, first, run⟩ := bind_eq_ok.mp run
      rw [ih y run, addEndStateBytes_platforms first]
  rw [kept _ _ run]
  rfl

theorem endStateFromProto_settles {proto : Proto.EndState}
    (h : ∀ e, endStateDataFromProto proto = .ok e → Settable proto) :
    Settles (endStateFromProto proto) fun x => SamePlatforms x proto := by
  apply settles_bind (settles_self (endStateDataFromProto_settles proto))
  rintro e ⟨run, -⟩
  have blank := endStateDataFromProto_platforms run
  apply settles_bind (setPlatformsFromProto_settles e (fun p => congrFun blank p) (h e run))
  intro x hx
  cases proto.registerChecksum with
  | none => exact settles_ok hx
  | some value => exact settles_ok hx

theorem endStateFromProto_abort {proto : Proto.EndState} (run : endStateDataFromProto proto = .ok e)
    (h : ¬ Settable proto) : endStateFromProto proto = .error .abort := by
  rw [endStateFromProto, run, ok_bind]
  unfold Settable at h
  cases hp : proto.platforms with
  | none => simp [hp, Proto.encoded] at h
  | some bitmask =>
    have inside : PlatformId.kNonExistent ∈ bitmaskToPlatforms bitmask := by
      rw [mem_bitmaskToPlatforms]
      simpa [hp, Proto.encoded] using h
    change (e.setPlatforms (bitmaskToPlatforms bitmask) >>= _) = _
    rw [EndState.setPlatforms_abort inside, error_bind]

theorem addMappingFromProto_settles (p : Proto.MemoryMapping) (h : ∃ f g w, s.Keeps f g w) :
    Settles (addMappingFromProto s p) fun s' => ∃ f g w, s'.Keeps f g w := by
  obtain ⟨f, g, w, hs⟩ := h
  apply settles_bind (settles_plus (memoryMappingFromProto_settles p))
  intro m _
  apply settles_bind (settles_plus (ofStatus_settles
    (SnapshotMemory.canAddMemoryMapping_total hs.toHolds m)))
  intro _ ok
  obtain ⟨s', run, hs'⟩ := SnapshotMemory.addMemoryMapping_keeps hs
    (SnapshotMemory.canAddMemoryMapping_ok ok)
  exact settles_orAbort run ⟨_, _, _, hs'⟩

theorem addNegativeFromProto_settles (p : Proto.MemoryMapping) (h : ∃ f g w, s.Keeps f g w) :
    Settles (addNegativeFromProto s p) fun s' => ∃ f g w, s'.Keeps f g w := by
  obtain ⟨f, g, w, hs⟩ := h
  apply settles_bind (settles_plus (memoryMappingFromProto_settles p))
  intro m _
  apply settles_bind (settles_plus (ofStatus_settles
    (SnapshotMemory.canAddNegativeMemoryMapping_total hs.toHolds m false)))
  intro _ can
  have ok := SnapshotMemory.canAddNegativeMemoryMapping_ok can
  obtain ⟨s', run, hs'⟩ := SnapshotMemory.addNegativeMemoryMapping_keeps hs ok (ok.new rfl)
  exact settles_orAbort run ⟨_, _, _, hs'⟩

theorem addBytesFromProto_settles (p : Proto.MemoryBytes) (h : ∃ f g w, s.Keeps f g w) :
    Settles (addBytesFromProto s p) fun s' => ∃ f g w, s'.Keeps f g w := by
  obtain ⟨f, g, w, hs⟩ := h
  apply settles_bind (settles_plus (memoryBytesFromProto_settles p))
  intro b _
  apply settles_bind (settles_plus (ofStatus_settles (SnapshotMemory.canAddMemoryBytes_total hs b)))
  intro _ can
  obtain ⟨s', run, -, hs'⟩ := SnapshotMemory.addMemoryBytes_keeps hs
    (SnapshotMemory.canAddMemoryBytes_ok can)
  exact settles_orAbort run ⟨_, _, _, hs'⟩

theorem memoryFromProto_settles (architecture : Architecture) (proto : Proto.Snapshot) :
    Settles (memoryFromProto architecture proto) fun s => ∃ f g w, s.Keeps f g w := by
  have new : ∃ f g w, (SnapshotMemory.new architecture).Keeps f g w :=
    ⟨_, _, _, SnapshotMemory.new_keeps architecture⟩
  apply settles_bind (settles_foldlM (fun _ (s : SnapshotMemory) => ∃ f g w, s.Keeps f g w) new
    fun _ p _ _ _ hs => addMappingFromProto_settles p hs)
  intro s hs
  apply settles_bind (settles_foldlM (fun _ (s : SnapshotMemory) => ∃ f g w, s.Keeps f g w) hs
    fun _ p _ _ _ hs => addNegativeFromProto_settles p hs)
  intro s hs
  exact settles_foldlM (fun _ (s : SnapshotMemory) => ∃ f g w, s.Keeps f g w) hs
    fun _ p _ _ _ hs => addBytesFromProto_settles p hs

/-- The memory of a snapshot that is being decoded. -/
def Decoding (s : Snapshot) : Prop := ∃ f g w, s.toSnapshotMemory.Keeps f g w

theorem beforeEndStatesFromProto_settles (proto : Proto.Snapshot) :
    Settles (beforeEndStatesFromProto proto) fun s => Decoding s ∧ s.expectedEndStates = [] := by
  apply settles_bind (mustHaveField_settles _ _)
  intro architecture _
  apply settles_bind (mustHaveField_settles _ _)
  intro registers _
  apply settles_bind (Q := fun _ => True)
  · unfold isValidId
    split
    · exact settles_ok trivial
    · split
      · exact settles_status _ _
      · split
        · exact settles_status _ _
        · exact settles_ok trivial
  intro _ _
  cases architecture with
  | undefined => exact settles_status _ _
  | known architecture =>
    apply settles_bind (memoryFromProto_settles architecture proto)
    rintro memory ⟨f, g, w, hm⟩
    apply settles_bind (settles_plus (registerStateFromProto_settles registers))
    intro r _
    apply settles_bind (settles_plus (SnapshotMemory.canSetRegisters_settles hm.mapped r false))
    intro _ matched
    rw [Snapshot.setRegisters, if_pos matched]
    exact settles_ok ⟨⟨f, g, w, hm⟩, rfl⟩

/-- The platforms of a trace, which a debug build checks. -/
def Traceable (debug : Bool) (proto : Proto.SnapshotTraceData) : Prop :=
  debug = true → ∀ p, Proto.encoded proto.platforms p = true → p.Traced

theorem traceDataFromProto_ok {debug : Bool} {proto : Proto.SnapshotTraceData}
    (h : Traceable debug proto) : ∃ t, traceDataFromProto debug proto = .ok t := by
  unfold traceDataFromProto
  unfold Traceable at h
  cases hp : proto.platforms with
  | none => exact ⟨_, rfl⟩
  | some bitmask =>
    refine ⟨_, TraceData.addPlatforms_eq _ fun on p hp' => h on p ?_⟩
    rw [hp]
    exact mem_bitmaskToPlatforms.mp hp'

theorem traceDataFromProto_abort {debug : Bool} {proto : Proto.SnapshotTraceData}
    (h : ¬ Traceable debug proto) : traceDataFromProto debug proto = .error .abort := by
  simp only [Traceable, Classical.not_imp, not_forall] at h
  obtain ⟨rfl, p, inside, bad⟩ := h
  unfold traceDataFromProto
  cases hp : proto.platforms with
  | none => simp [hp, Proto.encoded] at inside
  | some bitmask =>
    rw [hp] at inside
    exact TraceData.addPlatforms_abort _ ⟨p, mem_bitmaskToPlatforms.mpr inside, bad⟩

/-- A loop over elements that are turned into something or abort. -/
theorem mapM_abort {α β : Type} {f : α → Checked β} {l : List α}
    (each : ∀ a, f a = .error .abort ∨ ∃ b, f a = .ok b) (some : ∃ a ∈ l, f a = .error .abort) :
    l.mapM f = .error .abort := by
  induction l with
  | nil => simp at some
  | cons a l ih =>
    rw [List.mapM_cons]
    rcases each a with first | ⟨b, first⟩
    · rw [first, error_bind]
    · obtain ⟨x, hx, bad⟩ := some
      have later : x ∈ l := (List.mem_cons.mp hx).resolve_left fun same => by simp [same, first] at bad
      rw [first, ok_bind, ih ⟨x, later, bad⟩, error_bind]

/-- `FromProto` up to the end states `l`. -/
def endStatesFromProto (proto : Proto.Snapshot) (l : List Proto.EndState) : Checked Snapshot := do
  let snap ← beforeEndStatesFromProto proto
  l.foldlM addEndStateFromProto snap

/-- No end state that the decoder gets to, and whose other parts are accepted, has the
platform `kNonExistent`; and in a debug build no trace that it gets to has a platform
that traces cannot have. -/
structure Supported (debug : Bool) (proto : Proto.Snapshot) : Prop where
  settable : ∀ before p after snap e, proto.expectedEndStates = before ++ p :: after →
    endStatesFromProto proto before = .ok snap → endStateDataFromProto p = .ok e → Settable p
  traceable : ∀ snap, endStatesFromProto proto proto.expectedEndStates = .ok snap →
    ∀ t ∈ proto.traceData, Traceable debug t

theorem addEndStateFromProto_settles {snap : Snapshot} {p : Proto.EndState}
    {done : List Proto.EndState} (hs : Decoding snap)
    (same : List.Forall₂ SamePlatforms snap.expectedEndStates done)
    (h : ∀ e, endStateDataFromProto p = .ok e → Settable p) :
    Settles (addEndStateFromProto snap p) fun snap' => Decoding snap' ∧
      List.Forall₂ SamePlatforms snap'.expectedEndStates (done ++ [p]) := by
  obtain ⟨f, g, w, keeps⟩ := hs
  apply settles_bind (settles_plus (endStateFromProto_settles h))
  intro x hx
  apply settles_bind (settles_plus
    (Snapshot.canAddExpectedEndState_settles keeps.mapped x false false))
  intro _ _
  apply settles_ok
  constructor
  · exact ⟨f, g, w, keeps⟩
  · exact List.rel_append same (.cons hx .nil)

theorem endStatesFromProto_settles {debug : Bool} {proto : Proto.Snapshot}
    (h : Supported debug proto) :
    Settles (endStatesFromProto proto proto.expectedEndStates) fun snap =>
      Decoding snap ∧ List.Forall₂ SamePlatforms snap.expectedEndStates proto.expectedEndStates := by
  apply settles_bind (settles_self (beforeEndStatesFromProto_settles proto))
  rintro snap ⟨run, hs, none⟩
  have loop := settles_foldlM (l := proto.expectedEndStates) (f := addEndStateFromProto)
    (fun done s => endStatesFromProto proto done = .ok s ∧ Decoding s ∧
      List.Forall₂ SamePlatforms s.expectedEndStates done) (a := snap) ?_ ?_
  · exact settles_post loop fun s hs => hs.2
  · refine ⟨?_, hs, none ▸ .nil⟩
    rw [endStatesFromProto, run, ok_bind]
    rfl
  · rintro done p rest s hl ⟨before, hs, same⟩
    have step := settles_self
      (addEndStateFromProto_settles hs same fun e he => h.settable done p rest s e hl before he)
    refine settles_post step fun s' ⟨added, hs', same'⟩ => ⟨?_, hs', same'⟩
    obtain ⟨first, run, loop⟩ := bind_eq_ok.mp before
    rw [endStatesFromProto, run, ok_bind, List.foldlM_append, loop, ok_bind, List.foldlM_cons,
      added]
    rfl

/-- `fromProto` from the end states on. -/
theorem fromProto_eq (debug : Bool) (proto : Proto.Snapshot) : fromProto debug proto = (do
    let snap ← endStatesFromProto proto proto.expectedEndStates
    let traceMetadata ← proto.traceData.mapM fun m =>
      plus "Bad TraceData: " (traceDataFromProto debug m)
    let snap := { snap with
      metadata := metadataFromProto (proto.metadata.getD ⟨none, none⟩)
      traceMetadata := traceMetadata }
    plus "Snapshot is incomplete: " snap.isCompleteSomeState
    return snap) := by
  unfold fromProto endStatesFromProto
  rw [bind_assoc]

theorem fromProto_settles {debug : Bool} {proto : Proto.Snapshot} (h : Supported debug proto) :
    Settles (fromProto debug proto) fun snap =>
      List.Forall₂ SamePlatforms snap.expectedEndStates proto.expectedEndStates := by
  rw [fromProto_eq]
  apply settles_bind (settles_self (endStatesFromProto_settles h))
  rintro snap ⟨run, ⟨f, g, w, keeps⟩, same⟩
  apply settles_bind (Q := fun _ => True)
  · refine settles_post (settles_mapM (R := fun _ _ => True) fun t ht => ?_) fun _ _ => trivial
    obtain ⟨t', ok⟩ := traceDataFromProto_ok (h.traceable snap run t ht)
    rw [ok]
    exact settles_ok trivial
  intro traceMetadata _
  apply settles_bind (settles_plus (Snapshot.isCompleteSomeState_settles (f := f) keeps.mapped))
  intro _ _
  exact settles_ok same

/-- An end state that cannot be decoded stops the decoder. -/
theorem fromProto_abort_settable {debug : Bool} {proto : Proto.Snapshot}
    {before after : List Proto.EndState} {p : Proto.EndState} {snap : Snapshot} {e : EndState}
    (split : proto.expectedEndStates = before ++ p :: after)
    (run : endStatesFromProto proto before = .ok snap) (data : endStateDataFromProto p = .ok e)
    (bad : ¬ Settable p) : fromProto debug proto = .error .abort := by
  obtain ⟨first, start, loop⟩ := bind_eq_ok.mp run
  have stop : addEndStateFromProto snap p = .error .abort := by
    rw [addEndStateFromProto, endStateFromProto_abort data bad]
    rfl
  have all : endStatesFromProto proto proto.expectedEndStates = .error .abort := by
    rw [endStatesFromProto, start, ok_bind, split, List.foldlM_append, loop, ok_bind,
      List.foldlM_cons, stop, error_bind]
  rw [fromProto_eq, all, error_bind]

theorem fromProto_abort_traceable {debug : Bool} {proto : Proto.Snapshot} {snap : Snapshot}
    (run : endStatesFromProto proto proto.expectedEndStates = .ok snap)
    {t : Proto.SnapshotTraceData} (ht : t ∈ proto.traceData) (bad : ¬ Traceable debug t) :
    fromProto debug proto = .error .abort := by
  have loop : (proto.traceData.mapM fun m =>
      plus "Bad TraceData: " (traceDataFromProto debug m)) = .error .abort := by
    apply mapM_abort
    · intro m
      by_cases ok : Traceable debug m
      · obtain ⟨t', eq⟩ := traceDataFromProto_ok ok
        exact .inr ⟨t', by rw [eq]; rfl⟩
      · exact .inl (by rw [traceDataFromProto_abort ok]; rfl)
    · exact ⟨t, ht, by rw [traceDataFromProto_abort bad]; rfl⟩
  rw [fromProto_eq, run, ok_bind, loop, error_bind]

/-- **What is decoded or refused.** `FromProto` ends without an abort, and with end
states that have exactly the platforms of their messages, for the messages that are
`Supported` and for no others. -/
theorem fromProto_settles_iff (debug : Bool) (proto : Proto.Snapshot) :
    (fromProto debug proto ≠ .error .abort ∧ ∀ snap, fromProto debug proto = .ok snap →
      List.Forall₂ SamePlatforms snap.expectedEndStates proto.expectedEndStates) ↔
      Supported debug proto := by
  constructor
  · rintro ⟨settled, -⟩
    constructor
    · intro before p after snap e split run data
      by_contra bad
      exact settled (fromProto_abort_settable split run data bad)
    · intro snap run t ht
      by_contra bad
      exact settled (fromProto_abort_traceable run ht bad)
  · intro h
    exact settles_iff.mp (fromProto_settles h)

/-- Serialized registers with `rip` and `rsp` at the ends of the page at 0x1000. -/
def pageGRegs : ByteData :=
  [0x69, 0x67, 0, 0, 0, 0, 0, 0] ++ List.replicate 120 0 ++ [0, 0x20, 0, 0, 0, 0, 0, 0] ++
    [0, 0x10, 0, 0, 0, 0, 0, 0] ++ List.replicate 40 0

def pageFPRegs : ByteData := [0x69, 0x66, 0, 0, 0, 0, 0, 0] ++ List.replicate 512 0

/-- An undetermined end state in the page, with `kNonExistent` for a platform. -/
def nonExistentEndState : Proto.EndState :=
  ⟨some ⟨some (.instructionAddress 0x1008)⟩, some ⟨some [], some []⟩, [], some (1 <<< 50), none⟩

/-- A snapshot of one page with that end state. -/
def nonExistentProto : Proto.Snapshot where
  id := some unsetId
  architecture := some (.known .kX86_64)
  metadata := none
  memoryMappings := [⟨some 0x1000, some 0x1000, some 7⟩]
  negativeMemoryMappings := []
  memoryBytes := [⟨some 0x1000, some [0x90]⟩]
  registers := some ⟨some pageGRegs, some pageFPRegs⟩
  expectedEndStates := [nonExistentEndState]
  traceData := []

set_option maxRecDepth 10000 in
/-- The bit after those of all real platforms aborts the process. -/
theorem fromProto_nonExistent : fromProto false nonExistentProto = .error .abort := rfl

end SnapshotProto

end Silifuzz
