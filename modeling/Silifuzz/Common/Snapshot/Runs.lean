import Silifuzz.Common.Snapshot.Builder

/-!
# Runs of the mutators of a whole Snapshot

* `Call`: the mutators with what they require;
* `Sound`: what they keep, by `call_sound` and over all runs by `runs_sound`.
-/

namespace Silifuzz

open Checked Loops

namespace Snapshot

variable {s s' : Snapshot} {f g : PermsMap} {w : BytesMap}

/-- A mutator with its arguments. -/
inductive Call where
  | setId (id : Id)
  | memory (c : SnapshotMemory.Call)
  | setRegisters (x : RegisterState)
  | addExpectedEndState (x : EndState) (unmappedEndpointOk : Bool)
  | addPlatformToExpectedEndState (i : Nat) (platform : PlatformId)
  | addPlatformsToExpectedEndState (i : Nat) (x : EndState)
  | setExpectedEndStates (xs : List EndState)
  | removeExpectedEndState (i : Nat)
  | limitEndStatesToPlatform (platform : PlatformId)
  | tryRemoveUndefinedEndStates
  | setMetadata (x : Metadata)
  | setTraceData (xs : List TraceData)

/-- The REQUIRES of each mutator. An end state or a trace comes from its own mutators. -/
def Call.Requires (s : Snapshot) : Call → Prop
  | setId id => isValidId id = .ok ()
  | memory (.setMemoryMappings xs) => s.canSetMemoryMappings xs = .ok ()
  | memory c => c.Requires s.toSnapshotMemory
  | setRegisters x => s.canSetRegisters x false = .ok ()
  | addExpectedEndState x unmappedEndpointOk =>
    x.Built ∧ s.canAddExpectedEndState x unmappedEndpointOk false = .ok ()
  | addPlatformToExpectedEndState i _ => i < s.expectedEndStates.length
  | addPlatformsToExpectedEndState i x =>
    ∃ e, s.expectedEndStates[i]? = some e ∧ e.dataEquals x = true
  | setExpectedEndStates xs => (∀ x ∈ xs, x.Built) ∧ ∃ s', s.setExpectedEndStates xs = .ok s'
  | removeExpectedEndState i => i < s.expectedEndStates.length
  | limitEndStatesToPlatform _ | tryRemoveUndefinedEndStates => True
  | setMetadata _ => True
  | setTraceData xs => ∀ t ∈ xs, t.Built

def Call.run (s : Snapshot) : Call → Checked Snapshot
  | setId id => .ok { s with id := id }
  | memory .normalizeMemoryBytes => orAbort s.normalizeMemoryBytes
  | memory c => do
    let memory ← orAbort (c.run s.toSnapshotMemory)
    return { s with toSnapshotMemory := memory }
  | setRegisters x => s.setRegisters x
  | addExpectedEndState x _ => .ok (s.addExpectedEndState x)
  | addPlatformToExpectedEndState i platform => .ok (s.addPlatformToExpectedEndState i platform)
  | addPlatformsToExpectedEndState i x => .ok (s.addPlatformsToExpectedEndState i x)
  | setExpectedEndStates xs => s.setExpectedEndStates xs
  | removeExpectedEndState i => .ok (s.removeExpectedEndState i)
  | limitEndStatesToPlatform platform => .ok (s.limitEndStatesToPlatform platform)
  | tryRemoveUndefinedEndStates => .ok s.tryRemoveUndefinedEndStates
  | setMetadata x => .ok { s with metadata := x }
  | setTraceData xs => .ok { s with traceMetadata := xs }

/-- The snapshots that the constructor and the mutators make. -/
inductive Runs : Snapshot → Prop where
  | new (architecture) (id) : isValidId id = .ok () → Runs (new architecture id)
  | call {t t'} (c : Call) : Runs t → c.Requires t → c.run t = .ok t' → Runs t'

/-- The bytes of the end state are in mapped memory. -/
structure StateWithin (f : PermsMap) (x : EndState) : Prop where
  wellFormed : x.WellFormed
  mapped : ∀ b ∈ x.memoryBytes, ∀ k, b.Covers k → (f k).isSome

/-- What the mutators keep. -/
structure Sound (s : Snapshot) (f g : PermsMap) (w : BytesMap) : Prop where
  memory : s.toSnapshotMemory.Keeps f g w
  id : isValidId s.id = .ok ()
  states : ∀ x ∈ s.expectedEndStates, StateWithin f x
  traces : ∀ t ∈ s.traceMetadata, t.WellFormed

/-- Memory with more mappings. -/
theorem Sound.withMemory {m : SnapshotMemory} {f' g' : PermsMap} {w' : BytesMap}
    (hs : s.Sound f g w) (hm : m.Keeps f' g' w') (more : ∀ k, (f k).isSome → (f' k).isSome) :
    Sound { s with toSnapshotMemory := m } f' g' w' where
  memory := hm
  id := hs.id
  states x hx := by
    obtain ⟨wellFormed, mapped⟩ := hs.states x hx
    exact ⟨wellFormed, fun b hb k hk => more k (mapped b hb k hk)⟩
  traces := hs.traces

theorem setRegisters_after {x : RegisterState} (run : s.setRegisters x = .ok s') :
    s' = { s with registers := some x } := by
  unfold Snapshot.setRegisters at run
  split at run
  · exact (Except.ok.inj run).symm
  · cases run

/-- Other end states. -/
theorem Sound.withStates {xs : List EndState} (hs : s.Sound f g w)
    (states : ∀ x ∈ xs, StateWithin f x) : Sound { s with expectedEndStates := xs } f g w :=
  ⟨hs.memory, hs.id, states, hs.traces⟩

/-- The end states are those given, each of them accepted. -/
theorem setExpectedEndStates_after {xs : List EndState} (run : s.setExpectedEndStates xs = .ok s') :
    s' = { s with expectedEndStates := xs } ∧ ∀ x ∈ xs, s.canEndWith x = .ok () := by
  refine Checked.foldlM_after (fun done t => t = { s with expectedEndStates := done } ∧
    ∀ x ∈ done, s.canEndWith x = .ok ()) ⟨rfl, by simp⟩ ?_ run
  rintro done x _ t t' _ ⟨rfl, all⟩ turn
  obtain ⟨_, can, added⟩ := bind_eq_ok.mp turn
  obtain ⟨_, _, can⟩ := bind_eq_ok.mp can
  obtain ⟨_, writable, _⟩ := bind_eq_ok.mp can
  obtain rfl := Except.ok.inj added
  refine ⟨rfl, fun y hy => ?_⟩
  rcases List.mem_append.mp hy with hy | hy
  · exact all y hy
  · obtain rfl := List.mem_singleton.mp hy
    exact writable

/-- The rebuilt memory has the new mappings, and the end states are in it. -/
theorem canSetMemoryMappings_states {xs : List MemoryMapping} (hs : s.Sound f g w)
    (can : s.canSetMemoryMappings xs = .ok ()) :
    ∃ m f', s.toSnapshotMemory.setMemoryMappings xs = some m ∧ m.Keeps f' g w ∧
      ∀ x ∈ s.expectedEndStates, ∀ b ∈ x.memoryBytes, ∀ k, b.Covers k → (f' k).isSome := by
  obtain ⟨copy₁, run₁, can⟩ := bind_eq_ok.mp can
  obtain ⟨copy₂, run₂, can⟩ := bind_eq_ok.mp can
  obtain ⟨copy₃, run₃, can⟩ := bind_eq_ok.mp can
  obtain ⟨copy₄, run₄, can⟩ := bind_eq_ok.mp can
  obtain ⟨copy₅, run₅, -⟩ := bind_eq_ok.mp can
  rw [ofStatus_eq_ok] at run₁ run₂ run₃
  have memory : s.toSnapshotMemory.canSetMemoryMappings xs = some (.ok ()) := by
    simp [SnapshotMemory.canSetMemoryMappings, run₁, run₂, run₃]
  obtain ⟨m, set, f', hm, -⟩ := SnapshotMemory.setMemoryMappings_keeps hs.memory memory
  -- the map of the copy is the new one
  obtain ⟨_, h₁, -, map, -⟩ :=
    SnapshotMemory.addMappingsWhileOk_keeps (SnapshotMemory.new_keeps s.architecture) run₁
  obtain ⟨_, h₂, -, same₂, -⟩ := SnapshotMemory.addNegativesWhileOk_keeps h₁ run₂
  have same₃ : copy₃.mappedMemoryMap = copy₂.mappedMemoryMap :=
    SnapshotMemory.addWhileOk_keeps (P := fun t => t.mappedMemoryMap = copy₂.mappedMemoryMap)
      (fun t b t' _ step same => (SnapshotMemory.addMemoryBytes_map step).trans same) run₃ rfl
  have same₄ : copy₄.toSnapshotMemory = copy₃ := by
    split at run₄
    · obtain ⟨_, _, run₄⟩ := bind_eq_ok.mp run₄
      rw [setRegisters_after run₄]
    · obtain rfl := Except.ok.inj run₄
      rfl
  have same : m.mappedMemoryMap = copy₁.mappedMemoryMap := by
    obtain ⟨m', map', set⟩ := Option.bind_eq_some_iff.mp set
    obtain rfl := Option.some.inj set
    exact Option.some.inj (map'.symm.trans map)
  have represents : copy₄.mappedMemoryMap.Represents f' := by
    rw [same₄, same₃, same₂, ← same]
    exact hm.mapped
  refine ⟨m, f', set, hm, fun x hx => ?_⟩
  exact SnapshotMemory.canEndWith_mapped represents ((setExpectedEndStates_after run₅).2 x hx)

theorem StateWithin.normalize {m : MappedMemoryMap} {e : EndState} (hm : m.Represents f)
    (mapped : f.Mapped) (he : StateWithin f e) : ∃ l,
      SnapshotMemory.normalizeBytes m e.memoryBytes = some l ∧
        StateWithin f { e with memoryBytes := l } := by
  obtain ⟨v, contents, changed⟩ := he.wellFormed.bytes
  obtain ⟨l, run, -, contents', -⟩ := SnapshotMemory.normalizeBytes_contents
    hm mapped.proper mapped.bounded contents fun k hk => by
      obtain ⟨b, hb, hk⟩ := contents.isSome_iff.mp hk
      exact he.mapped b hb k hk
  refine ⟨l, run, ⟨he.wellFormed.valid, v, contents', changed⟩, fun b hb k hk => ?_⟩
  obtain ⟨b', hb', hk'⟩ := contents.isSome_iff.mp (contents'.isSome_iff.mpr ⟨b, hb, hk⟩)
  exact he.mapped b' hb' k hk'

/-- The bytes of every end state come in order, and say the same. -/
theorem normalizeMemoryBytes_sound (hs : s.Sound f g w) :
    ∃ s', s.normalizeMemoryBytes = some s' ∧ s'.Sound f g w := by
  obtain ⟨m, run, hm⟩ := SnapshotMemory.normalizeMemoryBytes_keeps hs.memory
  obtain ⟨states, each, rel⟩ := mapM_run (l := s.expectedEndStates)
    (f := fun e => (SnapshotMemory.normalizeBytes s.mappedMemoryMap e.memoryBytes).bind fun l =>
      some { e with memoryBytes := l }) (R := fun _ e => StateWithin f e) fun e he => by
    obtain ⟨l, normal, within⟩ :=
      (hs.states e he).normalize hs.memory.mapped hs.memory.mappings.mapped
    exact ⟨_, by rw [normal]; rfl, within⟩
  have all : ∀ x ∈ states, StateWithin f x := fun x hx => by
    obtain ⟨_, _, within⟩ := forall₂_mem rel hx
    exact within
  refine ⟨{ s with toSnapshotMemory := m, expectedEndStates := states }, ?_,
    (hs.withMemory hm fun _ hk => hk).withStates all⟩
  simp only [normalizeMemoryBytes, run, Option.bind_eq_bind, Option.bind_some]
  rw [show (s.expectedEndStates.mapM fun e =>
    (SnapshotMemory.normalizeBytes s.mappedMemoryMap e.memoryBytes).bind fun l =>
      pure { e with memoryBytes := l }) = some states from each]
  rfl

/-- What is done to one end state of a list. -/
theorem mem_modify {α : Type} {l : List α} {i : Nat} {h : α → α} {x : α} (hx : x ∈ l.modify i h) :
    x ∈ l ∨ ∃ y ∈ l, x = h y := by
  obtain ⟨j, at_j, rfl⟩ := List.mem_iff_getElem.mp hx
  have inside : j < l.length := by simpa using at_j
  rw [List.getElem_modify]
  split
  · exact .inr ⟨_, List.getElem_mem inside, rfl⟩
  · exact .inl (List.getElem_mem inside)

theorem StateWithin.withPlatforms {e : EndState} (he : StateWithin f e)
    (platforms : PlatformId → Bool) : StateWithin f { e with platforms := platforms } :=
  ⟨⟨he.wellFormed.valid, he.wellFormed.bytes⟩, he.mapped⟩

/-- A change of the platforms of one end state. -/
theorem Sound.modify (hs : s.Sound f g w) (i : Nat) (h : EndState → PlatformId → Bool) :
    Sound { s with expectedEndStates :=
      s.expectedEndStates.modify i fun e => { e with platforms := h e } } f g w := by
  refine hs.withStates fun x hx => ?_
  rcases mem_modify hx with hx | ⟨y, hy, rfl⟩
  · exact hs.states x hx
  · exact (hs.states y hy).withPlatforms (h y)

/-- A call that changes the memory only, and keeps what is mapped. -/
theorem Sound.other (hs : s.Sound f g w) {c : SnapshotMemory.Call}
    (requires : c.Requires s.toSnapshotMemory) (other : ∀ xs, c ≠ .setMemoryMappings xs)
    (run : (do
      let memory ← orAbort (c.run s.toSnapshotMemory)
      return { s with toSnapshotMemory := memory }) = Except.ok s') :
    ∃ f' g' w', s'.Sound f' g' w' := by
  obtain ⟨m, called, added⟩ := bind_eq_ok.mp run
  obtain rfl := Except.ok.inj added
  obtain ⟨f', g', w', hm, more⟩ := SnapshotMemory.call_mapped hs.memory requires
    (orAbort_eq_ok.mp called) other
  exact ⟨f', g', w', hs.withMemory hm more⟩

theorem memory_sound (hs : s.Sound f g w) {c : SnapshotMemory.Call}
    (requires : (Call.memory c).Requires s) (run : (Call.memory c).run s = .ok s') :
    ∃ f' g' w', s'.Sound f' g' w' := by
  cases c with
  | setMemoryMappings xs =>
    obtain ⟨m, f', set, hm, inside⟩ := canSetMemoryMappings_states hs requires
    obtain ⟨m', set', added⟩ := bind_eq_ok.mp run
    obtain rfl : m = m' := Option.some.inj (set.symm.trans (orAbort_eq_ok.mp set'))
    obtain rfl := Except.ok.inj added
    exact ⟨f', g, w, hm, hs.id, fun x hx => ⟨(hs.states x hx).wellFormed, inside x hx⟩, hs.traces⟩
  | normalizeMemoryBytes =>
    obtain ⟨s₁, run₁, hs₁⟩ := normalizeMemoryBytes_sound hs
    obtain rfl : s₁ = s' := Option.some.inj (run₁.symm.trans (orAbort_eq_ok.mp run))
    exact ⟨f, g, w, hs₁⟩
  | addMemoryMapping x => exact hs.other (c := .addMemoryMapping x) requires (by simp) run
  | setMemoryMappingPerms x index =>
    exact hs.other (c := .setMemoryMappingPerms x index) requires (by simp) run
  | addNegativeMemoryMapping x =>
    exact hs.other (c := .addNegativeMemoryMapping x) requires (by simp) run
  | setNegativeMemoryMappings xs =>
    exact hs.other (c := .setNegativeMemoryMappings xs) requires (by simp) run
  | addNegativeMemoryMappingsFor endpoint =>
    exact hs.other (c := .addNegativeMemoryMappingsFor endpoint) requires (by simp) run
  | addMemoryBytes x => exact hs.other (c := .addMemoryBytes x) requires (by simp) run
  | replaceMemoryBytes xs => exact hs.other (c := .replaceMemoryBytes xs) requires (by simp) run
  | normalizeMemoryMappings => exact hs.other (c := .normalizeMemoryMappings) requires (by simp) run

theorem call_sound (hs : s.Sound f g w) {c : Call} (requires : c.Requires s)
    (run : c.run s = .ok s') : ∃ f' g' w', s'.Sound f' g' w' := by
  cases c with
  | setId id =>
    obtain rfl := Except.ok.inj run
    exact ⟨f, g, w, hs.memory, requires, hs.states, hs.traces⟩
  | memory c => exact memory_sound hs requires run
  | setRegisters x =>
    obtain rfl := setRegisters_after run
    exact ⟨f, g, w, hs.memory, hs.id, hs.states, hs.traces⟩
  | addExpectedEndState x unmappedEndpointOk =>
    obtain rfl := Except.ok.inj run
    obtain ⟨built, can⟩ := requires
    refine ⟨f, g, w, hs.withStates fun y hy => ?_⟩
    rcases List.mem_append.mp hy with hy | hy
    · exact hs.states y hy
    · obtain rfl := List.mem_singleton.mp hy
      obtain ⟨_, _, can⟩ := bind_eq_ok.mp can
      obtain ⟨_, writable, _⟩ := bind_eq_ok.mp can
      exact ⟨built.wellFormed, SnapshotMemory.canEndWith_mapped hs.memory.mapped writable⟩
  | addPlatformToExpectedEndState i platform =>
    obtain rfl := Except.ok.inj run
    exact ⟨f, g, w, hs.modify i _⟩
  | addPlatformsToExpectedEndState i x =>
    obtain rfl := Except.ok.inj run
    exact ⟨f, g, w, hs.modify i _⟩
  | setExpectedEndStates xs =>
    obtain ⟨rfl, all⟩ := setExpectedEndStates_after run
    exact ⟨f, g, w, hs.withStates fun x hx => ⟨(requires.1 x hx).wellFormed,
      SnapshotMemory.canEndWith_mapped hs.memory.mapped (all x hx)⟩⟩
  | removeExpectedEndState i =>
    obtain rfl := Except.ok.inj run
    exact ⟨f, g, w, hs.withStates fun x hx => hs.states x (List.mem_of_mem_eraseIdx hx)⟩
  | limitEndStatesToPlatform platform =>
    obtain rfl := Except.ok.inj run
    exact ⟨f, g, w, hs.withStates fun x hx => hs.states x (List.mem_of_mem_filter hx)⟩
  | tryRemoveUndefinedEndStates =>
    obtain rfl := Except.ok.inj run
    unfold Snapshot.tryRemoveUndefinedEndStates
    split
    · exact ⟨f, g, w, hs.withStates fun x hx => hs.states x (List.mem_of_mem_filter hx)⟩
    · exact ⟨f, g, w, hs⟩
  | setMetadata x =>
    obtain rfl := Except.ok.inj run
    exact ⟨f, g, w, hs.memory, hs.id, hs.states, hs.traces⟩
  | setTraceData xs =>
    obtain rfl := Except.ok.inj run
    exact ⟨f, g, w, hs.memory, hs.id, hs.states, fun t ht => (requires t ht).wellFormed⟩

/-- **What every run of mutators keeps**, of the whole snapshot. -/
theorem runs_sound (h : Runs s) : ∃ f g w, s.Sound f g w := by
  induction h with
  | new architecture id valid =>
    exact ⟨_, _, _, SnapshotMemory.new_keeps architecture, valid, by simp [Snapshot.new],
      by simp [Snapshot.new]⟩
  | call c _ requires run ih =>
    obtain ⟨f, g, w, hs⟩ := ih
    exact call_sound hs requires run

end Snapshot

end Silifuzz
