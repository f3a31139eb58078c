import Silifuzz.Common.Snapshot.Runs

/-!
# The normal form of memory bytes

* `normal_unique`: the bytes and the mappings leave one normal list;
* `normalizeBytes_eq_iff`: lists are normalized to the same one exactly when they
  define the same byte at every address;
* `normalize_canonical`: what `NormalizeMemoryBytes` and `NormalizeAll` make of a
  whole snapshot.
-/

namespace Silifuzz

open Loops

theorem contents_bytesIn {l : List MemoryBytes} (disjoint : l.Pairwise MemoryBytes.Disjoint) :
    Contents l (bytesIn l) where
  disjoint := disjoint
  covered b hb k hk := by
    obtain ⟨c, found⟩ : ∃ c, l.find? (fun b => decide (b.Covers k)) = some c :=
      Option.isSome_iff_exists.mp (List.find?_isSome.mpr ⟨b, hb, by simpa using hk⟩)
    have hc := List.mem_of_find?_eq_some found
    have inC : c.Covers k := by simpa using List.find?_some found
    have same : c = b := by
      have symm : Std.Symm MemoryBytes.Disjoint := ⟨fun _ _ => MemoryBytes.Disjoint.symm⟩
      by_contra different
      exact (disjoint.forall hc hb different).covers inC hk
    simp [bytesIn, found, same]
  uncovered k out := by
    have absent : l.find? (fun b => decide (b.Covers k)) = none :=
      List.find?_eq_none.mpr fun b hb => by simpa using out b hb
    simp [bytesIn, absent]

theorem Contents.eq_bytesIn {l : List MemoryBytes} {w : BytesMap} (h : Contents l w) :
    bytesIn l = w := funext h.bytesIn_eq

/-- Elements with the same ends and the same bytes. -/
theorem MemoryBytes.eq_of_bytes {b c : MemoryBytes} (start : b.startAddress = c.startAddress)
    (limit : b.limitAddress = c.limitAddress) (bytes : ∀ k, b.Covers k → b.byteAt k = c.byteAt k) :
    b = c := by
  have size : b.byteValues.length = c.byteValues.length := by
    rw [b.length_eq, c.length_eq, start, limit]
  have values : b.byteValues = c.byteValues := by
    refine List.ext_getElem size fun i hb hc => ?_
    have here : b.byteAt (b.startAddress + i) = c.byteAt (b.startAddress + i) :=
      bytes _ ⟨Nat.le_add_right _ _, Nat.add_lt_add_left hb _⟩
    rw [byteAt, byteAt, ← start, Nat.add_sub_cancel_left] at here
    simpa [List.getD_eq_getElem?_getD, hb, hc] using here
  cases b
  cases c
  simp_all

namespace SnapshotMemory

variable {f : PermsMap} {l l' : List MemoryBytes} {w : BytesMap} {b c : MemoryBytes}

theorem Normal.tail (h : Normal f (b :: l)) : Normal f l where
  ordered := (List.pairwise_cons.mp h.ordered).2
  uniform c hc := h.uniform c (by simp [hc])
  apart := (List.pairwise_cons.mp h.apart).2

theorem Normal.perms_eq (h : Normal f l) (hb : b ∈ l) {j k : Address} (hj : b.Covers j)
    (hk : b.Covers k) : chunkPerms f j = chunkPerms f k := by
  obtain ⟨p, uniform⟩ := h.uniform b hb
  rw [uniform j hj, uniform k hk]

/-- The bytes without those of the first element. -/
theorem contents_tail (ordered : Ordered (b :: l)) (h : Contents (b :: l) w) :
    Contents l fun k => if b.Covers k then none else w k := by
  obtain ⟨after, -⟩ := List.pairwise_cons.mp ordered
  refine ⟨(List.pairwise_cons.mp h.disjoint).2, fun c hc k hk => ?_, fun k none => ?_⟩
  · have := after c hc
    rw [if_neg fun hb => absurd (hb.2.trans_le this) (not_lt.mpr hk.1)]
    exact h.covered c (by simp [hc]) k hk
  · split
    · rfl
    · next out =>
      apply h.uncovered k
      intro c hc
      rcases List.mem_cons.mp hc with rfl | hc
      · exact out
      · exact none c hc

theorem start_le (hb : Ordered (b :: l)) (contents : Contents (b :: l) w)
    (contents' : Contents (c :: l') w) : b.startAddress ≤ c.startAddress := by
  have here := contents'.covered c (by simp) _ c.covers_start
  obtain ⟨d, hd, cover⟩ := contents.isSome_iff.mp (Option.isSome_of_mem here)
  rcases List.mem_cons.mp hd with rfl | hd
  · exact cover.1
  · have := (List.pairwise_cons.mp hb).1 d hd
    have := b.start_lt_limit
    exact (by order : b.startAddress ≤ d.startAddress).trans cover.1

/-- A longer first element would have swallowed the one that the other list has next. -/
theorem limit_le (hb : Normal f (b :: l)) (hc : Normal f (c :: l'))
    (contents : Contents (b :: l) w) (contents' : Contents (c :: l') w)
    (start : b.startAddress = c.startAddress) : c.limitAddress ≤ b.limitAddress := by
  by_contra long
  have long : b.limitAddress < c.limitAddress := not_le.mp long
  have nonempty := b.start_lt_limit
  have inC : c.Covers b.limitAddress := ⟨start ▸ nonempty.le, long⟩
  have known := contents'.covered c (by simp) _ inC
  obtain ⟨d, hd, cover⟩ := contents.isSome_iff.mp (Option.isSome_of_mem known)
  rcases List.mem_cons.mp hd with rfl | hd
  · exact absurd cover.2 (lt_irrefl _)
  · have touch : b.limitAddress = d.startAddress :=
      le_antisymm ((List.pairwise_cons.mp hb.ordered).1 d hd) cover.1
    apply (List.pairwise_cons.mp hb.apart).1 d hd touch
    rw [start, ← touch]
    exact hc.perms_eq (by simp) c.covers_start inC

/-- **The bytes and the permissions leave one normal list.** -/
theorem normal_unique (hl : Normal f l) (hl' : Normal f l') (contents : Contents l w)
    (contents' : Contents l' w) : l = l' := by
  induction l generalizing l' w with
  | nil =>
    cases l' with
    | nil => rfl
    | cons c l' =>
      have known := contents'.covered c (by simp) _ c.covers_start
      rw [contents.uncovered _ (by simp)] at known
      cases known
  | cons b l ih =>
    cases l' with
    | nil =>
      have known := contents.covered b (by simp) _ b.covers_start
      rw [contents'.uncovered _ (by simp)] at known
      cases known
    | cons c l' =>
      have start : b.startAddress = c.startAddress :=
        le_antisymm (start_le hl.ordered contents contents')
          (start_le hl'.ordered contents' contents)
      have limit : b.limitAddress = c.limitAddress :=
        le_antisymm (limit_le hl' hl contents' contents start.symm)
          (limit_le hl hl' contents contents' start)
      have same : b = c := by
        apply MemoryBytes.eq_of_bytes start limit
        intro k hk
        have inC : c.Covers k := ⟨start ▸ hk.1, limit ▸ hk.2⟩
        have atB := contents.covered b (by simp) k hk
        have atC := contents'.covered c (by simp) k inC
        exact Option.some.inj (atB.symm.trans atC)
      subst same
      rw [ih hl.tail hl'.tail (contents_tail hl.ordered contents)
        (contents_tail hl'.ordered contents')]

/-- The bytes are pairwise disjoint, and they are mapped. -/
structure Placed (f : PermsMap) (l : List MemoryBytes) : Prop where
  disjoint : l.Pairwise MemoryBytes.Disjoint
  mapped : ∀ b ∈ l, ∀ k, b.Covers k → (f k).isSome

/-- `l'` defines the bytes of `l`, in normal form. -/
structure Normalizes (f : PermsMap) (l l' : List MemoryBytes) : Prop where
  bytes : bytesIn l' = bytesIn l
  normal : Normal f l'

theorem Normalizes.contents {w : BytesMap} (h : Normalizes f l l') (hl : Contents l w) :
    Contents l' w := by
  rw [← hl.eq_bytesIn, ← h.bytes]
  exact contents_bytesIn h.normal.ordered.disjoint

theorem Normalizes.placed (h : Normalizes f l l') (hl : Placed f l) : Placed f l' where
  disjoint := h.normal.ordered.disjoint
  mapped c hc k hk := by
    have contents := contents_bytesIn hl.disjoint
    have known := (h.contents contents).isSome_iff.mpr ⟨c, hc, hk⟩
    obtain ⟨b, hb, cover⟩ := contents.isSome_iff.mp known
    exact hl.mapped b hb k cover

section
variable {m : MappedMemoryMap} (hm : m.Represents f) (mapped : f.Mapped)
include hm mapped

theorem normalizeBytes_normalizes (hl : Placed f l) :
    ∃ l', normalizeBytes m l = some l' ∧ Normalizes f l l' := by
  have contents := contents_bytesIn hl.disjoint
  obtain ⟨l', run, contents', normal⟩ :=
    normalizeBytes_normal hm mapped.proper mapped.bounded contents fun k hk => by
      obtain ⟨b, hb, cover⟩ := contents.isSome_iff.mp hk
      exact hl.mapped b hb k cover
  exact ⟨l', run, contents'.eq_bytesIn, normal⟩

/-- **Lists are normalized to the same one exactly when they define the same bytes.** -/
theorem normalizeBytes_eq_iff (hl : Placed f l) (hl' : Placed f l') :
    normalizeBytes m l = normalizeBytes m l' ↔ bytesIn l = bytesIn l' := by
  obtain ⟨n, run, hn⟩ := normalizeBytes_normalizes hm mapped hl
  obtain ⟨n', run', hn'⟩ := normalizeBytes_normalizes hm mapped hl'
  rw [run, run', Option.some.injEq]
  constructor
  · intro same
    rw [← hn.bytes, ← hn'.bytes, same]
  · intro same
    have contents := hn.contents (contents_bytesIn hl.disjoint)
    have contents' := hn'.contents (contents_bytesIn hl'.disjoint)
    exact normal_unique hn.normal hn'.normal contents (same ▸ contents')

theorem normalizeBytes_again (hl : Placed f l) (h : Normalizes f l l') :
    normalizeBytes m l' = some l' := by
  obtain ⟨n, run, hn⟩ := normalizeBytes_normalizes hm mapped (h.placed hl)
  have contents := h.contents (contents_bytesIn hl.disjoint)
  rw [run, normal_unique hn.normal h.normal (hn.contents contents) contents]

end

theorem normalizeMemoryMappings_holds {s : SnapshotMemory} {g : PermsMap} (hs : s.Holds f g) :
    ∃ l l', s.normalizeMemoryMappings =
        some { s with memoryMappings := l, negativeMemoryMappings := l' } ∧
      Describes l f ∧ Describes l' g ∧ sortedMemoryMappingList s.mappedMemoryMap = some l ∧
      sortedMemoryMappingList s.negativeMappedMemoryMap = some l' := by
  obtain ⟨l, sorted, describes⟩ := sorted_describes hs.mapped hs.mappings.mapped
  obtain ⟨l', sorted', describes'⟩ := sorted_describes hs.negativeMapped hs.negativeMappings.mapped
  exact ⟨l, l', by simp [normalizeMemoryMappings, sorted, sorted'], describes, describes', sorted,
    sorted'⟩

end SnapshotMemory

namespace Snapshot

open SnapshotMemory

variable {s t : Snapshot} {f g : PermsMap}

/-- The lists of mappings describe the maps, and all memory bytes are disjoint and mapped. -/
structure AllPlaced (s : Snapshot) (f g : PermsMap) : Prop extends
    s.toSnapshotMemory.Holds f g where
  bytes : Placed f s.memoryBytes
  states : ∀ e ∈ s.expectedEndStates, Placed f e.memoryBytes

/-- `n` is the snapshot with the bytes of `s`, and of its end states, in normal form. -/
structure NormalOf (f : PermsMap) (s n : Snapshot) : Prop where
  memory : Normalizes f s.memoryBytes n.memoryBytes
  states : List.Forall₂ (fun e e' => e' = { e with memoryBytes := e'.memoryBytes } ∧
    Normalizes f e.memoryBytes e'.memoryBytes) s.expectedEndStates n.expectedEndStates

/-- Every snapshot that the mutators make is like this. -/
theorem Runs.allPlaced (h : Runs s) : ∃ f g, s.AllPlaced f g := by
  obtain ⟨f, g, w, hs⟩ := runs_sound h
  refine ⟨f, g, hs.memory.toHolds, ⟨hs.memory.contents.disjoint, fun b hb k hk => ?_⟩,
    fun e he => ?_⟩
  · exact hs.memory.mappedBytes k (hs.memory.contents.isSome_iff.mpr ⟨b, hb, hk⟩)
  · obtain ⟨_, contents, _⟩ := (hs.states e he).wellFormed.bytes
    exact ⟨contents.disjoint, (hs.states e he).mapped⟩

/-- Bytes that are normal stay as they are. -/
theorem normalizeMemoryBytes_fixed
    (memory : normalizeBytes s.mappedMemoryMap s.memoryBytes = some s.memoryBytes)
    (states : ∀ e ∈ s.expectedEndStates,
      normalizeBytes s.mappedMemoryMap e.memoryBytes = some e.memoryBytes) :
    s.normalizeMemoryBytes = some s := by
  obtain ⟨es, run, same⟩ := mapM_run (l := s.expectedEndStates)
    (f := fun e => (normalizeBytes s.mappedMemoryMap e.memoryBytes).bind fun l =>
      some { e with memoryBytes := l }) (R := Eq) fun e he => ⟨e, by rw [states e he]; rfl, rfl⟩
  obtain rfl := List.forall₂_eq_eq_eq ▸ same
  simp only [normalizeMemoryBytes, SnapshotMemory.normalizeMemoryBytes, memory,
    Option.bind_eq_bind, Option.bind_some, Option.pure_def, run]

theorem normalizeMemoryBytes_normal (hs : s.AllPlaced f g) :
    ∃ l es, s.normalizeMemoryBytes = some { s with memoryBytes := l, expectedEndStates := es } ∧
      NormalOf f s { s with memoryBytes := l, expectedEndStates := es } ∧
      normalizeMemoryBytes { s with memoryBytes := l, expectedEndStates := es } =
        some { s with memoryBytes := l, expectedEndStates := es } := by
  have mapped := hs.mappings.mapped
  obtain ⟨l, run, hl⟩ := normalizeBytes_normalizes hs.mapped mapped hs.bytes
  obtain ⟨es, runs, rel⟩ := mapM_run (l := s.expectedEndStates)
    (f := fun e => (normalizeBytes s.mappedMemoryMap e.memoryBytes).bind fun l =>
      some { e with memoryBytes := l })
    (R := fun e e' => (e' = { e with memoryBytes := e'.memoryBytes } ∧
      Normalizes f e.memoryBytes e'.memoryBytes) ∧ Placed f e.memoryBytes) fun e he => by
    obtain ⟨l, run, hl⟩ := normalizeBytes_normalizes hs.mapped mapped (hs.states e he)
    exact ⟨{ e with memoryBytes := l }, by rw [run]; rfl, ⟨rfl, hl⟩, hs.states e he⟩
  have again : ∀ e ∈ es, normalizeBytes s.mappedMemoryMap e.memoryBytes = some e.memoryBytes := by
    intro e he
    obtain ⟨_, _, ⟨_, hl⟩, placed⟩ := forall₂_mem rel he
    exact normalizeBytes_again hs.mapped mapped placed hl
  refine ⟨l, es, ?_, ⟨hl, rel.imp fun _ _ both => both.1⟩, ?_⟩
  · simp only [normalizeMemoryBytes, SnapshotMemory.normalizeMemoryBytes, run,
      Option.bind_eq_bind, Option.bind_some, Option.pure_def, runs]
  · exact normalizeMemoryBytes_fixed (normalizeBytes_again hs.mapped mapped hs.bytes hl) again

theorem normalizeAll_normal (hs : s.AllPlaced f g) :
    ∃ a, s.normalizeAll = some a ∧ NormalOf f s a ∧ a.normalizeAll = some a := by
  obtain ⟨l, l', mappings, describes, describes', sorted, sorted'⟩ :=
    normalizeMemoryMappings_holds hs.toHolds
  have hs' : AllPlaced { s with memoryMappings := l, negativeMemoryMappings := l' } f g :=
    ⟨⟨hs.mapped, describes, hs.negativeMapped, describes'⟩, hs.bytes, hs.states⟩
  obtain ⟨bytes, es, run, normal, again⟩ := normalizeMemoryBytes_normal hs'
  refine ⟨_, ?_, ⟨normal.memory, normal.states⟩, ?_⟩
  · simp only [normalizeAll, mappings, Option.bind_eq_bind, Option.bind_some]
    exact run
  · simp only [normalizeAll, normalizeMemoryMappings, sorted, sorted', Option.bind_eq_bind,
      Option.bind_some, Option.pure_def]
    exact again

theorem NormalOf.memoryBytes_eq_iff {n m : Snapshot} {g' : PermsMap} (hs : s.AllPlaced f g)
    (ht : t.AllPlaced f g') (hn : NormalOf f s n) (hm : NormalOf f t m) :
    n.memoryBytes = m.memoryBytes ↔ bytesIn s.memoryBytes = bytesIn t.memoryBytes := by
  constructor
  · intro same
    rw [← hn.memory.bytes, ← hm.memory.bytes, same]
  · intro same
    have contents := hn.memory.contents (contents_bytesIn hs.bytes.disjoint)
    have contents' := hm.memory.contents (contents_bytesIn ht.bytes.disjoint)
    exact normal_unique hn.memory.normal hm.memory.normal contents (same ▸ contents')

/-- **`NormalizeMemoryBytes` and `NormalizeAll` keep the byte at every address and leave
normal lists, again and again the same ones; with the same mappings these are equal exactly
when the bytes are.** -/
theorem normalize_canonical (hs : s.AllPlaced f g) :
    ∃ n a, s.normalizeMemoryBytes = some n ∧ s.normalizeAll = some a ∧
      NormalOf f s n ∧ NormalOf f s a ∧
      n.normalizeMemoryBytes = some n ∧ a.normalizeAll = some a ∧
      ∀ (t : Snapshot) (g' : PermsMap), t.AllPlaced f g' → ∃ n' a', t.normalizeMemoryBytes = some n' ∧
        t.normalizeAll = some a' ∧
        (n.memoryBytes = n'.memoryBytes ↔ bytesIn s.memoryBytes = bytesIn t.memoryBytes) ∧
        (a.memoryBytes = a'.memoryBytes ↔ bytesIn s.memoryBytes = bytesIn t.memoryBytes) := by
  obtain ⟨_, _, runN, normalN, againN⟩ := normalizeMemoryBytes_normal hs
  obtain ⟨a, runA, normalA, againA⟩ := normalizeAll_normal hs
  refine ⟨_, a, runN, runA, normalN, normalA, againN, againA, fun t g' ht => ?_⟩
  obtain ⟨_, _, runN', normalN', -⟩ := normalizeMemoryBytes_normal ht
  obtain ⟨a', runA', normalA', -⟩ := normalizeAll_normal ht
  exact ⟨_, a', runN', runA', normalN.memoryBytes_eq_iff hs ht normalN',
    normalA.memoryBytes_eq_iff hs ht normalA'⟩

def nextPage : MemoryMapping :=
  ⟨0x2000, 0x1000, .rw, MemoryMapping.page_nonempty, by decide, MemoryPerms.proper_rw,
    MemoryPerms.unmapped_rw⟩

/-- Bytes on both sides of a change of permissions, and more right after them. -/
def acrossPages : MemoryBytes := ⟨0x1fff, [1, 2], MemoryBytes.two_nonempty, by decide⟩

def afterAcross : MemoryBytes := ⟨0x2001, [3], by decide, by decide⟩

set_option maxRecDepth 10000 in
/-- Bytes that are cut at the change of permissions and joined behind it. -/
theorem normalize_canonical_pages : ∃ (s : Snapshot) (f : PermsMap),
    s.memoryBytes = [afterAcross, acrossPages] ∧ ∃ n a, s.normalizeMemoryBytes = some n ∧
      s.normalizeAll = some a ∧ NormalOf f s n ∧ NormalOf f s a ∧
      n.normalizeMemoryBytes = some n ∧ a.normalizeAll = some a ∧
      ∀ (t : Snapshot) (g' : PermsMap), t.AllPlaced f g' → ∃ n' a',
        t.normalizeMemoryBytes = some n' ∧ t.normalizeAll = some a' ∧
        (n.memoryBytes = n'.memoryBytes ↔ bytesIn s.memoryBytes = bytesIn t.memoryBytes) ∧
        (a.memoryBytes = a'.memoryBytes ↔ bytesIn s.memoryBytes = bytesIn t.memoryBytes) := by
  have first : Runs _ := .call (.memory (.addMemoryMapping readPage)) (.new .kX86_64 unsetId rfl)
    rfl rfl
  have second : Runs _ := .call (.memory (.addMemoryMapping nextPage)) first rfl rfl
  have after : Runs _ := .call (.memory (.addMemoryBytes afterAcross)) second rfl rfl
  have across : Runs _ := .call (.memory (.addMemoryBytes acrossPages)) after rfl rfl
  obtain ⟨f, g, placed⟩ := across.allPlaced
  exact ⟨_, f, rfl, normalize_canonical placed⟩

end Snapshot

end Silifuzz
