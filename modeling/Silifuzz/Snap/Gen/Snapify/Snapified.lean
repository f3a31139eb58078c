import Silifuzz.Common.SnapshotUtil.Split
import Silifuzz.Snap.Gen.Snapify.Convertible

/-!
# The form that Snapify brings a snapshot into

What a generator and a runner rely on: whole pages, all of whose bytes are defined, in order and
each list of them inside of a mapping, and end states that say what is left where a snap can write.
-/

namespace Silifuzz

open Checked ExitSequence Triples

/-- A snapshot as it can become a snap. -/
structure Snapshot.Snapified (s : Snapshot) : Prop where
  pages : ∀ m ∈ s.memoryMappings, s.PageEnd m.startAddress ∧ s.PageEnd m.limitAddress
  disjoint : s.memoryMappings.Pairwise MemoryMapping.Disjoint
  ordered : Ordered s.memoryBytes
  held : ∀ b ∈ s.memoryBytes, ∃ m ∈ s.memoryMappings, m.holdsBytes b = true
  defined : ∀ m ∈ s.memoryMappings, ∀ k, m.Covers k → ∃ b ∈ s.memoryBytes, b.Covers k
  apart : ∀ e ∈ s.expectedEndStates, e.memoryBytes.Pairwise MemoryBytes.Disjoint
  writable : ∀ e ∈ s.expectedEndStates, ∀ b ∈ e.memoryBytes, ∀ k, b.Covers k →
    ∃ m ∈ s.memoryMappings, m.perms.has .kWritable = true ∧ m.Covers k
  ended : ∀ e ∈ s.expectedEndStates, e.isComplete .kNormalState = .ok () →
    ∀ m ∈ s.memoryMappings, m.perms.has .kWritable = true → ∀ k, m.Covers k →
      ∃ b ∈ e.memoryBytes, b.Covers k

namespace Snapify

variable {debug : Bool} {host : Architecture} {s t : Snapshot} {opts : SnapifyOptions}
  {es e : EndState} {pos neg : PermsMap} {f : PermsMap} {b c d sb : BytesMap}

/-- The list is one of normal bytes, cut into pieces. -/
theorem snapifyMemoryByteList_normal {n : MemoryState} {query : CompressionQuery}
    {l : List MemoryBytes} (hs : n.Filled f b)
    (paged : f.PagedMap fun k => k % RepeatingByteRuns.kByteRunAlignmentSize = 0)
    (run : snapifyMemoryByteList n query = .ok l) :
    Ordered l ∧ ∀ x ∈ l, ∃ p, ∀ k, x.Covers k → SnapshotMemory.chunkPerms f k = some p := by
  obtain ⟨l₀, read, contents⟩ := MemoryState.memoryBytesList_filled hs
  obtain ⟨l₁, normalize, contents', normal⟩ := SnapshotMemory.normalizeBytes_normal
    hs.represents hs.ofProcess.proper hs.ofProcess.bounded contents fun k hk => by
      rw [← hs.filled]
      exact hk
  have ends := normal.ends contents' hs.filled paged (Nat.zero_mod _)
  simp only [snapifyMemoryByteList, read, normalize, orAbort, ok_bind] at run
  obtain ⟨parts, cuts, done⟩ := bind_eq_ok.mp run
  obtain rfl := Except.ok.inj done
  have pieces := yields_mapM (l := l₁) (E := fun _ => False)
    (f := fun x => if query n x then RepeatingByteRuns.getRepeatingByteRuns x else .ok [x])
    (R := MemoryBytes.Pieces) fun x mem => by
      split
      · have aligned : x.byteValues.length % RepeatingByteRuns.kByteRunAlignmentSize = 0 := by
          have := ends x mem
          rw [x.length_eq]
          simp only [RepeatingByteRuns.kByteRunAlignmentSize] at this ⊢
          lia
        obtain ⟨cs, runs, cut⟩ := RepeatingByteRuns.getRepeatingByteRuns_pieces aligned
        rw [runs]
        exact cut
      · exact MemoryBytes.Pieces.self x
  rw [cuts] at pieces
  obtain ⟨ordered, -, within⟩ := pieces_flatten pieces normal.ordered contents'
  refine ⟨ordered, fun x mem => ?_⟩
  obtain ⟨y, memY, inside⟩ := within x mem
  obtain ⟨p, uniform⟩ := normal.uniform y memY
  exact ⟨p, fun k covers => uniform k (inside k covers)⟩

/-- The memory of a snap has its bytes in order, each list with one set of permissions. -/
theorem SnapMemory.normal {m m' : SnapshotMemory} (h : SnapMemory opts pos c m m')
    (hm : m'.Keeps pos neg c) : Ordered m'.memoryBytes ∧
      ∀ x ∈ m'.memoryBytes, ∃ p, ∀ k, x.Covers k → pos k = some p := by
  obtain ⟨n, l, set, filled, list, -, rfl⟩ := h
  obtain ⟨ordered, uniform⟩ := snapifyMemoryByteList_normal filled (process_paged hm) list
  refine ⟨ordered, fun x mem => ?_⟩
  obtain ⟨p, uniform⟩ := uniform x mem
  refine ⟨p, fun k covers => ?_⟩
  have said := uniform k covers
  unfold SnapshotMemory.chunkPerms PermsMap.process at said
  cases here : pos k with
  | none =>
    rw [here] at said
    cases said
  | some q =>
    rw [here, Option.map_some, Option.map_some,
      MemoryPerms.plus_clear (hm.mappings.mapped.unmapped k q here)] at said
    exact said

/-- The mappings are those of the map. -/
theorem sorted_of_normalize {m m' : SnapshotMemory} (run : m.normalizeMemoryMappings = some m') :
    SnapshotMemory.sortedMemoryMappingList m'.mappedMemoryMap = some m'.memoryMappings := by
  obtain ⟨mappings, sorted, run⟩ := Option.bind_eq_some_iff.mp run
  obtain ⟨negatives, sorted', run⟩ := Option.bind_eq_some_iff.mp run
  obtain rfl := Option.some.inj run
  exact sorted

/-- What an end state is left with is where a snap can write. -/
theorem snapifyEndState_writable (hs : s.toSnapshotMemory.Keeps pos neg c)
    (filled : ∀ k, (c k).isSome = (pos k).isSome)
    (kind : es.isComplete .kNormalState = .ok () ∨ es.memoryBytes = [])
    (contents : Contents es.memoryBytes d) (mapped : ∀ k, (d k).isSome → (pos k).isSome)
    (run : snapifyEndState debug s opts es = .ok e) :
    e.memoryBytes.Pairwise MemoryBytes.Disjoint ∧
      (∀ x ∈ e.memoryBytes, ∀ k, x.Covers k → ∃ p ∈ pos k, p.has .kWritable = true) ∧
      (e.isComplete .kNormalState = .ok () → ∀ k p, pos k = some p → p.has .kWritable = true →
        ∃ x ∈ e.memoryBytes, x.Covers k) := by
  by_cases complete : es.isComplete .kNormalState = .ok ()
  · obtain ⟨set, l, made, bytes⟩ :=
      snapifyEndState_contents debug opts hs filled complete contents mapped
    obtain rfl := Except.ok.inj (made.symm.trans run)
    have isSome := snapEndBytes_isSome filled mapped
    refine ⟨bytes.disjoint, fun x mem k covers => ?_, fun _ k p here writable => ?_⟩
    · exact (isSome k).mp (bytes.isSome_iff.mpr ⟨x, mem, covers⟩)
    · exact bytes.isSome_iff.mp ((isSome k).mpr ⟨p, here, writable⟩)
  · obtain ⟨-, -, same⟩ := snapifyEndState_again hs filled contents mapped run
    obtain rfl := same.resolve_left complete
    have none := kind.resolve_left complete
    rw [none]
    exact ⟨.nil, by simp, fun normal => absurd normal complete⟩

/-- **What `Snapify` returns can become a snap.** -/
theorem snapify_snapified (built : s.Runs) (run : snapify debug host s opts = .ok t) :
    t.Snapified := by
  obtain ⟨pos, neg, sb, hs⟩ := Snapshot.runs_sound built
  obtain ⟨_, can, -⟩ := bind_eq_ok.mp run
  obtain ⟨es, address, picked, endable⟩ := canSnapify_eq_ok.mp can
  obtain ⟨fits, inside⟩ := endable.fits hs.memory.mapped
  obtain ⟨m, m', normalize, snap, hm, eq⟩ := snapify_eq debug hs.memory picked endable
  have filled := snapBytes_filled s.architecture hs.memory.mappedBytes inside
  have within := hs.states es (pickEndState_mem picked)
  obtain ⟨d, contents, -⟩ := within.wellFormed.bytes
  have mapped : ∀ k, (d k).isSome → (pos k).isSome := by
    intro k hk
    obtain ⟨b, hb, cover⟩ := contents.isSome_iff.mp hk
    exact within.mapped b hb k cover
  rw [eq] at run
  obtain ⟨_, -, run⟩ := bind_eq_ok.mp run
  obtain ⟨e, ended, run⟩ := bind_eq_ok.mp run
  obtain ⟨_, -, run⟩ := bind_eq_ok.mp run
  obtain rfl := Except.ok.inj run
  have kind := (pickEndState_kind hs.memory.mapped picked).imp_right And.right
  obtain ⟨apart, writable, whole⟩ :=
    snapifyEndState_writable (s := s.withParts m' []) hm filled kind contents mapped ended
  obtain ⟨ordered, uniform⟩ := snap.normal hm
  have sorted : SnapshotMemory.sortedMemoryMappingList m'.mappedMemoryMap =
      some m'.memoryMappings := by
    obtain ⟨n, l, set, -, -, -, rfl⟩ := snap
    exact sorted_of_normalize (normalizeMemoryMappings_again set l normalize)
  exact {
    pages := hm.aligned
    disjoint := hm.mappings.disjoint
    ordered := ordered
    held := fun b mem => by
      obtain ⟨p, uniform⟩ := uniform b mem
      exact sorted_holds hm.mapped sorted uniform
    defined := fun x mem k covers => by
      have known : (pos k).isSome := by rw [hm.mappings.covered x mem k covers]; rfl
      rw [← filled] at known
      exact hm.contents.isSome_iff.mp known
    apart := fun x memE => by
      obtain rfl := List.mem_singleton.mp memE
      exact apart
    writable := fun x memE b memB k covers => by
      obtain rfl := List.mem_singleton.mp memE
      obtain ⟨p, here, writable⟩ := writable b memB k covers
      obtain ⟨y, memY, covers⟩ := hm.mappings.exists_mapping (Option.isSome_of_mem here)
      refine ⟨y, memY, ?_, covers⟩
      have said := hm.mappings.covered y memY k covers
      obtain rfl : y.perms = p := Option.some.inj (said.symm.trans here)
      exact writable
    ended := fun x memE complete y memY writes k covers => by
      obtain rfl := List.mem_singleton.mp memE
      exact whole complete k y.perms (hm.mappings.covered y memY k covers) writes }

end Snapify

end Silifuzz
