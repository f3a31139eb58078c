import Silifuzz.Common.Snapshot.Replaced
import Silifuzz.Snap.Gen.Snapify

/-!
# What Snapify computes

The memory states that the parts of `Snapify` go through, each of them by the mappings and
the byte at every address:

* `snapifyMemoryByteList_run`: the list is all bytes of a state;
* `keepWritable_filled`: what is left of a state in its writable memory;
* `mergeExitSequence_run`, `snapifyEndState_run`: the two parts that overlay bytes.
-/

namespace Silifuzz

open Segments RangeMap Checked ExitSequence RepeatingByteRuns Loops Triples

/-- The address is mapped, and not for writing. -/
def PermsMap.readOnly (pos : PermsMap) (k : Address) : Bool := (pos k).any fun p => !p.has .kWritable

/-- What a map says of memory that is not read-only. -/
def PermsMap.writablePart {α : Type} (pos : PermsMap) (g : Address → Option α) :
    Address → Option α := fun k => if pos.readOnly k then none else g k

/-- The exit sequence at `address`. -/
def exitBytes (arch : Architecture) (address : Address) : BytesMap := fun k =>
  if address ≤ k then (writeSnapExitSequence arch)[k - address]? else none

/-- The initial bytes of a snap: the exit sequence over the bytes of the snapshot over zeros. -/
def snapBytes (arch : Architecture) (address : Address) (pos : PermsMap) (sb : BytesMap) :
    BytesMap := (sb.zeroFilled pos).under (exitBytes arch address)

/-- The final bytes of a snap: the changes `d` over its initial bytes, where it can write. -/
def snapEndBytes (pos : PermsMap) (initial d : BytesMap) : BytesMap :=
  pos.writablePart (initial.under d)

namespace Snapify

variable {s : MemoryState} {f pos neg : PermsMap} {b d sb : BytesMap}

/-- Bytes for all of a memory of whole pages can be cut into runs. -/
theorem snapifyMemoryByteList_run (hs : s.Filled f b)
    (paged : f.PagedMap fun k => k % kByteRunAlignmentSize = 0) (query : CompressionQuery) :
    ∃ l, snapifyMemoryByteList s query = .ok l ∧ Contents l b := by
  obtain ⟨l, read, contents⟩ := MemoryState.memoryBytesList_filled hs
  obtain ⟨n, normalize, contents', normal⟩ := SnapshotMemory.normalizeBytes_normal
    hs.represents hs.ofProcess.proper hs.ofProcess.bounded contents fun k hk => by
      rw [← hs.filled]
      exact hk
  have ends := normal.ends contents' hs.filled paged (Nat.zero_mod _)
  obtain ⟨parts, run, cut⟩ := yields_ok (yields_mapM (l := n) (E := fun _ => False)
    (f := fun x => if query s x then getRepeatingByteRuns x else .ok [x])
    (R := MemoryBytes.Pieces) fun x hx => by
      split
      · have aligned : x.byteValues.length % kByteRunAlignmentSize = 0 := by
          have := ends x hx
          rw [x.length_eq]
          simp only [kByteRunAlignmentSize] at this ⊢
          lia
        obtain ⟨cs, runs, pieces⟩ := getRepeatingByteRuns_pieces aligned
        rw [runs]
        exact pieces
      · exact MemoryBytes.Pieces.self x)
  obtain ⟨-, flat, -⟩ := pieces_flatten cut normal.ordered contents'
  refine ⟨parts.flatten, ?_, flat⟩
  simp only [snapifyMemoryByteList, read, normalize, orAbort, ok_bind]
  rw [run]
  rfl

theorem keepWritable_filled {m : MappedMemoryMap} (hm : m.Represents pos) (hs : s.Filled f b) :
    ∃ s', keepWritable m s = some s' ∧ s'.Filled (pos.writablePart f) (pos.writablePart b) := by
  have part : ∀ {α : Type} (g : Address → Option α), pos.writablePart g = fun k =>
      if (memoryPerms.lookup m.rep k).any fun p => !p.has .kWritable then none else g k := by
    intro α g
    funext k
    rw [hm.reads]
    rfl
  rw [part, part]
  refine foldlM_run (l := m.rep) (P := fun done t => MemoryState.Filled t
    (fun k => if (memoryPerms.lookup done k).any fun p => !p.has .kWritable then none else f k)
    fun k => if (memoryPerms.lookup done k).any fun p => !p.has .kWritable then none else b k)
    (by simpa using hs) fun done i rest t hl ht => ?_
  have lt := hm.separated.1 i (by simp [hl])
  have snoc : ∀ {α : Type} (g : Address → Option α) (k : Address),
      (if (memoryPerms.lookup (done ++ [i]) k).any fun p => !p.has .kWritable then none else g k) =
      if (i.start ≤ k ∧ k < i.limit) ∧ i.value.has .kWritable = false then none
      else if (memoryPerms.lookup done k).any fun p => !p.has .kWritable then none else g k := by
    intro α g k
    rw [lookup_snoc]
    by_cases hk : i.start ≤ k ∧ k < i.limit
    · have free : memoryPerms.lookup done k = none :=
        (lookup_done (hl ▸ hm.separated)).resolve_right (not_not_intro hk)
      have value : memoryPerms.view i.start i.limit i.value k = i.value := rfl
      rw [free, if_pos hk, Option.none_or, value]
      by_cases writable : i.value.has .kWritable = true <;> simp [hk, writable]
    · cases memoryPerms.lookup done k <;> simp [hk]
  cases writable : i.value.has .kWritable with
  | true =>
    refine ⟨t, by simp, ?_⟩
    simpa [snoc, writable] using ht
  | false =>
    obtain ⟨t', run, ht'⟩ := MemoryState.removeMemoryMapping_filled ht lt
    refine ⟨t', by simpa using run, ?_⟩
    simpa [snoc, writable] using ht'

theorem zeroFilled_of_filled (h : ∀ k, (b k).isSome = (pos k).isSome) : b.zeroFilled pos = b := by
  funext k
  have same := h k
  unfold BytesMap.zeroFilled
  cases hb : b k with
  | some v => rfl
  | none =>
    rw [hb] at same
    simpa using same.symm

theorem snapBytes_filled (arch : Architecture) {address : Address}
    (bytes : ∀ k, (sb k).isSome → (pos k).isSome)
    (inside : ∀ k, address ≤ k → k < address + getSnapExitSequenceSize arch → (pos k).isSome)
    (k : Address) : (snapBytes arch address pos sb k).isSome = (pos k).isSome := by
  have known := bytes k
  unfold snapBytes BytesMap.under BytesMap.zeroFilled exitBytes
  split
  · next low =>
    by_cases high : k < address + getSnapExitSequenceSize arch
    · have within : k - address < (writeSnapExitSequence arch).length := by
        rw [length_writeSnapExitSequence]
        lia
      rw [List.getElem?_eq_getElem within]
      simpa using inside k low high
    · have beyond : (writeSnapExitSequence arch).length ≤ k - address := by
        rw [length_writeSnapExitSequence]
        lia
      rw [List.getElem?_eq_none beyond]
      cases h : sb k <;> simp_all
  · cases h : sb k <;> simp_all

/-- The exit sequence over what has it already. -/
theorem snapBytes_again {arch : Architecture} {address : Address}
    (filled : ∀ k, (snapBytes arch address pos sb k).isSome = (pos k).isSome) :
    snapBytes arch address pos (snapBytes arch address pos sb) = snapBytes arch address pos sb := by
  rw [snapBytes, zeroFilled_of_filled filled]
  funext k
  unfold snapBytes BytesMap.under
  cases exitBytes arch address k <;> rfl

/-- The exit sequence as `MemoryBytes`. -/
theorem exitBytes_make (arch : Architecture) {address : Address}
    (fits : address + getSnapExitSequenceSize arch ≤ kMaxAddress) :
    ∃ x, MemoryBytes.make address (writeSnapExitSequence arch) = some x ∧
      x.startAddress = address ∧ x.limitAddress = address + getSnapExitSequenceSize arch ∧
      ∀ b : BytesMap, (fun k => if x.Covers k then some (x.byteAt k) else b k) =
        b.under (exitBytes arch address) := by
  have length := length_writeSnapExitSequence arch
  have nonempty : writeSnapExitSequence arch ≠ [] := by
    rw [← List.length_pos_iff, length]
    exact getSnapExitSequenceSize_pos arch
  have made : MemoryBytes.make address (writeSnapExitSequence arch) =
      some ⟨address, _, nonempty, _⟩ :=
    MemoryBytes.make_some nonempty (by rw [length]; exact fits)
  refine ⟨_, made, rfl, congrArg (address + ·) length, fun b => ?_⟩
  funext k
  unfold BytesMap.under exitBytes MemoryBytes.Covers MemoryBytes.byteAt MemoryBytes.limitAddress
  by_cases low : address ≤ k
  · by_cases high : k < address + getSnapExitSequenceSize arch
    · have within : k - address < (writeSnapExitSequence arch).length := by lia
      simp [low, high, List.getD_eq_getElem?_getD, List.getElem?_eq_getElem within]
    · have beyond : (writeSnapExitSequence arch).length ≤ k - address := by lia
      simp [low, high, List.getElem?_eq_none beyond]
  · simp [low]

/-- A map that changes only where another one does. -/
theorem pagedMap_of_same {E : Address → Prop} {f g : PermsMap} (hf : f.PagedMap E)
    (same : ∀ k, f k = f (k + 1) → g k = g (k + 1)) : g.PagedMap E :=
  fun k change => hf k fun eq => change (same k eq)

/-- Memory of whole pages is memory of whole runs. -/
theorem keeps_paged {m : SnapshotMemory} (hm : m.Keeps pos neg sb) :
    pos.PagedMap fun k => k % kByteRunAlignmentSize = 0 := by
  intro k change
  have pageEnd := hm.mappings.paged hm.aligned k change
  rw [SnapshotMemory.PageEnd, SnapshotMemory.pageSize_eq] at pageEnd
  simp only [kByteRunAlignmentSize]
  lia

theorem process_paged {m : SnapshotMemory} (hm : m.Keeps pos neg sb) :
    pos.process.PagedMap fun k => k % kByteRunAlignmentSize = 0 := by
  apply pagedMap_of_same (keeps_paged hm)
  intro k same
  rw [PermsMap.process, PermsMap.process, same]

theorem writable_paged {m : SnapshotMemory} (hm : m.Keeps pos neg sb) :
    PermsMap.PagedMap (pos.writablePart pos.process) fun k => k % kByteRunAlignmentSize = 0 := by
  apply pagedMap_of_same (keeps_paged hm)
  intro k same
  unfold PermsMap.writablePart PermsMap.readOnly PermsMap.process
  rw [same]

/-- `MergeExitSequence` replaces the bytes by those of a state with the exit sequence in it. -/
theorem mergeExitSequence_state (snapshot : Snapshot) {address : Address}
    (hs : snapshot.toSnapshotMemory.Keeps pos neg sb)
    (fits : address + getSnapExitSequenceSize snapshot.architecture ≤ kMaxAddress)
    (inside : ∀ k, address ≤ k → k < address + getSnapExitSequenceSize snapshot.architecture →
      (pos k).isSome) :
    ∃ s : MemoryState, s.Filled pos.process (snapBytes snapshot.architecture address pos sb) ∧
      mergeExitSequence snapshot address = (do
        let l ← orAbort (s.memoryBytesList s.writtenMemorySet)
        snapshot.replaceMemoryBytes l) := by
  obtain ⟨x, made, start, limit, overlay⟩ := exitBytes_make snapshot.architecture fits
  obtain ⟨b, contains, iff⟩ := MappedMemoryMap.containsRange_eq hs.mapped x.start_lt_limit
  have room : b = true := by
    rw [iff, start, limit]
    exact inside
  obtain ⟨s, initial, hs₀⟩ := MemoryState.makeInitial_filled hs
  obtain ⟨s', set, hs'⟩ := MemoryState.setMemoryBytes_filled hs₀ (x := x) fun k hk => by
    have mapped := inside k (start ▸ hk.1) (limit ▸ hk.2)
    rwa [PermsMap.process, Option.isSome_map]
  rw [overlay] at hs'
  have nonempty : List.replicate (getSnapExitSequenceSize snapshot.architecture) (0 : BitVec 8) ≠ [] := by
    rw [ne_eq, List.replicate_eq_nil_iff]
    exact (getSnapExitSequenceSize_pos _).ne'
  have can : MemoryBytes.canConstruct address _ = .ok () :=
    MemoryBytes.canConstruct_ok nonempty (by rw [List.length_replicate]; exact fits)
  subst room
  refine ⟨s', hs', ?_⟩
  simp only [mergeExitSequence, can, made, contains, initial, set, orAbort, ok_bind]
  rfl

/-- A complete end state has its bytes replaced by those of its writable memory. -/
theorem snapifyEndState_state (debug : Bool) (snapshot : Snapshot) (opts : SnapifyOptions)
    {e : EndState} (hs : snapshot.toSnapshotMemory.Keeps pos neg sb) (complete : e.isComplete .kNormalState = .ok ())
    (contents : Contents e.memoryBytes d) (mapped : ∀ k, (d k).isSome → (pos k).isSome) :
    ∃ s : MemoryState, s.Filled (pos.writablePart pos.process) (snapEndBytes pos (sb.zeroFilled pos) d) ∧
      snapifyEndState debug snapshot opts e = (do
        let l ← snapifyMemoryByteList s (shouldCompressEndState opts)
        e.replaceMemoryBytes l) := by
  obtain ⟨s, initial, hs₀⟩ := MemoryState.makeInitial_filled hs
  obtain ⟨s₁, set, hs₁⟩ := MemoryState.setEachBytes_filled hs₀ contents fun k hk => by
    have known := mapped k hk
    rwa [PermsMap.process, Option.isSome_map]
  obtain ⟨s₂, keep, hs₂⟩ := keepWritable_filled hs.mapped hs₁
  refine ⟨s₂, hs₂, ?_⟩
  simp only [snapifyEndState, complete, isOk, initial, MemoryState.setMemoryBytesList, set, keep,
    orAbort, ok_bind, if_true]

end Snapify

end Silifuzz
