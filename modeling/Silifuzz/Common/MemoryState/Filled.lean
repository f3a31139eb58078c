import Silifuzz.Common.MemoryState.DeltaBytes
import Silifuzz.Common.MemoryState.Read
import Silifuzz.Common.Snapshot.Normal

/-!
# States that know every byte of theirs

`MakeInitial` and `memory_bytes_list()` of `common/memory_state.cc`:

* `Filled`: the bytes that a state knows are those that it maps, so that what is mapped
  and the bytes leave one state;
* `makeInitial_filled`: with zeroing, the initial state of a snapshot is like this;
* `memoryBytesList_filled`: the list is all of the bytes.
-/

namespace Silifuzz

open Segments RangeMap Loops

/-- What a process has mapped for the mappings of a snapshot. -/
def PermsMap.process (pos : PermsMap) : PermsMap := fun k => (pos k).map (·.plus (.of .kMapped))

/-- The bytes of a snapshot, with zeros for what else it maps. -/
def BytesMap.zeroFilled (sb : BytesMap) (pos : PermsMap) : BytesMap := fun k =>
  (sb k).or ((pos k).map fun _ => 0)

/-- The bytes `d` over the bytes `b`. -/
def BytesMap.under (b d : BytesMap) : BytesMap := fun k => (d k).or (b k)

namespace MemoryState

def makeInitial (snapshot : SnapshotMemory) (zeroing : MappedZeroing) : Option MemoryState :=
  empty.setInitialState snapshot zeroing

/-- `memory_bytes_list()` of the ranges of a set. -/
def memoryBytesList (s : MemoryState) (bytes : MemoryBytesSet) : Option (List MemoryBytes) :=
  bytes.rep.mapM fun i => do
    MemoryBytes.make i.start (← s.memoryBytesIn i.start (i.limit - i.start))

/-- The state knows all that it maps, and has written that. -/
structure Filled (s : MemoryState) (f : PermsMap) (b : BytesMap) : Prop extends
    s.Holds f, s.Bytes (fun k => (b k).isSome) b where
  filled : ∀ k, (b k).isSome = (f k).isSome

variable {s s' t : MemoryState} {f pos neg : PermsMap} {b d sb : BytesMap}
  {start limit : Address} {x : MemoryBytes}

/-- What is mapped and the bytes leave one state. -/
theorem Filled.unique (hs : s.Filled f b) (ht : t.Filled f b) : s = t :=
  hs.toBytes.unique ht.toBytes (hs.represents.unique ht.represents)

theorem makeInitial_filled {snapshot : SnapshotMemory} (hsnap : snapshot.Keeps pos neg sb) :
    ∃ s, makeInitial snapshot .kZeroMappedBytes = some s ∧
      s.Filled pos.process (sb.zeroFilled pos) := by
  obtain ⟨s, run, holds⟩ := setInitialState_holds empty_holds hsnap.toHolds .kZeroMappedBytes
  have bytes := setInitialState_bytes empty_holds hsnap empty_bytes run
  have maps : PermsMap.empty.initial pos neg = pos.process := by
    funext k
    unfold PermsMap.initial PermsMap.process PermsMap.empty
    cases pos k <;> cases neg k <;> rfl
  have knows : ∀ k, (sb k).or (if zeroed .kZeroMappedBytes PermsMap.empty pos k then some 0
      else none) = sb.zeroFilled pos k := by
    intro k
    unfold BytesMap.zeroFilled
    cases h : pos k <;> simp [zeroed, PermsMap.empty, h]
  have written : ∀ k, (false || zeroed .kZeroMappedBytes PermsMap.empty pos k || (sb k).isSome) =
      (sb.zeroFilled pos k).isSome := by
    intro k
    rw [← knows]
    cases zeroed .kZeroMappedBytes PermsMap.empty pos k <;> cases sb k <;> rfl
  refine ⟨s, run, maps ▸ holds, bytes.congr written knows, fun k => ?_⟩
  have inside := hsnap.mappedBytes k
  unfold BytesMap.zeroFilled PermsMap.process
  cases h : sb k with
  | none => simp
  | some v =>
    rw [h] at inside
    simpa using (inside rfl).symm

/-- Bytes of the mapped memory set over what was known. -/
theorem setMemoryBytes_filled (hs : s.Filled f b) (inside : ∀ k, x.Covers k → (f k).isSome) :
    ∃ s', s.setMemoryBytes x = some s' ∧
      s'.Filled f fun k => if x.Covers k then some (x.byteAt k) else b k := by
  obtain ⟨s', run, holds⟩ := setMemoryBytes_holds hs.toHolds x
  have bytes := setMemoryBytes_bytes hs.toBytes run
  refine ⟨s', run, holds, bytes.congr (fun k => ?_) fun _ => rfl, fun k => ?_⟩
  · by_cases hk : x.Covers k <;> simp [hk]
  · by_cases hk : x.Covers k
    · simp [hk, inside k hk]
    · simpa [hk] using hs.filled k

theorem setEachBytes_filled {l : List MemoryBytes} (hs : s.Filled f b) (contents : Contents l d)
    (inside : ∀ k, (d k).isSome → (f k).isSome) :
    ∃ s', l.foldlM setMemoryBytes s = some s' ∧ s'.Filled f (b.under d) := by
  obtain ⟨s', run, holds⟩ := foldlM_run (l := l) (f := setMemoryBytes) (s := s)
    (P := fun _ t => MemoryState.Holds t f) hs.toHolds
    fun _ x _ _ _ ht => setMemoryBytes_holds ht x
  have bytes := setEachBytes_bytes contents.disjoint hs.toBytes run
  rw [contents.eq_bytesIn] at bytes
  refine ⟨s', run, holds, bytes.congr (fun k => ?_) fun _ => rfl, fun k => ?_⟩
  · unfold BytesMap.under
    cases d k <;> cases b k <;> rfl
  · have known := hs.filled k
    have mapped := inside k
    unfold BytesMap.under
    cases h : d k with
    | none => simpa using known
    | some v =>
      rw [h] at mapped
      simpa using (mapped rfl).symm

theorem removeMemoryMapping_filled (hs : s.Filled f b) (h : start < limit) :
    ∃ s', s.removeMemoryMapping start limit = some s' ∧
      s'.Filled (fun k => if start ≤ k ∧ k < limit then none else f k)
        fun k => if start ≤ k ∧ k < limit then none else b k := by
  obtain ⟨s', run, holds⟩ := removeMemoryMapping_holds hs.toHolds h
  have bytes := removeMemoryMapping_bytes hs.toBytes h run
  have maps : f.remove start limit .allPlusMapped =
      fun k => if start ≤ k ∧ k < limit then none else f k :=
    funext hs.ofProcess.proper.remove_all
  refine ⟨s', run, maps ▸ holds, bytes.congr (fun k => ?_) fun _ => rfl, fun k => ?_⟩
  · by_cases hk : start ≤ k ∧ k < limit <;> simp [hk]
  · by_cases hk : start ≤ k ∧ k < limit
    · simp [hk]
    · simpa [hk] using hs.filled k

/-- The written ranges are read as they are known. -/
theorem memoryBytesList_filled (hs : s.Filled f b) :
    ∃ l, s.memoryBytesList s.writtenMemorySet = some l ∧ Contents l b := by
  have set := hs.writtenSet
  have covered : ∀ i ∈ s.writtenMemorySet.rep, ∀ k, i.start ≤ k → k < i.limit →
      (b k).isSome = true := by
    intro i hi k low high
    rw [← set.mem_addresses_iff]
    exact MemoryBytesSet.mem_addresses.mpr ⟨i, hi, low, high⟩
  obtain ⟨l, run, rel⟩ := mapM_run (l := s.writtenMemorySet.rep)
    (f := fun i => (s.memoryBytesIn i.start (i.limit - i.start)).bind (MemoryBytes.make i.start))
    (R := fun i x => x.startAddress = i.start ∧ x.limitAddress = i.limit ∧
      ∀ k, x.Covers k → b k = some (x.byteAt k)) fun i hi => by
    have lt := set.separated.1 i hi
    have size : i.start + (i.limit - i.start) = i.limit := Nat.add_sub_cancel' lt.le
    obtain ⟨data, read, length, values⟩ := hs.toBytes.memoryBytesIn_eq (Nat.sub_pos_of_lt lt)
      fun k low high => covered i hi k low (size ▸ high)
    have last : i.limit ≤ kMaxAddress := by
      have prior : i.limit - 1 < kMaxAddress := by
        apply hs.ofProcess.bounded
        rw [← hs.filled]
        exact covered i hi _ (Nat.le_sub_one_of_lt lt) (Nat.sub_one_lt_of_lt lt)
      exact Nat.le_of_pred_lt prior
    have nonempty : data ≠ [] := by
      rw [← List.length_pos_iff, length]
      exact Nat.sub_pos_of_lt lt
    have made : MemoryBytes.make i.start data = some ⟨i.start, data, nonempty, _⟩ :=
      MemoryBytes.make_some nonempty (by rw [length, size]; exact last)
    refine ⟨_, by rw [read]; exact made, rfl, ?_, fun k hk => ?_⟩
    · change i.start + data.length = i.limit
      rw [length, size]
    · have low : i.start ≤ k := hk.1
      have high : k < i.start + data.length := hk.2
      have value := values (k - i.start) (by rw [← length]; lia)
      rw [Nat.add_sub_cancel' low] at value
      rw [← value, MemoryBytes.byteAt, List.getD_eq_getElem?_getD,
        List.getElem?_eq_getElem (by lia)]
      rfl
  refine ⟨l, run, ?_, fun x hx k hk => ?_, fun k out => ?_⟩
  · apply forall₂_pairwise rel set.separated.2
    intro i j x y hx hy before
    rw [MemoryBytes.Disjoint, hx.2.1, hy.1]
    exact .inl before
  · obtain ⟨i, -, -, -, values⟩ := forall₂_mem rel hx
    exact values k hk
  · by_contra known
    have inSet := (set.mem_addresses_iff k).mpr (Option.isSome_iff_ne_none.mpr known)
    obtain ⟨i, hi, low, high⟩ := MemoryBytesSet.mem_addresses.mp inSet
    obtain ⟨x, hx, first, last, -⟩ := forall₂_mem_left rel hi
    exact out x hx ⟨first ▸ low, last ▸ high⟩

end MemoryState

end Silifuzz
