import Silifuzz.Common.MemoryState.Initial

/-!
# What a MemoryState knows of the bytes

The written set and the stored bytes of a state, as a set of addresses `w` and a
partial function `b`, through each mutator:

* `SameBytes`: the mutators of the mappings leave both alone;
* `Bytes`: `setMemoryBytes`, `forgetMemoryBytes` and `removeMemoryMapping` by address;
* `setInitialState_bytes`: the bytes of the snapshot over zeros over what was known.
-/

namespace Silifuzz

open Segments RangeMap Loops

namespace MemoryState

/-- The state knows the bytes `b`, and has written the addresses `w`. -/
structure Bytes (s : MemoryState) (w : Address → Bool) (b : BytesMap) : Prop where
  writtenSet : s.writtenMemorySet.Represents w
  stored : memoryBytes.Represents s.writtenMemoryBytes b

/-- Nothing about the bytes has changed. -/
structure SameBytes (s s' : MemoryState) : Prop where
  written : s'.writtenMemorySet = s.writtenMemorySet
  stored : s'.writtenMemoryBytes = s.writtenMemoryBytes

variable {s s' : MemoryState} {f : PermsMap} {w : Address → Bool} {b : BytesMap}
  {start limit : Address} {p : MemoryPerms} {m : MemoryMapping} {x : MemoryBytes}

theorem SameBytes.refl (s : MemoryState) : SameBytes s s := ⟨rfl, rfl⟩

theorem SameBytes.bytes (h : SameBytes s s') (hs : s.Bytes w b) : s'.Bytes w b :=
  ⟨h.written ▸ hs.writtenSet, h.stored ▸ hs.stored⟩

theorem Bytes.congr {w' : Address → Bool} {b' : BytesMap} (hs : s.Bytes w b)
    (hw : ∀ k, w k = w' k) (hb : ∀ k, b k = b' k) : s.Bytes w' b' :=
  ⟨hs.writtenSet.congr hw, hs.stored.congr hb⟩

theorem empty_bytes : empty.Bytes (fun _ => false) fun _ => none :=
  ⟨MemoryBytesSet.empty_represents, Lawful.Represents.nil⟩

theorem setMemoryMapping_same (run : s.setMemoryMappingEmptyPermsOk m = some s') :
    SameBytes s s' := by
  obtain ⟨map, _, run⟩ := Option.bind_eq_some_iff.mp run
  obtain rfl := Option.some.inj run
  exact ⟨rfl, rfl⟩

theorem addNewMemoryMapping_same (run : s.addNewMemoryMapping m = some s') : SameBytes s s' := by
  obtain ⟨map, _, run⟩ := Option.bind_eq_some_iff.mp run
  obtain rfl := Option.some.inj run
  exact ⟨rfl, rfl⟩

theorem removePerms_same (run : s.removePerms start limit p = some s') : SameBytes s s' := by
  obtain ⟨map, _, run⟩ := Option.bind_eq_some_iff.mp run
  obtain rfl := Option.some.inj run
  exact ⟨rfl, rfl⟩

theorem SameBytes.trans {t : MemoryState} (h : SameBytes s s') (h' : SameBytes s' t) :
    SameBytes s t :=
  ⟨h'.written.trans h.written, h'.stored.trans h.stored⟩

/-- A loop of mutators that leave the bytes alone. -/
theorem foldlM_same {α : Type} {step : MemoryState → α → Option MemoryState} {l : List α}
    (each : ∀ a s s', step s a = some s' → SameBytes s s') (run : l.foldlM step s = some s') :
    SameBytes s s' :=
  foldlM_after (P := fun _ t => SameBytes s t) (.refl s)
    (fun _ a _ _ _ _ h step => h.trans (each a _ _ step)) run

theorem changeBytes_add (hs : memoryBytes.Represents s.writtenMemoryBytes b) (x : MemoryBytes)
    {r : RangeMap Address ByteData}
    (run : s.changeBytes x.startAddress x.limitAddress x.byteValues .add = some r) :
    memoryBytes.Represents r fun k => if x.Covers k then some (x.byteAt k) else b k := by
  obtain ⟨c, change, denotes, canonical⟩ := change_denotes .add x.byteValues hs.toDenotes
    hs.canonical x.start_lt_limit ⟨x.length_eq, x.start_lt_limit⟩
  obtain rfl : c.map = r := by simpa [changeBytes, change] using run
  refine ⟨denotes.congr fun k => ?_, canonical⟩
  by_cases hk : x.Covers k
  · have inside : x.startAddress ≤ k ∧ k < x.limitAddress := hk
    rw [Lawful.changed, if_pos inside, if_pos hk]
    cases b k <;> rfl
  · have outside : ¬ (x.startAddress ≤ k ∧ k < x.limitAddress) := hk
    rw [Lawful.changed, if_neg outside, if_neg hk]

theorem changeBytes_remove (hs : memoryBytes.Represents s.writtenMemoryBytes b)
    (h : start < limit) {r : RangeMap Address ByteData}
    (run : s.changeBytes start limit [] .remove = some r) :
    memoryBytes.Represents r fun k => if start ≤ k ∧ k < limit then none else b k := by
  obtain ⟨c, change, denotes, canonical⟩ := change_denotes .remove [] hs.toDenotes
    hs.canonical h rfl
  obtain rfl : c.map = r := by simpa [changeBytes, change] using run
  refine ⟨denotes.congr fun k => ?_, canonical⟩
  by_cases hk : start ≤ k ∧ k < limit
  · rw [Lawful.changed, if_pos hk, if_pos hk]
    cases b k <;> rfl
  · rw [Lawful.changed, if_neg hk, if_neg hk]

theorem setMemoryBytes_bytes (hs : s.Bytes w b) (run : s.setMemoryBytes x = some s') :
    s'.Bytes (fun k => w k || decide (x.Covers k))
      fun k => if x.Covers k then some (x.byteAt k) else b k := by
  obtain ⟨set, added, run⟩ := Option.bind_eq_some_iff.mp run
  obtain ⟨r, changed, run⟩ := Option.bind_eq_some_iff.mp run
  obtain rfl := Option.some.inj run
  obtain ⟨set', added', hset⟩ := hs.writtenSet.add_represents x.start_lt_limit
  obtain rfl : set = set' := Option.some.inj (added.symm.trans added')
  exact ⟨hset, changeBytes_add hs.stored x changed⟩

theorem forgetMemoryBytes_bytes (hs : s.Bytes w b) (h : start < limit)
    (run : s.forgetMemoryBytes start limit = some s') :
    s'.Bytes w fun k => if start ≤ k ∧ k < limit then none else b k := by
  obtain ⟨r, changed, run⟩ := Option.bind_eq_some_iff.mp run
  obtain rfl := Option.some.inj run
  exact ⟨hs.writtenSet, changeBytes_remove hs.stored h changed⟩

theorem removeMemoryMapping_bytes (hs : s.Bytes w b) (h : start < limit)
    (run : s.removeMemoryMapping start limit = some s') :
    s'.Bytes (fun k => w k && !decide (start ≤ k ∧ k < limit))
      fun k => if start ≤ k ∧ k < limit then none else b k := by
  obtain ⟨map, _, run⟩ := Option.bind_eq_some_iff.mp run
  obtain ⟨set, removed, run⟩ := Option.bind_eq_some_iff.mp run
  obtain ⟨r, changed, run⟩ := Option.bind_eq_some_iff.mp run
  obtain rfl := Option.some.inj run
  obtain ⟨set', removed', hset⟩ := hs.writtenSet.remove_represents h
  obtain rfl : set = set' := Option.some.inj (removed.symm.trans removed')
  exact ⟨hset, changeBytes_remove hs.stored h changed⟩

theorem zeroBytes_bytes (hs : s.Bytes w b) (h : start < limit)
    (run : s.zeroBytes start limit = some s') :
    s'.Bytes (fun k => w k || decide (start ≤ k ∧ k < limit))
      fun k => if start ≤ k ∧ k < limit then some 0 else b k := by
  obtain ⟨x, made, run⟩ := Option.bind_eq_some_iff.mp run
  obtain ⟨first, last, zero⟩ : x.startAddress = start ∧ x.limitAddress = limit ∧
      ∀ k, x.byteAt k = 0 := by
    simp only [MemoryBytes.make] at made
    split at made
    · obtain rfl := Option.some.inj made
      refine ⟨rfl, ?_, fun k => ?_⟩
      · simp only [MemoryBytes.limitAddress, List.length_replicate]
        exact Nat.add_sub_cancel' h.le
      · simp only [MemoryBytes.byteAt, List.getD_eq_getElem?_getD, List.getElem?_replicate]
        split <;> rfl
    · cases made
  refine (setMemoryBytes_bytes hs run).congr (fun k => ?_) fun k => ?_
  · simp [MemoryBytes.Covers, first, last]
  · simp [MemoryBytes.Covers, first, last, zero]

/-- Setting each element of a list of disjoint bytes. -/
theorem setEachBytes_bytes {l : List MemoryBytes} (disjoint : l.Pairwise MemoryBytes.Disjoint)
    (hs : s.Bytes w b) (run : l.foldlM setMemoryBytes s = some s') :
    s'.Bytes (fun k => w k || (bytesIn l k).isSome) fun k => (bytesIn l k).or (b k) := by
  refine foldlM_after (P := fun done t => MemoryState.Bytes t
    (fun k => w k || (bytesIn done k).isSome) fun k => (bytesIn done k).or (b k))
    (hs.congr (by simp [bytesIn]) (by simp [bytesIn])) (fun done x rest t t' hl ht step => ?_) run
  refine (setMemoryBytes_bytes ht step).congr (fun k => ?_) fun k => ?_
  · rw [bytesIn_snoc]
    by_cases hx : x.Covers k <;> cases bytesIn done k <;> simp [hx]
  · rw [bytesIn_snoc]
    by_cases hx : x.Covers k
    · have free : bytesIn done k = none := by
        have apart := (List.pairwise_append.mp (hl ▸ disjoint)).2.2
        simp only [bytesIn, Option.map_eq_none_iff, List.find?_eq_none, decide_eq_true_eq]
        exact fun y hy hk => (apart y hy x (by simp)).covers hk hx
      simp [hx, free]
    · simp [hx]

/-- Writing zeros for every entry of a map. -/
theorem zeroEach_bytes {map : MappedMemoryMap} {d : PermsMap} (hm : map.Represents d)
    (hs : s.Bytes w b)
    (run : map.rep.foldlM (fun s i => zeroBytes s i.start i.limit) s = some s') :
    s'.Bytes (fun k => w k || (d k).isSome) fun k => if (d k).isSome then some 0 else b k := by
  simp only [← hm.reads]
  refine foldlM_after (P := fun done t => MemoryState.Bytes t
    (fun k => w k || (memoryPerms.lookup done k).isSome)
    fun k => if (memoryPerms.lookup done k).isSome then some 0 else b k)
    (hs.congr (by simp) (by simp)) (fun done i rest t t' hl ht step => ?_) run
  have lt := hm.separated.1 i (by simp [hl])
  refine (zeroBytes_bytes ht lt step).congr (fun k => ?_) fun k => ?_
  · rw [lookup_snoc]
    by_cases hk : i.start ≤ k ∧ k < i.limit <;> cases memoryPerms.lookup done k <;> simp [hk]
  · rw [lookup_snoc]
    by_cases hk : i.start ≤ k ∧ k < i.limit <;> cases memoryPerms.lookup done k <;> simp [hk]

/-- The addresses that `SetInitialState` zeroes: those new in the process. -/
def zeroed (zeroing : MappedZeroing) (f pos : PermsMap) (k : Address) : Bool :=
  decide (zeroing = .kZeroMappedBytes) && (pos k).isSome && (f k).isNone

/-- The bytes of the snapshot over zeros over what was known. -/
theorem setInitialState_bytes {snapshot : SnapshotMemory} {pos neg : PermsMap} {sb : BytesMap}
    {zeroing : MappedZeroing} (hs : s.Holds f) (hsnap : snapshot.Keeps pos neg sb)
    (hb : s.Bytes w b) (run : s.setInitialState snapshot zeroing = some s') :
    s'.Bytes (fun k => w k || zeroed zeroing f pos k || (sb k).isSome)
      fun k => (sb k).or (if zeroed zeroing f pos k then some 0 else b k) := by
  obtain ⟨fresh, run₀, run⟩ := Option.bind_eq_some_iff.mp run
  obtain ⟨s₁, run₁, run⟩ := Option.bind_eq_some_iff.mp run
  obtain ⟨filtered, run₂, run⟩ := Option.bind_eq_some_iff.mp run
  obtain ⟨delta, run₃, run⟩ := Option.bind_eq_some_iff.mp run
  obtain ⟨s₂, run₄, run⟩ := Option.bind_eq_some_iff.mp run
  obtain ⟨s₃, run₅, run₆⟩ : ∃ s₃, (if zeroing = .kZeroMappedBytes then
        fresh.rep.foldlM (fun s i => zeroBytes s i.start i.limit) s₂
      else some s₂) = some s₃ ∧
      snapshot.memoryBytes.foldlM setMemoryBytes s₃ = some s' := by
    cases zeroing <;> exact Option.bind_eq_some_iff.mp run
  have same₁ : SameBytes s s₁ := foldlM_same (fun m s s' run => setMemoryMapping_same run) run₁
  have same₂ : SameBytes s₁ s₂ := foldlM_same (fun i s s' run => removePerms_same run) run₄
  have hb₂ : s₂.Bytes w b := same₂.bytes (same₁.bytes hb)
  have hb₃ : s₃.Bytes (fun k => w k || zeroed zeroing f pos k)
      fun k => if zeroed zeroing f pos k then some 0 else b k := by
    cases zeroing with
    | kIgnoreMappedBytes =>
      obtain rfl : s₂ = s₃ := Option.some.inj run₅
      exact hb₂.congr (by simp [zeroed]) (by simp [zeroed])
    | kZeroMappedBytes =>
      obtain ⟨fresh', run', hfresh⟩ :=
        hsnap.mapped.removeRangesOf_represents hs.represents .allPlusMapped
      obtain rfl : fresh = fresh' := Option.some.inj (run₀.symm.trans run')
      have new : ∀ k, (pos.removeRangesOf f .allPlusMapped k).isSome =
          zeroed .kZeroMappedBytes f pos k := fun k => by
        rw [hsnap.mappings.mapped.proper.removeRangesOf_all]
        cases hf : f k <;> simp [zeroed, hf]
      refine (zeroEach_bytes hfresh hb₂ run₅).congr (fun k => ?_) fun k => ?_ <;> rw [new]
  exact (setEachBytes_bytes hsnap.contents.disjoint hb₃ run₆).congr
    (fun k => by rw [hsnap.contents.bytesIn_eq]) fun k => by rw [hsnap.contents.bytesIn_eq]

end MemoryState

end Silifuzz
