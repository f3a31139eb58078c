import Silifuzz.Common.Snapshot.Mappings

/-!
# Lists of MemoryBytes

What a list of `MemoryBytes` says at each address, and that `NormalizeMemoryBytes`
keeps it:

* `Contents`: disjoint bytes with one value for each address of `w`;
* `Ordered`: each element ends before the next one starts;
* `normalizeBytes_contents`: the normalized list is ordered, has the same contents,
  and each element lies in memory with the same permissions.
-/

namespace Silifuzz

open Segments RangeMap Loops

namespace MemoryBytes

variable {b c : MemoryBytes} {start limit : Address} {k : Address}

/-- No address is in both. -/
def Disjoint (b c : MemoryBytes) : Prop :=
  b.limitAddress ≤ c.startAddress ∨ c.limitAddress ≤ b.startAddress

theorem Disjoint.symm (h : b.Disjoint c) : c.Disjoint b := Or.symm h

theorem Disjoint.covers (h : b.Disjoint c) (hb : b.Covers k) : ¬ c.Covers k := by
  obtain ⟨low, high⟩ := hb
  rintro ⟨low', high'⟩
  rcases h with h | h <;> order

/-- Bytes with no common address are disjoint. -/
theorem disjoint_of (h : ∀ k, b.Covers k → ¬ c.Covers k) : b.Disjoint c := by
  by_contra both
  simp only [Disjoint, not_or, not_le] at both
  have hb := b.start_lt_limit
  have hc := c.start_lt_limit
  exact h (max b.startAddress c.startAddress) ⟨le_max_left _ _, max_lt hb both.1⟩
    ⟨le_max_right _ _, max_lt both.2 hc⟩

theorem covers_start (b : MemoryBytes) : b.Covers b.startAddress := ⟨le_rfl, b.start_lt_limit⟩

theorem length_eq (b : MemoryBytes) : b.byteValues.length = b.limitAddress - b.startAddress := by
  simp only [limitAddress]
  lia

theorem make_some {bytes : ByteData} (nonempty : bytes ≠ [])
    (fits : start + bytes.length ≤ kMaxAddress) :
    make start bytes = some ⟨start, bytes, nonempty, fits⟩ := dif_pos ⟨nonempty, fits⟩

/-- A part of the bytes. -/
theorem range_some (low : b.startAddress ≤ start) (h : start < limit) (high : limit ≤ b.limitAddress) :
    ∃ c, b.range start limit = some c ∧ c.startAddress = start ∧ c.limitAddress = limit ∧
      ∀ k, c.Covers k → c.byteAt k = b.byteAt k := by
  have size : ((b.byteValues.drop (start - b.startAddress)).take (limit - start)).length =
      limit - start := by
    have := b.length_eq
    rw [List.length_take, List.length_drop]
    lia
  have nonempty : (b.byteValues.drop (start - b.startAddress)).take (limit - start) ≠ [] := by
    rw [← List.length_pos_iff, size]
    lia
  have sum : start + (limit - start) = limit := Nat.add_sub_cancel' h.le
  have fits : start + ((b.byteValues.drop (start - b.startAddress)).take (limit - start)).length ≤
      kMaxAddress := by
    rw [size, sum]
    exact high.trans b.bounded
  refine ⟨⟨start, _, nonempty, fits⟩, ?_, rfl, ?_, ?_⟩
  · simp only [range, guard, if_pos low, if_pos high]
    exact make_some nonempty fits
  · simp only [limitAddress, size, sum]
  · rintro k ⟨from_start, to_limit⟩
    have inside : k - start < limit - start := by
      simp only [limitAddress, size, sum] at to_limit
      dsimp only at from_start
      lia
    have base : start - b.startAddress + (k - start) = k - b.startAddress := by
      dsimp only at from_start
      lia
    simp [byteAt, List.getD_eq_getElem?_getD, List.getElem?_drop, inside, base]

/-- The bytes of `c`, appended to those before them. -/
theorem appendBytes_some (touch : c.startAddress = b.limitAddress) :
    ∃ d, b.appendBytes c.byteValues = some d ∧ d.startAddress = b.startAddress ∧
      d.limitAddress = c.limitAddress ∧ (∀ k, b.Covers k → d.byteAt k = b.byteAt k) ∧
      ∀ k, c.Covers k → d.byteAt k = c.byteAt k := by
  have size := b.length_eq
  have hb := b.start_lt_limit
  have end_eq : b.startAddress + (b.byteValues ++ c.byteValues).length = c.limitAddress := by
    rw [List.length_append, limitAddress, touch, limitAddress]
    lia
  have nonempty : b.byteValues ++ c.byteValues ≠ [] := by simp [b.nonempty]
  have fits : b.startAddress + (b.byteValues ++ c.byteValues).length ≤ kMaxAddress :=
    end_eq.le.trans c.bounded
  refine ⟨⟨b.startAddress, _, nonempty, fits⟩, make_some nonempty fits, rfl, end_eq, ?_, ?_⟩
  · rintro k ⟨low, high⟩
    have inside : k - b.startAddress < b.byteValues.length := by lia
    simp [byteAt, List.getD_eq_getElem?_getD, List.getElem?_append_left inside]
  · rintro k ⟨low, high⟩
    have late : b.byteValues.length ≤ k - b.startAddress := by lia
    have base : k - b.startAddress - b.byteValues.length = k - c.startAddress := by lia
    simp [byteAt, List.getD_eq_getElem?_getD, List.getElem?_append_right late, base]

end MemoryBytes

/-- What memory holds where it is known. -/
abbrev BytesMap := Address → Option (BitVec 8)

/-- The bytes are disjoint and together are `w`. -/
structure Contents (l : List MemoryBytes) (w : BytesMap) : Prop where
  disjoint : l.Pairwise MemoryBytes.Disjoint
  covered : ∀ b ∈ l, ∀ k, b.Covers k → w k = some (b.byteAt k)
  uncovered : ∀ k, (∀ b ∈ l, ¬ b.Covers k) → w k = none

/-- Each element ends before the next ones start. -/
def Ordered (l : List MemoryBytes) : Prop := l.Pairwise fun b c => b.limitAddress ≤ c.startAddress

theorem Ordered.disjoint {l : List MemoryBytes} (h : Ordered l) : l.Pairwise MemoryBytes.Disjoint :=
  List.Pairwise.imp (fun h => Or.inl h) h

namespace Contents

variable {l l' : List MemoryBytes} {w v : BytesMap} {b : MemoryBytes} {k : Address}

theorem nil : Contents [] fun _ => none := ⟨.nil, by simp, fun _ _ => rfl⟩

theorem perm (h : Contents l w) (p : l.Perm l') : Contents l' w where
  disjoint := (p.pairwise_iff MemoryBytes.Disjoint.symm).mp h.disjoint
  covered b hb := h.covered b (p.mem_iff.mpr hb)
  uncovered k none := h.uncovered k fun b hb => none b (p.mem_iff.mp hb)

theorem isSome_iff (h : Contents l w) : (w k).isSome ↔ ∃ b ∈ l, b.Covers k := by
  constructor
  · intro some
    by_contra none
    simp [h.uncovered k fun b hb hc => none ⟨b, hb, hc⟩] at some
  · rintro ⟨b, hb, hc⟩
    rw [h.covered b hb k hc]
    rfl

theorem unique (hw : Contents l w) (hv : Contents l v) : w = v := by
  funext k
  by_cases here : ∃ b ∈ l, b.Covers k
  · obtain ⟨b, hb, hk⟩ := here
    rw [hw.covered b hb k hk, hv.covered b hb k hk]
  · rw [hw.uncovered k fun b hb hk => here ⟨b, hb, hk⟩,
      hv.uncovered k fun b hb hk => here ⟨b, hb, hk⟩]

/-- New bytes where there were none. -/
theorem add (h : Contents l w) (free : ∀ k, b.Covers k → w k = none) :
    Contents (l ++ [b]) fun k => if b.Covers k then some (b.byteAt k) else w k := by
  have apart : ∀ c ∈ l, c.Disjoint b := fun c hc => MemoryBytes.disjoint_of fun k hk hb => by
    simpa [h.covered c hc k hk] using free k hb
  refine ⟨?_, fun c hc k hk => ?_, fun k none => ?_⟩
  · refine List.pairwise_append.mpr ⟨h.disjoint, by simp, fun c hc d hd => ?_⟩
    obtain rfl := List.mem_singleton.mp hd
    exact apart c hc
  · rcases List.mem_append.mp hc with hc | hc
    · rw [if_neg ((apart c hc).covers hk), h.covered c hc k hk]
    · obtain rfl := List.mem_singleton.mp hc
      rw [if_pos hk]
  · rw [if_neg (none b (by simp)), h.uncovered k fun c hc => none c (by simp [hc])]

/-- Disjoint bytes that say the same at each address have the same contents. -/
theorem of_same (h : Contents l w) (disjoint : l'.Pairwise MemoryBytes.Disjoint)
    (same : ∀ c ∈ l', ∀ k, c.Covers k → ∃ b ∈ l, b.Covers k ∧ c.byteAt k = b.byteAt k)
    (all : ∀ b ∈ l, ∀ k, b.Covers k → ∃ c ∈ l', c.Covers k) : Contents l' w where
  disjoint := disjoint
  covered c hc k hk := by
    obtain ⟨b, hb, cover, eq⟩ := same c hc k hk
    rw [h.covered b hb k cover, eq]
  uncovered k none := h.uncovered k fun b hb hk => by
    obtain ⟨c, hc, cover⟩ := all b hb k hk
    exact none c hc cover

end Contents

/-- What the list has at an address. -/
def bytesIn (l : List MemoryBytes) (k : Address) : Option (BitVec 8) :=
  (l.find? fun b => b.Covers k).map fun b => b.byteAt k

theorem bytesIn_snoc (l : List MemoryBytes) (b : MemoryBytes) (k : Address) :
    bytesIn (l ++ [b]) k = (bytesIn l k).or (if b.Covers k then some (b.byteAt k) else none) := by
  simp only [bytesIn, List.find?_append, List.find?_singleton]
  cases l.find? fun b => b.Covers k with
  | some c => rfl
  | none => by_cases hb : b.Covers k <;> simp [hb]

theorem Contents.bytesIn_eq {l : List MemoryBytes} {w : BytesMap} (h : Contents l w) (k : Address) :
    bytesIn l k = w k := by
  unfold bytesIn
  cases found : l.find? fun b => b.Covers k with
  | none => exact (h.uncovered k (by simpa using found)).symm
  | some b =>
    have covers : b.Covers k := by simpa using List.find?_some found
    exact (h.covered b (List.mem_of_find?_eq_some found) k covers).symm

/-- Sorting disjoint bytes puts them in order. -/
theorem sorted_ordered {l : List MemoryBytes} (h : l.Pairwise MemoryBytes.Disjoint) :
    Ordered (l.insertionSort fun x y => y.less x = false) := by
  have total : Std.Total fun x y : MemoryBytes => y.less x = false := ⟨fun x y => by
    simp only [MemoryBytes.less, Bool.or_eq_false_iff, Bool.and_eq_false_iff,
      decide_eq_false_iff_not, beq_eq_false_iff_ne]
    lia⟩
  have trans : IsTrans MemoryBytes fun x y => y.less x = false := ⟨fun x y z => by
    simp only [MemoryBytes.less, Bool.or_eq_false_iff, Bool.and_eq_false_iff,
      decide_eq_false_iff_not, beq_eq_false_iff_ne]
    lia⟩
  have perm := List.perm_insertionSort (fun x y : MemoryBytes => y.less x = false) l
  have disjoint := (perm.pairwise_iff MemoryBytes.Disjoint.symm).mpr h
  have sorted := List.pairwise_insertionSort (fun x y : MemoryBytes => y.less x = false) l
  refine List.Pairwise.imp₂ (fun b c apart le => ?_) disjoint sorted
  have hb := b.start_lt_limit
  have hc := c.start_lt_limit
  simp only [MemoryBytes.less, Bool.or_eq_false_iff, Bool.and_eq_false_iff,
    decide_eq_false_iff_not, beq_eq_false_iff_ne] at le
  rcases apart with apart | apart
  · exact apart
  · lia

/-- The mapping that `MappingAt` finds at a mapped address. -/
theorem mappingAt_some {m : MappedMemoryMap} {f : PermsMap} (hm : m.Represents f)
    (proper : f.Proper) (bounded : ∀ k, (f k).isSome → k < kMaxAddress) {k : Address}
    {p : MemoryPerms} (hk : f k = some p) :
    ∃ x, m.mappingAt k = some x ∧ x.Covers k ∧ x.perms = p.clear (.of .kMapped) ∧
      ∀ j, x.Covers j → f j = some p := by
  obtain ⟨i, hi, inside⟩ := (MappedMemoryMap.lookup_iff hm k).mpr (Option.isSome_of_mem hk)
  have value := hm.entry hi inside
  obtain rfl : i.value = p := Option.some.inj (value.symm.trans hk)
  have cleared : (i.value.clear (.of .kMapped)).has .kMapped = false := by
    rw [MemoryPerms.has_clear, show (MemoryPerms.of .kMapped).has .kMapped = true from rfl]
    simp
  obtain ⟨x, run, start, limit, perms⟩ := MemoryMapping.makeRanged_some (hm.separated.1 i hi)
    (hm.limit_le bounded hi) ((proper k _ hk).clear (.of .kMapped)) cleared
  have found : RangeMap.findAt m.rep k = some i := by
    rw [findAt_find hm.separated]
    obtain ⟨j, hj⟩ : ∃ j, m.rep.find? (·.covers k) = some j := Option.isSome_iff_exists.mp
      (List.find?_isSome.mpr ⟨i, hi, by simpa using inside⟩)
    rw [hj, hm.separated.unique (List.mem_of_find?_eq_some hj) hi
      (by simpa using List.find?_some hj) inside]
  refine ⟨x, by simp [MappedMemoryMap.mappingAt, found, run], ⟨start ▸ inside.1, limit ▸ inside.2⟩,
    perms, fun j hj => hm.entry hi ⟨start ▸ hj.1, limit ▸ hj.2⟩⟩

namespace SnapshotMemory

/-- The permissions that `NormalizeMemoryBytes` compares, at one address. -/
def chunkPerms (f : PermsMap) (k : Address) : Option MemoryPerms :=
  (f k).map (·.clear (.of .kMapped))

/-- A part of the bytes `b` in memory with the permissions `c.2`. -/
structure IsChunk (f : PermsMap) (b : MemoryBytes) (c : MemoryBytes × MemoryPerms) : Prop where
  low : b.startAddress ≤ c.1.startAddress
  high : c.1.limitAddress ≤ b.limitAddress
  same : ∀ k, c.1.Covers k → c.1.byteAt k = b.byteAt k
  uniform : ∀ k, c.1.Covers k → chunkPerms f k = some c.2

variable {m : MappedMemoryMap} {f : PermsMap} {b : MemoryBytes}

/-- The chunks from `start` on are all of the bytes from there. -/
theorem splitChunks_run (hm : m.Represents f) (proper : f.Proper)
    (bounded : ∀ k, (f k).isSome → k < kMaxAddress) (mapped : ∀ k, b.Covers k → (f k).isSome)
    {fuel : Nat} {start : Address} (low : b.startAddress ≤ start)
    (enough : b.limitAddress ≤ start + fuel) :
    ∃ cs, splitChunks m b fuel start = some cs ∧ Ordered (cs.map Prod.fst) ∧
      (∀ c ∈ cs, IsChunk f b c ∧ start ≤ c.1.startAddress) ∧
      ∀ k, start ≤ k → k < b.limitAddress → ∃ c ∈ cs, c.1.Covers k := by
  induction fuel generalizing start with
  | zero =>
    have done : ¬ start < b.limitAddress := not_lt.mpr enough
    exact ⟨[], by simp [splitChunks, done], .nil, by simp,
      fun k from_start high => absurd (from_start.trans_lt high) done⟩
  | succ fuel ih =>
    by_cases more : start < b.limitAddress
    · obtain ⟨p, hp⟩ := Option.isSome_iff_exists.mp (mapped start ⟨low, more⟩)
      obtain ⟨x, at_start, inside, perms, same⟩ := mappingAt_some hm proper bounded hp
      have progress : start < min b.limitAddress x.limitAddress := lt_min more inside.2
      obtain ⟨chunk, cut, hs, hl, bytes⟩ := MemoryBytes.range_some low progress (min_le_left _ _)
      obtain ⟨cs, rest, ordered, chunks, all⟩ :=
        @ih (min b.limitAddress x.limitAddress) (low.trans progress.le) (by lia)
      refine ⟨(chunk, x.perms) :: cs, by simp [splitChunks, more, at_start, cut, rest], ?_,
        fun c hc => ?_, fun k from_start high => ?_⟩
      · refine List.pairwise_cons.mpr ⟨fun c hc => ?_, ordered⟩
        obtain ⟨d, hd, rfl⟩ := List.mem_map.mp hc
        exact hl.le.trans (chunks d hd).2
      · rcases List.mem_cons.mp hc with rfl | hc
        · refine ⟨⟨hs.symm ▸ low, hl.le.trans (min_le_left _ _), bytes, fun k hk => ?_⟩, hs.ge⟩
          have inX : x.Covers k := ⟨inside.1.trans (hs.ge.trans hk.1),
            (hk.2.trans_le hl.le).trans_le (min_le_right _ _)⟩
          rw [chunkPerms, same k inX, perms]
          rfl
        · exact ⟨(chunks c hc).1, progress.le.trans (chunks c hc).2⟩
      · by_cases first : k < min b.limitAddress x.limitAddress
        · exact ⟨(chunk, x.perms), by simp, hs.le.trans from_start, first.trans_le hl.ge⟩
        · obtain ⟨c, hc, cover⟩ := all k (not_lt.mp first) high
          exact ⟨c, by simp [hc], cover⟩
    · exact ⟨[], by simp [splitChunks, more], .nil, by simp,
        fun k from_start high => absurd (from_start.trans_lt high) more⟩

/-- The elements built from the chunks `done`. -/
structure Merged (f : PermsMap) (done : List (MemoryBytes × MemoryPerms)) (n : Normalized) :
    Prop where
  ordered : Ordered n.memoryBytes
  same : ∀ d ∈ n.memoryBytes, ∀ k, d.Covers k →
    ∃ c ∈ done, c.1.Covers k ∧ d.byteAt k = c.1.byteAt k
  all : ∀ c ∈ done, ∀ k, c.1.Covers k → ∃ d ∈ n.memoryBytes, d.Covers k
  uniform : ∀ d ∈ n.memoryBytes, ∃ p, ∀ k, d.Covers k → chunkPerms f k = some p
  back : ∀ d, n.memoryBytes.getLast? = some d → ∀ k, d.Covers k → chunkPerms f k = some n.perms

variable {done : List (MemoryBytes × MemoryPerms)} {n : Normalized}
  {c : MemoryBytes × MemoryPerms}

theorem Merged.limit_le (h : Merged f done n) (after : ∀ e ∈ done, e.1.limitAddress ≤ c.1.startAddress)
    {d : MemoryBytes} (hd : d ∈ n.memoryBytes) : d.limitAddress ≤ c.1.startAddress := by
  have hlt := d.start_lt_limit
  obtain ⟨e, he, cover, _⟩ := h.same d hd (d.limitAddress - 1) ⟨by lia, by lia⟩
  have := after e he
  have := cover.2
  lia

/-- A chunk that starts a new element. -/
theorem Merged.push (h : Merged f done n)
    (after : ∀ e ∈ done, e.1.limitAddress ≤ c.1.startAddress)
    (uniform : ∀ k, c.1.Covers k → chunkPerms f k = some c.2) :
    Merged f (done ++ [c]) ⟨n.memoryBytes ++ [c.1], c.2⟩ where
  ordered := List.pairwise_append.mpr ⟨h.ordered, by simp, fun d hd e he => by
    obtain rfl := List.mem_singleton.mp he
    exact h.limit_le after hd⟩
  same d hd k hk := by
    rcases List.mem_append.mp hd with hd | hd
    · obtain ⟨e, he, both⟩ := h.same d hd k hk
      exact ⟨e, by simp [he], both⟩
    · obtain rfl := List.mem_singleton.mp hd
      exact ⟨c, by simp, hk, rfl⟩
  all e he k hk := by
    rcases List.mem_append.mp he with he | he
    · obtain ⟨d, hd, cover⟩ := h.all e he k hk
      exact ⟨d, by simp [hd], cover⟩
    · obtain rfl := List.mem_singleton.mp he
      exact ⟨e.1, by simp, hk⟩
  uniform d hd := by
    rcases List.mem_append.mp hd with hd | hd
    · exact h.uniform d hd
    · obtain rfl := List.mem_singleton.mp hd
      exact ⟨c.2, uniform⟩
  back d hd := by
    rw [List.getLast?_concat, Option.some.injEq] at hd
    exact hd ▸ uniform

/-- A chunk that continues the last element. -/
theorem Merged.extend (h : Merged f done n) {back d : MemoryBytes}
    (last : n.memoryBytes.getLast? = some back) (touch : c.1.startAddress = back.limitAddress)
    (perms : c.2 = n.perms) (uniform : ∀ k, c.1.Covers k → chunkPerms f k = some c.2)
    (start : d.startAddress = back.startAddress) (limit : d.limitAddress = c.1.limitAddress)
    (first : ∀ k, back.Covers k → d.byteAt k = back.byteAt k)
    (second : ∀ k, c.1.Covers k → d.byteAt k = c.1.byteAt k) :
    Merged f (done ++ [c]) { n with memoryBytes := n.memoryBytes.dropLast ++ [d] } := by
  have eq : n.memoryBytes = n.memoryBytes.dropLast ++ [back] :=
    (List.dropLast_append_getLast? back last).symm
  have inBack : back ∈ n.memoryBytes := by rw [eq]; simp
  have sub : ∀ x ∈ n.memoryBytes.dropLast, x ∈ n.memoryBytes := fun x hx =>
    List.mem_of_mem_dropLast hx
  have halves : ∀ k, d.Covers k ↔ back.Covers k ∨ c.1.Covers k := by
    intro k
    have := back.start_lt_limit
    have := c.1.start_lt_limit
    simp only [MemoryBytes.Covers, start, limit]
    lia
  have uniformD : ∀ k, d.Covers k → chunkPerms f k = some n.perms := fun k hk => by
    rcases (halves k).mp hk with hk | hk
    · exact h.back back last k hk
    · exact perms ▸ uniform k hk
  have ordered : Ordered (n.memoryBytes.dropLast ++ [back]) := eq ▸ h.ordered
  obtain ⟨before, _, across⟩ := List.pairwise_append.mp ordered
  refine ⟨?_, fun x hx k hk => ?_, fun e he k hk => ?_, fun x hx => ?_, fun x hx => ?_⟩
  · refine List.pairwise_append.mpr ⟨before, by simp, fun x hx y hy => ?_⟩
    obtain rfl := List.mem_singleton.mp hy
    exact (across x hx back (by simp)).trans start.ge
  · rcases List.mem_append.mp hx with hx | hx
    · obtain ⟨e, he, both⟩ := h.same x (sub x hx) k hk
      exact ⟨e, by simp [he], both⟩
    · obtain rfl := List.mem_singleton.mp hx
      rcases (halves k).mp hk with hk | hk
      · obtain ⟨e, he, cover, value⟩ := h.same back inBack k hk
        exact ⟨e, by simp [he], cover, (first k hk).trans value⟩
      · exact ⟨c, by simp, hk, second k hk⟩
  · rcases List.mem_append.mp he with he | he
    · obtain ⟨x, hx, cover⟩ := h.all e he k hk
      rw [eq] at hx
      rcases List.mem_append.mp hx with hx | hx
      · exact ⟨x, by simp [hx], cover⟩
      · obtain rfl := List.mem_singleton.mp hx
        exact ⟨d, by simp, (halves k).mpr (.inl cover)⟩
    · obtain rfl := List.mem_singleton.mp he
      exact ⟨d, by simp, (halves k).mpr (.inr hk)⟩
  · rcases List.mem_append.mp hx with hx | hx
    · exact h.uniform x (sub x hx)
    · obtain rfl := List.mem_singleton.mp hx
      exact ⟨n.perms, uniformD⟩
  · rw [List.getLast?_concat, Option.some.injEq] at hx
    exact hx ▸ uniformD

theorem addChunk_merged (h : Merged f done n)
    (after : ∀ e ∈ done, e.1.limitAddress ≤ c.1.startAddress)
    (uniform : ∀ k, c.1.Covers k → chunkPerms f k = some c.2) :
    ∃ n', addChunk n c = some n' ∧ Merged f (done ++ [c]) n' := by
  unfold addChunk
  cases last : n.memoryBytes.getLast? with
  | none => exact ⟨_, rfl, h.push after uniform⟩
  | some back =>
    by_cases join : c.1.startAddress = back.limitAddress ∧ c.2 = n.perms
    · obtain ⟨d, append, start, limit, first, second⟩ := MemoryBytes.appendBytes_some join.1
      refine ⟨{ n with memoryBytes := n.memoryBytes.dropLast ++ [d] }, ?_,
        h.extend last join.1 join.2 uniform start limit first second⟩
      simp [join, append]
    · exact ⟨_, by simp only [if_neg join], h.push after uniform⟩

/-- Ordered bytes that are cut where the permissions change, and nowhere else. -/
structure Normal (f : PermsMap) (l : List MemoryBytes) : Prop where
  ordered : Ordered l
  uniform : ∀ b ∈ l, ∃ p, ∀ k, b.Covers k → chunkPerms f k = some p
  apart : l.Pairwise fun b c => b.limitAddress = c.startAddress →
    chunkPerms f b.startAddress ≠ chunkPerms f c.startAddress

theorem addChunk_apart {n' : Normalized} (h : Merged f done n)
    (apart : n.memoryBytes.Pairwise fun b c => b.limitAddress = c.startAddress →
      chunkPerms f b.startAddress ≠ chunkPerms f c.startAddress)
    (after : ∀ e ∈ done, e.1.limitAddress ≤ c.1.startAddress)
    (uniform : ∀ k, c.1.Covers k → chunkPerms f k = some c.2) (run : addChunk n c = some n') :
    n'.memoryBytes.Pairwise fun b c => b.limitAddress = c.startAddress →
      chunkPerms f b.startAddress ≠ chunkPerms f c.startAddress := by
  unfold addChunk at run
  cases last : n.memoryBytes.getLast? with
  | none =>
    obtain rfl : _ = n' := by simpa [last] using run
    simp [List.getLast?_eq_none_iff.mp last]
  | some back =>
    have eq : n.memoryBytes = n.memoryBytes.dropLast ++ [back] :=
      (List.dropLast_append_getLast? back last).symm
    have inBack : back ∈ n.memoryBytes := by rw [eq]; simp
    have ordered : Ordered (n.memoryBytes.dropLast ++ [back]) := eq ▸ h.ordered
    simp only [last] at run
    split at run
    · next join =>
      obtain ⟨d, append, start, -⟩ := MemoryBytes.appendBytes_some join.1
      obtain rfl : _ = n' := by simpa [append] using run
      rw [eq] at apart
      obtain ⟨before, -, across⟩ := List.pairwise_append.mp apart
      apply List.pairwise_append.mpr
      refine ⟨before, by simp, fun x hx y hy => ?_⟩
      obtain rfl := List.mem_singleton.mp hy
      rw [start]
      exact across x hx back (by simp)
    · next stays =>
      obtain rfl := Option.some.inj run
      apply List.pairwise_append.mpr
      refine ⟨apart, by simp, fun x hx y hy touch => ?_⟩
      obtain rfl := List.mem_singleton.mp hy
      -- only the last element touches the new one
      have isBack : x = back := by
        rw [eq] at hx
        rcases List.mem_append.mp hx with hx | hx
        · have := (List.pairwise_append.mp ordered).2.2 x hx back (by simp)
          have := h.limit_le after inBack
          have := back.start_lt_limit
          order
        · exact List.mem_singleton.mp hx
      subst isBack
      rw [h.back x last _ x.covers_start, uniform _ c.1.covers_start, ne_eq, Option.some.injEq]
      intro same
      exact stays ⟨touch.symm, same.symm⟩

/-- The chunks of ordered bytes, one list after the other. -/
theorem splitAll_run (hm : m.Represents f) (proper : f.Proper)
    (bounded : ∀ k, (f k).isSome → k < kMaxAddress) {l : List MemoryBytes} (ordered : Ordered l)
    (mapped : ∀ b ∈ l, ∀ k, b.Covers k → (f k).isSome) :
    ∃ cs, l.mapM (fun b => splitChunks m b b.byteValues.length b.startAddress) = some cs ∧
      Ordered (cs.flatten.map Prod.fst) ∧ (∀ c ∈ cs.flatten, ∃ b ∈ l, IsChunk f b c) ∧
      ∀ b ∈ l, ∀ k, b.Covers k → ∃ c ∈ cs.flatten, c.1.Covers k := by
  obtain ⟨cs, run, rel⟩ := mapM_run (l := l)
    (f := fun b => splitChunks m b b.byteValues.length b.startAddress)
    (R := fun b cs => Ordered (cs.map Prod.fst) ∧ (∀ c ∈ cs, IsChunk f b c) ∧
      ∀ k, b.Covers k → ∃ c ∈ cs, c.1.Covers k) fun b hb => by
    obtain ⟨cs, run, ordered, chunks, all⟩ :=
      splitChunks_run (b := b) hm proper bounded (mapped b hb) le_rfl le_rfl
    exact ⟨cs, run, ordered, fun c hc => (chunks c hc).1, fun k hk => all k hk.1 hk.2⟩
  refine ⟨cs, run, ?_, fun c hc => ?_, fun b hb k hk => ?_⟩
  · rw [Ordered, List.map_flatten, List.pairwise_flatten]
    constructor
    · intro r hr
      obtain ⟨c, hc, rfl⟩ := List.mem_map.mp hr
      obtain ⟨b, _, ordered, _⟩ := forall₂_mem rel hc
      exact ordered
    · rw [List.pairwise_map]
      refine forall₂_pairwise rel ordered fun {a b ca cb} ha hb le x hx y hy => ?_
      obtain ⟨c, hc, rfl⟩ := List.mem_map.mp hx
      obtain ⟨d, hd, rfl⟩ := List.mem_map.mp hy
      exact ((ha.2.1 c hc).high.trans le).trans (hb.2.1 d hd).low
  · obtain ⟨part, hpart, hc⟩ := List.mem_flatten.mp hc
    obtain ⟨b, hb, _, chunks, _⟩ := forall₂_mem rel hpart
    exact ⟨b, hb, chunks c hc⟩
  · obtain ⟨part, hpart, _, _, all⟩ := forall₂_mem_left rel hb
    obtain ⟨c, hc, cover⟩ := all k hk
    exact ⟨c, List.mem_flatten.mpr ⟨part, hpart, hc⟩, cover⟩

/-- Normalized bytes have the same contents, and come in their normal form. -/
theorem normalizeBytes_normal (hm : m.Represents f) (proper : f.Proper)
    (bounded : ∀ k, (f k).isSome → k < kMaxAddress) {l : List MemoryBytes} {w : BytesMap}
    (hl : Contents l w) (mapped : ∀ k, (w k).isSome → (f k).isSome) :
    ∃ l', normalizeBytes m l = some l' ∧ Contents l' w ∧ Normal f l' := by
  have sorted := hl.perm (List.perm_insertionSort (fun x y : MemoryBytes => y.less x = false) l).symm
  have ordered := sorted_ordered hl.disjoint
  obtain ⟨cs, split, orderedChunks, chunks, all⟩ := splitAll_run hm proper bounded ordered
    fun b hb k hk => mapped k (sorted.isSome_iff.mpr ⟨b, hb, hk⟩)
  obtain ⟨n, merge, hn, apart⟩ := foldlM_run (l := cs.flatten) (f := addChunk)
    (s := Normalized.mk [] MemoryPerms.none)
    (P := fun done n => Merged f done n ∧ n.memoryBytes.Pairwise fun b c =>
      b.limitAddress = c.startAddress → chunkPerms f b.startAddress ≠ chunkPerms f c.startAddress)
    ⟨⟨.nil, by simp, by simp, by simp, by simp⟩, .nil⟩ fun done c rest n hl hn => by
      have after : ∀ e ∈ done, e.1.limitAddress ≤ c.1.startAddress := fun e he => by
        rw [hl, List.map_append, List.map_cons] at orderedChunks
        exact (List.pairwise_append.mp orderedChunks).2.2 e.1 (List.mem_map_of_mem he) c.1 (by simp)
      obtain ⟨b, _, hc⟩ := chunks c (by simp [hl])
      obtain ⟨n', run, merged⟩ := addChunk_merged hn.1 after hc.uniform
      exact ⟨n', run, merged, addChunk_apart hn.1 hn.2 after hc.uniform run⟩
  refine ⟨n.memoryBytes, by simp [normalizeBytes, split, merge], ?_, hn.ordered, hn.uniform, apart⟩
  refine sorted.of_same hn.ordered.disjoint (fun d hd k hk => ?_) fun b hb k hk => ?_
  · obtain ⟨c, hc, cover, value⟩ := hn.same d hd k hk
    obtain ⟨b, hb, chunk⟩ := chunks c hc
    exact ⟨b, hb, ⟨chunk.low.trans cover.1, cover.2.trans_le chunk.high⟩,
      value.trans (chunk.same k cover)⟩
  · obtain ⟨c, hc, cover⟩ := all b hb k hk
    exact hn.all c hc k cover

/-- **Normalizing keeps what bytes say**: the elements come in order, have the same
contents, and each lies in memory with the same permissions. -/
theorem normalizeBytes_contents (hm : m.Represents f) (proper : f.Proper)
    (bounded : ∀ k, (f k).isSome → k < kMaxAddress) {l : List MemoryBytes} {w : BytesMap}
    (hl : Contents l w) (mapped : ∀ k, (w k).isSome → (f k).isSome) :
    ∃ l', normalizeBytes m l = some l' ∧ Ordered l' ∧ Contents l' w ∧
      ∀ b ∈ l', ∃ p, ∀ k, b.Covers k → chunkPerms f k = some p := by
  obtain ⟨l', run, contents, normal⟩ := normalizeBytes_normal hm proper bounded hl mapped
  exact ⟨l', run, normal.ordered, contents, normal.uniform⟩

end SnapshotMemory

end Silifuzz
