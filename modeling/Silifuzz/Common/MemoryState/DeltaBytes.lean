import Silifuzz.Common.MemoryState.Calls
import Silifuzz.Common.Snapshot.Pieces

/-!
# The bytes that would change

`DeltaMemoryBytes` of `common/memory_state.cc`: the parts of given bytes that a state does
not know to be there already.

* `Chunks`: what the scan has passed through up to an address; `grow_chunks` and
  `Chunks.skip` for the two kinds of bytes, `deltaLoop_run` for the whole scan;
* `deltaMemoryBytes_exact`: the parts that are returned, and that they do as much.
-/

namespace Silifuzz

open Segments RangeMap Loops

namespace MemoryState

/-- The matching bytes after a differing one that are enough to start a new chunk. -/
def kMinSkipOverBytes : Nat := 8 * 2 - 1

/-- The candidate `chunk`, and `result` before it. -/
structure DeltaChunks where
  chunk : Option MemoryBytes
  result : List MemoryBytes

/-- The `size` bytes at `addr`. -/
def bytesAt (bytes : MemoryBytes) (addr : Address) (size : Nat) : ByteData :=
  (bytes.byteValues.drop (addr - bytes.startAddress)).take size

def growResultChunk (bytes : MemoryBytes) (addr : Address) (size : Nat) (g : DeltaChunks) :
    Option DeltaChunks :=
  match g.chunk with
  | none => do
    let chunk ← MemoryBytes.make addr (bytesAt bytes addr size)
    return { g with chunk := some chunk }
  | some chunk =>
    if chunk.limitAddress = addr then do
      let chunk ← chunk.appendBytes (bytesAt bytes addr size)
      return { g with chunk := some chunk }
    else if addr - chunk.limitAddress < kMinSkipOverBytes then do
      let limit := chunk.limitAddress
      let chunk ← chunk.appendBytes (bytesAt bytes limit (addr - limit + size))
      return { g with chunk := some chunk }
    else do
      let next ← MemoryBytes.make addr (bytesAt bytes addr size)
      return ⟨some next, g.result ++ [chunk]⟩

/-- Passes the byte at `addr` through, unless it is there already. -/
def passThrough (bytes : MemoryBytes) (addr : Address) (oldByte : Option (BitVec 8))
    (g : DeltaChunks) : Option DeltaChunks :=
  if oldByte ≠ some (bytes.byteAt addr) then growResultChunk bytes addr 1 g else some g

/-- The loop from `addr` on, with `it` the position of the range at or after it. The number of
bytes bounds the number of turns. -/
def deltaLoop (bytes : MemoryBytes) (m : RangeMap Address ByteData) (endIt : Nat) :
    Nat → Address → Nat → DeltaChunks → Option DeltaChunks
  | 0, addr, _, g => if addr < bytes.limitAddress then none else some g
  | fuel + 1, addr, it, g =>
    if addr < bytes.limitAddress then do
      let i ← m[it]?
      let oldByte :=
        if i.start ≤ addr ∧ addr < i.limit then some (i.value.getD (addr - i.start) 0) else none
      let g ← passThrough bytes addr oldByte g
      let addr := addr + 1
      if i.limit ≤ addr then
        if it + 1 = endIt then
          let tailSize := bytes.byteValues.length - (addr - bytes.startAddress)
          if tailSize ≠ 0 then growResultChunk bytes addr tailSize g else some g
        else deltaLoop bytes m endIt fuel addr (it + 1) g
      else deltaLoop bytes m endIt fuel addr it g
    else some g

def deltaMemoryBytes (s : MemoryState) (bytes : MemoryBytes) : Option (List MemoryBytes) :=
  if s.writtenMemoryBytes.isEmpty then some [bytes]
  else do
    let iters ← RangeMap.find s.writtenMemoryBytes bytes.startAddress bytes.limitAddress
    if iters.1 = s.writtenMemoryBytes.length then return [bytes]
    let g ← deltaLoop bytes s.writtenMemoryBytes iters.2 bytes.byteValues.length
      bytes.startAddress iters.1 ⟨none, []⟩
    return g.result ++ g.chunk.toList

/-- The byte that the state knows at an address. -/
def knownByte (s : MemoryState) (address : Address) : Option (BitVec 8) :=
  (RangeMap.findAt s.writtenMemoryBytes address).map fun i =>
    i.value.getD (address - i.start) 0

/-- The chunks up to `addr`, the candidate last. -/
def DeltaChunks.all (g : DeltaChunks) : List MemoryBytes := g.result ++ g.chunk.toList

/-- The parts of the bytes before `addr` that `differs` needs. -/
structure Chunks (bytes : MemoryBytes) (differs : Address → Prop) (addr : Address)
    (l : List MemoryBytes) : Prop where
  within : ∀ c ∈ l, bytes.startAddress ≤ c.startAddress ∧ c.limitAddress ≤ addr ∧
    differs c.startAddress ∧ ∀ k, c.Covers k → c.byteAt k = bytes.byteAt k
  apart : l.IsChain fun c d => c.limitAddress + kMinSkipOverBytes ≤ d.startAddress
  covered : ∀ k, bytes.startAddress ≤ k → k < addr → differs k → ∃ c ∈ l, c.Covers k

variable {bytes : MemoryBytes} {differs : Address → Prop} {addr : Address} {size : Nat}
  {g : DeltaChunks} {l : List MemoryBytes} {c d : MemoryBytes}

theorem bytesAt_make (low : bytes.startAddress ≤ addr) (pos : 0 < size)
    (inside : addr + size ≤ bytes.limitAddress) :
    ∃ c, MemoryBytes.make addr (bytesAt bytes addr size) = some c ∧ c.startAddress = addr ∧
      c.limitAddress = addr + size ∧ ∀ k, c.Covers k → c.byteAt k = bytes.byteAt k := by
  obtain ⟨offset, rfl⟩ := Nat.exists_eq_add_of_le low
  have length := bytes.length_eq
  have within : offset + size ≤ bytes.byteValues.length := by lia
  obtain ⟨-, c, made, first, last, same⟩ := MemoryBytes.part_some pos within
  refine ⟨c, ?_, first, last, same⟩
  rw [bytesAt, Nat.add_sub_cancel_left]
  exact made

theorem bytesAt_append (low : bytes.startAddress ≤ c.limitAddress) (pos : 0 < size)
    (inside : c.limitAddress + size ≤ bytes.limitAddress)
    (values : ∀ k, c.Covers k → c.byteAt k = bytes.byteAt k) :
    ∃ d, c.appendBytes (bytesAt bytes c.limitAddress size) = some d ∧
      d.startAddress = c.startAddress ∧ d.limitAddress = c.limitAddress + size ∧
      ∀ k, d.Covers k → d.byteAt k = bytes.byteAt k := by
  obtain ⟨e, made, first, last, same⟩ := bytesAt_make low pos inside
  obtain ⟨-, content⟩ := MemoryBytes.make_eq made
  obtain ⟨d, append, start, limit, left, right⟩ := MemoryBytes.appendBytes_some first
  refine ⟨d, content ▸ append, start, limit.trans last, fun k hk => ?_⟩
  by_cases old : k < c.limitAddress
  · have inC : c.Covers k := ⟨start ▸ hk.1, old⟩
    rw [left k inC, values k inC]
  · have inE : e.Covers k := ⟨by lia, limit ▸ hk.2⟩
    rw [right k inE, same k inE]

theorem chunks_start : Chunks bytes differs bytes.startAddress [] where
  within := by simp
  apart := .nil
  covered k low high := absurd low (not_le.mpr high)

theorem Chunks.skip (h : Chunks bytes differs addr l) (same : ¬ differs addr) :
    Chunks bytes differs (addr + 1) l where
  within c hc := by
    obtain ⟨low, high, rest⟩ := h.within c hc
    exact ⟨low, high.trans (Nat.le_succ _), rest⟩
  apart := h.apart
  covered k low high differing := by
    have before : k ≠ addr := fun eq => same (eq ▸ differing)
    exact h.covered k low (by lia) differing

/-- The last chunk continued up to `limit`. -/
theorem Chunks.extend {limit : Address} (h : Chunks bytes differs addr (l ++ [c]))
    (start : d.startAddress = c.startAddress) (last : d.limitAddress = limit) (more : addr ≤ limit)
    (same : ∀ k, d.Covers k → d.byteAt k = bytes.byteAt k) :
    Chunks bytes differs limit (l ++ [d]) := by
  obtain ⟨low, high, differing, -⟩ := h.within c (by simp)
  constructor
  · intro e he
    rcases List.mem_append.mp he with he | he
    · obtain ⟨low, high, rest⟩ := h.within e (by simp [he])
      exact ⟨low, high.trans more, rest⟩
    · obtain rfl := List.mem_singleton.mp he
      exact ⟨start ▸ low, last.le, start ▸ differing, same⟩
  · obtain ⟨before, -, across⟩ := List.isChain_append.mp h.apart
    refine List.isChain_append.mpr ⟨before, .singleton _, fun x hx y hy => ?_⟩
    obtain rfl : d = y := by simpa using hy
    rw [start]
    exact across x hx c (by simp)
  · intro k from_start to_limit hk
    by_cases inD : d.startAddress ≤ k
    · exact ⟨d, by simp, inD, last ▸ to_limit⟩
    · have before : k < addr := by
        have := c.start_lt_limit
        lia
      obtain ⟨e, he, cover⟩ := h.covered k from_start before hk
      rcases List.mem_append.mp he with he | he
      · exact ⟨e, by simp [he], cover⟩
      · obtain rfl := List.mem_singleton.mp he
        exact absurd (start.trans_le cover.1) inD

/-- A chunk of its own, far enough from the last one. -/
theorem Chunks.push (h : Chunks bytes differs addr l) (new : differs addr)
    (low : bytes.startAddress ≤ addr) (start : c.startAddress = addr)
    (far : ∀ d, l.getLast? = some d → d.limitAddress + kMinSkipOverBytes ≤ addr)
    (same : ∀ k, c.Covers k → c.byteAt k = bytes.byteAt k) :
    Chunks bytes differs c.limitAddress (l ++ [c]) := by
  have more := c.start_lt_limit
  constructor
  · intro e he
    rcases List.mem_append.mp he with he | he
    · obtain ⟨low, high, rest⟩ := h.within e he
      exact ⟨low, by lia, rest⟩
    · obtain rfl := List.mem_singleton.mp he
      exact ⟨by lia, le_rfl, start ▸ new, same⟩
  · refine List.isChain_append.mpr ⟨h.apart, .singleton _, fun x hx y hy => ?_⟩
    obtain rfl : c = y := by simpa using hy
    rw [start]
    exact far x hx
  · intro k from_start to_limit hk
    by_cases before : k < addr
    · obtain ⟨e, he, cover⟩ := h.covered k from_start before hk
      exact ⟨e, by simp [he], cover⟩
    · exact ⟨c, by simp, by lia, to_limit⟩

/-- Bytes passed through continue the candidate or, after enough matching bytes, start a
new one. -/
theorem grow_chunks (h : Chunks bytes differs addr g.all) (fresh : g.chunk = none → g.result = [])
    (low : bytes.startAddress ≤ addr) (pos : 0 < size) (inside : addr + size ≤ bytes.limitAddress)
    (new : differs addr) : ∃ g', growResultChunk bytes addr size g = some g' ∧
      Chunks bytes differs (addr + size) g'.all ∧ (g'.chunk = none → g'.result = []) := by
  obtain ⟨next, made, start, limit, same⟩ := bytesAt_make low pos inside
  unfold growResultChunk
  unfold DeltaChunks.all at h
  cases hchunk : g.chunk with
  | none =>
    rw [hchunk, fresh hchunk] at h
    refine ⟨{ g with chunk := some next }, by simp [made], ?_, by simp⟩
    rw [← limit, DeltaChunks.all, fresh hchunk]
    exact h.push new low start (by simp) same
  | some chunk =>
    rw [hchunk] at h
    obtain ⟨before, high, -, values⟩ := h.within chunk (by simp)
    have lt := chunk.start_lt_limit
    by_cases touch : chunk.limitAddress = addr
    · obtain ⟨d, append, first, last, whole⟩ :=
        bytesAt_append (c := chunk) (by lia) pos (by lia) values
      rw [touch] at append
      refine ⟨{ g with chunk := some d }, by simp [touch, append], ?_, by simp⟩
      exact h.extend first (by lia) (by lia) whole
    by_cases near : addr - chunk.limitAddress < kMinSkipOverBytes
    · have more : 0 < addr - chunk.limitAddress + size := by lia
      obtain ⟨d, append, first, last, whole⟩ :=
        bytesAt_append (c := chunk) (by lia) more (by lia) values
      refine ⟨{ g with chunk := some d }, by simp [touch, near, append], ?_, by simp⟩
      exact h.extend first (by lia) (by lia) whole
    · refine ⟨⟨some next, g.result ++ [chunk]⟩, by simp [touch, near, made], ?_, by simp⟩
      rw [← limit]
      refine h.push new low start (fun d hd => ?_) same
      obtain rfl : chunk = d := by simpa using hd
      lia

section
variable {m : RangeMap Address ByteData} {b : BytesMap} {endIt it : Nat}
  {i : Segment Address ByteData}

/-- The loop stands at `addr`, and the range `i` at `it` is the one at or after it. -/
structure At (m : RangeMap Address ByteData) (bytes : MemoryBytes) (endIt : Nat) (addr : Address)
    (it : Nat) (i : Segment Address ByteData) : Prop where
  entry : m[it]? = some i
  before : ∀ t ∈ m.take it, t.limit ≤ addr
  ahead : addr < i.limit
  inside : it < endIt ∨ bytes.limitAddress ≤ i.start

theorem At.split (h : At m bytes endIt addr it i) : m = m.take it ++ i :: m.drop (it + 1) := by
  obtain ⟨below, rfl⟩ := List.getElem?_eq_some_iff.mp h.entry
  exact (List.take_append_drop it m).symm.trans (by rw [List.drop_eq_getElem_cons below])

/-- `old_byte` is what is known at the address. -/
theorem At.old_eq (h : At m bytes endIt addr it i) (hm : memoryBytes.Represents m b) :
    (if i.start ≤ addr ∧ addr < i.limit then some (i.value.getD (addr - i.start) 0) else none) =
      b addr := by
  rw [← hm.reads]
  have sep := h.split ▸ hm.separated
  by_cases here : i.start ≤ addr ∧ addr < i.limit
  · rw [if_pos here, Lawful.lookup, lookup_mem hm.separated (List.mem_of_getElem? h.entry) here]
    rfl
  · have early : addr < i.start := by
      by_contra late
      exact here ⟨not_lt.mp late, h.ahead⟩
    have after := (separated_cons.mp (separated_append.mp sep).2.1).2.1
    rw [if_neg here, Lawful.lookup, h.split]
    symm
    refine lookup_none fun t ht hk => ?_
    rcases List.mem_append.mp ht with ht | ht
    · exact absurd hk.2 (not_lt.mpr (h.before t ht))
    · rcases List.mem_cons.mp ht with rfl | ht
      · exact here hk
      · have := after t ht
        have := h.ahead
        exact absurd (hk.1.trans_lt early) (by order)

/-- Behind the last range found nothing is known. -/
theorem At.tail (h : At m bytes endIt addr it i) (hm : memoryBytes.Represents m b)
    (later : ∀ t ∈ m.drop endIt, bytes.limitAddress ≤ t.start) (last : it + 1 = endIt)
    {k : Address} (past : i.limit ≤ k) (high : k < bytes.limitAddress) : b k = none := by
  rw [← hm.reads, Lawful.lookup, h.split]
  refine lookup_none fun t ht hk => ?_
  rcases List.mem_append.mp ht with ht | ht
  · have := h.before t ht
    have := h.ahead
    lia
  · rcases List.mem_cons.mp ht with rfl | ht
    · lia
    · rw [last] at ht
      have := later t ht
      lia

/-- Past the end of a range that is not the last one the next range follows. -/
theorem At.next (h : At m bytes endIt addr it i) (hm : memoryBytes.Represents m b)
    (bound : endIt ≤ m.length) (more : addr < bytes.limitAddress) (past : i.limit ≤ addr + 1)
    (last : it + 1 ≠ endIt) : ∃ j, At m bytes endIt (addr + 1) (it + 1) j := by
  have low := hm.separated.1 i (List.mem_of_getElem? h.entry)
  have := h.ahead
  have below : it + 1 < endIt := by
    rcases h.inside with inside | inside
    · lia
    · lia
  obtain ⟨j, hj⟩ : ∃ j, m[it + 1]? = some j := ⟨_, List.getElem?_eq_getElem (by lia)⟩
  have inM : j ∈ m.drop (it + 1) := List.mem_of_getElem? (i := 0) (by simpa using hj)
  have after := (separated_cons.mp (separated_append.mp (h.split ▸ hm.separated)).2.1).2.1 j inM
  have nonempty := hm.separated.1 j (List.mem_of_getElem? hj)
  refine ⟨j, hj, fun t ht => ?_, by lia, .inl below⟩
  obtain ⟨here, -⟩ := List.getElem?_eq_some_iff.mp h.entry
  rw [List.take_succ_eq_append_getElem here] at ht
  rcases List.mem_append.mp ht with ht | ht
  · exact (h.before t ht).trans (Nat.le_succ _)
  · have entry := h.entry
    rw [List.getElem?_eq_getElem here, Option.some.injEq] at entry
    obtain rfl := List.mem_singleton.mp ht
    rw [entry]
    exact past

/-- The scan from `addr` on. -/
theorem deltaLoop_run (hm : memoryBytes.Represents m b) (bound : endIt ≤ m.length)
    (later : ∀ t ∈ m.drop endIt, bytes.limitAddress ≤ t.start) {fuel : Nat}
    (enough : bytes.limitAddress ≤ addr + fuel) (low : bytes.startAddress ≤ addr)
    (most : addr ≤ bytes.limitAddress) (place : At m bytes endIt addr it i)
    (h : Chunks bytes (fun k => b k ≠ some (bytes.byteAt k)) addr g.all)
    (fresh : g.chunk = none → g.result = []) :
    ∃ g', deltaLoop bytes m endIt fuel addr it g = some g' ∧
      Chunks bytes (fun k => b k ≠ some (bytes.byteAt k)) bytes.limitAddress g'.all := by
  induction fuel generalizing addr it i g with
  | zero =>
    have done : addr = bytes.limitAddress := le_antisymm most enough
    exact ⟨g, by simp [deltaLoop, done], done ▸ h⟩
  | succ fuel ih =>
    by_cases more : addr < bytes.limitAddress
    · obtain ⟨g₁, turn, h₁, fresh₁⟩ : ∃ g₁, passThrough bytes addr (b addr) g = some g₁ ∧
          Chunks bytes (fun k => b k ≠ some (bytes.byteAt k)) (addr + 1) g₁.all ∧
          (g₁.chunk = none → g₁.result = []) := by
        unfold passThrough
        by_cases differing : b addr ≠ some (bytes.byteAt addr)
        · rw [if_pos differing]
          exact grow_chunks h fresh low Nat.one_pos more differing
        · rw [if_neg differing]
          exact ⟨g, rfl, h.skip differing, fresh⟩
      simp only [deltaLoop, if_pos more, place.entry, place.old_eq hm, Option.bind_eq_bind,
        Option.bind_some, turn]
      by_cases past : i.limit ≤ addr + 1
      · rw [if_pos past]
        by_cases last : it + 1 = endIt
        · rw [if_pos last]
          have length := bytes.length_eq
          have tail : addr + 1 + (bytes.byteValues.length - (addr + 1 - bytes.startAddress)) =
              bytes.limitAddress := by lia
          by_cases rest : bytes.byteValues.length - (addr + 1 - bytes.startAddress) ≠ 0
          · rw [if_pos rest]
            have unknown := place.tail hm later last past (by lia)
            obtain ⟨g₂, run, h₂, -⟩ := grow_chunks h₁ fresh₁ (by lia) (Nat.pos_of_ne_zero rest)
              tail.le (by rw [unknown]; simp)
            exact ⟨g₂, run, tail ▸ h₂⟩
          · have done : addr + 1 = bytes.limitAddress := by lia
            rw [if_neg rest]
            exact ⟨g₁, rfl, done ▸ h₁⟩
        · rw [if_neg last]
          obtain ⟨j, next⟩ := place.next hm bound more past last
          exact ih (by lia) (by lia) more next h₁ fresh₁
      · rw [if_neg past]
        have next : At m bytes endIt (addr + 1) it i := ⟨place.entry,
          fun t ht => (place.before t ht).trans (Nat.le_succ _), not_le.mp past, place.inside⟩
        exact ih (by lia) (by lia) more next h₁ fresh₁
    · have done : addr = bytes.limitAddress := le_antisymm most (not_lt.mp more)
      exact ⟨g, by simp [deltaLoop, more], done ▸ h⟩

end

section
variable {s : MemoryState} {f : PermsMap} {w : Address → Bool} {b : BytesMap}

/-- Bytes none of which are known are one chunk. -/
theorem chunks_whole (unknown : ∀ k, bytes.Covers k → differs k) :
    Chunks bytes differs bytes.limitAddress [bytes] where
  within c hc := by
    obtain rfl := List.mem_singleton.mp hc
    exact ⟨le_rfl, le_rfl, unknown _ c.covers_start, fun _ _ => rfl⟩
  apart := .singleton _
  covered k low high _ := ⟨bytes, by simp, low, high⟩

/-- The scan passes through what is unknown or differs. -/
theorem deltaMemoryBytes_chunks (hs : s.Bytes w b) (bytes : MemoryBytes) :
    ∃ l, s.deltaMemoryBytes bytes = some l ∧
      Chunks bytes (fun k => b k ≠ some (bytes.byteAt k)) bytes.limitAddress l := by
  have hm := hs.stored
  unfold deltaMemoryBytes
  by_cases none : s.writtenMemoryBytes.isEmpty = true
  · rw [if_pos none]
    refine ⟨[bytes], rfl, chunks_whole fun k _ => ?_⟩
    rw [← hm.reads, Lawful.lookup, List.isEmpty_iff.mp none]
    simp
  rw [if_neg none]
  obtain ⟨a, found, rest, parts, split, run⟩ := find_split hm.separated bytes.start_lt_limit
  simp only [run, Option.bind_eq_bind, Option.bind_some]
  by_cases past : a.length = s.writtenMemoryBytes.length
  · rw [if_pos past]
    refine ⟨[bytes], rfl, chunks_whole fun k hk => ?_⟩
    have all : s.writtenMemoryBytes = a := by
      rw [parts] at past ⊢
      simp only [List.length_append] at past
      obtain rfl : found = [] := List.eq_nil_of_length_eq_zero (by lia)
      obtain rfl : rest = [] := by simpa using past
      simp
    rw [← hm.reads, Lawful.lookup, all,
      lookup_before fun t ht => (split.before t ht).trans hk.1]
    simp
  rw [if_neg past]
  have bound : a.length + found.length ≤ s.writtenMemoryBytes.length := by
    rw [parts]
    simp only [List.length_append]
    lia
  have later : ∀ t ∈ s.writtenMemoryBytes.drop (a.length + found.length),
      bytes.limitAddress ≤ t.start := by
    intro t ht
    rw [parts, ← List.append_assoc, ← List.length_append, List.drop_left] at ht
    exact split.after t ht
  obtain ⟨i, place⟩ : ∃ i, At s.writtenMemoryBytes bytes (a.length + found.length)
      bytes.startAddress a.length i := by
    have before : ∀ t ∈ s.writtenMemoryBytes.take a.length, t.limit ≤ bytes.startAddress := by
      intro t ht
      rw [parts, List.take_left] at ht
      exact split.before t ht
    have entry : s.writtenMemoryBytes[a.length]? = (found ++ rest)[0]? := by
      rw [parts, List.getElem?_append_right le_rfl, Nat.sub_self]
    cases found with
    | cons i found =>
      exact ⟨i, entry, before, (split.within i (by simp)).1, .inl (by simp)⟩
    | nil =>
      cases rest with
      | nil => exact absurd (by rw [parts]; simp) past
      | cons i rest =>
        have after := split.after i (by simp)
        have nonempty := hm.separated.1 i (by rw [parts]; simp)
        have := bytes.start_lt_limit
        exact ⟨i, entry, before, by lia, .inr after⟩
  have enough : bytes.limitAddress ≤ bytes.startAddress + bytes.byteValues.length := le_rfl
  obtain ⟨g, scan, chunks⟩ := deltaLoop_run (g := ⟨Option.none, []⟩) hm bound later enough le_rfl
    bytes.start_lt_limit.le place chunks_start fun _ => rfl
  exact ⟨g.all, by rw [scan]; rfl, chunks⟩

theorem Chunks.ordered {limit : Address} (h : Chunks bytes differs limit l) : Ordered l := by
  have trans : IsTrans MemoryBytes fun c d => c.limitAddress ≤ d.startAddress :=
    ⟨fun c d e first second => (first.trans d.start_lt_limit.le).trans second⟩
  apply List.isChain_iff_pairwise.mp
  exact h.apart.imp fun c d far => (Nat.le_add_right _ _).trans far

/-- Between two chunks that follow each other nothing differs. -/
theorem Chunks.gap {l₁ l₂ : List MemoryBytes}
    (h : Chunks bytes differs bytes.limitAddress (l₁ ++ c :: d :: l₂)) {k : Address}
    (low : c.limitAddress ≤ k) (high : k < d.startAddress) : ¬ differs k := by
  intro differing
  obtain ⟨first, -⟩ := h.within c (by simp)
  obtain ⟨-, last, -⟩ := h.within d (by simp)
  have hc := c.start_lt_limit
  have hd := d.start_lt_limit
  obtain ⟨e, he, cover⟩ := h.covered k (by lia) (by lia) differing
  obtain ⟨-, right, across⟩ := List.pairwise_append.mp h.ordered
  obtain ⟨-, right⟩ := List.pairwise_cons.mp right
  rcases List.mem_append.mp he with he | he
  · have := across e he c (by simp)
    exact absurd cover.2 (by lia)
  rcases List.mem_cons.mp he with rfl | he
  · exact absurd cover.2 (not_lt.mpr low)
  rcases List.mem_cons.mp he with rfl | he
  · exact absurd cover.1 (not_le.mpr high)
  · have := (List.pairwise_cons.mp right).1 e he
    exact absurd cover.1 (by lia)

theorem setMemoryBytes_map {s' : MemoryState} (run : s.setMemoryBytes bytes = some s') :
    s'.mappedMemoryMap = s.mappedMemoryMap := by
  obtain ⟨set, -, run⟩ := Option.bind_eq_some_iff.mp run
  obtain ⟨r, -, run⟩ := Option.bind_eq_some_iff.mp run
  obtain rfl := Option.some.inj run
  rfl

/-- Two states with the same mappings that know and have written the same. -/
theorem Bytes.unique {t : MemoryState} (hs : s.Bytes w b) (ht : t.Bytes w b)
    (maps : s.mappedMemoryMap = t.mappedMemoryMap) : s = t := by
  have written := hs.writtenSet.unique ht.writtenSet
  have stored := Lawful.Represents.unique memoryBytes_extensional hs.stored ht.stored
  cases s
  cases t
  simp_all

/-- Setting the chunks sets the bytes. -/
theorem Chunks.setMemoryBytes_eq (hs : s.Knows f w b)
    (h : Chunks bytes (fun k => b k ≠ some (bytes.byteAt k)) bytes.limitAddress l) :
    ∃ s', l.foldlM setMemoryBytes s = some s' ∧ s.setMemoryBytes bytes = some s' := by
  obtain ⟨s₁, run₁, -, map₁⟩ := foldlM_run (l := l) (f := setMemoryBytes) (s := s)
    (P := fun _ t => t.Holds f ∧ t.mappedMemoryMap = s.mappedMemoryMap) ⟨hs.toHolds, rfl⟩
    fun _ c _ t _ ht => by
      obtain ⟨t', run, holds⟩ := setMemoryBytes_holds ht.1 c
      exact ⟨t', run, holds, (setMemoryBytes_map run).trans ht.2⟩
  obtain ⟨s₂, run₂, -⟩ := setMemoryBytes_holds hs.toHolds bytes
  have h₁ := setEachBytes_bytes h.ordered.disjoint hs.toBytes run₁
  have h₂ := setMemoryBytes_bytes hs.toBytes run₂
  -- the chunks say what the bytes say where they are, and they are where it matters
  have chunk : ∀ k v, bytesIn l k = some v → bytes.Covers k ∧ v = bytes.byteAt k := by
    intro k v found
    obtain ⟨c, hc, value⟩ := Option.map_eq_some_iff.mp found
    have cover : c.Covers k := by simpa using List.find?_some hc
    obtain ⟨low, high, -, same⟩ := h.within c (List.mem_of_find?_eq_some hc)
    exact ⟨⟨low.trans cover.1, cover.2.trans_le high⟩, value ▸ same k cover⟩
  have missed : ∀ k, bytes.Covers k → bytesIn l k = none → b k = some (bytes.byteAt k) := by
    intro k hk absent
    by_contra differing
    obtain ⟨c, hc, cover⟩ := h.covered k hk.1 hk.2 differing
    rw [bytesIn, Option.map_eq_none_iff, List.find?_eq_none] at absent
    exact absent c hc (by simpa using cover)
  have equal : s₁ = s₂ := by
    refine Bytes.unique (h₁.congr (fun k => ?_) fun k => ?_) h₂
      (map₁.trans (setMemoryBytes_map run₂).symm)
    · by_cases hk : bytes.Covers k
      · cases found : bytesIn l k with
        | some v => simp [hk]
        | none => simp [hk, hs.storedWritten k (by rw [missed k hk found]; rfl)]
      · cases found : bytesIn l k with
        | some v => exact absurd (chunk k v found).1 hk
        | none => simp [hk]
    · by_cases hk : bytes.Covers k
      · cases found : bytesIn l k with
        | some v => simp [hk, (chunk k v found).2]
        | none => simp [hk, missed k hk found]
      · cases found : bytesIn l k with
        | some v => exact absurd (chunk k v found).1 hk
        | none => simp [hk]
  exact ⟨s₁, run₁, equal ▸ run₂⟩

theorem Bytes.knownByte_eq (hs : s.Bytes w b) (k : Address) : s.knownByte k = b k := by
  rw [← hs.stored.reads, knownByte, findAt_find hs.stored.separated]
  rfl

/-- **`DeltaMemoryBytes` returns the parts that matter.** They are sorted parts of the bytes,
each starts at a byte that is unknown or differs, all such bytes are in them, two of them have
enough matching bytes in between, and setting them does what setting all of the bytes does. -/
theorem deltaMemoryBytes_exact {P : MemoryState → Call → Prop} (h : Runs P s)
    (bytes : MemoryBytes) : ∃ l, s.deltaMemoryBytes bytes = some l ∧ Ordered l ∧
      (∀ c ∈ l, bytes.startAddress ≤ c.startAddress ∧ c.limitAddress ≤ bytes.limitAddress ∧
        (∀ k, c.Covers k → c.byteAt k = bytes.byteAt k) ∧
        s.knownByte c.startAddress ≠ some (bytes.byteAt c.startAddress)) ∧
      (∀ k, bytes.Covers k → s.knownByte k ≠ some (bytes.byteAt k) → ∃ c ∈ l, c.Covers k) ∧
      (∀ l₁ c d l₂, l = l₁ ++ c :: d :: l₂ →
        c.limitAddress + kMinSkipOverBytes ≤ d.startAddress ∧
        ∀ k, c.limitAddress ≤ k → k < d.startAddress →
          s.knownByte k = some (bytes.byteAt k)) ∧
      ∃ s', l.foldlM setMemoryBytes s = some s' ∧ s.setMemoryBytes bytes = some s' := by
  obtain ⟨f, w, b, hs, -⟩ := runs_knows h
  obtain ⟨l, run, chunks⟩ := deltaMemoryBytes_chunks hs.toBytes bytes
  simp only [hs.toBytes.knownByte_eq]
  refine ⟨l, run, chunks.ordered, fun c hc => ?_, fun k hk => chunks.covered k hk.1 hk.2,
    fun l₁ c d l₂ eq => ?_, chunks.setMemoryBytes_eq hs⟩
  · obtain ⟨low, high, new, same⟩ := chunks.within c hc
    exact ⟨low, high, same, new⟩
  · subst eq
    have apart := (List.isChain_append.mp chunks.apart).2.1
    refine ⟨(List.isChain_cons_cons.mp apart).1, fun k low high => ?_⟩
    by_contra differing
    exact chunks.gap low high differing

/-- Zeros, and bytes of which the first and the last differ from them. -/
def zerosAt : MemoryBytes := ⟨0x1000, List.replicate 20 0, by decide, by decide⟩

def firstAndLast : MemoryBytes := ⟨0x1000, [1] ++ List.replicate 16 0 ++ [1], by decide, by decide⟩

set_option maxRecDepth 10000 in
theorem deltaMemoryBytes_exact_zeros : ∃ s : MemoryState,
    s.deltaMemoryBytes firstAndLast =
      some [⟨0x1000, [1], by decide, by decide⟩, ⟨0x1011, [1], by decide, by decide⟩] ∧
    ∃ l, s.deltaMemoryBytes firstAndLast = some l ∧ Ordered l ∧
      (∀ c ∈ l, firstAndLast.startAddress ≤ c.startAddress ∧
        c.limitAddress ≤ firstAndLast.limitAddress ∧
        (∀ k, c.Covers k → c.byteAt k = firstAndLast.byteAt k) ∧
        s.knownByte c.startAddress ≠ some (firstAndLast.byteAt c.startAddress)) ∧
      (∀ k, firstAndLast.Covers k → s.knownByte k ≠ some (firstAndLast.byteAt k) →
        ∃ c ∈ l, c.Covers k) ∧
      (∀ l₁ c d l₂, l = l₁ ++ c :: d :: l₂ →
        c.limitAddress + kMinSkipOverBytes ≤ d.startAddress ∧
        ∀ k, c.limitAddress ≤ k → k < d.startAddress →
          s.knownByte k = some (firstAndLast.byteAt k)) ∧
      ∃ s', l.foldlM setMemoryBytes s = some s' ∧ s.setMemoryBytes firstAndLast = some s' := by
  have mapped : Runs (fun _ _ => True) _ :=
    .call (.setMemoryMapping knownPage) .empty rfl trivial rfl
  have written : Runs (fun _ _ => True) _ :=
    .call (.setMemoryBytes zerosAt) mapped rfl trivial rfl
  exact ⟨_, rfl, deltaMemoryBytes_exact written firstAndLast⟩

end

end MemoryState

end Silifuzz
