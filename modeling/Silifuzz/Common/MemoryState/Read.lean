import Silifuzz.Common.MemoryState.Calls

/-!
# Reading the bytes of a MemoryState

`num_written_bytes()` and `memory_bytes()` of `common/memory_state.cc`, and what they return
where the bytes are known.
-/

namespace Silifuzz

open Segments RangeMap

namespace MemoryState

def numWrittenBytes (s : MemoryState) : Nat := s.writtenMemorySet.byteSize

/-- `memory_bytes()`. There is no value where a `DCHECK` fails, which in the release build
reads outside of the bytes. -/
def memoryBytesIn (s : MemoryState) (start : Address) (numBytes : Nat) : Option ByteData := do
  let limit := start + numBytes
  let found ← RangeMap.find s.writtenMemoryBytes start limit
  let i ← s.writtenMemoryBytes[found.1]?
  if found.1 + 1 = found.2 ∧ i.start ≤ start ∧ limit ≤ i.limit then
    some ((i.value.drop (start - i.start)).take numBytes)
  else none

def memoryByte (s : MemoryState) (address : Address) : Option (BitVec 8) := do
  (← s.memoryBytesIn address 1)[0]?

variable {s : MemoryState} {f : PermsMap} {w : Address → Bool} {b : BytesMap}

/-- Known bytes are read as they are. -/
theorem Bytes.memoryBytesIn_eq (hs : s.Bytes w b) {start : Address} {numBytes : Nat}
    (pos : 0 < numBytes) (known : ∀ k, start ≤ k → k < start + numBytes → (b k).isSome) :
    ∃ data, s.memoryBytesIn start numBytes = some data ∧ data.length = numBytes ∧
      ∀ j, j < numBytes → data[j]? = b (start + j) := by
  have held : ∀ k, start ≤ k → k < start + numBytes →
      ∃ i ∈ s.writtenMemoryBytes, i.start ≤ k ∧ k < i.limit := by
    intro k low high
    obtain ⟨v, value⟩ := Option.isSome_iff_exists.mp (known k low high)
    rw [← hs.stored.reads] at value
    obtain ⟨i, hi, covers, -⟩ := lookup_some value
    exact ⟨i, hi, covers⟩
  obtain ⟨a, i, c, parts, found, low, high⟩ := find_single hs.stored.separated
    hs.stored.canonical (fun _ _ => rfl) (Nat.lt_add_of_pos_right pos) held
  have mem : i ∈ s.writtenMemoryBytes := by
    rw [parts]
    simp
  obtain ⟨length, -⟩ := hs.stored.fits i mem
  have entry : s.writtenMemoryBytes[a.length]? = some i := by
    rw [parts, List.getElem?_append_right le_rfl, Nat.sub_self]
    rfl
  refine ⟨(i.value.drop (start - i.start)).take numBytes, ?_, ?_, fun j inside => ?_⟩
  · rw [memoryBytesIn, found, Option.bind_eq_bind, Option.bind_some, entry]
    exact if_pos ⟨rfl, low, high⟩
  · rw [List.length_take, List.length_drop, length]
    lia
  · have reads := hs.stored.reads (start + j)
    rw [Lawful.lookup, lookup_mem hs.stored.separated mem ⟨by lia, by lia⟩] at reads
    have index : start - i.start + j = start + j - i.start := by lia
    have bound : start + j - i.start < i.value.length := by lia
    rw [List.getElem?_take_of_lt inside, List.getElem?_drop, index, ← reads,
      List.getElem?_eq_getElem bound]
    simp only [memoryBytes, List.getD_eq_getElem?_getD, List.getElem?_eq_getElem bound,
      Option.getD_some]

theorem Bytes.memoryByte_eq (hs : s.Bytes w b) {k : Address} (known : (b k).isSome) :
    s.memoryByte k = b k := by
  have alone : ∀ k', k ≤ k' → k' < k + 1 → (b k').isSome := by
    intro k' low high
    obtain rfl : k' = k := by lia
    exact known
  obtain ⟨data, run, -, value⟩ := hs.memoryBytesIn_eq Nat.one_pos alone
  rw [memoryByte, run]
  exact value 0 Nat.one_pos

end MemoryState

end Silifuzz
