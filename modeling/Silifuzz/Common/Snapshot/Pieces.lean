import Silifuzz.Common.Snapshot.Bytes
import Silifuzz.Util.Checks

/-!
# MemoryBytes cut into pieces

* `MemoryBytes.canConstruct`, `construct`: how parts of the bytes become `MemoryBytes` again;
* `Pieces`: the bytes, cut, in order; `pieces_flatten`: cutting each element of a list
  keeps what the list says.
-/

namespace Silifuzz

open Checked Loops

namespace MemoryBytes

/-- `MemoryBytes::CanConstruct`. -/
def canConstruct (start : Address) (bytes : ByteData) : Checked Unit := do
  ensure (!bytes.isEmpty) "Empty byte_values"
  ensure (start + bytes.length ≤ kMaxAddress) "start_address + byte_values.size is too large"

variable {b : MemoryBytes} {start : Address} {offset size : Nat}

theorem canConstruct_ok {bytes : ByteData} (nonempty : bytes ≠ [])
    (fits : start + bytes.length ≤ kMaxAddress) : canConstruct start bytes = .ok () :=
  bind_eq_ok.mpr ⟨(), ensure_eq_ok.mpr (by simpa using nonempty),
    ensure_eq_ok.mpr (by simpa using fits)⟩

theorem make_eq {bytes : ByteData} {c : MemoryBytes} (made : make start bytes = some c) :
    c.startAddress = start ∧ c.byteValues = bytes := by
  unfold make at made
  split at made
  · obtain rfl := Option.some.inj made
    exact ⟨rfl, rfl⟩
  · cases made

/-- The bytes from `offset` on, as `MemoryBytes` of their own. -/
theorem part_some (pos : 0 < size) (inside : offset + size ≤ b.byteValues.length) :
    canConstruct (b.startAddress + offset) ((b.byteValues.drop offset).take size) = .ok () ∧
      ∃ c, make (b.startAddress + offset) ((b.byteValues.drop offset).take size) = some c ∧
        c.startAddress = b.startAddress + offset ∧
        c.limitAddress = b.startAddress + offset + size ∧
        ∀ k, c.Covers k → c.byteAt k = b.byteAt k := by
  have length := b.length_eq
  have lt := b.start_lt_limit
  have low : b.startAddress ≤ b.startAddress + offset := Nat.le_add_right _ _
  have cutEnd : b.startAddress + offset < b.startAddress + offset + size := by lia
  obtain ⟨c, cut, first, last, same⟩ := range_some low cutEnd (by lia)
  have made : make (b.startAddress + offset) ((b.byteValues.drop offset).take size) = some c := by
    rw [range] at cut
    obtain ⟨_, -, cut⟩ := Option.bind_eq_some_iff.mp cut
    obtain ⟨_, -, cut⟩ := Option.bind_eq_some_iff.mp cut
    rwa [Nat.add_sub_cancel_left, Nat.add_sub_cancel_left] at cut
  refine ⟨?_, c, made, first, last, same⟩
  unfold make at made
  split at made
  · rename_i h
    exact canConstruct_ok h.1 h.2
  · cases made

/-- The bytes `b`, cut into `cs`. -/
structure Pieces (b : MemoryBytes) (cs : List MemoryBytes) : Prop where
  ordered : Ordered cs
  low : ∀ c ∈ cs, b.startAddress ≤ c.startAddress
  high : ∀ c ∈ cs, c.limitAddress ≤ b.limitAddress
  same : ∀ c ∈ cs, ∀ k, c.Covers k → c.byteAt k = b.byteAt k
  all : ∀ k, b.Covers k → ∃ c ∈ cs, c.Covers k

theorem Pieces.self (b : MemoryBytes) : b.Pieces [b] := by
  constructor <;> simp [Ordered]

theorem Pieces.covers {cs : List MemoryBytes} (h : b.Pieces cs) {c : MemoryBytes} (hc : c ∈ cs)
    {k : Address} (hk : c.Covers k) : b.Covers k :=
  ⟨(h.low c hc).trans hk.1, hk.2.trans_le (h.high c hc)⟩

/-- The elements start where the one before them ends. -/
def Contiguous : Address → List MemoryBytes → Address → Prop
  | start, [], limit => start = limit
  | start, c :: cs, limit => c.startAddress = start ∧ Contiguous c.limitAddress cs limit

theorem Contiguous.snoc {cs : List MemoryBytes} {limit : Address} {c : MemoryBytes}
    (h : Contiguous start cs limit) (next : c.startAddress = limit) :
    Contiguous start (cs ++ [c]) c.limitAddress := by
  induction cs generalizing start with
  | nil =>
    obtain rfl : start = limit := h
    exact ⟨next, rfl⟩
  | cons d cs ih => exact ⟨h.1, ih h.2⟩

end MemoryBytes

/-- Every element cut into pieces, one after the other. -/
theorem pieces_flatten {l : List MemoryBytes} {parts : List (List MemoryBytes)} {w : BytesMap}
    (cut : List.Forall₂ MemoryBytes.Pieces l parts) (ordered : Ordered l) (contents : Contents l w) :
    Ordered parts.flatten ∧ Contents parts.flatten w ∧
      ∀ c ∈ parts.flatten, ∃ b ∈ l, ∀ k, c.Covers k → b.Covers k := by
  have within : ∀ c ∈ parts.flatten, ∃ b ∈ l, ∃ cs, b.Pieces cs ∧ c ∈ cs := by
    intro c hc
    obtain ⟨cs, hcs, hc⟩ := List.mem_flatten.mp hc
    obtain ⟨b, hb, pieces⟩ := forall₂_mem cut hcs
    exact ⟨b, hb, cs, pieces, hc⟩
  have inOrder : Ordered parts.flatten := by
    rw [Ordered, List.pairwise_flatten]
    constructor
    · intro cs hcs
      obtain ⟨b, -, pieces⟩ := forall₂_mem cut hcs
      exact pieces.ordered
    · apply forall₂_pairwise cut ordered
      intro b b' cs cs' pieces pieces' before c hc c' hc'
      exact ((pieces.high c hc).trans before).trans (pieces'.low c' hc')
  refine ⟨inOrder, contents.of_same inOrder.disjoint ?_ ?_, ?_⟩
  · intro c hc k hk
    obtain ⟨b, hb, cs, pieces, hc⟩ := within c hc
    exact ⟨b, hb, pieces.covers hc hk, pieces.same c hc k hk⟩
  · intro b hb k hk
    obtain ⟨cs, hcs, pieces⟩ := forall₂_mem_left cut hb
    obtain ⟨c, hc, cover⟩ := pieces.all k hk
    exact ⟨c, List.mem_flatten.mpr ⟨cs, hcs, hc⟩, cover⟩
  · intro c hc
    obtain ⟨b, hb, cs, pieces, hc⟩ := within c hc
    exact ⟨b, hb, fun k hk => pieces.covers hc hk⟩

end Silifuzz
