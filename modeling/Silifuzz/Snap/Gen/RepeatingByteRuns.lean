import Silifuzz.Common.Snapshot.Pieces

/-!
# Runs of repeating bytes

`GetRepeatingByteRuns` of `snap/gen/repeating_byte_runs.cc`, which splits bytes so that a long
run of equal ones has an element of its own. It relies on sizes that are multiples of
`kByteRunAlignmentSize`, and then returns the bytes, cut.
-/

namespace Silifuzz

open Checked

namespace RepeatingByteRuns

def kByteRunAlignmentSize : Nat := 8

def kMinRepeatingByteRunSize : Nat := 16

structure ByteRunInfo where
  offset : Nat
  size : Nat
  repeating : Bool
  deriving DecidableEq, Repr

/-- The number of bytes equal to the first one that the bytes start with. -/
def runSize : ByteData → Nat
  | [] => 0
  | first :: bytes => 1 + (bytes.takeWhile (· == first)).length

/-- Adds a run that is not compressible, to the last run when that is not either. -/
def pushUncompressed (infos : List ByteRunInfo) (offset size : Nat) : List ByteRunInfo :=
  match infos.getLast? with
  | some back =>
    if back.repeating then infos ++ [⟨offset, size, false⟩]
    else infos.dropLast ++ [{ back with size := back.size + size }]
  | none => infos ++ [⟨offset, size, false⟩]

/-- The loop from `offset` on, and the `CHECK` after it. A run has a byte at least, so the
number of bytes bounds the number of turns. -/
def findRuns (byteData : ByteData) : Nat → Nat → List ByteRunInfo → Checked (List ByteRunInfo)
  | 0, offset, infos => if offset = byteData.length then .ok infos else .error .abort
  | fuel + 1, offset, infos =>
    if offset < byteData.length then
      let found := runSize (byteData.drop offset)
      if kMinRepeatingByteRunSize ≤ found then
        -- rounded down to a multiple of the alignment
        let size := found - found % kByteRunAlignmentSize
        findRuns byteData fuel (offset + size) (infos ++ [⟨offset, size, true⟩])
      else
        -- rounded up
        let size := found +
          (kByteRunAlignmentSize - found % kByteRunAlignmentSize) % kByteRunAlignmentSize
        findRuns byteData fuel (offset + size) (pushUncompressed infos offset size)
    else if offset = byteData.length then .ok infos else .error .abort

/-- The run as `MemoryBytes`. -/
def runBytes (b : MemoryBytes) (info : ByteRunInfo) : Checked MemoryBytes := do
  let runByteData := (b.byteValues.drop info.offset).take info.size
  MemoryBytes.canConstruct (b.startAddress + info.offset) runByteData
  orAbort (MemoryBytes.make (b.startAddress + info.offset) runByteData)

def getRepeatingByteRuns (b : MemoryBytes) : Checked (List MemoryBytes) := do
  let infos ← findRuns b.byteValues b.byteValues.length 0 []
  infos.mapM (runBytes b)

/-- `GetRepeatingByteRuns` of a list, from `previous_limit` on. Every error is a
`FailedPreconditionError`. -/
def runsOfList : Option Address → List MemoryBytes → Checked (List MemoryBytes)
  | _, [] => .ok []
  | previousLimit, b :: rest => do
    ensure (previousLimit.all fun limit => limit ≤ b.startAddress)
      "GetRepeatingByteRuns: MemoryBytesList not sorted by address"
    ensure (b.startAddress % kByteRunAlignmentSize = 0)
      ("GetRepeatingByteRuns: unaligned start address " ++
        String.ofList (Nat.toDigits 16 b.startAddress))
    ensure (b.limitAddress % kByteRunAlignmentSize = 0)
      ("GetRepeatingByteRuns: unaligned limit address " ++
        String.ofList (Nat.toDigits 16 b.limitAddress))
    let runs ← getRepeatingByteRuns b
    return runs ++ (← runsOfList (some b.limitAddress) rest)

def getRepeatingByteRunsOfList (l : List MemoryBytes) : Checked (List MemoryBytes) :=
  runsOfList none l

/-- `IsRepeatingByteRun`: the bytes should be encoded as a byte run. -/
def isRepeatingByteRun (byteData : ByteData) : Bool :=
  decide (kMinRepeatingByteRunSize ≤ byteData.length) &&
    byteData.length % kByteRunAlignmentSize == 0 &&
    byteData.all fun byte => byte == byteData.getD 0 0

/-- The runs are the bytes before the offset, one after the other. -/
inductive Tile : List ByteRunInfo → Nat → Prop where
  | nil : Tile [] 0
  | snoc {infos offset size} (repeating : Bool) : Tile infos offset → 0 < size →
      Tile (infos ++ [⟨offset, size, repeating⟩]) (offset + size)

variable {infos : List ByteRunInfo} {offset size : Nat} {byteData : ByteData} {b : MemoryBytes}

theorem Tile.pushUncompressed (h : Tile infos offset) (pos : 0 < size) :
    Tile (pushUncompressed infos offset size) (offset + size) := by
  cases h with
  | nil => exact Tile.nil.snoc false pos
  | @snoc infos offset size' repeating before pos' =>
    unfold RepeatingByteRuns.pushUncompressed
    rw [List.getLast?_concat]
    cases repeating with
    | true => exact (before.snoc true pos').snoc false pos
    | false =>
      have more : 0 < size' + size := Nat.add_pos_left pos' size
      simpa [Nat.add_assoc] using before.snoc false more

theorem runSize_bounds (some : byteData ≠ []) :
    0 < runSize byteData ∧ runSize byteData ≤ byteData.length := by
  cases byteData with
  | nil => exact absurd rfl some
  | cons first bytes =>
    have := (List.takeWhile_prefix (· == first) (l := bytes)).length_le
    simp only [runSize, List.length_cons]
    lia

/-- What both kinds of turns keep, the loop keeps, and it reaches the end of the bytes. -/
theorem findRuns_run {I : List ByteRunInfo → Nat → Prop}
    (push : ∀ infos offset, I infos offset → offset % kByteRunAlignmentSize = 0 →
      offset < byteData.length → kMinRepeatingByteRunSize ≤ runSize (byteData.drop offset) →
      ∀ size, size = runSize (byteData.drop offset) -
        runSize (byteData.drop offset) % kByteRunAlignmentSize →
      I (infos ++ [⟨offset, size, true⟩]) (offset + size))
    (skip : ∀ infos offset, I infos offset → offset % kByteRunAlignmentSize = 0 →
      offset < byteData.length → runSize (byteData.drop offset) < kMinRepeatingByteRunSize →
      ∀ size, size = runSize (byteData.drop offset) + (kByteRunAlignmentSize -
        runSize (byteData.drop offset) % kByteRunAlignmentSize) % kByteRunAlignmentSize →
      I (pushUncompressed infos offset size) (offset + size))
    (aligned : byteData.length % kByteRunAlignmentSize = 0) {fuel : Nat}
    (h : I infos offset) (start : offset % kByteRunAlignmentSize = 0)
    (inside : offset ≤ byteData.length) (enough : byteData.length ≤ offset + fuel) :
    ∃ found, findRuns byteData fuel offset infos = .ok found ∧ I found byteData.length := by
  induction fuel generalizing infos offset with
  | zero =>
    obtain rfl : offset = byteData.length := le_antisymm inside enough
    exact ⟨infos, by simp [findRuns], h⟩
  | succ fuel ih =>
    by_cases more : offset < byteData.length
    · have rest : byteData.drop offset ≠ [] := by simpa using more
      obtain ⟨pos, most⟩ := runSize_bounds rest
      rw [List.length_drop] at most
      simp only [findRuns, if_pos more]
      split
      · rename_i long
        have next := push infos offset h start more long _ rfl
        simp only [kByteRunAlignmentSize, kMinRepeatingByteRunSize] at aligned start long ih next ⊢
        exact ih next (by lia) (by lia) (by lia)
      · rename_i short
        have next := skip infos offset h start more (not_le.mp short) _ rfl
        simp only [kByteRunAlignmentSize] at aligned start ih next ⊢
        exact ih next (by lia) (by lia) (by lia)
    · obtain rfl : offset = byteData.length := le_antisymm inside (not_lt.mp more)
      exact ⟨infos, by simp [findRuns], h⟩

/-- Whatever the bytes, the runs found tile them. -/
theorem findRuns_tile (aligned : byteData.length % kByteRunAlignmentSize = 0) :
    ∃ found, findRuns byteData byteData.length 0 [] = .ok found ∧ Tile found byteData.length := by
  apply findRuns_run ?_ ?_ aligned Tile.nil (Nat.zero_mod _) (Nat.zero_le _) (Nat.le_add_left _ 0)
  · intro infos offset h _ _ long size hsize
    simp only [kByteRunAlignmentSize, kMinRepeatingByteRunSize] at long hsize
    exact h.snoc true (by lia)
  · intro infos offset h _ more _ size hsize
    have left : byteData.drop offset ≠ [] := by simpa using more
    have pos := (runSize_bounds left).1
    exact h.pushUncompressed (by lia)

/-- Runs that tile the first bytes are made into these bytes, cut. -/
theorem runBytes_run (h : Tile infos offset) (inside : offset ≤ b.byteValues.length) :
    ∃ cs, infos.mapM (runBytes b) = .ok cs ∧ Ordered cs ∧
      (∀ c ∈ cs, b.startAddress ≤ c.startAddress ∧ c.limitAddress ≤ b.startAddress + offset ∧
        ∀ k, c.Covers k → c.byteAt k = b.byteAt k) ∧
      (∀ k, b.startAddress ≤ k → k < b.startAddress + offset → ∃ c ∈ cs, c.Covers k) ∧
      MemoryBytes.Contiguous b.startAddress cs (b.startAddress + offset) ∧
      (cs.map MemoryBytes.byteValues).flatten = b.byteValues.take offset ∧
      List.Forall₂ (fun info c => c.startAddress = b.startAddress + info.offset ∧
        c.byteValues = (b.byteValues.drop info.offset).take info.size ∧
        c.byteValues.length = info.size) infos cs := by
  induction h with
  | nil => exact ⟨[], rfl, .nil, by simp, fun k low high => absurd low (by lia), rfl, rfl, .nil⟩
  | @snoc infos offset size repeating _ pos ih =>
    obtain ⟨cs, run, ordered, within, all, contiguous, bytes, each⟩ := ih (by lia)
    obtain ⟨can, c, made, first, last, same⟩ := MemoryBytes.part_some pos inside
    obtain ⟨-, values⟩ := MemoryBytes.make_eq made
    have turn : runBytes b ⟨offset, size, repeating⟩ = .ok c := by
      simp [runBytes, can, made, orAbort]
    have length : c.byteValues.length = size := by
      rw [c.length_eq, first, last]
      lia
    refine ⟨cs ++ [c], ?_, ?_, ?_, ?_, ?_, ?_, ?_⟩
    · rw [List.mapM_append, run, List.mapM_cons, turn]
      rfl
    · refine List.pairwise_append.mpr ⟨ordered, by simp, fun d hd e he => ?_⟩
      obtain rfl := List.mem_singleton.mp he
      rw [first]
      exact (within d hd).2.1
    · intro d hd
      rcases List.mem_append.mp hd with hd | hd
      · obtain ⟨low, high, bytes⟩ := within d hd
        exact ⟨low, by lia, bytes⟩
      · obtain rfl := List.mem_singleton.mp hd
        exact ⟨by lia, by lia, same⟩
    · intro k low high
      by_cases before : k < b.startAddress + offset
      · obtain ⟨d, hd, cover⟩ := all k low before
        exact ⟨d, List.mem_append_left _ hd, cover⟩
      · exact ⟨c, by simp, by lia, by lia⟩
    · rw [← Nat.add_assoc, ← last]
      exact contiguous.snoc first
    · rw [List.map_append, List.flatten_append, bytes, List.take_add]
      simp [values]
    · exact List.rel_append each (.cons ⟨first, values, length⟩ .nil)

/-- **Splitting keeps the bytes**, when their number is a multiple of the alignment. -/
theorem getRepeatingByteRuns_pieces
    (aligned : b.byteValues.length % kByteRunAlignmentSize = 0) :
    ∃ cs, getRepeatingByteRuns b = .ok cs ∧ b.Pieces cs := by
  obtain ⟨infos, found, tile⟩ := findRuns_tile aligned
  obtain ⟨cs, run, ordered, within, all, -⟩ := runBytes_run (b := b) tile le_rfl
  refine ⟨cs, by rw [getRepeatingByteRuns, found]; exact run, ordered, fun c hc => (within c hc).1,
    fun c hc => (within c hc).2.1, fun c hc => (within c hc).2.2, fun k hk => all k hk.1 hk.2⟩

/-- Twenty zeros in front of four other bytes: sixteen of them are a run. -/
example : findRuns (List.replicate 20 0 ++ [1, 2, 3, 4]) 24 0 [] =
    .ok [⟨0, 16, true⟩, ⟨16, 8, false⟩] := by decide

end RepeatingByteRuns

end Silifuzz
