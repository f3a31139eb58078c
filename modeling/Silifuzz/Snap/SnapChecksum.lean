import Silifuzz.Util.Crc32c.Accelerated

/-!
# Snap checksums

`snap/snap_checksum.cc`: the checksum of memory, and that of a corpus, which skips the bytes
of the header where the checksum itself is stored. Both take their data in chunks.
-/

namespace Silifuzz.SnapChecksum

open Crc32c LittleEndian

/-- A call of `crc32c` chooses the implementation of the next one, and may load outside of
the data. -/
abbrev Hash := OptionT (StateM Implementation)

/-- `bytes + offset`, of which `size` bytes are read. -/
def chunkAt (data : Buffer) (offset size : BitVec 64) : Hash Buffer :=
  if inside : offset.toNat + size.toNat ≤ data.bytes.length then
    pure {
      address := data.address + offset.toNat
      bytes := data.piece offset.toNat size.toNat
      fits := by
        have fits := data.fits
        rw [data.length_piece _ _ inside]
        omega }
  else failure

section

variable (machine : Machine)

def crc32c (seed : BitVec 32) (data : Buffer) : Hash (BitVec 32) :=
  OptionT.mk fun best => Crc32c.crc32c machine best seed data

/-- A `MemoryChecksumCalculator` is its checksum. -/
def MemoryChecksumCalculator.addData (checksum : BitVec 32) (data : Buffer) :
    Hash (BitVec 32) := crc32c machine checksum data

/-- `offsetof(SnapCorpusHeader, checksum)`: behind the magic, a `uint64_t`, and the header
size, a `uint32_t`. -/
def kSnapCorpusChecksumBegin : BitVec 64 := 12

def kSnapCorpusChecksumEnd : BitVec 64 := kSnapCorpusChecksumBegin + 4

structure CorpusChecksumCalculator where
  corpusOffset : BitVec 64
  checksum : BitVec 32

namespace CorpusChecksumCalculator

def initial : CorpusChecksumCalculator := ⟨0, 0⟩

/-- `std::min` -/
def least (a b : BitVec 64) : BitVec 64 := if b < a then b else a

/-- `std::max` -/
def greatest (a b : BitVec 64) : BitVec 64 := if a < b then b else a

/-- A range of the data, if it has any bytes, under the checksum so far. -/
def addRange (checksum : BitVec 32) (data : Buffer) (offset size : BitVec 64) :
    Hash (BitVec 32) :=
  if size ≠ 0 then do
    let chunk ← chunkAt data offset size
    crc32c machine checksum chunk
  else pure checksum

/-- `AddData`: the data before the hole, and the data after it. -/
def addData (calculator : CorpusChecksumCalculator) (data : Buffer) :
    Hash CorpusChecksumCalculator := do
  let size := BitVec.ofNat 64 data.bytes.length
  let offset := calculator.corpusOffset
  let beforeBegin := least offset kSnapCorpusChecksumBegin
  let beforeEnd := least (offset + size) kSnapCorpusChecksumBegin
  let checksum ← addRange machine calculator.checksum data (beforeBegin - offset)
    (beforeEnd - beforeBegin)
  let afterBegin := greatest offset kSnapCorpusChecksumEnd
  let afterEnd := greatest (offset + size) kSnapCorpusChecksumEnd
  let checksum ← addRange machine checksum data (afterBegin - offset) (afterEnd - afterBegin)
  return ⟨offset + size, checksum⟩

/-- `Checksum()` of a calculator that was given the chunks one after the other. -/
def checksumOf (chunks : List Buffer) : Hash (BitVec 32) := do
  let calculator ← chunks.foldlM (addData machine) initial
  return calculator.checksum

end CorpusChecksumCalculator

end

/-! ## The checksum of a stream -/

/-- CRC-32C from its polynomial, in the order of the bits that this checksum has: eight
rounds for each byte, from all ones, and the complement at the end. -/
def castagnoli (data : Bytes) : BitVec 32 :=
  ~~~ data.foldl (fun crc byte => shiftRound^[8] (crc ^^^ byte.setWidth 32)) 0xffffffff#32

example : castagnoli [0x31, 0x32, 0x33, 0x34, 0x35, 0x36, 0x37, 0x38, 0x39] = 0xE3069283#32 := by
  decide +kernel

/-- Rounds that meet no bit only shift. -/
theorem shiftRound_iterate {x : BitVec 32} {n : Nat} (clear : ∀ i < n, x.getLsbD i = false) :
    shiftRound^[n] x = x >>> n := by
  induction n with
  | zero => exact (BitVec.ushiftRight_zero x).symm
  | succ n ih =>
    have low : (x >>> n).getLsbD 0 = false := by
      rw [BitVec.getLsbD_ushiftRight]
      exact clear n (Nat.lt_succ_self n)
    rw [Function.iterate_succ_apply', ih fun i less => clear i (Nat.lt_succ_of_lt less),
      shiftRound, low, if_neg Bool.false_ne_true, BitVec.xor_zero, BitVec.shiftRight_add]

theorem getLsbD_lowByte (i : Nat) : (0xff#32).getLsbD i = decide (i < 8) := by
  rw [BitVec.getLsbD_ofNat]
  change (decide (i < 32) && (2 ^ 8 - 1).testBit i) = decide (i < 8)
  rw [Nat.testBit_two_pow_sub_one]
  by_cases low : i < 8
  · simp only [low, decide_true, Bool.and_true, decide_eq_true_eq]
    omega
  · simp only [low, decide_false, Bool.and_false]

theorem lowByte_xor_rest (x : BitVec 32) : (x &&& 0xff#32) ^^^ x >>> 8 <<< 8 = x := by
  apply BitVec.eq_of_getLsbD_eq
  intro i bound
  rw [BitVec.getLsbD_xor, BitVec.getLsbD_and, getLsbD_lowByte, BitVec.getLsbD_shiftLeft,
    BitVec.getLsbD_ushiftRight]
  by_cases low : i < 8
  · simp [low]
  · simp [low, bound, Nat.add_sub_of_le (Nat.not_lt.mp low)]

theorem shiftRound_rest (x : BitVec 32) : shiftRound^[8] (x >>> 8 <<< 8) = x >>> 8 := by
  rw [shiftRound_iterate]
  · apply BitVec.eq_of_getLsbD_eq
    intro i bound
    rw [BitVec.getLsbD_ushiftRight, BitVec.getLsbD_shiftLeft, Nat.add_sub_cancel_left,
      BitVec.getLsbD_ushiftRight]
    by_cases inside : 8 + i < 32
    · simp [inside]
    · simp [inside, BitVec.getLsbD_of_ge x (8 + i) (Nat.not_lt.mp inside)]
  · intro i bound
    rw [BitVec.getLsbD_shiftLeft]
    simp [bound]

/-- The table of the low byte, and the rest shifted, are the eight rounds. -/
theorem step_castagnoli (crc : BitVec 32) (byte : BitVec 8) :
    step crc byte = shiftRound^[8] (crc ^^^ byte.setWidth 32) := by
  have shifted : (crc ^^^ byte.setWidth 32) >>> 8 = crc >>> 8 := by
    apply BitVec.eq_of_getLsbD_eq
    intro i bound
    simp [BitVec.getLsbD_ushiftRight, BitVec.getLsbD_xor]
  have rounds := shiftRound_linear.iterate 8 ((crc ^^^ byte.setWidth 32) &&& 0xff#32)
    ((crc ^^^ byte.setWidth 32) >>> 8 <<< 8)
  rw [lowByte_xor_rest, shiftRound_rest, shifted] at rounds
  rw [step_rounds, rounds]

theorem castagnoli_table (data : Bytes) : crc32cUnaccelerated 0 data = castagnoli data := by
  have same : step = fun crc byte => shiftRound^[8] (crc ^^^ byte.setWidth 32) := by
    funext crc byte
    exact step_castagnoli crc byte
  rw [crc32cUnaccelerated, castagnoli, same]
  exact BitVec.xor_allOnes

/-- A corpus has as many bytes as a `size_t` counts. -/
structure CorpusStream where
  bytes : Bytes
  fits : bytes.length < 2 ^ 64

/-- The bytes outside of the checksum field. -/
def skipChecksum (bytes : Bytes) : Bytes :=
  bytes.take kSnapCorpusChecksumBegin.toNat ++ bytes.drop kSnapCorpusChecksumEnd.toNat

/-! ## Which value a call gives, whatever the implementations -/

def Gives {α : Type} (x : Hash α) (a : α) : Prop := ∀ best, (x.run best).1 = some a

theorem gives_pure {α : Type} (a : α) : Gives (pure a) a := fun _ => rfl

theorem run_bind {α β : Type} (x : Hash α) (f : α → Hash β) (best : Implementation) :
    (x >>= f).run best = match x.run best with
      | (some a, best') => (f a).run best'
      | (none, best') => (none, best') := by
  rw [OptionT.run_bind]
  change Option.elim (x.run best).1 (pure none : StateM Implementation (Option β))
    (fun a => (f a).run) (x.run best).2 = _
  rcases x.run best with ⟨_ | a, best'⟩ <;> rfl

theorem Gives.bind {α β : Type} {x : Hash α} {a : α} {f : α → Hash β} {b : β}
    (first : Gives x a) (next : Gives (f a) b) : Gives (x >>= f) b := by
  intro best
  have value := first best
  rw [run_bind]
  rcases result : x.run best with ⟨r, best'⟩
  rw [result] at value
  change r = some a at value
  rw [value]
  exact next best'

theorem crc32c_gives (machine : Machine) (seed : BitVec 32) (data : Buffer) :
    Gives (crc32c machine seed data) (crc32cUnaccelerated seed data.bytes) :=
  fun best => crc32c_value machine best seed data

/-! ## The bytes of a chunk -/

theorem crc32cUnaccelerated_append (seed : BitVec 32) (data data' : Bytes) :
    crc32cUnaccelerated (crc32cUnaccelerated seed data) data' =
      crc32cUnaccelerated seed (data ++ data') := by
  simp only [crc32cUnaccelerated, BitVec.xor_assoc, BitVec.xor_self, BitVec.xor_zero,
    List.foldl_append]

namespace CorpusChecksumCalculator

variable (machine : Machine) {data : Buffer}

theorem addRange_gives (checksum : BitVec 32) {offset size : BitVec 64} {taken : Bytes}
    (nothing : size = 0 → taken = [])
    (range : size ≠ 0 → offset.toNat + size.toNat ≤ data.bytes.length ∧
      data.piece offset.toNat size.toNat = taken) :
    Gives (addRange machine checksum data offset size) (crc32cUnaccelerated checksum taken) := by
  by_cases none : size = 0
  · have same : crc32cUnaccelerated checksum [] = checksum := by
      simp only [crc32cUnaccelerated, List.foldl_nil, BitVec.xor_assoc, BitVec.xor_self,
        BitVec.xor_zero]
    rw [addRange, if_neg (not_not_intro none), nothing none, same]
    exact gives_pure checksum
  · obtain ⟨inside, piece⟩ := range none
    rw [addRange, if_pos none, chunkAt, dif_pos inside, ← piece]
    exact (gives_pure _).bind (crc32c_gives machine checksum _)

/-- The calculator has taken the bytes so far. -/
structure Absorbed (calculator : CorpusChecksumCalculator) (bytes : Bytes) : Prop where
  corpusOffset : calculator.corpusOffset.toNat = bytes.length
  checksum : calculator.checksum = crc32cUnaccelerated 0 (skipChecksum bytes)

theorem initial_absorbed : initial.Absorbed [] := ⟨rfl, rfl⟩

/-- A chunk adds what it has before the hole and what it has behind it. -/
theorem skipChecksum_append (bytes chunk : Bytes) :
    skipChecksum (bytes ++ chunk) = skipChecksum bytes ++
      chunk.take (12 - bytes.length) ++ chunk.drop (16 - bytes.length) := by
  change (bytes ++ chunk).take 12 ++ (bytes ++ chunk).drop 16 =
    bytes.take 12 ++ bytes.drop 16 ++ chunk.take (12 - bytes.length) ++
      chunk.drop (16 - bytes.length)
  rw [List.take_append, List.drop_append]
  rcases Nat.lt_or_ge bytes.length 12 with before | behind
  · rw [List.drop_eq_nil_of_le (by omega : bytes.length ≤ 16)]
    simp only [List.append_assoc, List.nil_append]
  · rw [Nat.sub_eq_zero_of_le behind, List.take_zero]
    simp only [List.append_assoc, List.append_nil]

theorem toNat_least (a b : BitVec 64) : (least a b).toNat = min a.toNat b.toNat := by
  rw [least]
  split
  · rename_i less
    exact (Nat.min_eq_right (Nat.le_of_lt (BitVec.lt_def.mp less))).symm
  · rename_i least
    exact (Nat.min_eq_left (BitVec.not_lt.mp least)).symm

theorem toNat_greatest (a b : BitVec 64) : (greatest a b).toNat = max a.toNat b.toNat := by
  rw [greatest]
  split
  · rename_i less
    exact (Nat.max_eq_right (Nat.le_of_lt (BitVec.lt_def.mp less))).symm
  · rename_i greatest
    exact (Nat.max_eq_left (BitVec.not_lt.mp greatest)).symm

section

variable {calculator : CorpusChecksumCalculator} {bytes : Bytes}

theorem offset_add (offset : calculator.corpusOffset.toNat = bytes.length)
    (fits : bytes.length + data.bytes.length < 2 ^ 64) :
    (calculator.corpusOffset + BitVec.ofNat 64 data.bytes.length).toNat =
      bytes.length + data.bytes.length := by
  rw [BitVec.toNat_add, BitVec.toNat_ofNat, offset, Nat.add_mod_mod, Nat.mod_eq_of_lt fits]

theorem toNat_distance {first last : BitVec 64} (order : first.toNat ≤ last.toNat) :
    (last - first).toNat = last.toNat - first.toNat :=
  BitVec.toNat_sub_of_le order

theorem before_hole (checksum : BitVec 32)
    (offset : calculator.corpusOffset.toNat = bytes.length)
    (fits : bytes.length + data.bytes.length < 2 ^ 64) :
    let first := least calculator.corpusOffset kSnapCorpusChecksumBegin
    let last := least (calculator.corpusOffset + BitVec.ofNat 64 data.bytes.length)
      kSnapCorpusChecksumBegin
    Gives (addRange machine checksum data (first - calculator.corpusOffset) (last - first))
      (crc32cUnaccelerated checksum (data.bytes.take (12 - bytes.length))) := by
  intro first last
  have firstAt : first.toNat = min bytes.length 12 := by
    rw [← offset]
    exact toNat_least _ _
  have lastAt : last.toNat = min (bytes.length + data.bytes.length) 12 := by
    rw [← offset_add offset fits]
    exact toNat_least _ _
  have size := toNat_distance (show first.toNat ≤ last.toNat by omega)
  apply addRange_gives
  · intro none
    rw [none] at size
    change 0 = _ at size
    apply List.eq_nil_of_length_eq_zero
    rw [List.length_take]
    omega
  · intro some
    have positive : (last - first).toNat ≠ 0 := fun zero => some (BitVec.eq_of_toNat_eq zero)
    have start : first = calculator.corpusOffset := BitVec.eq_of_toNat_eq (by omega)
    rw [start, BitVec.sub_self, ← start]
    constructor
    · change 0 + _ ≤ _
      omega
    · change (data.bytes.drop 0).take _ = _
      rw [List.drop_zero, List.take_eq_take_iff]
      omega

theorem after_hole (checksum : BitVec 32)
    (offset : calculator.corpusOffset.toNat = bytes.length)
    (fits : bytes.length + data.bytes.length < 2 ^ 64) :
    let first := greatest calculator.corpusOffset kSnapCorpusChecksumEnd
    let last := greatest (calculator.corpusOffset + BitVec.ofNat 64 data.bytes.length)
      kSnapCorpusChecksumEnd
    Gives (addRange machine checksum data (first - calculator.corpusOffset) (last - first))
      (crc32cUnaccelerated checksum (data.bytes.drop (16 - bytes.length))) := by
  intro first last
  have firstAt : first.toNat = max bytes.length 16 := by
    rw [← offset]
    exact toNat_greatest _ _
  have lastAt : last.toNat = max (bytes.length + data.bytes.length) 16 := by
    rw [← offset_add offset fits]
    exact toNat_greatest _ _
  have size := toNat_distance (show first.toNat ≤ last.toNat by omega)
  have start := toNat_distance (show calculator.corpusOffset.toNat ≤ first.toNat by omega)
  apply addRange_gives
  · intro none
    rw [none] at size
    change 0 = _ at size
    apply List.drop_eq_nil_of_le
    omega
  · intro some
    have positive : (last - first).toNat ≠ 0 := fun zero => some (BitVec.eq_of_toNat_eq zero)
    have skipped : (first - calculator.corpusOffset).toNat = 16 - bytes.length := by omega
    rw [skipped]
    constructor
    · omega
    · apply List.take_of_length_le
      rw [List.length_drop]
      omega

/-- A chunk is taken but for its part of the hole. -/
theorem addData_absorbs (absorbed : calculator.Absorbed bytes)
    (fits : bytes.length + data.bytes.length < 2 ^ 64) :
    ∃ calculator', Gives (addData machine calculator data) calculator' ∧
      calculator'.Absorbed (bytes ++ data.bytes) := by
  have before := before_hole machine calculator.checksum absorbed.corpusOffset fits
  have after := after_hole machine
    (crc32cUnaccelerated calculator.checksum (data.bytes.take (12 - bytes.length)))
    absorbed.corpusOffset fits
  exact ⟨_, before.bind (after.bind (gives_pure _)), {
    corpusOffset := by
      rw [List.length_append]
      exact offset_add absorbed.corpusOffset fits
    checksum := by
      rw [crc32cUnaccelerated_append, absorbed.checksum, crc32cUnaccelerated_append,
        skipChecksum_append, List.append_assoc] }⟩

end

theorem addData_chunks {calculator : CorpusChecksumCalculator} {bytes : Bytes}
    (absorbed : calculator.Absorbed bytes) {chunks : List Buffer}
    (fits : (bytes ++ chunks.flatMap (·.bytes)).length < 2 ^ 64) :
    ∃ calculator', Gives (chunks.foldlM (addData machine) calculator) calculator' ∧
      calculator'.Absorbed (bytes ++ chunks.flatMap (·.bytes)) := by
  induction chunks generalizing calculator bytes with
  | nil =>
    rw [List.flatMap_nil, List.append_nil]
    exact ⟨calculator, gives_pure calculator, absorbed⟩
  | cons chunk chunks ih =>
    rw [List.flatMap_cons, ← List.append_assoc] at fits ⊢
    rw [List.length_append, List.length_append] at fits
    have ⟨next, given, taken⟩ := addData_absorbs machine absorbed
      (show bytes.length + chunk.bytes.length < 2 ^ 64 by omega)
    have ⟨last, rest, all⟩ := ih taken (by simpa only [List.length_append] using fits)
    exact ⟨last, given.bind rest, all⟩

/-- **The checksum of a corpus is the CRC-32C of its bytes outside of the checksum field**,
in whatever chunks they come and with whatever implementations they are hashed. -/
theorem checksumOf_exact (machine : Machine) (corpus : CorpusStream) {chunks : List Buffer}
    (split : chunks.flatMap (·.bytes) = corpus.bytes) :
    Gives (checksumOf machine chunks) (castagnoli (skipChecksum corpus.bytes)) := by
  have fits : ([] ++ chunks.flatMap Buffer.bytes).length < 2 ^ 64 := by
    rw [List.nil_append]
    exact split ▸ corpus.fits
  have ⟨calculator, given, absorbed⟩ := addData_chunks machine initial_absorbed fits
  rw [List.nil_append, split] at absorbed
  rw [← castagnoli_table, ← absorbed.checksum]
  exact given.bind (gives_pure calculator.checksum)

/-- Chunks that end before, in and behind the field. -/
theorem checksumOf_exact_twenty :
    let chunk (address : Nat) (bytes : Bytes) (small : address + bytes.length < 2 ^ 64) : Buffer :=
      ⟨address, bytes, small⟩
    Gives (checksumOf ⟨.x86, true⟩
      [chunk 0 [1, 2, 3, 4, 5] (by decide), chunk 3 [] (by decide),
        chunk 5 [6, 7, 8, 9, 10, 11, 12, 0xa, 0xb] (by decide),
        chunk 64 [0xc, 0xd, 13, 14, 15] (by decide)])
      (castagnoli [1, 2, 3, 4, 5, 6, 7, 8, 9, 10, 11, 12, 13, 14, 15]) :=
  checksumOf_exact ⟨.x86, true⟩ ⟨[1, 2, 3, 4, 5, 6, 7, 8, 9, 10, 11, 12, 0xa, 0xb, 0xc, 0xd, 13, 14,
    15], by decide⟩ rfl

end CorpusChecksumCalculator

end Silifuzz.SnapChecksum
