import Silifuzz.Util.Crc32c
import Mathlib.Data.Fin.Basic
import Silifuzz.Library.Loops

/-!
# Zero extension

A step of the checksum is linear in the checksum and the byte together. So what a row of
zero bytes does is known from what it does to groups of bits, which is what the tables
hold, and the tables for the bits of `n` together make `n` steps.
-/

namespace Silifuzz.Crc32c

open XorLinear
open LittleEndian (Bytes)

/-- A bit of the division by the polynomial, in reversed order. -/
def shiftRound (x : BitVec 32) : BitVec 32 :=
  (x >>> 1) ^^^ (if x.getLsbD 0 then 0x82F63B78#32 else 0#32)

theorem shiftRound_linear : Linear shiftRound :=
  Linear.xor (Linear.ushiftRight 1) (Linear.ofBit 0 _)

/-- The table holds eight rounds on each byte. -/
theorem crctable_rounds : ∀ i : Fin 256, crctable[i] = shiftRound^[8] (BitVec.ofNat 32 i) := by
  decide +kernel

theorem step_rounds (crc : BitVec 32) (byte : BitVec 8) :
    step crc byte =
      shiftRound^[8] ((crc ^^^ byte.setWidth 32) &&& 0xff#32) ^^^ (crc >>> 8) := by
  have entry : BitVec.ofNat 32 (tableIndex crc byte) =
      (crc ^^^ byte.setWidth 32) &&& 0xff#32 := by
    rw [tableIndex, BitVec.ofNat_toNat, BitVec.setWidth_eq]
  rw [step, crctable_rounds, entry]

theorem step_xor (crc crc' : BitVec 32) (byte byte' : BitVec 8) :
    step (crc ^^^ crc') (byte ^^^ byte') = step crc byte ^^^ step crc' byte' := by
  have rounds := Linear.comp (shiftRound_linear.iterate 8) (Linear.and 0xff#32)
  have apart : (crc ^^^ crc') ^^^ (byte ^^^ byte').setWidth 32 =
      (crc ^^^ byte.setWidth 32) ^^^ (crc' ^^^ byte'.setWidth 32) := by
    rw [BitVec.setWidth_xor]
    ac_rfl
  have value := rounds (crc ^^^ byte.setWidth 32) (crc' ^^^ byte'.setWidth 32)
  simp only [Function.comp] at value
  rw [step_rounds, step_rounds, step_rounds, apart, value, BitVec.ushiftRight_xor_distrib]
  ac_rfl

/-- One step with a zero byte. -/
def zeroStep (crc : BitVec 32) : BitVec 32 := step crc 0

theorem zeroStep_linear : Linear zeroStep := by
  intro x y
  have both := step_xor x y 0 0
  rwa [BitVec.xor_self] at both

theorem zeros_linear (n : Nat) : Linear (zeroStep^[n]) :=
  zeroStep_linear.iterate n

theorem foldl_step_zeros (n : Nat) (crc : BitVec 32) :
    (List.replicate n 0).foldl step crc = zeroStep^[n] crc := by
  induction n generalizing crc with
  | zero => rfl
  | succ n ih => exact ih (step crc 0)

/-- What the bytes add does not depend on what they are added to. -/
theorem foldl_step_xor (data : Bytes) (crc crc' : BitVec 32) :
    data.foldl step (crc ^^^ crc') = zeroStep^[data.length] crc ^^^ data.foldl step crc' := by
  induction data generalizing crc crc' with
  | nil => rfl
  | cons byte data ih =>
    have first : step (crc ^^^ crc') byte = zeroStep crc ^^^ step crc' byte := by
      have both := step_xor crc crc' 0 byte
      rwa [BitVec.ofNat_eq_ofNat, BitVec.zero_xor] at both
    rw [List.foldl_cons, first, ih]
    rfl

/-- Two streams that are combined. -/
theorem foldl_step_append (data data' : Bytes) (crc : BitVec 32) :
    (data ++ data').foldl step crc =
      zeroStep^[data'.length] (data.foldl step crc) ^^^ data'.foldl step 0 := by
  rw [List.foldl_append]
  calc data'.foldl step (data.foldl step crc)
    _ = data'.foldl step (data.foldl step crc ^^^ 0) := by
      rw [BitVec.ofNat_eq_ofNat, BitVec.xor_zero]
    _ = zeroStep^[data'.length] (data.foldl step crc) ^^^ data'.foldl step 0 :=
      foldl_step_xor data' _ _

/-! ## The tables -/

namespace CRC32CZeroExtensionTable

/-- The table extends by `n` zero bytes. -/
structure Extends (t : CRC32CZeroExtensionTable) (n : Nat) : Prop where
  count : t.n.toNat = n
  entry : ∀ group idx, t.table[group][idx] = zeroStep^[n] (groupValue group idx)

theorem groupValue_groupIndex (crc : BitVec 32) (group : Fin kNumGroups) :
    groupValue group (groupIndex crc group) = XorLinear.group kBitsPerGroup group crc := rfl

theorem Extends.extend {t : CRC32CZeroExtensionTable} {n : Nat} (ht : t.Extends n)
    (crc : BitVec 32) : t.extend crc = zeroStep^[n] crc := by
  let part (group : Nat) : BitVec 32 := zeroStep^[n] (XorLinear.group kBitsPerGroup group crc)
  have entries : t.extend crc =
      (List.finRange kNumGroups).foldl (fun sum group => sum ^^^ part group.val) 0#32 := by
    simp only [CRC32CZeroExtensionTable.extend, ht.entry, groupValue_groupIndex, part]
  have groups : (List.finRange kNumGroups).map (fun group => group.val) = List.range kNumGroups :=
    List.map_coe_finRange_eq_range
  rw [entries, ← (zeros_linear n).groups (by decide : 32 ≤ kNumGroups * kBitsPerGroup) crc,
    ← groups, List.foldl_map]

/-- `Zero().Extend()` is a nop. -/
theorem zero_extends : zero.Extends 0 where
  count := rfl
  entry := fill_get groupValue

theorem one_extends : one.Extends 1 where
  count := rfl
  entry group idx := by
    simp only [one, fill_get, crc32cUnaccelerated, List.foldl_cons, List.foldl_nil,
      BitVec.xor_assoc, BitVec.xor_self, BitVec.xor_zero, Function.iterate_one, zeroStep]

theorem Extends.add {a b : CRC32CZeroExtensionTable} {n m : Nat} (ha : a.Extends n)
    (hb : b.Extends m) (fits : n + m < 2 ^ 64) : (add a b).Extends (n + m) where
  count := by
    simp only [CRC32CZeroExtensionTable.add, BitVec.toNat_add, ha.count, hb.count]
    exact Nat.mod_eq_of_lt fits
  entry group idx := by
    simp only [CRC32CZeroExtensionTable.add, fill_get, hb.extend, ha.entry]
    rw [Nat.add_comm n m, Function.iterate_add_apply]

end CRC32CZeroExtensionTable

/-- Each table doubles what the one before it does. -/
theorem tables_extends {i : Nat} (hi : i < kNumCRC32CZeroExtensionTables) :
    (tables i).Extends (2 ^ i) := by
  induction i with
  | zero => exact CRC32CZeroExtensionTable.one_extends
  | succ i ih =>
    have half := ih (by omega)
    have fits : 2 ^ i + 2 ^ i < 2 ^ 64 := by
      have := Nat.pow_lt_pow_right (by decide : 1 < 2) hi
      have double : 2 ^ (i + 1) = 2 ^ i + 2 ^ i := by omega
      rwa [← double]
    have sum := half.add half fits
    have double : 2 ^ i + 2 ^ i = 2 ^ (i + 1) := by omega
    rwa [double] at sum

theorem getCRC32CZeroExtensionTableForBit_extend {i : Nat}
    (hi : i < kNumCRC32CZeroExtensionTables) (crc : BitVec 32) :
    (getCRC32CZeroExtensionTableForBit i).extend crc = zeroStep^[2 ^ i] crc := by
  rw [getCRC32CZeroExtensionTableForBit, Nat.mod_eq_of_lt hi]
  exact (tables_extends hi).extend crc

/-! ## The loop -/

/-- A word is what a mask leaves of it and what the mask takes. -/
theorem toNat_mask_split {w : Nat} (n mask : BitVec w) :
    (n &&& ~~~mask).toNat + (n &&& mask).toNat = n.toNat := by
  have apart : (n &&& ~~~mask) &&& (n &&& mask) = 0#w := by
    ext i
    simp only [BitVec.getElem_and, BitVec.getElem_not, BitVec.getElem_zero]
    cases mask[i] <;> simp
  have both : (n &&& ~~~mask) ||| (n &&& mask) = n := by
    ext i
    simp only [BitVec.getElem_and, BitVec.getElem_or, BitVec.getElem_not]
    cases mask[i] <;> simp
  rw [← BitVec.toNat_add_of_and_eq_zero apart, BitVec.add_eq_or_of_and_eq_zero _ _ apart, both]

theorem toNat_and_bit {i : Nat} (hi : i < 64) (n : BitVec 64) :
    (n &&& 1#64 <<< i).toNat = 2 ^ i * (n.toNat / 2 ^ i % 2) := by
  have bit : n.getLsbD i = decide (n.toNat / 2 ^ i % 2 = 1) := Nat.testBit_eq_decide_div_mod_eq
  rw [← BitVec.twoPow_eq, BitVec.and_twoPow, bit]
  rcases Nat.mod_two_eq_zero_or_one (n.toNat / 2 ^ i) with even | odd
  · simp [even]
  · simp [odd, BitVec.toNat_twoPow_of_lt hi]

/-- With the bit `i` cleared as well, `n` is a multiple of the next power. -/
theorem clear_bit {i : Nat} (hi : i < 64) {n : BitVec 64} (low : 2 ^ i ∣ n.toNat) :
    2 ^ (i + 1) ∣ (n &&& ~~~(1#64 <<< i)).toNat := by
  obtain ⟨m, hm⟩ := low
  have quotient : n.toNat / 2 ^ i = m := by rw [hm, Nat.mul_div_cancel_left _ (Nat.two_pow_pos i)]
  have split := toNat_mask_split n (1#64 <<< i)
  rw [toNat_and_bit hi, quotient] at split
  have rest : (n &&& ~~~(1#64 <<< i)).toNat = 2 ^ (i + 1) * (m / 2) := by
    have halves : 2 ^ i * m = 2 ^ (i + 1) * (m / 2) + 2 ^ i * (m % 2) := by
      rw [Nat.pow_succ, Nat.mul_assoc, ← Nat.mul_add, Nat.div_add_mod]
    omega
  exact ⟨m / 2, rest⟩

theorem clear_bit_count {i : Nat} (hi : i < 64) {n : BitVec 64} (set : n &&& 1#64 <<< i ≠ 0) :
    n.toNat = (n &&& ~~~(1#64 <<< i)).toNat + 2 ^ i := by
  have split := toNat_mask_split n (1#64 <<< i)
  have taken := toNat_and_bit hi n
  rcases Nat.mod_two_eq_zero_or_one (n.toNat / 2 ^ i) with even | odd
  · rw [even, Nat.mul_zero] at taken
    exact absurd (BitVec.eq_of_toNat_eq taken) set
  · rw [odd, Nat.mul_one] at taken
    omega

/-- The loop makes as many steps as are left in `n`, whose bits below `i` are cleared. -/
theorem zeroExtendFrom_steps (i : Nat) (crc : BitVec 32) (n : BitVec 64) (low : 2 ^ i ∣ n.toNat) :
    zeroExtendFrom i crc n = zeroStep^[n.toNat] crc := by
  induction i, crc, n using zeroExtendFrom.induct with
  | case1 i crc n more bit set ih =>
    have next := clear_bit more.2 low
    rw [zeroExtendFrom, if_pos more, if_pos set, ih next,
      getCRC32CZeroExtensionTableForBit_extend more.2, clear_bit_count more.2 set,
      Function.iterate_add_apply]
  | case2 i crc n more bit clear ih =>
    have same : n &&& ~~~bit = n := by
      have split := toNat_mask_split n bit
      rw [not_not.mp clear] at split
      exact BitVec.eq_of_toNat_eq split
    have next := clear_bit more.2 low
    change 2 ^ (i + 1) ∣ (n &&& ~~~bit).toNat at next
    rw [same] at next
    rw [zeroExtendFrom, if_pos more, if_neg clear, ih next]
  | case3 i crc n done =>
    have none : n.toNat = 0 := by
      by_cases zero : n = 0
      · rw [zero]
        rfl
      · have last : 64 ≤ i := by
          by_contra inside
          exact done ⟨zero, Nat.lt_of_not_le inside⟩
        have all := Nat.dvd_trans (Nat.pow_dvd_pow 2 last) low
        exact Nat.eq_zero_of_dvd_of_lt all n.isLt
    rw [zeroExtendFrom, if_neg done, none, Function.iterate_zero, id]

theorem zeroExtend_steps (crc : BitVec 32) (n : BitVec 64) :
    zeroExtend crc n = zeroStep^[n.toNat] crc :=
  zeroExtendFrom_steps 0 crc n (Nat.one_dvd _)

theorem crc32cZeroExtend_zeros (crc : BitVec 32) (n : BitVec 64) :
    crc32cZeroExtend crc n = crc32cUnaccelerated crc (List.replicate n.toNat 0) := by
  rw [crc32cZeroExtend, crc32cUnaccelerated, zeroExtend_steps, foldl_step_zeros]

end Silifuzz.Crc32c

/-!
## The accelerated checksum

Every part of `crc32c_accelerated_impl` leaves the value that single steps reach over the
bytes done so far. Where it loads words they are aligned and inside of the buffer.
-/

namespace Silifuzz.Crc32c

open Loops

/-- The instructions make a step for each byte of their operand. -/
structure CRC32CFunctions.ByteSteps (functions : CRC32CFunctions) : Prop where
  uint8 : ∀ crc value, functions.crc32cUint8 crc value = step crc value
  uint64 : ∀ crc value,
    functions.crc32cUint64 crc value = (LittleEndian.encode 8 value.toNat).foldl step crc

theorem X86CRC32CFunctions_byteSteps : X86CRC32CFunctions.ByteSteps :=
  ⟨fun _ _ => rfl, fun _ _ => rfl⟩

theorem ARMCRC32CFunctions_byteSteps : ARMCRC32CFunctions.ByteSteps :=
  ⟨fun _ _ => rfl, fun _ _ => rfl⟩

namespace Buffer

variable (data : Buffer)

def piece (offset count : Nat) : LittleEndian.Bytes := (data.bytes.drop offset).take count

theorem piece_add (offset count count' : Nat) :
    data.piece offset (count + count') =
      data.piece offset count ++ data.piece (offset + count) count' := by
  rw [piece, piece, piece, List.take_add, List.drop_drop]

theorem length_piece (offset count : Nat) (inside : offset + count ≤ data.bytes.length) :
    (data.piece offset count).length = count := by
  rw [piece, List.length_take, List.length_drop]
  omega

theorem loadUint8_piece (offset : Nat) (inside : offset < data.bytes.length) :
    ∃ byte, data.loadUint8 offset = some byte ∧ data.piece offset 1 = [byte] := by
  refine ⟨data.bytes[offset], List.getElem?_eq_getElem inside, ?_⟩
  rw [piece, List.drop_eq_getElem_cons inside]
  rfl

theorem loadUint64_piece (offset : Nat) (aligned : (data.address + offset) % 8 = 0)
    (inside : offset + 8 ≤ data.bytes.length) :
    ∃ word, data.loadUint64 offset = some word ∧
      LittleEndian.encode 8 word.toNat = data.piece offset 8 := by
  refine ⟨_, if_pos ⟨aligned, inside⟩, ?_⟩
  have eight : (data.piece offset 8).length = 8 := data.length_piece offset 8 inside
  have fits := LittleEndian.decode_lt (data.piece offset 8)
  have back := LittleEndian.encode_decode (data.piece offset 8)
  rw [eight] at fits back
  have small : LittleEndian.decode (data.piece offset 8) < 2 ^ 64 := fits
  rw [BitVec.toNat_ofNat]
  change LittleEndian.encode 8 (LittleEndian.decode (data.piece offset 8) % 2 ^ 64) = _
  rw [Nat.mod_eq_of_lt small, back]

end Buffer

section

variable {functions : CRC32CFunctions} {data : Buffer}

theorem byteLoop_steps (steps : functions.ByteSteps) (offset count : Nat) (value : BitVec 32)
    (inside : offset + count ≤ data.bytes.length) :
    byteLoop functions data offset count value =
      some ((data.piece offset count).foldl step value) := by
  obtain ⟨value', run, rfl⟩ := foldlM_run (f := byteTurn functions data offset)
    (l := List.range count) (s := value)
    (P := fun done value' => value' = (data.piece offset done.length).foldl step value)
    rfl (by
      rintro done i rest value' split rfl
      obtain ⟨rfl, more⟩ := range_at split
      obtain ⟨byte, load, one⟩ := data.loadUint8_piece (offset + done.length) (by omega)
      have turn : byteTurn functions data offset ((data.piece offset done.length).foldl step value)
          done.length = some (step ((data.piece offset done.length).foldl step value) byte) := by
        rw [byteTurn, load, ← steps.uint8]
        rfl
      refine ⟨_, turn, ?_⟩
      rw [ List.length_append, List.length_singleton, Buffer.piece_add, one,
        List.foldl_append]
      rfl)
  rw [List.length_range] at run
  exact run

/-- The three streams, each from its own place. -/
theorem streamLoop_steps (steps : functions.ByteSteps) (offset blockSize : Nat)
    (value : BitVec 32) (aligned : (data.address + offset) % 8 = 0)
    (inside : offset + blockSize * 8 * 3 ≤ data.bytes.length) :
    streamLoop functions data offset blockSize value =
      some ((data.piece offset (blockSize * 8)).foldl step value,
        (data.piece (offset + blockSize * 8) (blockSize * 8)).foldl step 0,
        (data.piece (offset + blockSize * 8 * 2) (blockSize * 8)).foldl step 0) := by
  let stream (start : Nat) (done : List Nat) (value : BitVec 32) : BitVec 32 :=
    (data.piece start (done.length * 8)).foldl step value
  have turn : ∀ start done value, (data.address + start) % 8 = 0 →
      start + done.length * 8 + 8 ≤ data.bytes.length →
      ∃ word, data.loadUint64 (start + done.length * 8) = some word ∧ ∀ i,
        functions.crc32cUint64 (stream start done value) word =
          stream start (done ++ [i]) value := by
    intro start done value aligned inside
    obtain ⟨word, load, eight⟩ := data.loadUint64_piece (start + done.length * 8) (by omega)
      inside
    refine ⟨word, load, fun i => ?_⟩
    simp only [stream]
    rw [steps.uint64, eight, List.length_append, List.length_singleton, Nat.succ_mul,
      Buffer.piece_add, List.foldl_append]
  obtain ⟨values, run, rfl⟩ := foldlM_run
    (f := streamTurn functions data offset (blockSize * 8))
    (l := List.range blockSize) (s := (value, 0, 0))
    (P := fun done values => values = (stream offset done value,
      stream (offset + blockSize * 8) done 0, stream (offset + blockSize * 8 * 2) done 0))
    (by simp [stream, Buffer.piece]) (by
      rintro done i rest values split rfl
      obtain ⟨rfl, more⟩ := range_at split
      obtain ⟨word, load, next⟩ := turn offset done value aligned (by omega)
      obtain ⟨word2, load2, next2⟩ := turn (offset + blockSize * 8) done 0 (by omega) (by omega)
      obtain ⟨word3, load3, next3⟩ :=
        turn (offset + blockSize * 8 * 2) done 0 (by omega) (by omega)
      refine ⟨_, by simp only [streamTurn, load, load2, load3]; rfl, ?_⟩
      rw [next done.length, next2 done.length, next3 done.length])
  simp only [stream, List.length_range] at run
  exact run

/-- A place in the buffer with `n` bytes to go, and the value there. -/
structure Reached (data : Buffer) (start : BitVec 32) (value : BitVec 32) (offset n : Nat) :
    Prop where
  rest : offset + n = data.bytes.length
  value : value = (data.piece 0 offset).foldl step start
  aligned : n ≠ 0 → (data.address + offset) % 8 = 0

theorem head_reached (data : Buffer) (start : BitVec 32) :
    Reached data start ((data.piece 0 (headSize data data.bytes.length)).foldl step start)
      (headSize data data.bytes.length) (data.bytes.length - headSize data data.bytes.length) where
  rest := by
    rw [headSize]
    split <;> omega
  value := rfl
  aligned := by
    rw [headSize]
    split <;> omega

/-- **The streams are combined**: each extended by the length of the next. -/
theorem bigBlock_reached (steps : functions.ByteSteps) {start value : BitVec 32} {offset n : Nat}
    (here : Reached data start value offset n) :
    ∃ value' offset' n', bigBlock functions data offset n value = some (value', offset', n') ∧
      Reached data start value' offset' n' := by
  by_cases big : kBigBlockSize ≤ n
  case neg => exact ⟨value, offset, n, if_neg big, here⟩
  have more : n ≠ 0 := by
    rw [kBigBlockSize] at big
    omega
  obtain ⟨rest, rfl, aligned⟩ := here
  let size := n / 8 / 3 * 8
  have three : size * 3 ≤ n := by omega
  have fits := data.fits
  have inside : offset + size * 3 ≤ data.bytes.length := by omega
  have count : (BitVec.ofNat 64 size).toNat = size := by
    rw [BitVec.toNat_ofNat]
    exact Nat.mod_eq_of_lt (by omega)
  have run := streamLoop_steps steps offset (n / 8 / 3)
    ((data.piece 0 offset).foldl step start) (aligned more) inside
  refine ⟨_, offset + size * 3, n - size * 3, by
    simp only [bigBlock, if_pos big, run]
    rfl, ?_, ?_, ?_⟩
  · omega
  · have streams : data.piece 0 (offset + size * 3) =
        data.piece 0 offset ++ data.piece offset size ++ data.piece (offset + size) size ++
          data.piece (offset + size * 2) size := by
      have parts : offset + size * 3 = offset + size + size + size := by omega
      have third : offset + size * 2 = offset + size + size := by omega
      rw [parts, third, Buffer.piece_add, Buffer.piece_add, Buffer.piece_add]
      simp only [Nat.zero_add]
    have len2 : (data.piece (offset + size) size).length = size :=
      data.length_piece _ size (by omega)
    have len3 : (data.piece (offset + size * 2) size).length = size :=
      data.length_piece _ size (by omega)
    change zeroExtend (zeroExtend _ (BitVec.ofNat 64 size) ^^^ _) (BitVec.ofNat 64 size) ^^^ _ = _
    rw [zeroExtend_steps, zeroExtend_steps, count, streams, foldl_step_append, foldl_step_append,
      len2, len3, List.foldl_append]
  · intro left
    have := aligned more
    omega

theorem wordLoop_reached (steps : functions.ByteSteps) {start value : BitVec 32} {offset n : Nat}
    (here : Reached data start value offset n) :
    ∃ value' offset' n', wordLoop functions data offset n value = some (value', offset', n') ∧
      Reached data start value' offset' n' := by
  induction n using Nat.strong_induction_on generalizing offset value with
  | _ n ih =>
    rw [wordLoop]
    by_cases more : 8 ≤ n
    · rw [if_pos more]
      have aligned := here.aligned (by omega)
      have rest := here.rest
      obtain ⟨word, load, eight⟩ := data.loadUint64_piece offset aligned (by omega)
      rw [load]
      apply ih (n - 8) (by omega)
      constructor
      · omega
      · rw [steps.uint64, eight, here.value, Buffer.piece_add, Nat.zero_add, List.foldl_append]
      · intro left
        omega
    · rw [if_neg more]
      exact ⟨value, offset, n, rfl, here⟩

/-- With instructions that make a step for each byte, the fast path computes the checksum of
the steps, and loads nothing but aligned words and bytes of the buffer. -/
theorem crc32cAcceleratedImpl_steps (steps : functions.ByteSteps) (seed : BitVec 32) :
    crc32cAcceleratedImpl functions data seed = some (crc32cUnaccelerated seed data.bytes) := by
  let start := seed ^^^ 0xffffffff#32
  have here := head_reached data start
  have size : 0 + headSize data data.bytes.length ≤ data.bytes.length := by
    have := here.rest
    omega
  have head := byteLoop_steps steps 0 _ start size
  obtain ⟨value, offset, n, block, here⟩ := bigBlock_reached steps here
  obtain ⟨value', offset', n', words, here⟩ := wordLoop_reached steps here
  have tail := byteLoop_steps steps offset' n' value' (Nat.le_of_eq here.rest)
  have all : (data.piece offset' n').foldl step value' = data.bytes.foldl step start := by
    have whole := data.piece_add 0 offset' n'
    rw [Nat.zero_add] at whole
    rw [here.value, ← List.foldl_append, ← whole, here.rest, Buffer.piece, List.drop_zero,
      List.take_length]
  rw [all] at tail
  simp only [crc32cAcceleratedImpl, Option.bind_eq_bind]
  change (byteLoop functions data 0 _ start).bind _ = _
  rw [head, Option.bind_some, block, Option.bind_some]
  change (wordLoop functions data offset n value).bind _ = _
  rw [words, Option.bind_some]
  change (byteLoop functions data offset' n' value').bind _ = _
  rw [tail, Option.bind_some]
  rfl

end

/-- Whichever implementation has been chosen, or is chosen by this call. -/
theorem crc32c_value (machine : Machine) (best : Implementation) (seed : BitVec 32)
    (data : Buffer) :
    (crc32c machine best seed data).1 = some (crc32cUnaccelerated seed data.bytes) := by
  have fast : crc32cAccelerated machine seed data =
      some (crc32cUnaccelerated seed data.bytes) := by
    rw [crc32cAccelerated]
    split
    · exact crc32cAcceleratedImpl_steps ARMCRC32CFunctions_byteSteps seed
    · exact crc32cAcceleratedImpl_steps X86CRC32CFunctions_byteSteps seed
    · rfl
  cases best with
  | init =>
    rw [crc32c]
    cases hasCrc32cAccelerated machine
    · rfl
    · exact fast
  | accelerated => exact fast
  | unaccelerated => rfl

/-- **The checksum does not depend on how it is computed**: not on the instructions, the
alignment of the data or the implementation chosen, and an extension by `n` zeros is `n`
steps. -/
theorem crc32c_exact :
    (∀ seed data, crc32cAcceleratedImpl X86CRC32CFunctions data seed =
      some (crc32cUnaccelerated seed data.bytes)) ∧
    (∀ seed data, crc32cAcceleratedImpl ARMCRC32CFunctions data seed =
      some (crc32cUnaccelerated seed data.bytes)) ∧
    (∀ machine best seed data,
      (crc32c machine best seed data).1 = some (crc32cUnaccelerated seed data.bytes)) ∧
    (∀ crc (n : BitVec 64), zeroExtend crc n = (List.replicate n.toNat 0).foldl step crc) ∧
    (∀ crc (n : BitVec 64),
      crc32cZeroExtend crc n = crc32cUnaccelerated crc (List.replicate n.toNat 0)) := by
  constructor
  · exact fun seed data => crc32cAcceleratedImpl_steps X86CRC32CFunctions_byteSteps seed
  constructor
  · exact fun seed data => crc32cAcceleratedImpl_steps ARMCRC32CFunctions_byteSteps seed
  constructor
  · exact crc32c_value
  constructor
  · intro crc n
    rw [zeroExtend_steps, foldl_step_zeros]
  · exact crc32cZeroExtend_zeros

end Silifuzz.Crc32c
