import Silifuzz.Instruction.DecodedInsn
import Mathlib.Data.Int.DivMod
import Mathlib.Tactic.IntervalCases

/-!
# Split locks

What `may_have_split_lock` finds is that the bytes that a locking instruction accesses are not
all in one cache line. A bit test with a register offset accesses a part of its operand far
from the address of the operand, in front of it or behind.
-/

namespace Silifuzz

open Xed

/-! ## Lines -/

/-- The line of `size` bytes that an address is in. -/
def lineOf (size : Nat) (address : BitVec 64) : Nat := address.toNat / size

/-- The `n` bytes at `address` are not all in one line. -/
def CrossesLine (size : Nat) (address : BitVec 64) (n : Nat) : Prop :=
  ∃ i < n, ∃ j < n, lineOf size (address + BitVec.ofNat 64 i) ≠
    lineOf size (address + BitVec.ofNat 64 j)

/-- A byte behind `address`, up to the end of its line, is in that line. -/
theorem lineOf_add {size : Nat} {address : BitVec 64} {i : Nat} (divides : size ∣ 2 ^ 64)
    (inside : address.toNat % size + i < size) :
    lineOf size (address + BitVec.ofNat 64 i) = lineOf size address := by
  have pos : 0 < size := by omega
  obtain ⟨lines, total⟩ := divides
  have low := address.isLt
  have line : address.toNat / size < lines := by
    apply Nat.div_lt_of_lt_mul
    rw [← total]
    exact low
  have parts := Nat.div_add_mod address.toNat size
  have next : size * (address.toNat / size + 1) ≤ 2 ^ 64 := by
    rw [total]
    exact Nat.mul_le_mul_left size line
  rw [Nat.mul_add, Nat.mul_one] at next
  have sum : (address + BitVec.ofNat 64 i).toNat = address.toNat + i := by
    rw [BitVec.toNat_add, BitVec.toNat_ofNat, Nat.add_mod_mod]
    apply Nat.mod_eq_of_lt
    omega
  unfold lineOf
  rw [sum, ← parts, Nat.add_assoc, Nat.mul_add_div pos, Nat.div_eq_of_lt inside, Nat.mul_add_div pos,
    Nat.div_eq_of_lt (Nat.mod_lt _ pos)]

/-- The first byte behind a line is in another one, also at the end of the memory. -/
theorem lineOf_next {size : Nat} {address : BitVec 64} (pos : 0 < size)
    (divides : 2 * size ∣ 2 ^ 64) :
    lineOf size (address + BitVec.ofNat 64 (size - address.toNat % size)) ≠
      lineOf size address := by
  obtain ⟨lines, total⟩ := divides
  have low := address.isLt
  have parts := Nat.div_add_mod address.toNat size
  have small := Nat.mod_lt address.toNat pos
  have sum : address.toNat + (size - address.toNat % size) =
      size * (address.toNat / size + 1) := by
    rw [Nat.mul_add, Nat.mul_one]
    omega
  have value : (address + BitVec.ofNat 64 (size - address.toNat % size)).toNat =
      size * (address.toNat / size + 1) % 2 ^ 64 := by
    rw [BitVec.toNat_add, BitVec.toNat_ofNat, Nat.add_mod_mod, sum]
  unfold lineOf
  rw [value, total, Nat.mul_comm 2 size, Nat.mul_assoc, Nat.mul_mod_mul_left,
    Nat.mul_div_cancel_left _ pos]
  intro same
  have line : address.toNat / size < 2 * lines := by
    apply Nat.div_lt_of_lt_mul
    rw [← Nat.mul_assoc, Nat.mul_comm size 2, ← total]
    exact low
  rcases Nat.lt_or_ge (address.toNat / size + 1) (2 * lines) with inside | last
  · rw [Nat.mod_eq_of_lt inside] at same
    omega
  · have wrapped : address.toNat / size + 1 = 2 * lines := by omega
    rw [wrapped, Nat.mod_self] at same
    omega

theorem crossesLine_iff {size : Nat} {address : BitVec 64} {n : Nat} (pos : 0 < size)
    (divides : 2 * size ∣ 2 ^ 64) :
    CrossesLine size address n ↔ size < address.toNat % size + n := by
  have once : size ∣ 2 ^ 64 := (Nat.dvd_mul_left size 2).trans divides
  have small := Nat.mod_lt address.toNat pos
  constructor
  · rintro ⟨i, hi, j, hj, differ⟩
    by_contra fits
    have first := @lineOf_add size address i once (by omega)
    have second := @lineOf_add size address j once (by omega)
    exact differ (first.trans second.symm)
  · intro beyond
    refine ⟨size - address.toNat % size, by omega, 0, by omega, ?_⟩
    rw [BitVec.add_zero]
    exact lineOf_next pos divides

/-! ## What the processor accesses -/

def IsLockedBitTest (iclass : Iclass) : Prop :=
  iclass = .BTC_LOCK ∨ iclass = .BTR_LOCK ∨ iclass = .BTS_LOCK

instance (iclass : Iclass) : Decidable (IsLockedBitTest iclass) :=
  inferInstanceAs (Decidable (_ ∨ _))

/-- The bit offset of a bit test: a signed register, or an immediate modulo the width. -/
def signedBitOffset (insn : DecodedInsn) (regs : UserRegs) : Int :=
  match insn.xedInsn.iform, insn.xedInsn.reg0 with
  | .lockMemvGprv, .gpr widest width => ((regs.gpr widest).setWidth width.bits).toInt
  | .lockMemvImmb, _ =>
    (insn.xedInsn.unsignedImmediate.toNat : Int) % insn.xedInsn.operandWidth.toNat
  | _, _ => 0

/-- The address of the bytes that an instruction with its operand at `address` accesses. -/
def accessedAddress (insn : DecodedInsn) (regs : UserRegs) (address : BitVec 64) : BitVec 64 :=
  if IsLockedBitTest insn.xedInsn.iclass then
    let w : Int := insn.xedInsn.operandWidth.toNat
    address + BitVec.ofInt 64 (w / 8 * (signedBitOffset insn regs / w))
  else address

/-- What XED says of a bit test with a lock: it is of 16, 32 or 64 bits, and its offset is a
register of this width or an immediate without a sign. -/
structure BitTest (insn : DecodedInst) (width : RegWidth) : Prop where
  wide : width ≠ .bits8
  operandWidth : insn.operandWidth = BitVec.ofNat 64 width.bits
  form : (insn.iform = .lockMemvGprv ∧ ∃ widest, insn.reg0 = .gpr widest width) ∨
    (insn.iform = .lockMemvImmb ∧ insn.immediateIsSigned = false)

/-- What XED says of a locking instruction with one operand in memory, of `n` bytes at
`address`. Lengths are `unsigned int`s there. -/
structure LocksOperand (xed : XedInterface) (insn : DecodedInsn) (regs : UserRegs)
    (address : BitVec 64) (n : Nat) : Prop where
  locking : insn.isLocking = true
  operand : insn.xedInsn.memoryOperands = [BitVec.ofNat 64 n]
  length : n < 2 ^ 32
  agen : insn.memoryOperandAddress xed 0 regs = .ok address
  bitTest : IsLockedBitTest insn.xedInsn.iclass → ∃ width, BitTest insn.xedInsn width

/-! ## The address modulo a line -/

theorem getReg_toNat (x : BitVec 64) (width : RegWidth) :
    (x &&& (BitVec.allOnes 64 >>> (64 - width.bits))).toNat = x.toNat % 2 ^ width.bits := by
  have mask : (BitVec.allOnes 64 >>> (64 - width.bits)).toNat = 2 ^ width.bits - 1 := by
    cases width <;> rfl
  rw [BitVec.toNat_and, mask, Nat.and_two_pow_sub_one_eq_mod]

theorem toNat_add_ofInt_mod {size : Nat} (divides : size ∣ 2 ^ 64) (address : BitVec 64)
    (z : Int) : (((address + BitVec.ofInt 64 z).toNat % size : Nat) : Int) =
      (address.toNat + z) % size := by
  have divides' : (size : Int) ∣ 2 ^ 64 := by exact_mod_cast divides
  have value : (((BitVec.ofInt 64 z).toNat : Nat) : Int) = z % 2 ^ 64 := by
    rw [BitVec.toNat_ofInt]
    exact Int.toNat_of_nonneg (Int.emod_nonneg _ (by decide))
  rw [BitVec.toNat_add, Nat.mod_mod_of_dvd _ divides]
  push_cast
  rw [value, Int.add_emod, Int.emod_emod_of_dvd _ divides', ← Int.add_emod]

/-- The unsigned offset is at the same place in a line as the signed one. -/
theorem offset_mod {size : Nat} (divides : size ∣ 2 ^ 13) (x : BitVec 64) {width : RegWidth}
    (wide : width ≠ .bits8) (a : Int) :
    (a + ((x.toNat % 2 ^ width.bits / width.bits * width.bits / 8 : Nat) : Int)) % size =
      (a + (width.bits : Int) / 8 * ((x.setWidth width.bits).toInt / width.bits)) % size := by
  obtain ⟨m, total⟩ := divides
  have total' : (8192 : Int) = size * m := by exact_mod_cast total
  have skip (b c : Int) (k : Int) (far : b = c + 8192 * k) : b % size = c % size := by
    rw [far, total', Int.mul_assoc, Int.add_mul_emod_self_left]
  have signed : (x.setWidth width.bits).toInt = (x.toNat % 2 ^ width.bits : Nat) ∨
      (x.setWidth width.bits).toInt = (x.toNat % 2 ^ width.bits : Nat) - 2 ^ width.bits := by
    rw [BitVec.toInt_eq_toNat_cond, BitVec.toNat_setWidth]
    split
    · exact .inl rfl
    · right
      push_cast
      rfl
  generalize (x.setWidth width.bits).toInt = s at *
  generalize x.toNat % 2 ^ width.bits = u at *
  cases width with
  | bits8 => exact absurd rfl wide
  | bits16 =>
    simp only [RegWidth.bits] at *
    rcases signed with same | minus
    · exact skip _ _ 0 (by omega)
    · exact skip _ _ 1 (by omega)
  | bits32 =>
    simp only [RegWidth.bits] at *
    rcases signed with same | minus
    · exact skip _ _ 0 (by omega)
    · exact skip _ _ (2 ^ 16) (by omega)
  | bits64 =>
    simp only [RegWidth.bits] at *
    rcases signed with same | minus
    · exact skip _ _ 0 (by omega)
    · exact skip _ _ (2 ^ 48) (by omega)

theorem lockedAddress_bitTest {xed : XedInterface} {insn : DecodedInsn} {regs : UserRegs}
    {address offset : BitVec 64} (agen : insn.memoryOperandAddress xed 0 regs = .ok address)
    (bitTest : IsLockedBitTest insn.xedInsn.iclass)
    (found : insn.bitOffset xed regs = .ok offset) :
    insn.lockedAddress xed regs = .ok (address + offset / insn.xedInsn.operandWidth *
      insn.xedInsn.operandWidth / 8) := by
  unfold DecodedInsn.lockedAddress
  rw [agen]
  rcases bitTest with iclass | iclass | iclass
  · rw [iclass, found]; rfl
  · rw [iclass, found]; rfl
  · rw [iclass, found]; rfl

theorem lockedAddress_other {xed : XedInterface} {insn : DecodedInsn} {regs : UserRegs}
    {address : BitVec 64} (agen : insn.memoryOperandAddress xed 0 regs = .ok address)
    (other : ¬ IsLockedBitTest insn.xedInsn.iclass) :
    insn.lockedAddress xed regs = .ok address := by
  unfold DecodedInsn.lockedAddress
  rw [agen, Checked.ok_bind]
  unfold IsLockedBitTest at other
  split
  · next iclass => exact absurd (.inl iclass) other
  · next iclass => exact absurd (.inr (.inl iclass)) other
  · next iclass => exact absurd (.inr (.inr iclass)) other
  · rfl

/-- The byte offset is not cut off. -/
theorem byteOffset_toNat (offset : BitVec 64) (width : RegWidth) :
    (offset / BitVec.ofNat 64 width.bits * BitVec.ofNat 64 width.bits / 8).toNat =
      offset.toNat / width.bits * width.bits / 8 := by
  have bits : (BitVec.ofNat 64 width.bits).toNat = width.bits := by
    cases width <;> rfl
  have le := Nat.div_mul_le_self offset.toNat width.bits
  have low := offset.isLt
  rw [BitVec.toNat_udiv, BitVec.toNat_mul, BitVec.toNat_udiv, bits, Nat.mod_eq_of_lt (by omega)]
  rfl

/-- An immediate offset has no bits above the width. -/
theorem immediate_toNat (immediate : BitVec 64) (width : RegWidth) :
    (immediate &&& (BitVec.ofNat 64 width.bits - 1)).toNat = immediate.toNat % width.bits := by
  rw [BitVec.toNat_and]
  cases width with
  | bits8 => exact Nat.and_two_pow_sub_one_eq_mod immediate.toNat 3
  | bits16 => exact Nat.and_two_pow_sub_one_eq_mod immediate.toNat 4
  | bits32 => exact Nat.and_two_pow_sub_one_eq_mod immediate.toNat 5
  | bits64 => exact Nat.and_two_pow_sub_one_eq_mod immediate.toNat 6

/-- The address that the code finds is that of the access, up to whole lines. -/
theorem lockedAddress_spec {xed : XedInterface} {insn : DecodedInsn} {regs : UserRegs}
    {address : BitVec 64} {n size : Nat} (locks : LocksOperand xed insn regs address n)
    (divides : size ∣ 2 ^ 13) : ∃ found, insn.lockedAddress xed regs = .ok found ∧
      found.toNat % size = (accessedAddress insn regs address).toNat % size := by
  have all : size ∣ 2 ^ 64 := divides.trans (Nat.pow_dvd_pow 2 (by decide))
  unfold accessedAddress
  by_cases bitTest : IsLockedBitTest insn.xedInsn.iclass
  · obtain ⟨width, test⟩ := locks.bitTest bitTest
    have bits : insn.xedInsn.operandWidth.toNat = width.bits := by
      rw [test.operandWidth]
      cases width <;> rfl
    rw [if_pos bitTest, bits]
    have sum (offset : BitVec 64) : (((address + offset / insn.xedInsn.operandWidth *
        insn.xedInsn.operandWidth / 8).toNat % size : Nat) : Int) =
          (address.toNat + ((offset.toNat / width.bits * width.bits / 8 : Nat) : Int)) % size := by
      rw [test.operandWidth, BitVec.toNat_add, byteOffset_toNat, Nat.mod_mod_of_dvd _ all]
      push_cast
      rfl
    have signed := toNat_add_ofInt_mod all address
      ((width.bits : Int) / 8 * (signedBitOffset insn regs / width.bits))
    rcases test.form with ⟨form, widest, reg⟩ | ⟨form, unsigned⟩
    · have found : insn.bitOffset xed regs =
          .ok (regs.gpr widest &&& (BitVec.allOnes 64 >>> (64 - width.bits))) := by
        rw [DecodedInsn.bitOffset, form, reg]
        rfl
      refine ⟨_, lockedAddress_bitTest locks.agen bitTest found, ?_⟩
      have offset : signedBitOffset insn regs =
          ((regs.gpr widest).setWidth width.bits).toInt := by
        rw [signedBitOffset, form, reg]
      rw [offset] at signed
      have place := sum (regs.gpr widest &&& (BitVec.allOnes 64 >>> (64 - width.bits)))
      rw [getReg_toNat, offset_mod divides _ test.wide, ← signed, ← offset] at place
      exact Int.ofNat_inj.mp place
    · have found : insn.bitOffset xed regs =
          .ok (insn.xedInsn.unsignedImmediate &&& (insn.xedInsn.operandWidth - 1)) := by
        rw [DecodedInsn.bitOffset, form, unsigned]
        rfl
      refine ⟨_, lockedAddress_bitTest locks.agen bitTest found, ?_⟩
      have pos : 0 < width.bits := by cases width <;> decide
      have offset : signedBitOffset insn regs / width.bits = 0 := by
        rw [signedBitOffset, form, bits]
        apply Int.ediv_eq_zero_of_lt
        · exact Int.emod_nonneg _ (by omega)
        · exact Int.emod_lt_of_pos _ (by omega)
      have place := sum (insn.xedInsn.unsignedImmediate &&& (insn.xedInsn.operandWidth - 1))
      have small : (insn.xedInsn.unsignedImmediate &&&
          (insn.xedInsn.operandWidth - 1)).toNat / width.bits = 0 := by
        rw [test.operandWidth, immediate_toNat]
        exact Nat.div_eq_of_lt (Nat.mod_lt _ pos)
      rw [small, Nat.zero_mul, Nat.zero_div] at place
      change _ = (address + BitVec.ofInt 64 ((width.bits : Int) / 8 *
        (signedBitOffset insn regs / width.bits))).toNat % size
      rw [Int.natCast_zero, ← Int.mul_zero ((width.bits : Int) / 8), ← offset, ← signed] at place
      exact Int.ofNat_inj.mp place
  · rw [if_neg bitTest]
    exact ⟨address, lockedAddress_other locks.agen bitTest, rfl⟩

/-- The offset of an address in its line, as the code computes it. -/
theorem lineOffset_toNat (address : BitVec 64) {k : Nat} (small : k < 64) :
    (address &&& (BitVec.ofNat 64 (2 ^ k) - 1)).toNat = address.toNat % 2 ^ k := by
  have pos := Nat.two_pow_pos k
  have below : 2 ^ k < 2 ^ 64 := Nat.pow_lt_pow_right (by decide) small
  have mask : (BitVec.ofNat 64 (2 ^ k) - 1).toNat = 2 ^ k - 1 := by
    rw [BitVec.toNat_sub_of_le, BitVec.toNat_ofNat, Nat.mod_eq_of_lt below]
    · rfl
    · rw [BitVec.le_def, BitVec.toNat_ofNat, Nat.mod_eq_of_lt below]
      exact pos
  rw [BitVec.toNat_and, mask, Nat.and_two_pow_sub_one_eq_mod]

/-- **`may_have_split_lock` says whether the accessed bytes cross a line.** -/
theorem mayHaveSplitLock_iff {xed : XedInterface} {insn : DecodedInsn} {regs : UserRegs}
    {address : BitVec 64} {n k : Nat} (locks : LocksOperand xed insn regs address n)
    (high : k ≤ 12) (lineSize : xed.l1CacheLineSize = BitVec.ofNat 64 (2 ^ k)) :
    ∃ split, insn.mayHaveSplitLock xed regs = .ok split ∧
      (split = true ↔ CrossesLine (2 ^ k) (accessedAddress insn regs address) n) := by
  obtain ⟨found, ok, place⟩ := lockedAddress_spec locks
    (Nat.pow_dvd_pow 2 (by omega) : 2 ^ k ∣ 2 ^ 13)
  have size : 2 ^ k ≤ 2 ^ 12 := Nat.pow_le_pow_right (by decide) high
  have length := locks.length
  refine ⟨xed.l1CacheLineSize < (found &&& (xed.l1CacheLineSize - 1)) + BitVec.ofNat 64 n, ?_, ?_⟩
  · unfold DecodedInsn.mayHaveSplitLock
    rw [locks.locking, locks.operand]
    simp only [ok]
    rfl
  · have divides : 2 * 2 ^ k ∣ 2 ^ 64 := by
      rw [← Nat.pow_succ']
      exact Nat.pow_dvd_pow 2 (by omega)
    have line : (BitVec.ofNat 64 (2 ^ k)).toNat = 2 ^ k := by
      rw [BitVec.toNat_ofNat]
      exact Nat.mod_eq_of_lt (by omega)
    have sum : ((found &&& (BitVec.ofNat 64 (2 ^ k) - 1)) + BitVec.ofNat 64 n).toNat =
        found.toNat % 2 ^ k + n := by
      have small := Nat.mod_lt found.toNat (Nat.two_pow_pos k)
      rw [BitVec.toNat_add, lineOffset_toNat found (by omega), BitVec.toNat_ofNat, Nat.add_mod_mod]
      exact Nat.mod_eq_of_lt (by omega)
    rw [decide_eq_true_eq, crossesLine_iff (Nat.two_pow_pos k) divides, ← place, lineSize,
      BitVec.lt_def, line, sum]

/-- `lock bts word ptr [rax], cx` -/
def btsInsn : DecodedInsn where
  xedInsn :=
    { iclass := .BTS_LOCK, iform := .lockMemvGprv, nprefixes := 2, length := 5, locked := true,
      memoryOperands := [2], operandWidth := 16, reg0 := .gpr .rcx .bits16,
      immediateIsSigned := false, unsignedImmediate := 0, extension := .other "BASE",
      category := .other "BITBYTE", cpl := 3, operands := [] }
  debugString := "lock bts word ptr [rax], cx"
  rawBytes := [0x66, 0xf0, 0x0f, 0xab, 0x08]

def btsXed : XedInterface where
  decode _ := .ok btsInsn.xedInsn
  valid _ := true
  format _ _ := some btsInsn.debugString
  agen _ _ reg _ :=
    match reg (.gpr .rax .bits64) with
    | some address => .ok address
    | none => .error "BAD_REGISTER"
  iclassStr _ := "BTS_LOCK"
  iformStr _ := "BTS_LOCK_MEMv_GPRv"
  regStr _ := "CX"
  l1CacheLineSize := 64

/-- The offset is the bit in front of the operand. -/
def btsRegs : UserRegs where
  gpr
    | .rax => 0x1001
    | .rcx => 0xffff
    | _ => 0
  fsBase := 0
  gsBase := 0
  pc := 0

theorem mayHaveSplitLock_bts : ∃ split, btsInsn.mayHaveSplitLock btsXed btsRegs = .ok split ∧
    (split = true ↔ CrossesLine (2 ^ 6) (accessedAddress btsInsn btsRegs 0x1001) 2) := by
  have locks : LocksOperand btsXed btsInsn btsRegs 0x1001 2 :=
    { locking := rfl
      operand := rfl
      length := by decide
      agen := rfl
      bitTest := fun _ => ⟨.bits16, by decide, rfl, .inl ⟨rfl, .rcx, rfl⟩⟩ }
  exact mayHaveSplitLock_iff locks (by decide) rfl

end Silifuzz
