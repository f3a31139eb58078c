import Silifuzz.Fuzzer.ProgramAArch64.Fixup

/-!
# Displacements in a field

The field of a branch is a signed number of words. What is rewritten into it is read back
modulo its width, so that exactly the displacements in its range are read back as they were.
-/

namespace Silifuzz

open LittleEndian

/-! ## Reading and writing a field -/

section

variable {lsb width : Nat}

/-- The bits of a field, as a number of its width. -/
def fieldBits (insn : BitVec 32) (lsb width : Nat) : BitVec width := insn.extractLsb' lsb width

theorem getLsbD_displacementMask {i : Nat} (narrow : width < 32) :
    (displacementMask lsb width).getLsbD i =
      (decide (i < 32) && decide (lsb ≤ i) && decide (i < lsb + width)) := by
  have ones : (1#32 <<< width) - 1#32 = BitVec.ofNat 32 (2 ^ width - 1) := by
    have small := Nat.pow_lt_pow_right (show 1 < 2 by decide) narrow
    have positive := Nat.two_pow_pos width
    apply BitVec.eq_of_toNat_eq
    rw [BitVec.toNat_sub_of_le, BitVec.toNat_shiftLeft, BitVec.toNat_ofNat, BitVec.toNat_ofNat,
      Nat.shiftLeft_eq]
    · omega
    · rw [BitVec.le_def, BitVec.toNat_shiftLeft, BitVec.toNat_ofNat, Nat.shiftLeft_eq]
      omega
  rw [displacementMask, ones, BitVec.getLsbD_shiftLeft, BitVec.getLsbD_ofNat,
    Nat.testBit_two_pow_sub_one]
  by_cases inside : i < 32 <;> by_cases above : lsb ≤ i <;>
    by_cases below : i < lsb + width <;> simp [inside, above, below] <;> omega

/-- The field that is rewritten holds the low bits of the displacement, in words. -/
theorem fieldBits_rewrite (insn displacement : BitVec 32) (narrow : width ≤ 30)
    (inside : lsb + width ≤ 32) :
    fieldBits (rewriteBranchDisplacement insn lsb width displacement) lsb width =
      displacement.extractLsb' 2 width := by
  apply BitVec.eq_of_getLsbD_eq
  intro i low
  have mask : (displacementMask lsb width).getLsbD (lsb + i) = true := by
    rw [getLsbD_displacementMask (by omega)]
    simp only [Bool.and_eq_true, decide_eq_true_eq]
    omega
  rw [fieldBits, rewriteBranchDisplacement, BitVec.getLsbD_extractLsb', BitVec.getLsbD_or,
    BitVec.getLsbD_and, BitVec.getLsbD_and, BitVec.getLsbD_not, mask, BitVec.getLsbD_shiftLeft,
    BitVec.getLsbD_sshiftRight, BitVec.getLsbD_extractLsb', Nat.add_sub_cancel_left]
  have bit : lsb + i < 32 := by omega
  have word : 2 + i < 32 := by omega
  have above : ¬ lsb + i < lsb := by omega
  have short : ¬ 32 ≤ i := by omega
  simp [low, bit, word, above, short]

/-- The field is read back as a signed number of words. -/
theorem toInt_extractBranchDisplacement (insn : BitVec 32) (nonempty : 0 < width)
    (narrow : width ≤ 30) (inside : lsb + width ≤ 32) :
    (extractBranchDisplacement insn lsb width).toInt = 4 * (fieldBits insn lsb width).toInt := by
  have extended : extractBranchDisplacement insn lsb width =
      (fieldBits insn lsb width).signExtend 32 <<< 2 := by
    apply BitVec.eq_of_getLsbD_eq
    intro i low
    rw [extractBranchDisplacement, BitVec.getLsbD_sshiftRight, BitVec.msb_eq_getLsbD_last,
      BitVec.getLsbD_shiftLeft, BitVec.getLsbD_shiftLeft, BitVec.getLsbD_sshiftRight,
      BitVec.getLsbD_sshiftRight, BitVec.getLsbD_shiftLeft, BitVec.getLsbD_signExtend,
      BitVec.msb_eq_getLsbD_last, fieldBits, BitVec.getLsbD_extractLsb',
      BitVec.msb_eq_getLsbD_last, BitVec.getLsbD_extractLsb']
    -- the two bits of the scale, then the bits of the field, then its sign
    rcases Nat.lt_or_ge i 2 with scale | behind
    · have bit : 32 - width - 2 + i < 32 := by omega
      have zero : 32 - width - 2 + i < 32 - width := by omega
      simp [scale, bit, zero]
    rcases Nat.lt_or_ge i (width + 2) with field | sign
    · have bit : 32 - width - 2 + i < 32 := by omega
      have set : ¬ 32 - width - 2 + i < 32 - width := by omega
      have place : 32 - width - 2 + i - (32 - width) = i - 2 := by omega
      have known : lsb + (i - 2) < 32 := by omega
      have short : i - 2 < width := by omega
      have above : ¬ i < 2 := by omega
      have word : ¬ 32 ≤ i - 2 := by omega
      have word' : i - 2 < 32 := by omega
      simp [bit, set, place, known, short, above, low, word, word']
    · have bit : ¬ 32 - width - 2 + i < 32 := by omega
      have set : ¬ 31 < 32 - width := by omega
      have place : 31 - (32 - width) = width - 1 := by omega
      have known : lsb + (width - 1) < 32 := by omega
      have short : ¬ i - 2 < width := by omega
      have above : ¬ i < 2 := by omega
      have word : ¬ 32 ≤ width - 1 := by omega
      have word' : i - 2 < 32 := by omega
      have inside' : ¬ 32 ≤ i := by omega
      have last : width - 1 < width := by omega
      simp [bit, set, place, known, short, above, low, word, word', inside', last]
  have bounds := BitVec.two_mul_toInt_lt (x := fieldBits insn lsb width)
  have bounds' := BitVec.le_two_mul_toInt (x := fieldBits insn lsb width)
  have small : (2 : Int) ^ width ≤ 2 ^ 30 := by
    exact_mod_cast Nat.pow_le_pow_right (show 0 < 2 by decide) narrow
  rw [extended, BitVec.shiftLeft_eq_mul_twoPow, BitVec.toInt_mul,
    BitVec.toInt_signExtend_of_le (by omega)]
  have scale : (BitVec.twoPow 32 2).toInt = 4 := by decide
  rw [scale, Int.bmod_eq_of_le]
  · omega
  · omega
  · omega

/-- The range of a field of `width` bits that is scaled by 4. -/
def InFieldRange (width : Nat) (displacement : Int) : Prop :=
  4 ∣ displacement ∧ -2 ^ (width + 1) ≤ displacement ∧ displacement < 2 ^ (width + 1)

/-- What is read back of a displacement: its low bits, with their sign. -/
theorem toInt_extract_rewrite (insn : BitVec 32) (displacement : Int) (nonempty : 0 < width)
    (narrow : width ≤ 30) (inside : lsb + width ≤ 32) :
    (extractBranchDisplacement (rewriteBranchDisplacement insn lsb width
      (BitVec.ofInt 32 displacement)) lsb width).toInt =
        4 * (displacement / 4).bmod (2 ^ width) := by
  have split : displacement / 4 = displacement % (2 ^ 32 : Nat) / 4 +
      (2 ^ width : Nat) * (2 ^ (30 - width) * (displacement / 2 ^ 32)) := by
    have whole : (2 : Int) ^ width * 2 ^ (30 - width) = 2 ^ 30 := by
      rw [← Int.pow_add, Nat.add_sub_of_le narrow]
    rw [Nat.cast_pow, ← Int.mul_assoc]
    change _ = _ + (2 : Int) ^ width * 2 ^ (30 - width) * _
    rw [whole]
    omega
  rw [toInt_extractBranchDisplacement _ nonempty narrow inside, fieldBits_rewrite _ _ narrow inside,
    BitVec.toInt_eq_toNat_bmod, BitVec.extractLsb'_toNat, BitVec.toNat_ofInt,
    Nat.shiftRight_eq_div_pow, Int.natCast_emod, Int.emod_bmod, Int.natCast_ediv,
    Int.toNat_of_nonneg (Int.emod_nonneg _ (by decide)), split, Int.add_mul_bmod_self_left]
  rfl

/-- A displacement in the range, and no other, is read back as it was. -/
theorem extract_rewrite_eq_iff (insn : BitVec 32) (displacement : Int) (nonempty : 0 < width)
    (narrow : width ≤ 30) (inside : lsb + width ≤ 32) :
    (extractBranchDisplacement (rewriteBranchDisplacement insn lsb width
      (BitVec.ofInt 32 displacement)) lsb width).toInt = displacement ↔
        InFieldRange width displacement := by
  have half : (2 : Int) ^ (width + 1) = 2 * 2 ^ width := by rw [Int.pow_succ, Int.mul_comm]
  have even : (2 : Int) ^ width = 2 * 2 ^ (width - 1) := by
    rw [Int.mul_comm, ← Int.pow_succ, Nat.succ_eq_add_one, Nat.sub_add_cancel nonempty]
  have positive : (0 : Int) < 2 ^ width := Int.pow_pos (by decide)
  have modulus : ((2 ^ width : Nat) : Int) = 2 ^ width := by rw [Nat.cast_pow]; rfl
  have low := Int.le_bmod (x := displacement / 4) (Nat.two_pow_pos width)
  have high := Int.bmod_lt (x := displacement / 4) (Nat.two_pow_pos width)
  rw [toInt_extract_rewrite insn displacement nonempty narrow inside, InFieldRange, half]
  rw [modulus] at low high
  constructor
  · intro same
    refine ⟨⟨_, same.symm⟩, ?_, ?_⟩ <;> omega
  · rintro ⟨⟨words, rfl⟩, above, below⟩
    rw [Int.mul_ediv_cancel_left _ (by decide), Int.bmod_eq_of_le]
    · rw [modulus]
      omega
    · rw [modulus]
      omega

end

namespace BranchInstructionInfo

theorem field_width : ∀ info ∈ kBranchInstructionInfo,
    0 < info.displacement.width ∧ info.displacement.width ≤ 30 ∧
      info.displacement.lsb + info.displacement.width ≤ 32 := by
  decide

end BranchInstructionInfo

namespace AArch64

/-- **An attempt to encode a displacement succeeds exactly if it is a multiple of 4 in the
range of the field.** Whether or not it does, nothing but the field is changed, the branch is
of the same class, and its displacement is the one wanted modulo the range. -/
theorem tryToReencodeInstructionDisplacements_exact {insn : Instruction kInstructionInfo}
    {info : BranchInstructionInfo} (size : insn.encoded.size = 4)
    (branch : branchInstructionInfo (insnWord insn) = some info) :
    let displacement := insn.directBranch.encodedByteDisplacement.getD kInvalidByteDisplacement
    ∃ success result, tryToReencodeInstructionDisplacements insn = .ok (success, result) ∧
      (success = true ↔ InFieldRange info.displacement.width displacement) ∧
      AgreeOutside info.field (insnWord insn) (insnWord result) ∧
      branchInstructionInfo (insnWord result) = some info ∧
      wordDisplacement result info = 4 * (displacement / 4).bmod (2 ^ info.displacement.width) ∧
      (success = true → wordDisplacement result info = displacement) := by
  intro displacement
  obtain ⟨success, result, run, reencoded⟩ :=
    tryToReencodeInstructionDisplacements_ok size branch
  have ⟨nonempty, narrow, inside⟩ :=
    BranchInstructionInfo.field_width info (branchInstructionInfo_mem branch).1
  have word := reencoded.word
  refine ⟨success, result, run, ?_, reencoded.agrees.symm, reencoded.info branch, ?_, ?_⟩
  · rw [reencoded.success_iff, word]
    exact extract_rewrite_eq_iff (insnWord insn) displacement nonempty narrow inside
  · rw [wordDisplacement, word]
    exact toInt_extract_rewrite (insnWord insn) displacement nonempty narrow inside
  · exact reencoded.success_iff.mp

/-- `b`, with a displacement that is to be encoded. -/
def unconditionalBranch (displacement : Int) : Instruction kInstructionInfo where
  encoded := ⟨encode 4 0x14000000, by decide⟩
  offset := 0
  directBranch := { encodedByteDisplacement := some displacement }

theorem tryToReencodeInstructionDisplacements_exact_backwards :
    let info : BranchInstructionInfo :=
      ⟨⟨0b0111_1100_0000_0000_0000_0000_0000_0000, 0b0001_0100_0000_0000_0000_0000_0000_0000⟩,
        ⟨0, 26⟩⟩
    ∃ success result, tryToReencodeInstructionDisplacements (unconditionalBranch (-2 ^ 27)) =
        .ok (success, result) ∧
      (success = true ↔ InFieldRange 26 (-2 ^ 27)) ∧
      AgreeOutside info.field (insnWord (unconditionalBranch (-2 ^ 27))) (insnWord result) ∧
      branchInstructionInfo (insnWord result) = some info ∧
      wordDisplacement result info = 4 * ((-2 ^ 27 : Int) / 4).bmod (2 ^ 26) ∧
      (success = true → wordDisplacement result info = -2 ^ 27) :=
  @tryToReencodeInstructionDisplacements_exact (unconditionalBranch (-2 ^ 27)) _ rfl rfl

/-- An attempt that fails has written the word: a displacement of 6 leaves one of 4. -/
theorem tryToReencodeInstructionDisplacements_writes :
    ¬ ∀ (insn : Instruction kInstructionInfo) (info : BranchInstructionInfo),
      insn.encoded.size = 4 → branchInstructionInfo (insnWord insn) = some info →
      ∀ displacement ∈ insn.directBranch.encodedByteDisplacement, ∃ success result,
        tryToReencodeInstructionDisplacements insn = .ok (success, result) ∧
        (success = true ↔ InFieldRange info.displacement.width displacement) ∧
        (success = true → AgreeOutside info.field (insnWord insn) (insnWord result) ∧
          branchInstructionInfo (insnWord result) = some info ∧
          wordDisplacement result info = displacement) ∧
        (success = false → result.encoded.bytes = insn.encoded.bytes) := by
  intro claim
  obtain ⟨success, result, run, -, -, unchanged⟩ := claim (unconditionalBranch 6) _ rfl rfl 6 rfl
  have written : tryToReencodeInstructionDisplacements (unconditionalBranch 6) =
      .ok (false, { unconditionalBranch 6 with encoded := ⟨[1, 0, 0, 0x14], by decide⟩ }) := rfl
  rw [written] at run
  cases run
  exact absurd (unchanged rfl) (by decide)

end AArch64

end Silifuzz
