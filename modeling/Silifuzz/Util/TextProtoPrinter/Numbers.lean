import Silifuzz.Util.TextProtoPrinter

/-!
# IntStr and HexStr

The loops of `util/checks.cc` and `util/itoa.cc` that write a number from its last digit on,
and that what they write is the text that the printer has.
-/

namespace Silifuzz

open TextFormat

namespace ChecksInternal

/-- The loop of `IntStr`, where `done` has been written. A negative number is not negated,
since the most negative one has no opposite. -/
def digitsLoop (isNeg : Bool) (num : Int) (done : Text) : Text :=
  let digit := if isNeg then -(num.tmod 10) else num.tmod 10
  let rest := num.tdiv 10
  if rest = 0 then hexDigit digit.toNat :: done
  else digitsLoop isNeg rest (hexDigit digit.toNat :: done)
termination_by num.natAbs
decreasing_by
  rename_i more
  rw [Int.natAbs_tdiv]
  have : num ≠ 0 := by
    rintro rfl
    exact more (Int.zero_tdiv 10)
  exact Nat.div_lt_self (Int.natAbs_pos.mpr this) (by decide)

def intStr (num : Int) : Text :=
  let isNeg := decide (num < 0)
  let done := digitsLoop isNeg num []
  if isNeg then '-' :: done else done

theorem digitsLoop_nat (n : Nat) (done : Text) : digitsLoop false n done = digits 10 n ++ done := by
  induction n using Nat.strong_induction_on generalizing done with
  | _ n ih =>
    have rest : (n : Int).tdiv 10 = ((n / 10 : Nat) : Int) := (Int.ofNat_tdiv n 10).symm
    have digit : (n : Int).tmod 10 = ((n % 10 : Nat) : Int) := (Int.ofNat_tmod n 10).symm
    rw [digitsLoop, digits]
    simp only [rest, digit, Bool.false_eq_true, if_false, Int.toNat_natCast]
    by_cases last : n < 10
    · rw [if_pos (by omega), if_neg (by omega), Nat.mod_eq_of_lt last]
      rfl
    · rw [if_neg (by omega), if_pos (by omega), ih (n / 10) (by omega), List.append_assoc]
      rfl

theorem digitsLoop_neg (n : Nat) (done : Text) :
    digitsLoop true (-(n : Int)) done = digits 10 n ++ done := by
  induction n using Nat.strong_induction_on generalizing done with
  | _ n ih =>
    have rest : (-(n : Int)).tdiv 10 = -((n / 10 : Nat) : Int) := by
      rw [Int.neg_tdiv]
      exact congrArg Neg.neg (Int.ofNat_tdiv n 10).symm
    have digit : (-(n : Int)).tmod 10 = -((n % 10 : Nat) : Int) := by
      rw [Int.neg_tmod]
      exact congrArg Neg.neg (Int.ofNat_tmod n 10).symm
    rw [digitsLoop, digits]
    simp only [rest, digit, if_true, neg_neg, Int.toNat_natCast]
    by_cases last : n < 10
    · rw [if_pos (by omega), if_neg (by omega), Nat.mod_eq_of_lt last]
      rfl
    · rw [if_neg (by omega), if_pos (by omega), ih (n / 10) (by omega), List.append_assoc]
      rfl

/-- **`IntStr` writes every number**, the most negative one too. -/
theorem intStr_eq (num : Int) : intStr num = Itoa.intStr num := by
  unfold intStr Itoa.intStr
  by_cases negative : num < 0
  · have abs : num = -(num.natAbs : Int) := by omega
    simp only [negative, decide_true, if_true]
    rw [abs, digitsLoop_neg, List.append_nil, Int.natAbs_neg, Int.natAbs_natCast]
  · have abs : num = (num.natAbs : Int) := by omega
    simp only [negative, decide_false, Bool.false_eq_true, if_false]
    rw [abs, digitsLoop_nat, List.append_nil, Int.natAbs_natCast]

end ChecksInternal

namespace Itoa

/-- The loop of `HexStr`. -/
def hexDigitsLoop (num : Nat) (done : Text) : Text :=
  let rest := num >>> 4
  if rest = 0 then hexDigit (num &&& 0xf) :: done
  else hexDigitsLoop rest (hexDigit (num &&& 0xf) :: done)
termination_by num
decreasing_by
  rename_i more
  change ¬ num >>> 4 = 0 at more
  rw [Nat.shiftRight_eq_div_pow] at more ⊢
  omega

theorem hexDigitsLoop_eq (num : Nat) (done : Text) :
    hexDigitsLoop num done = digits 16 num ++ done := by
  induction num using Nat.strong_induction_on generalizing done with
  | _ num ih =>
    have rest : num >>> 4 = num / 16 := Nat.shiftRight_eq_div_pow num 4
    have digit : num &&& 0xf = num % 16 := Nat.and_two_pow_sub_one_eq_mod num 4
    rw [hexDigitsLoop, digits]
    simp only [rest, digit]
    by_cases last : num < 16
    · rw [if_pos (by omega), if_neg (by omega), Nat.mod_eq_of_lt last]
      rfl
    · rw [if_neg (by omega), if_pos (by omega), ih (num / 16) (by omega), List.append_assoc]
      rfl

/-- `HexStr` writes the digits of the number behind `0x`. -/
theorem hexStr_eq (num : Nat) : '0' :: 'x' :: hexDigitsLoop num [] = hexStr num := by
  rw [hexDigitsLoop_eq, List.append_nil]
  rfl

end Itoa

end Silifuzz
