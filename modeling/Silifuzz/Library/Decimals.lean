import Mathlib.Data.List.Basic
import Mathlib.Data.Nat.Basic
import Mathlib.Tactic.Lift

/-!
# Decimal texts

The characters of a number's decimal text, and what two numbers written one after the other
say of where the first one ends.
-/

namespace Decimals

/-- The characters of `str(x)`. -/
def digits (x : Int) : List Char := (toString x).toList

theorem digits_ofNat (n : Nat) : digits n = Nat.toDigits 10 n := Nat.toList_repr

theorem digits_small {b : Int} (low : 0 ≤ b) (high : b < 10) :
    digits b = [Nat.digitChar b.toNat] := by
  lift b to Nat using low
  rw [digits_ofNat, Nat.toDigits_of_lt_base (by omega)]
  rfl

theorem digits_ne_nil {x : Int} (low : 0 ≤ x) : digits x ≠ [] := by
  lift x to Nat using low
  rw [digits_ofNat]
  exact Nat.toDigits_ne_nil

theorem digits_inj {x y : Int} (hx : 0 ≤ x) (hy : 0 ≤ y) (same : digits x = digits y) :
    x = y := by
  lift x to Nat using hx
  lift y to Nat using hy
  rw [digits_ofNat, digits_ofNat] at same
  have values := congrArg (Nat.ofDigitChars 10 · 0) same
  simp only [Nat.ofDigitChars_ten_toDigits] at values
  exact congrArg Int.ofNat values

theorem isDigit_of_mem {x : Int} {c : Char} (low : 0 ≤ x) (mem : c ∈ digits x) :
    c.isDigit := by
  lift x to Nat using low
  rw [digits_ofNat] at mem
  exact Nat.isDigit_of_mem_toDigits (by omega) (by omega) mem

theorem digits_snoc {a b : Int} (front : 0 < a) (low : 0 ≤ b) (high : b < 10) :
    digits a ++ digits b = digits (10 * a + b) := by
  lift a to Nat using by omega
  lift b to Nat using low
  have number : (10 * (a : Int) + b) = ((10 * a + b : Nat) : Int) := by push_cast; rfl
  rw [number, digits_ofNat, digits_ofNat, digits_ofNat]
  exact Nat.toDigits_append_toDigits (by omega) (by omega) (by omega)

/-- The last digits are the same, and so is what is before them. -/
theorem append_digit_iff {y z : List Char} {a b : Int} (ha : 0 ≤ a ∧ a < 10)
    (hb : 0 ≤ b ∧ b < 10) : y ++ digits a = z ++ digits b ↔ y = z ∧ a = b := by
  constructor
  · intro same
    have parts := List.append_inj' same
      (by rw [digits_small ha.1 ha.2, digits_small hb.1 hb.2]; rfl)
    exact ⟨parts.1, digits_inj ha.1 hb.1 parts.2⟩
  · rintro ⟨rfl, rfl⟩
    rfl

/-- A number of two digits. -/
theorem digits_two {k : Int} (two : 10 ≤ k) (high : k < 100) :
    digits k = digits (k / 10) ++ digits (k % 10) := by
  rw [digits_snoc (by omega) (by omega) (by omega)]
  congr 1
  omega

/-- The text of a number of two digits can be cut before the last one. -/
theorem digits_cut {k j : Int} {s : List Char} (hk : 0 ≤ k ∧ k < 100) (hj : 0 ≤ j ∧ j < 100)
    (some : s ≠ []) : digits k = s ++ digits j ↔ 10 ≤ k ∧ j = k % 10 ∧ s = digits (k / 10) := by
  have front : 0 < s.length := List.length_pos_iff.mpr some
  constructor
  · intro same
    by_cases two : 10 ≤ k
    · rw [digits_two two hk.2] at same
      by_cases one : j < 10
      · obtain ⟨tens, units⟩ := (append_digit_iff ⟨by omega, by omega⟩ ⟨hj.1, one⟩).mp same
        exact ⟨two, units.symm, tens.symm⟩
      · rw [digits_two (Int.not_lt.mp one) hj.2, ← List.append_assoc] at same
        have tens := (append_digit_iff ⟨by omega, by omega⟩ ⟨by omega, by omega⟩).mp same
        have lengths := congrArg List.length tens.1
        rw [digits_small (by omega) (by omega), digits_small (by omega) (by omega),
          List.length_append, List.length_singleton, List.length_singleton] at lengths
        omega
    · have back : 0 < (digits j).length := List.length_pos_iff.mpr (digits_ne_nil hj.1)
      have lengths := congrArg List.length same
      rw [digits_small hk.1 (by omega), List.length_append, List.length_singleton] at lengths
      omega
  · rintro ⟨two, rfl, rfl⟩
    exact digits_two two hk.2

/-- A leading zero is no text of a number, `0` apart. -/
theorem zero_append_digits {a y : Int} (low : 0 ≤ a) (high : a < 10) (hy : 0 ≤ y) :
    digits 0 ++ digits a ≠ digits y := by
  intro same
  have value : a = y := by
    lift a to Nat using low
    lift y to Nat using hy
    have values := congrArg (Nat.ofDigitChars 10 · 0) same
    have zero : digits 0 = Nat.toDigits 10 0 := digits_ofNat 0
    rw [zero, digits_ofNat, digits_ofNat] at values
    simp only [Nat.ofDigitChars_append, Nat.ofDigitChars_ten_toDigits] at values
    exact congrArg Int.ofNat values
  subst value
  have lengths := congrArg List.length same
  simp [digits_small low high, digits_small (b := 0)] at lengths

/-- `10 v + a` before `b` is written as `v` before `10 a + b` is. -/
def Shifted (x y : Int × Int) : Prop :=
  ∃ v a b, 1 ≤ v ∧ 1 ≤ a ∧ 0 ≤ b ∧ b < 10 ∧ x = (v, 10 * a + b) ∧ y = (10 * v + a, b)

def SameText (x y : Int × Int) : Prop := x = y ∨ Shifted x y ∨ Shifted y x

theorem Shifted.text {x y : Int × Int} (shifted : Shifted x y) (short : x.2 < 100) :
    digits x.1 ++ digits x.2 = digits y.1 ++ digits y.2 := by
  obtain ⟨v, a, b, hv, ha, low, high, rfl, rfl⟩ := shifted
  rw [← digits_snoc (a := a) (by omega) low high, ← digits_snoc (a := v) (by omega) (by omega)
    (by simp only at short; omega), List.append_assoc]

/-- The last digit of the second number stands at the same place, so a second number of two
digits gives one of them to the first. -/
theorem sameText_of_one_digit {x y : Int × Int} (hx : 0 ≤ x.1 ∧ 0 ≤ x.2 ∧ x.2 < 100)
    (hy : 0 ≤ y.1 ∧ 0 ≤ y.2 ∧ y.2 < 10)
    (same : digits x.1 ++ digits x.2 = digits y.1 ++ digits y.2) : SameText x y := by
  obtain ⟨v, k⟩ := x
  obtain ⟨w, j⟩ := y
  simp only at hx hy same
  by_cases one : k < 10
  · obtain ⟨first, second⟩ := (append_digit_iff ⟨hx.2.1, one⟩ hy.2).mp same
    exact .inl (by rw [digits_inj hx.1 hy.1 first, second])
  · have split : k = 10 * (k / 10) + k % 10 := by omega
    rw [digits_two (by omega) hx.2.2, ← List.append_assoc] at same
    obtain ⟨front, last⟩ := (append_digit_iff ⟨by omega, by omega⟩ hy.2).mp same
    by_cases zero : v = 0
    · subst zero
      exact absurd front (zero_append_digits (by omega) (by omega) hy.1)
    · rw [digits_snoc (by omega) (by omega) (by omega)] at front
      have first := digits_inj (by omega) hy.1 front
      exact .inr (.inl ⟨v, k / 10, j, by omega, by omega, by omega, by omega,
        by rw [← last, ← split], by rw [first]⟩)

theorem digits_append_eq_iff {x y : Int × Int} (hx : 0 ≤ x.1 ∧ 0 ≤ x.2 ∧ x.2 < 100)
    (hy : 0 ≤ y.1 ∧ 0 ≤ y.2 ∧ y.2 < 100) :
    digits x.1 ++ digits x.2 = digits y.1 ++ digits y.2 ↔ SameText x y := by
  constructor
  · intro same
    by_cases one : y.2 < 10
    · exact sameText_of_one_digit hx ⟨hy.1, hy.2.1, one⟩ same
    by_cases one' : x.2 < 10
    · rcases sameText_of_one_digit hy ⟨hx.1, hx.2.1, one'⟩ same.symm with eq | shifted | shifted
      · exact .inl eq.symm
      · exact .inr (.inr shifted)
      · exact .inr (.inl shifted)
    · rw [digits_two (Int.not_lt.mp one) hy.2.2, digits_two (Int.not_lt.mp one') hx.2.2] at same
      have parts := List.append_inj' same
        (by simp only [List.length_append]
            repeat rw [digits_small (by omega) (by omega)]
            rfl)
      have seconds := List.append_inj' parts.2
        (by rw [digits_small (by omega) (by omega), digits_small (by omega) (by omega)]; rfl)
      have tens := digits_inj (by omega) (by omega) seconds.1
      have units := digits_inj (by omega) (by omega) seconds.2
      exact .inl (Prod.ext (digits_inj hx.1 hy.1 parts.1) (by omega))
  · rintro (rfl | shifted | shifted)
    · rfl
    · exact shifted.text hx.2.2
    · exact (shifted.text hy.2.2).symm

/-- `x` is what `u` and then `k` are written as, without the text of `j` at its end: `j` is `k`, or
the last digit of `k`, or the last digit of `u` and `k`. -/
def Trailing (u k j : Int) (x : List Char) : Prop :=
  (j = k ∧ x = digits u) ∨
  (10 ≤ k ∧ j = k % 10 ∧ x = digits u ++ digits (k / 10)) ∨
  (k < 10 ∧ 1 ≤ u % 10 ∧ j = 10 * (u % 10) + k ∧ x = if u < 10 then [] else digits (u / 10))

/-- The digits of a number before its last. -/
theorem digits_eq_append {u a : Int} {x : List Char} (hu : 0 ≤ u) (low : 0 ≤ a) (high : a < 10) :
    digits u = x ++ digits a ↔ a = u % 10 ∧ x = if u < 10 then [] else digits (u / 10) := by
  by_cases one : u < 10
  · rw [if_pos one, Int.emod_eq_of_lt hu one]
    constructor
    · intro same
      have parts := List.append_inj' (show [] ++ digits u = x ++ digits a from same)
        (by rw [digits_small hu one, digits_small low high]; rfl)
      exact ⟨digits_inj low hu parts.2.symm, parts.1.symm⟩
    · rintro ⟨rfl, rfl⟩
      rfl
  · have text : digits u = digits (u / 10) ++ digits (u % 10) := by
      rw [digits_snoc (by omega) (by omega) (by omega)]
      congr 1
      omega
    rw [if_neg one, text]
    constructor
    · intro same
      have parts := List.append_inj' same
        (by rw [digits_small (by omega) (by omega), digits_small low high]; rfl)
      exact ⟨digits_inj low (by omega) parts.2.symm, parts.1.symm⟩
    · rintro ⟨rfl, rfl⟩
      rfl

theorem trailing_iff {u k j : Int} {x : List Char} (hu : 0 ≤ u) (hk : 0 ≤ k ∧ k < 100)
    (hj : 0 ≤ j ∧ j < 100) : digits u ++ digits k = x ++ digits j ↔ Trailing u k j x := by
  -- what is before the last digits is compared by the number of digits
  unfold Trailing
  by_cases oneK : k < 10
  · by_cases oneJ : j < 10
    · rw [append_digit_iff ⟨hk.1, oneK⟩ ⟨hj.1, oneJ⟩]
      constructor
      · rintro ⟨rfl, rfl⟩
        exact .inl ⟨rfl, rfl⟩
      · rintro (⟨rfl, rfl⟩ | ⟨two, -⟩ | ⟨-, some, two, -⟩)
        · exact ⟨rfl, rfl⟩
        · omega
        · omega
    · rw [digits_two (Int.not_lt.mp oneJ) hj.2, ← List.append_assoc,
        append_digit_iff ⟨hk.1, oneK⟩ ⟨by omega, by omega⟩, digits_eq_append hu (by omega) (by omega)]
      constructor
      · rintro ⟨⟨tens, rfl⟩, units⟩
        exact .inr (.inr ⟨oneK, by omega, by omega, rfl⟩)
      · rintro (⟨rfl, -⟩ | ⟨two, -⟩ | ⟨-, some, two, rfl⟩)
        · exact absurd oneK oneJ
        · omega
        · exact ⟨⟨by omega, rfl⟩, by omega⟩
  · rw [digits_two (Int.not_lt.mp oneK) hk.2, ← List.append_assoc]
    by_cases oneJ : j < 10
    · rw [append_digit_iff ⟨by omega, by omega⟩ ⟨hj.1, oneJ⟩]
      constructor
      · rintro ⟨rfl, units⟩
        exact .inr (.inl ⟨by omega, units.symm, rfl⟩)
      · rintro (⟨rfl, -⟩ | ⟨-, units, rfl⟩ | ⟨one, -⟩)
        · exact absurd oneJ oneK
        · exact ⟨rfl, units.symm⟩
        · exact absurd one oneK
    · rw [digits_two (Int.not_lt.mp oneJ) hj.2, ← List.append_assoc,
        append_digit_iff ⟨by omega, by omega⟩ ⟨by omega, by omega⟩,
        append_digit_iff ⟨by omega, by omega⟩ ⟨by omega, by omega⟩]
      constructor
      · rintro ⟨⟨rfl, tens⟩, units⟩
        exact .inl ⟨by omega, rfl⟩
      · rintro (⟨rfl, rfl⟩ | ⟨-, units, -⟩ | ⟨one, -⟩)
        · exact ⟨⟨rfl, rfl⟩, rfl⟩
        · omega
        · exact absurd one oneK

end Decimals
