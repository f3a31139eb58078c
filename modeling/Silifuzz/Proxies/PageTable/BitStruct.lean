import Mathlib.Data.Nat.Bitwise

/-!
# BitStruct

The bit fields of a 64-bit word (`proxies/page_table/bit_struct.h`). A field that is set reads
back as it was set, and fields that share no bit do not see each other.
-/

namespace BitStruct

/-- `SILIFUZZ_PROXY_BIT_STRUCT_FIELD(name, lsb, msb)` -/
structure Field where
  lsb : Nat
  msb : Nat

def Field.width (f : Field) : Nat := f.msb - f.lsb + 1

def bitMask (n : Nat) : Nat := (1 <<< n) - 1

def get (bits : Nat) (f : Field) : Nat := (bits >>> f.lsb) &&& bitMask f.width

def set (bits : Nat) (f : Field) (value : Nat) : Nat :=
  (bits &&& (bitMask 64 ^^^ (bitMask f.width <<< f.lsb))) |||
    ((value &&& bitMask f.width) <<< f.lsb)

/-- The field is one of a 64-bit word. -/
def Field.Fits (f : Field) : Prop := f.lsb ≤ f.msb ∧ f.msb < 64

def Field.Apart (f g : Field) : Prop := f.msb < g.lsb ∨ g.msb < f.lsb

instance (f : Field) : Decidable f.Fits := inferInstanceAs (Decidable (_ ∧ _))

instance (f g : Field) : Decidable (f.Apart g) := inferInstanceAs (Decidable (_ ∨ _))

variable {f g : Field} {bits value v w : Nat}

theorem testBit_bitMask (n i : Nat) : (bitMask n).testBit i = decide (i < n) := by
  rw [bitMask, Nat.one_shiftLeft, Nat.testBit_two_pow_sub_one]

theorem testBit_get (bits : Nat) (f : Field) (i : Nat) :
    (get bits f).testBit i = (bits.testBit (f.lsb + i) && decide (i < f.width)) := by
  rw [get, Nat.testBit_and, Nat.testBit_shiftRight, testBit_bitMask]

theorem testBit_set_inside (fits : f.Fits) {i : Nat} (low : f.lsb ≤ i) (high : i ≤ f.msb) :
    (set bits f value).testBit i = value.testBit (i - f.lsb) := by
  have width : i - f.lsb < f.width := by
    unfold Field.width
    omega
  have inWord : i < 64 := by
    have := fits.2
    omega
  simp [set, testBit_bitMask, Nat.testBit_or, Nat.testBit_and, Nat.testBit_xor, Nat.testBit_shiftLeft,
    low, width, inWord]

theorem testBit_set_outside (fits : f.Fits) {i : Nat} (outside : i < f.lsb ∨ f.msb < i) :
    (set bits f value).testBit i = (bits.testBit i && decide (i < 64)) := by
  have := fits.1
  have beyond : f.lsb ≤ i → ¬ i - f.lsb < f.width := by
    unfold Field.width
    omega
  by_cases low : f.lsb ≤ i
  · simp [set, testBit_bitMask, Nat.testBit_or, Nat.testBit_and, Nat.testBit_xor,
      Nat.testBit_shiftLeft, low, beyond low]
  · simp [set, testBit_bitMask, Nat.testBit_or, Nat.testBit_and, Nat.testBit_xor,
      Nat.testBit_shiftLeft, low]

/-- A field reads as it was set. -/
theorem get_set (fits : f.Fits) : get (set bits f value) f = value % 2 ^ f.width := by
  refine Nat.eq_of_testBit_eq fun i => ?_
  rw [testBit_get, Nat.testBit_mod_two_pow]
  by_cases inside : i < f.width
  · have high : f.lsb + i ≤ f.msb := by
      have := fits.1
      unfold Field.width at inside
      omega
    rw [testBit_set_inside fits (Nat.le_add_right _ _) high, Nat.add_sub_cancel_left, Bool.and_comm]
  · simp [inside]

/-- Setting a field leaves the fields apart from it as they were. -/
theorem get_set_apart (fits : f.Fits) (fits' : g.Fits) (apart : f.Apart g) :
    get (set bits f value) g = get bits g := by
  refine Nat.eq_of_testBit_eq fun i => ?_
  rw [testBit_get, testBit_get]
  by_cases inside : i < g.width
  · have high : g.lsb + i ≤ g.msb := by
      have := fits'.1
      unfold Field.width at inside
      omega
    have outside : g.lsb + i < f.lsb ∨ f.msb < g.lsb + i := by
      rcases apart with below | above
      · exact .inr (by omega)
      · exact .inl (by omega)
    have inWord : g.lsb + i < 64 := high.trans_lt fits'.2
    rw [testBit_set_outside fits outside]
    simp [inWord]
  · simp [inside]

/-- Fields that are apart may be set in either order. -/
theorem set_comm (fits : f.Fits) (fits' : g.Fits) (apart : f.Apart g) :
    set (set bits f v) g w = set (set bits g w) f v := by
  refine Nat.eq_of_testBit_eq fun i => ?_
  by_cases inF : f.lsb ≤ i ∧ i ≤ f.msb
  · have outG : i < g.lsb ∨ g.msb < i := by
      rcases apart with below | above <;> omega
    have inWord : i < 64 := inF.2.trans_lt fits.2
    rw [testBit_set_outside fits' outG, testBit_set_inside fits inF.1 inF.2,
      testBit_set_inside fits inF.1 inF.2]
    simp [inWord]
  · have outF : i < f.lsb ∨ f.msb < i := by omega
    by_cases inG : g.lsb ≤ i ∧ i ≤ g.msb
    · have inWord : i < 64 := inG.2.trans_lt fits'.2
      rw [testBit_set_inside fits' inG.1 inG.2, testBit_set_outside fits outF,
        testBit_set_inside fits' inG.1 inG.2]
      simp [inWord]
    · have outG : i < g.lsb ∨ g.msb < i := by omega
      rw [testBit_set_outside fits' outG, testBit_set_outside fits outF,
        testBit_set_outside fits outF, testBit_set_outside fits' outG]

/-- Setting a field again to the same value changes nothing. -/
theorem set_set (fits : f.Fits) : set (set bits f v) f v = set bits f v := by
  refine Nat.eq_of_testBit_eq fun i => ?_
  by_cases inside : f.lsb ≤ i ∧ i ≤ f.msb
  · rw [testBit_set_inside fits inside.1 inside.2, testBit_set_inside fits inside.1 inside.2]
  · have outside : i < f.lsb ∨ f.msb < i := by omega
    rw [testBit_set_outside fits outside, testBit_set_outside fits outside]
    simp

/-- A field as a number. -/
theorem get_eq (bits : Nat) (f : Field) : get bits f = bits / 2 ^ f.lsb % 2 ^ f.width := by
  rw [get, bitMask, Nat.one_shiftLeft, Nat.shiftRight_eq_div_pow, Nat.and_two_pow_sub_one_eq_mod]

theorem set_lt (fits : f.Fits) : set bits f value < 2 ^ 64 := by
  apply Nat.lt_pow_two_of_testBit
  intro i beyond
  have := fits.2
  rw [testBit_set_outside fits (.inr (by omega))]
  simp [Nat.not_lt.mpr beyond]

end BitStruct
