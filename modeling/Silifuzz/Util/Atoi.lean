import Mathlib.Data.BitVec
import Mathlib.Data.List.Basic
import Mathlib.Order.Basic

/-!
# Atoi

`DecToU64` and `HexToU64` of `util/atoi.cc`, which read a number from the first `len`
characters of a C string, and the lengths for which they do so.
-/

namespace Silifuzz

namespace Atoi

abbrev Char8 := BitVec 8

/-- A C string, without the zero that ends it. -/
structure CString where
  chars : List Char8
  nonzero : ∀ c ∈ chars, c ≠ 0

def digitValue (base : Int) (c : Char8) : Int :=
  let value : Int :=
    if 0x30 ≤ c ∧ c ≤ 0x39 then c.toNat - 0x30
    else if 0x61 ≤ c ∧ c ≤ 0x7a then c.toNat - 0x61 + 10
    else if 0x41 ≤ c ∧ c ≤ 0x5a then c.toNat - 0x41 + 10
    else -1
  if value < base then value else -1

/-- The loop of `StrToU64`, over the characters that are left, of which it takes `len`; none is
the result false. -/
def digitsFrom (base : Nat) (value : Nat) : List Char8 → Nat → Option Nat
  | [], _ | _ :: _, 0 => some value
  | c :: str, len + 1 =>
    let digit := digitValue base c
    let limitValue := (2 ^ 64 - 1) / base
    let limitDigit := (2 ^ 64 - 1) % base
    if digit < 0 then none
    else if limitValue < value ∨ value = limitValue ∧ limitDigit < digit.toNat then none
    else digitsFrom base ((value * base + digit.toNat) % 2 ^ 64) str len

/-- `StrToU64`: what it returns, and `*result` after it. -/
def strToU64 (base : Nat) (str : List Char8) (len : BitVec 64) (result : Nat) : Bool × Nat :=
  if str.isEmpty then (false, result)
  else
    match digitsFrom base 0 str len.toNat with
    | some value => (true, value)
    | none => (false, result)

def decToU64 (str : CString) (len : BitVec 64) (result : Nat) : Bool × Nat :=
  strToU64 10 str.chars len result

/-- `0x` or `0X` -/
def hasPrefix (str : List Char8) : Bool :=
  str.head? == some 0x30 && (str[1]? == some 0x78 || str[1]? == some 0x58)

def hexToU64 (str : CString) (len : BitVec 64) (result : Nat) : Bool × Nat :=
  if hasPrefix str.chars then strToU64 16 (str.chars.drop 2) (len - 2) result
  else strToU64 16 str.chars len result

/-! ## What they are to do -/

def addDigit (base value : Nat) (c : Char8) : Option Nat :=
  if 0 ≤ digitValue base c then some (value * base + (digitValue base c).toNat) else none

/-- The 64-bit number that the characters are, if there are any and all of them are digits. -/
def denoted (base : Nat) (str : List Char8) : Option Nat :=
  if str.isEmpty then none else (str.foldlM (addDigit base) 0).filter (· < 2 ^ 64)

/-- The number is stored; without one, `*result` stays. -/
def outcome (number : Option Nat) (result : Nat) : Bool × Nat :=
  match number with
  | some value => (true, value)
  | none => (false, result)

/-- The number that a text in base 16 is, with or without a prefix. -/
def denotedHex (str : List Char8) : Option Nat :=
  if hasPrefix str then denoted 16 (str.drop 2) else denoted 16 str

/-- The outcome is that of the number in the first `len` characters, whatever comes after
them. -/
def Reads (toU64 : CString → BitVec 64 → Nat → Bool × Nat) (number : List Char8 → Option Nat)
    (str : CString) (len : BitVec 64) : Prop :=
  (∀ result, toU64 str len result = outcome (number (str.chars.take len.toNat)) result) ∧
    ∀ str' : CString, str'.chars.take len.toNat = str.chars.take len.toNat →
      ∀ result, toU64 str' len result = toU64 str len result

theorem foldlM_le {base : Nat} (positive : 0 < base) {str : List Char8} {v w : Nat}
    (run : str.foldlM (addDigit base) v = some w) : v ≤ w := by
  induction str generalizing v with
  | nil => exact (Option.some.inj run).le
  | cons c str ih =>
    obtain ⟨next, step, rest⟩ := Option.bind_eq_some_iff.mp run
    have more := ih rest
    unfold addDigit at step
    split at step
    · have grows : v ≤ v * base := Nat.le_mul_of_pos_right v positive
      have := Option.some.inj step
      omega
    · cases step

theorem digitValue_lt {base : Nat} (positive : 0 < base) (c : Char8) : digitValue base c < base := by
  unfold digitValue
  dsimp only
  generalize (if 0x30 ≤ c ∧ c ≤ 0x39 then (c.toNat : Int) - 0x30
    else if 0x61 ≤ c ∧ c ≤ 0x7a then (c.toNat : Int) - 0x61 + 10
    else if 0x41 ≤ c ∧ c ≤ 0x5a then (c.toNat : Int) - 0x41 + 10
    else -1) = value
  split
  · assumption
  · omega

/-- The test for an overflow is exact. -/
theorem overflows_iff {base digit : Nat} (h : digit < base) (max value : Nat) :
    max / base < value ∨ value = max / base ∧ max % base < digit ↔ max < value * base + digit := by
  have whole : max / base * base + max % base = max := by
    rw [Nat.mul_comm, Nat.div_add_mod]
  have part : max % base < base := Nat.mod_lt _ (by omega)
  rcases lt_trichotomy (max / base) value with more | rfl | less
  · have enough := Nat.mul_le_mul_right base more
    rw [Nat.succ_mul] at enough
    omega
  · omega
  · have few := Nat.mul_le_mul_right base less
    rw [Nat.succ_mul] at few
    omega

/-- **The loop finds the number**, or sees that it is none or too large. -/
theorem digitsFrom_eq {base : Nat} (positive : 0 < base) (str : List Char8) (len value : Nat)
    (small : value < 2 ^ 64) :
    digitsFrom base value str len =
      ((str.take len).foldlM (addDigit base) value).filter (· < 2 ^ 64) := by
  induction str generalizing len value with
  | nil => simpa [digitsFrom, Option.filter] using small
  | cons c str ih =>
    cases len with
    | zero => simpa [digitsFrom, Option.filter] using small
    | succ len =>
      have bound := digitValue_lt positive c
      rw [digitsFrom, List.take_succ_cons, List.foldlM_cons]
      by_cases digit : digitValue base c < 0
      · have none : addDigit base value c = none := if_neg (by omega)
        simp [digit, none]
      · have next : addDigit base value c = some (value * base + (digitValue base c).toNat) :=
          if_pos (by omega)
        have overflow := @overflows_iff base (digitValue base c).toNat (by omega)
          (2 ^ 64 - 1) value
        simp only [if_neg digit, overflow, next, Option.bind_eq_bind, Option.bind_some]
        split
        · next large =>
          symm
          apply Option.filter_eq_none_iff.mpr
          intro w run
          have grows := foldlM_le positive run
          simp only [decide_eq_true_eq]
          omega
        · next fits =>
          rw [Nat.mod_eq_of_lt (by omega)]
          exact ih len _ (by omega)

/-- With a character to look at, `StrToU64` reads the number. -/
theorem strToU64_eq {base : Nat} (positive : 0 < base) (str : List Char8) {len : BitVec 64}
    (some : len ≠ 0) (result : Nat) :
    strToU64 base str len result = outcome (denoted base (str.take len.toNat)) result := by
  have turns : 0 < len.toNat := by
    rw [Nat.pos_iff_ne_zero]
    intro zero
    exact some (BitVec.eq_of_toNat_eq zero)
  unfold strToU64 denoted
  cases str with
  | nil => simp [outcome]
  | cons c str =>
    have nonempty : ((c :: str).take len.toNat).isEmpty = false := by
      rw [List.isEmpty_eq_false_iff, ne_eq, List.take_eq_nil_iff]
      simp
      omega
    rw [digitsFrom_eq positive _ _ _ (by decide), nonempty]
    rfl

/-- Two strings that agree as far as `len` have other outcomes. -/
theorem not_reads {toU64 : CString → BitVec 64 → Nat → Bool × Nat} {number : List Char8 → Option Nat}
    {str : CString} {len : BitVec 64} (a b : CString)
    (ha : a.chars.take len.toNat = str.chars.take len.toNat)
    (hb : b.chars.take len.toNat = str.chars.take len.toNat) (differ : toU64 a len 1 ≠ toU64 b len 1) :
    ¬ Reads toU64 number str len := by
  intro reads
  exact differ ((reads.2 a ha 1).trans (reads.2 b hb 1).symm)

def emptyString : CString := ⟨[], by decide⟩

/-- `"5"`, `"0"` and `"0x5"` -/
def five : CString := ⟨[0x35], by decide⟩
def zero : CString := ⟨[0x30], by decide⟩
def hexFive : CString := ⟨[0x30, 0x78, 0x35], by decide⟩

theorem decToU64_reads (str : CString) (len : BitVec 64) :
    Reads decToU64 (denoted 10) str len ↔ len ≠ 0 := by
  constructor
  · rintro reads rfl
    exact absurd reads (not_reads emptyString five rfl rfl (by decide))
  · intro some
    constructor
    · intro result
      exact strToU64_eq (by decide) str.chars some result
    · intro str' same result
      simp only [decToU64, strToU64_eq (by decide : 0 < 10) _ some, same]

/-- Whether there is a prefix can be seen in the first two characters. -/
theorem hasPrefix_take {str : List Char8} {n : Nat} (two : 2 ≤ n) :
    hasPrefix (str.take n) = hasPrefix str := by
  have first : (str.take n).head? = str.head? := by
    rw [List.head?_take, if_neg (by omega)]
  have second : (str.take n)[1]? = str[1]? := List.getElem?_take_of_lt (by omega)
  rw [hasPrefix, first, second, hasPrefix]

/-- `HexToU64` where it does not look past `len`. -/
theorem hexToU64_eq (str : CString) {len : BitVec 64} (some : len ≠ 0)
    (looks : 3 ≤ len.toNat ∨ hasPrefix str.chars = false ∧
      hasPrefix (str.chars.take len.toNat) = false) (result : Nat) :
    hexToU64 str len result = outcome (denotedHex (str.chars.take len.toNat)) result := by
  unfold hexToU64 denotedHex
  by_cases begins : hasPrefix str.chars = true
  · have three : 3 ≤ len.toNat := looks.resolve_right fun plain => by
      rw [plain.1] at begins
      cases begins
    have rest : (len - 2).toNat = len.toNat - 2 := BitVec.toNat_sub_of_le (by
      rw [BitVec.le_def]
      exact (show 2 ≤ len.toNat by omega))
    have more : len - 2 ≠ 0 := by
      intro none
      have := congrArg BitVec.toNat none
      rw [rest] at this
      change len.toNat - 2 = 0 at this
      omega
    rw [hasPrefix_take (by omega), if_pos begins, if_pos begins, strToU64_eq (by decide) _ more,
      rest, List.drop_take]
  · have plain : hasPrefix (str.chars.take len.toNat) = false := by
      rcases looks with three | plain
      · rw [hasPrefix_take (by omega)]
        exact Bool.eq_false_iff.mpr begins
      · exact plain.2
    rw [if_neg begins, if_neg (by rw [plain]; decide), strToU64_eq (by decide) _ some]

/-- The lengths for which `HexToU64` does not look past them. -/
def Within (str : CString) (len : BitVec 64) : Prop :=
  3 ≤ len.toNat ∨ len = 2 ∧ hasPrefix (str.chars.take 2) = false ∨
    len = 1 ∧ str.chars.head? ≠ some 0x30

theorem Within.looks {str : CString} {len : BitVec 64} (h : Within str len) :
    len ≠ 0 ∧ (3 ≤ len.toNat ∨ hasPrefix str.chars = false ∧
      hasPrefix (str.chars.take len.toNat) = false) := by
  rcases h with three | ⟨rfl, plain⟩ | ⟨rfl, first⟩
  · refine ⟨?_, .inl three⟩
    rintro rfl
    exact absurd three (by decide)
  · refine ⟨by decide, .inr ⟨?_, plain⟩⟩
    rwa [hasPrefix_take le_rfl] at plain
  · refine ⟨by decide, .inr ⟨?_, ?_⟩⟩
    · rw [hasPrefix, beq_eq_false_iff_ne.mpr first, Bool.false_and]
    · change hasPrefix (str.chars.take 1) = false
      rw [hasPrefix, List.head?_take]
      simp

theorem Within.congr {str str' : CString} {len : BitVec 64} (h : Within str len)
    (same : str'.chars.take len.toNat = str.chars.take len.toNat) : Within str' len := by
  rcases h with three | ⟨rfl, plain⟩ | ⟨rfl, first⟩
  · exact .inl three
  · right; left
    change str'.chars.take 2 = str.chars.take 2 at same
    rw [same]
    exact ⟨rfl, plain⟩
  · right; right
    have heads := congrArg List.head? same
    change (str'.chars.take 1).head? = (str.chars.take 1).head? at heads
    rw [List.head?_take, List.head?_take, if_neg (by decide), if_neg (by decide)] at heads
    rw [heads]
    exact ⟨rfl, first⟩

theorem hexToU64_reads (str : CString) (len : BitVec 64) :
    Reads hexToU64 denotedHex str len ↔ Within str len := by
  constructor
  · intro reads
    by_contra beyond
    have short : len = 0 ∨ len = 1 ∨ len = 2 := by
      have few : len.toNat < 3 := by
        by_contra three
        exact beyond (.inl (by omega))
      bv_omega
    rcases short with rfl | rfl | rfl
    · exact absurd reads (not_reads emptyString five rfl rfl (by decide))
    · have first : str.chars.head? = some 0x30 := by
        by_contra other
        exact beyond (.inr (.inr ⟨rfl, other⟩))
      have one : str.chars.take 1 = [0x30] := by
        cases chars : str.chars with
        | nil => simp [chars] at first
        | cons c rest => simpa [chars] using first
      exact absurd reads (not_reads zero hexFive one.symm one.symm (by decide))
    · have begins : hasPrefix (str.chars.take 2) = true := by
        by_contra plain
        exact beyond (.inr (.inl ⟨rfl, Bool.eq_false_iff.mpr plain⟩))
      -- the prefix alone, and with a digit behind it
      let bare : CString := ⟨str.chars.take 2, fun c hc => str.nonzero c (List.mem_of_mem_take hc)⟩
      let more : CString := ⟨str.chars.take 2 ++ [0x35], fun c hc => by
        rcases List.mem_append.mp hc with hc | hc
        · exact str.nonzero c (List.mem_of_mem_take hc)
        · rw [List.mem_singleton.mp hc]
          decide⟩
      have length : (str.chars.take 2).length = 2 := by
        match chars : str.chars.take 2, begins with
        | [], begins => cases begins
        | [c], begins => simp [hasPrefix] at begins
        | [c, d], _ => rfl
        | c :: d :: e :: rest, _ =>
          have := congrArg List.length chars
          simp only [List.length_take, List.length_cons] at this
          omega
      have begins' : hasPrefix (str.chars.take 2 ++ [0x35]) = true := by
        rw [← hasPrefix_take le_rfl, List.take_left' length]
        exact begins
      have shorter : hexToU64 bare 2 1 = (false, 1) := by
        rw [hexToU64, if_pos begins, strToU64, List.drop_of_length_le length.le]
        rfl
      have longer : hexToU64 more 2 1 = (true, 0) := by
        rw [hexToU64, if_pos begins', List.drop_left' length]
        decide
      refine absurd reads (not_reads bare more ?_ ?_ ?_)
      · exact List.take_take.trans rfl
      · exact List.take_left' length
      · rw [shorter, longer]
        decide
  · intro within
    constructor
    · intro result
      exact hexToU64_eq str within.looks.1 within.looks.2 result
    · intro str' same result
      have within' := within.congr same
      rw [hexToU64_eq str within.looks.1 within.looks.2,
        hexToU64_eq str' within'.looks.1 within'.looks.2, same]

/-- **Both functions read the number in the first `len` characters exactly if they do not look
past them**: `DecToU64` when there is one, and `HexToU64` when there are three, or fewer that do
not begin a prefix. -/
theorem toU64_reads (str : CString) (len : BitVec 64) :
    (Reads decToU64 (denoted 10) str len ↔ len ≠ 0) ∧
      (Reads hexToU64 denotedHex str len ↔ Within str len) :=
  ⟨decToU64_reads str len, hexToU64_reads str len⟩

/-- No character is read as 0, and one character of `"0x5"` as 5. -/
theorem toU64_looks_past :
    (decToU64 five 0 1 = (true, 0) ∧ ¬ Reads decToU64 (denoted 10) five 0) ∧
      hexToU64 hexFive 1 1 = (true, 5) ∧ ¬ Reads hexToU64 denotedHex hexFive 1 := by
  refine ⟨⟨by decide, ?_⟩, by decide, ?_⟩
  · rintro ⟨reads, -⟩
    exact absurd (reads 1) (by decide)
  · rintro ⟨reads, -⟩
    exact absurd (reads 1) (by decide)

end Atoi

end Silifuzz
