import Mathlib.Data.BitVec
import Mathlib.Logic.Function.Iterate
import Mathlib.Data.List.FinRange

/-!
# Linear maps of words

Maps between words that commute with exclusive or. A word is the sum of its groups of
`k` bits, so a linear map is known from its values on single groups.
-/

namespace XorLinear

variable {w v u : Nat}

def Linear (f : BitVec w → BitVec v) : Prop :=
  ∀ x y, f (x ^^^ y) = f x ^^^ f y

namespace Linear

variable {f : BitVec w → BitVec v} {g : BitVec v → BitVec u}

theorem zero (hf : Linear f) : f 0#w = 0#v := by
  have twice := hf 0#w 0#w
  rwa [BitVec.xor_self, BitVec.xor_self] at twice

theorem id : Linear (fun x : BitVec w => x) := fun _ _ => rfl

theorem comp (hg : Linear g) (hf : Linear f) : Linear (g ∘ f) := by
  intro x y
  simp only [Function.comp, hf x y, hg (f x) (f y)]

theorem iterate {f : BitVec w → BitVec w} (hf : Linear f) (n : Nat) : Linear (f^[n]) := by
  induction n with
  | zero => exact id
  | succ n ih =>
    rw [Function.iterate_succ]
    exact comp ih hf

theorem xor {h : BitVec w → BitVec v} (hf : Linear f) (hh : Linear h) :
    Linear (fun x => f x ^^^ h x) := by
  intro x y
  simp only [hf x y, hh x y]
  ac_rfl

theorem ushiftRight (n : Nat) : Linear (fun x : BitVec w => x >>> n) :=
  fun x y => BitVec.ushiftRight_xor_distrib x y n

theorem and (mask : BitVec w) : Linear (fun x : BitVec w => x &&& mask) := by
  intro x y
  ext i
  simp only [BitVec.getElem_and, BitVec.getElem_xor, Bool.and_xor_distrib_right]

/-- A constant where a bit is set. -/
theorem ofBit (i : Nat) (c : BitVec v) :
    Linear (fun x : BitVec w => if x.getLsbD i then c else 0#v) := by
  intro x y
  simp only [BitVec.getLsbD_xor]
  cases x.getLsbD i <;> cases y.getLsbD i <;> simp

/-- The sum of the values is the value of the sum. -/
theorem foldl_xor {α : Type} (hf : Linear f) (l : List α) (part : α → BitVec w) (s : BitVec w) :
    l.foldl (fun sum a => sum ^^^ f (part a)) (f s) =
      f (l.foldl (fun sum a => sum ^^^ part a) s) := by
  induction l generalizing s with
  | nil => rfl
  | cons a l ih =>
    rw [List.foldl_cons, List.foldl_cons, ← hf s (part a), ih]

end Linear

/-- The `g`-th group of `k` bits, where it stands in the word. -/
def group (k g : Nat) (x : BitVec w) : BitVec w :=
  BitVec.ofNat w ((x.toNat >>> (g * k) % 2 ^ k) <<< (g * k))

theorem getLsbD_group {k g i : Nat} {x : BitVec w} (hi : i < w) :
    (group k g x).getLsbD i = (decide (g * k ≤ i ∧ i < (g + 1) * k) && x.getLsbD i) := by
  have next : (g + 1) * k = g * k + k := Nat.succ_mul g k
  rw [group, BitVec.getLsbD_ofNat, Nat.testBit_shiftLeft, Nat.testBit_mod_two_pow,
    Nat.testBit_shiftRight, next]
  by_cases start : g * k ≤ i
  · have back : g * k + (i - g * k) = i := by omega
    have inside : i - g * k < k ↔ i < g * k + k := by omega
    simp [hi, start, back, inside, BitVec.getLsbD]
  · simp [start]

/-- The first `n` groups together are the word up to there. -/
theorem getLsbD_groups {k i : Nat} (n : Nat) {x : BitVec w} (hi : i < w) :
    ((List.range n).foldl (fun sum g => sum ^^^ group k g x) 0#w).getLsbD i =
      (decide (i < n * k) && x.getLsbD i) := by
  induction n with
  | zero => simp
  | succ n ih =>
    have next : (n + 1) * k = n * k + k := Nat.succ_mul n k
    rw [List.range_succ, List.foldl_append, List.foldl_cons, List.foldl_nil, BitVec.getLsbD_xor,
      ih, getLsbD_group hi]
    by_cases before : i < n * k
    · have inside : i < (n + 1) * k := by omega
      have apart : ¬n * k ≤ i := by omega
      simp [before, inside, apart]
    · have apart : n * k ≤ i := by omega
      simp [before, apart]

theorem groups_sum {k n : Nat} (all : w ≤ n * k) (x : BitVec w) :
    (List.range n).foldl (fun sum g => sum ^^^ group k g x) 0#w = x := by
  apply BitVec.eq_of_getLsbD_eq
  intro i hi
  have inside : i < n * k := by omega
  simp [getLsbD_groups n hi, inside]

/-- A linear map from its values on the groups of a word. -/
theorem Linear.groups {k n : Nat} {f : BitVec w → BitVec v} (hf : Linear f) (all : w ≤ n * k)
    (x : BitVec w) :
    (List.range n).foldl (fun sum g => sum ^^^ f (group k g x)) 0#v = f x := by
  rw [← hf.zero, hf.foldl_xor, groups_sum all]

end XorLinear
