import Mathlib.Data.Nat.Basic
import Mathlib.Data.BitVec

/-!
# Little-endian numbers

Numbers of `n` bytes in memory, the least significant byte first: `encode` and
`decode` are inverse to each other on numbers that fit.
-/

namespace LittleEndian

abbrev Bytes := List (BitVec 8)

def encode : Nat → Nat → Bytes
  | 0, _ => []
  | n + 1, v => BitVec.ofNat 8 v :: encode n (v / 256)

def decode : Bytes → Nat
  | [] => 0
  | b :: bytes => b.toNat + 256 * decode bytes

@[simp] theorem length_encode (n v : Nat) : (encode n v).length = n := by
  induction n generalizing v with
  | zero => rfl
  | succ n ih => simp [encode, ih]

theorem decode_lt (bytes : Bytes) : decode bytes < 256 ^ bytes.length := by
  induction bytes with
  | nil => simp [decode]
  | cons b bytes ih =>
    have hb := b.isLt
    simp only [decode, List.length_cons, pow_succ]
    omega

theorem decode_encode (n v : Nat) : decode (encode n v) = v % 256 ^ n := by
  induction n generalizing v with
  | zero => simp [encode, decode, Nat.mod_one]
  | succ n ih =>
    simp only [encode, decode, ih, BitVec.toNat_ofNat]
    change v % 256 + 256 * (v / 256 % 256 ^ n) = v % 256 ^ (n + 1)
    rw [Nat.pow_succ, Nat.mul_comm (256 ^ n) 256, Nat.mod_mul]

theorem decode_encode_of_lt {n v : Nat} (h : v < 256 ^ n) : decode (encode n v) = v := by
  rw [decode_encode, Nat.mod_eq_of_lt h]

theorem encode_decode (bytes : Bytes) : encode bytes.length (decode bytes) = bytes := by
  induction bytes with
  | nil => rfl
  | cons b bytes ih =>
    have hb := b.isLt
    have rest : (b.toNat + 256 * decode bytes) / 256 = decode bytes := by omega
    have first : BitVec.ofNat 8 (b.toNat + 256 * decode bytes) = b := by
      apply BitVec.eq_of_toNat_eq
      rw [BitVec.toNat_ofNat]
      omega
    simp only [List.length_cons, decode, encode, rest, first, ih]

/-- Numbers of `n` bytes behind each other. -/
def encodeAll (n : Nat) (vs : List Nat) : Bytes := vs.flatMap (encode n)

@[simp] theorem length_encodeAll (n : Nat) (vs : List Nat) :
    (encodeAll n vs).length = vs.length * n := by
  induction vs with
  | nil => simp [encodeAll]
  | cons v vs ih =>
    rw [encodeAll, List.flatMap_cons, List.length_append, length_encode, List.length_cons,
      Nat.succ_mul, Nat.add_comm]
    exact congrArg (· + n) ih

/-- The `i`-th number is read where it is, whatever comes behind. -/
theorem take_encodeAll {n : Nat} {vs : List Nat} {i v : Nat} (h : vs[i]? = some v)
    (rest : Bytes) : ((encodeAll n vs ++ rest).drop (i * n)).take n = encode n v := by
  induction vs generalizing i with
  | nil => cases h
  | cons v' vs ih =>
    have cons : encodeAll n (v' :: vs) ++ rest = encode n v' ++ (encodeAll n vs ++ rest) := by
      rw [encodeAll, List.flatMap_cons, List.append_assoc]
      rfl
    cases i with
    | zero =>
      obtain rfl := Option.some.inj h
      rw [cons, Nat.zero_mul, List.drop_zero]
      exact List.take_left' (length_encode n v')
    | succ i =>
      have jump : (i + 1) * n = (encode n v').length + i * n := by
        rw [length_encode, Nat.succ_mul, Nat.add_comm]
      rw [cons, jump, List.drop_length_add_append]
      exact ih h

end LittleEndian
