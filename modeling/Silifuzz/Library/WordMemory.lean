import Silifuzz.Library.LittleEndian
import Mathlib.Data.List.GetD

/-!
# Words in a byte memory

A memory of bytes at 64-bit addresses, and the eight-byte little-endian words in it.
-/

namespace WordMemory

open LittleEndian

abbrev Memory := BitVec 64 → BitVec 8

def bytesAt (m : Memory) (a : BitVec 64) (n : Nat) : Bytes :=
  (List.range n).map fun i => m (a + BitVec.ofNat 64 i)

def load (m : Memory) (a : BitVec 64) : BitVec 64 := BitVec.ofNat 64 (decode (bytesAt m a 8))

def store (m : Memory) (a v : BitVec 64) : Memory :=
  fun b => (encode 8 v.toNat).getD (b - a).toNat (m b)

/-- The words at `a` and at `b` have no byte in common. -/
def Apart (a b : BitVec 64) : Prop := 8 ≤ (b - a).toNat ∧ 8 ≤ (a - b).toNat

instance (a b : BitVec 64) : Decidable (Apart a b) := inferInstanceAs (Decidable (_ ∧ _))

theorem Apart.symm {a b : BitVec 64} (apart : Apart a b) : Apart b a := ⟨apart.2, apart.1⟩

theorem apart_offsets (base : BitVec 64) {i j : Nat} (hi : i < 2 ^ 63) (hj : j < 2 ^ 63)
    (gap : i + 8 ≤ j ∨ j + 8 ≤ i) :
    Apart (base + BitVec.ofNat 64 i) (base + BitVec.ofNat 64 j) := by
  have forward : base + BitVec.ofNat 64 j - (base + BitVec.ofNat 64 i) =
      BitVec.ofNat 64 j - BitVec.ofNat 64 i := by
    bv_omega
  have backward : base + BitVec.ofNat 64 i - (base + BitVec.ofNat 64 j) =
      BitVec.ofNat 64 i - BitVec.ofNat 64 j := by
    bv_omega
  unfold Apart
  rw [forward, backward]
  simp only [BitVec.toNat_sub, BitVec.toNat_ofNat]
  omega

@[simp] theorem load_store_same (m : Memory) (a v : BitVec 64) : load (store m a v) a = v := by
  have bytes : bytesAt (store m a v) a 8 = encode 8 v.toNat := by
    apply List.ext_getElem
    · simp [bytesAt]
    · intro i hi hi'
      rw [length_encode] at hi'
      have offset : (a + BitVec.ofNat 64 i - a).toNat = i := by
        rw [BitVec.add_comm, BitVec.add_sub_cancel, BitVec.toNat_ofNat]
        omega
      simp only [bytesAt, List.getElem_map, List.getElem_range, store, offset]
      rw [List.getD_eq_getElem _ _ (by rw [length_encode]; exact hi')]
  rw [load, bytes, decode_encode_of_lt (by have := v.isLt; omega)]
  rw [BitVec.ofNat_toNat, BitVec.setWidth_eq]

theorem load_store_apart {m : Memory} {a b v : BitVec 64} (apart : Apart a b) :
    load (store m a v) b = load m b := by
  unfold load bytesAt
  congr 2
  apply List.map_congr_left
  intro i mem
  have small := List.mem_range.mp mem
  have outside : (encode 8 v.toNat).length ≤ (b + BitVec.ofNat 64 i - a).toNat := by
    have gap := apart.1
    have gap' := apart.2
    rw [length_encode]
    simp only [BitVec.toNat_sub, BitVec.toNat_add, BitVec.toNat_ofNat] at gap gap' ⊢
    omega
  exact List.getD_eq_default _ _ outside

end WordMemory
