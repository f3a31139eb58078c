import Mathlib.Data.List.Basic
import Silifuzz.Library.LittleEndian

/-!
# Numbers in an image

Data that is copied into a buffer of fixed size, and little-endian numbers of some bytes at offsets
into a sequence of bytes: what is read where one was put, and what is left elsewhere.
-/

namespace Buffers

variable {α : Type} {buffer data : List α} {offset k j : Nat}

/-- `memcpy(&buffer[offset], data, size)` -/
def write (buffer : List α) (offset : Nat) (data : List α) : List α :=
  buffer.take offset ++ data ++ buffer.drop (offset + data.length)

theorem length_write (fits : offset + data.length ≤ buffer.length) :
    (write buffer offset data).length = buffer.length := by
  rw [write, List.length_append, List.length_append, List.length_take, List.length_drop]
  omega

theorem getElem?_write_inside (fits : offset + data.length ≤ buffer.length)
    (inside : j < data.length) : (write buffer offset data)[offset + j]? = data[j]? := by
  have front : (buffer.take offset).length = offset := by
    rw [List.length_take]
    omega
  rw [write, List.append_assoc, List.getElem?_append_right (by omega), front,
    Nat.add_sub_cancel_left, List.getElem?_append_left inside]

theorem getElem?_write_outside (fits : offset + data.length ≤ buffer.length)
    (outside : k < offset ∨ offset + data.length ≤ k) :
    (write buffer offset data)[k]? = buffer[k]? := by
  have front : (buffer.take offset).length = offset := by
    rw [List.length_take]
    omega
  rw [write, List.append_assoc]
  rcases outside with before | after
  · rw [List.getElem?_append_left (by omega), List.getElem?_take_of_lt before]
  · rw [List.getElem?_append_right (by omega), List.getElem?_append_right (by omega),
      List.getElem?_drop, front]
    congr 1
    omega

end Buffers

namespace Images

open LittleEndian

/-- `count` bytes from an offset on. -/
def piece (image : Bytes) (offset count : Nat) : Bytes := (image.drop offset).take count

/-- The number of `size` bytes at an offset. -/
def number (image : Bytes) (offset size : Nat) : Nat := decode (piece image offset size)

def put (image : Bytes) (offset size v : Nat) : Bytes :=
  Buffers.write image offset (encode size v)

/-- Two ranges have no byte in common. -/
def Apart (offset size offset' size' : Nat) : Prop :=
  offset + size ≤ offset' ∨ offset' + size' ≤ offset

instance (offset size offset' size' : Nat) : Decidable (Apart offset size offset' size') :=
  inferInstanceAs (Decidable (_ ∨ _))

variable {image : Bytes} {offset size offset' size' v : Nat}

theorem Apart.symm (apart : Apart offset size offset' size') :
    Apart offset' size' offset size := Or.symm apart

theorem length_piece (inside : offset + size ≤ image.length) :
    (piece image offset size).length = size := by
  rw [piece, List.length_take, List.length_drop]
  omega

theorem number_lt (image : Bytes) (offset size : Nat) : number image offset size < 256 ^ size := by
  have short : (piece image offset size).length ≤ size := by
    rw [piece, List.length_take]
    exact Nat.min_le_left _ _
  exact Nat.lt_of_lt_of_le (decode_lt _) (Nat.pow_le_pow_right (by decide) short)

@[simp] theorem length_put (fits : offset + size ≤ image.length) :
    (put image offset size v).length = image.length :=
  Buffers.length_write (by rwa [length_encode])

theorem getElem?_piece {i : Nat} (inside : i < size) :
    (piece image offset size)[i]? = image[offset + i]? := by
  rw [piece, List.getElem?_take_of_lt inside, List.getElem?_drop]

theorem piece_put_apart (fits : offset + size ≤ image.length)
    (apart : Apart offset size offset' size') :
    piece (put image offset size v) offset' size' = piece image offset' size' := by
  apply List.ext_getElem?
  intro i
  by_cases inside : i < size'
  · rw [getElem?_piece inside, getElem?_piece inside]
    apply Buffers.getElem?_write_outside
    · rwa [length_encode]
    · rw [length_encode]
      rcases apart with before | after <;> omega
  · have past (image : Bytes) : (piece image offset' size')[i]? = none := by
      rw [piece, List.getElem?_eq_none]
      rw [List.length_take]
      omega
    rw [past, past]

theorem number_put_apart (fits : offset + size ≤ image.length)
    (apart : Apart offset size offset' size') :
    number (put image offset size v) offset' size' = number image offset' size' := by
  rw [number, piece_put_apart fits apart, number]

theorem piece_put_same (fits : offset + size ≤ image.length) :
    piece (put image offset size v) offset size = encode size v := by
  apply List.ext_getElem?
  intro i
  have whole : offset + (encode size v).length ≤ image.length := by rwa [length_encode]
  by_cases inside : i < size
  · rw [getElem?_piece inside]
    exact Buffers.getElem?_write_inside whole (by rwa [length_encode])
  · have past (l : Bytes) (short : l.length ≤ size) : l[i]? = none :=
      List.getElem?_eq_none (by omega)
    rw [past _ (by rw [piece, List.length_take]; exact Nat.min_le_left _ _),
      past _ (by rw [length_encode])]

theorem number_put_same (fits : offset + size ≤ image.length) (small : v < 256 ^ size) :
    number (put image offset size v) offset size = v := by
  rw [number, piece_put_same fits, decode_encode_of_lt small]

end Images
