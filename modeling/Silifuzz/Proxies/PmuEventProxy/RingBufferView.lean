import Mathlib.Data.BitVec
import Silifuzz.Library.Readers

/-!
# Ring buffer views

`proxies/pmu_event_proxy/ring_buffer_view.h`: a view of the bytes between the virtual offsets
`tail` and `head` of a ring buffer. A view presents these bytes as one sequence.
-/

namespace Silifuzz.PmuEventProxy

open Readers

abbrev Byte := BitVec 8

inductive Fault where
  /-- A `CHECK` fails. -/
  | check
  /-- A byte is loaded that the memory does not have. -/
  | outside
  deriving DecidableEq

structure RingBufferView where
  head : BitVec 64
  tail : BitVec 64
  /-- The byte at an index, where there is one to load. -/
  buffer : Nat → Option Byte
  bufferSize : BitVec 64

namespace RingBufferView

/-- The constructor -/
def make (head tail : BitVec 64) (buffer : Nat → Option Byte) (bufferSize : BitVec 64) :
    Except Fault RingBufferView :=
  if ¬0 < bufferSize then .error .check
  else if bufferSize &&& (bufferSize - 1) ≠ 0 then .error .check
  else if ¬head - tail ≤ bufferSize then .error .check
  else .ok ⟨head, tail, buffer, bufferSize⟩

def size (view : RingBufferView) : BitVec 64 := view.head - view.tail

end RingBufferView

def memcpy (memory : Nat → Option Byte) (start : Nat) : Nat → Except Fault (List Byte)
  | 0 => .ok []
  | n + 1 =>
    match memory start with
    | none => .error .outside
    | some byte => return byte :: (← memcpy memory (start + 1) n)

namespace RingBufferView

/-- `Peek` of an object of `n` bytes. -/
def peek (view : RingBufferView) (n : BitVec 64) : Except Fault (List Byte) :=
  if ¬n ≤ view.size then .error .check
  else
    let bufferSizeMask := view.bufferSize - 1
    let offset := view.tail &&& bufferSizeMask
    if offset + n ≤ view.bufferSize then memcpy view.buffer offset.toNat n.toNat
    else do
      -- The object wraps around the end of the buffer.
      let firstPartSize := view.bufferSize - offset
      let secondPartSize := n - firstPartSize
      let first ← memcpy view.buffer offset.toNat firstPartSize.toNat
      let second ← memcpy view.buffer 0 secondPartSize.toNat
      return first ++ second

def read (view : RingBufferView) (n : BitVec 64) : Except Fault (List Byte × RingBufferView) := do
  let object ← view.peek n
  return (object, { view with tail := view.tail + n })

def source : Source Byte Fault RingBufferView where
  size view := view.size.toNat
  read n view := view.read (BitVec.ofNat 64 n)

/-- The bytes from the tail to the head, in their places. The buffer may have no others. -/
structure Holds (view : RingBufferView) (bytes : List Byte) : Prop where
  powerOfTwo : ∃ k, view.bufferSize.toNat = 2 ^ k
  size : view.size.toNat = bytes.length
  room : bytes.length ≤ view.bufferSize.toNat
  byte (i : Nat) (inside : i < bytes.length) :
    view.buffer ((view.tail.toNat + i) % view.bufferSize.toNat) = some bytes[i]

end RingBufferView

theorem memcpy_eq {memory : Nat → Option Byte} {start : Nat} {bytes : List Byte}
    (byte : ∀ (i : Nat) (inside : i < bytes.length), memory (start + i) = some bytes[i]) :
    memcpy memory start bytes.length = .ok bytes := by
  induction bytes generalizing start with
  | nil => rfl
  | cons b bytes ih =>
    have first : memory start = some b := byte 0 (Nat.succ_pos _)
    have rest : memcpy memory (start + 1) bytes.length = .ok bytes := by
      apply ih
      intro i inside
      rw [Nat.add_assoc, Nat.add_comm 1 i]
      exact byte (i + 1) (Nat.succ_lt_succ inside)
    simp only [List.length_cons, memcpy, first, rest]
    rfl

/-- The lower bits of a number are its remainder. -/
theorem toNat_mask {size : BitVec 64} {k : Nat} (powerOfTwo : size.toNat = 2 ^ k)
    (x : BitVec 64) : (x &&& (size - 1)).toNat = x.toNat % size.toNat := by
  have positive : 0 < size.toNat := powerOfTwo ▸ Nat.two_pow_pos k
  have pred : (size - 1).toNat = 2 ^ k - 1 := by
    rw [← powerOfTwo]
    exact BitVec.toNat_sub_of_le (BitVec.le_def.mpr positive)
  rw [BitVec.toNat_and, pred, Nat.and_two_pow_sub_one_eq_mod, powerOfTwo]

namespace RingBufferView

/-- The constructor passes its `CHECK`s. -/
theorem make_eq {view : RingBufferView} {bytes : List Byte} (holds : view.Holds bytes) :
    make view.head view.tail view.buffer view.bufferSize = .ok view := by
  obtain ⟨k, powerOfTwo⟩ := holds.powerOfTwo
  have positive : 0 < view.bufferSize := by
    rw [BitVec.lt_def, powerOfTwo]
    exact Nat.two_pow_pos k
  have masked : view.bufferSize &&& (view.bufferSize - 1) = 0 := by
    apply BitVec.eq_of_toNat_eq
    rw [toNat_mask powerOfTwo, Nat.mod_self]
    rfl
  have room : view.head - view.tail ≤ view.bufferSize := by
    rw [BitVec.le_def]
    exact holds.size ▸ holds.room
  simp only [make, positive, masked, room, not_true, ne_eq, if_false]

variable {view : RingBufferView} {bytes : List Byte} {n : Nat}

theorem toNat_count (holds : view.Holds bytes) (enough : n ≤ bytes.length) :
    (BitVec.ofNat 64 n).toNat = n := by
  have bound := view.bufferSize.isLt
  have room := holds.room
  rw [BitVec.toNat_ofNat]
  exact Nat.mod_eq_of_lt (by omega)

/-- Bytes that are next to each other in the buffer, as a part of the view. -/
theorem memcpy_part (holds : view.Holds bytes) {start first : Nat} (length : Nat)
    (inside : first + length ≤ bytes.length)
    (places : ∀ i < length, (view.tail.toNat + (first + i)) % view.bufferSize.toNat = start + i) :
    memcpy view.buffer start length = .ok ((bytes.drop first).take length) := by
  have whole : ((bytes.drop first).take length).length = length := by
    rw [List.length_take, List.length_drop]
    omega
  conv_lhs => rw [← whole]
  apply memcpy_eq
  intro i below
  rw [whole] at below
  rw [← places i below, holds.byte (first + i) (by omega), List.getElem_take, List.getElem_drop]

theorem peek_eq (holds : view.Holds bytes) (enough : n ≤ bytes.length) :
    view.peek (BitVec.ofNat 64 n) = .ok (bytes.take n) := by
  obtain ⟨k, powerOfTwo⟩ := holds.powerOfTwo
  have count := toNat_count holds enough
  have room := holds.room
  have half : view.bufferSize.toNat ≤ 2 ^ 63 := by
    have bound := view.bufferSize.isLt
    rw [powerOfTwo] at bound ⊢
    exact Nat.pow_le_pow_right (by decide)
      (Nat.le_of_lt_succ ((Nat.pow_lt_pow_iff_right (by decide)).mp bound))
  have offset := toNat_mask powerOfTwo view.tail
  have below : view.tail.toNat % view.bufferSize.toNat < view.bufferSize.toNat :=
    Nat.mod_lt _ (powerOfTwo ▸ Nat.two_pow_pos k)
  have available : BitVec.ofNat 64 n ≤ view.size := by
    rw [BitVec.le_def, count, holds.size]
    exact enough
  -- No sum of an offset and a size wraps.
  have sum : (view.tail &&& (view.bufferSize - 1)).toNat + n < 2 ^ 64 := by
    rw [offset]
    omega
  have place (i : Nat) (inside : view.tail.toNat % view.bufferSize.toNat + i
      < view.bufferSize.toNat) : (view.tail.toNat + i) % view.bufferSize.toNat
        = view.tail.toNat % view.bufferSize.toNat + i := by
    rw [Nat.add_mod, Nat.mod_eq_of_lt (Nat.lt_of_le_of_lt (Nat.le_add_left _ _) inside),
      Nat.mod_eq_of_lt inside]
  simp only [peek, available, not_true, if_false]
  split
  · rename_i straight
    rw [BitVec.le_def, BitVec.toNat_add, count, Nat.mod_eq_of_lt sum, offset] at straight
    rw [count, offset]
    apply @memcpy_part view bytes holds (view.tail.toNat % view.bufferSize.toNat) 0 n (by omega)
    intro i inside
    rw [Nat.zero_add]
    exact place i (by omega)
  · rename_i wraps
    rw [BitVec.le_def, BitVec.toNat_add, count, Nat.mod_eq_of_lt sum, offset] at wraps
    have firstPart : (view.bufferSize - (view.tail &&& (view.bufferSize - 1))).toNat
        = view.bufferSize.toNat - view.tail.toNat % view.bufferSize.toNat := by
      rw [BitVec.toNat_sub_of_le (BitVec.le_def.mpr (by omega)), offset]
    have secondPart : (BitVec.ofNat 64 n
        - (view.bufferSize - (view.tail &&& (view.bufferSize - 1)))).toNat
        = n - (view.bufferSize.toNat - view.tail.toNat % view.bufferSize.toNat) := by
      rw [BitVec.toNat_sub_of_le (BitVec.le_def.mpr (by omega)), count, firstPart]
    rw [firstPart, secondPart, offset]
    generalize length : view.bufferSize.toNat - view.tail.toNat % view.bufferSize.toNat = first
    have before : memcpy view.buffer (view.tail.toNat % view.bufferSize.toNat) first =
        .ok ((bytes.drop 0).take first) := by
      apply memcpy_part holds first (by omega)
      intro i inside
      rw [Nat.zero_add]
      exact place i (by omega)
    have behind : memcpy view.buffer 0 (n - first) = .ok ((bytes.drop first).take (n - first)) :=
      memcpy_part holds (n - first) (by omega) (fun i inside => by
        have turn : view.tail.toNat + (first + i) = i + view.bufferSize.toNat
            * (view.tail.toNat / view.bufferSize.toNat + 1) := by
          have division := Nat.mod_add_div view.tail.toNat view.bufferSize.toNat
          rw [Nat.mul_add]
          omega
        rw [turn, Nat.add_mul_mod_self_left, Nat.zero_add]
        exact Nat.mod_eq_of_lt (by omega))
    rw [before, behind]
    have whole : first + (n - first) = n := by omega
    have join := List.take_add (l := bytes) (i := first) (j := n - first)
    rw [whole] at join
    exact congrArg Except.ok join.symm

/-- What is read is what the bytes start with, and the view holds the others. -/
theorem read_eq (holds : view.Holds bytes) (enough : n ≤ bytes.length) :
    view.read (BitVec.ofNat 64 n)
      = .ok (bytes.take n, { view with tail := view.tail + BitVec.ofNat 64 n }) := by
  simp only [read, peek_eq holds enough]
  rfl

theorem holds_advanced (holds : view.Holds bytes) (enough : n ≤ bytes.length) :
    Holds { view with tail := view.tail + BitVec.ofNat 64 n } (bytes.drop n) := by
  have count := toNat_count holds enough
  obtain ⟨k, powerOfTwo⟩ := holds.powerOfTwo
  constructor
  · exact ⟨k, powerOfTwo⟩
  · have less : BitVec.ofNat 64 n ≤ view.size := by
      rw [BitVec.le_def, count, holds.size]
      exact enough
    have regrouped : view.head - (view.tail + BitVec.ofNat 64 n)
        = view.size - BitVec.ofNat 64 n := by
      rw [size]
      bv_omega
    change (view.head - (view.tail + BitVec.ofNat 64 n)).toNat = _
    rw [regrouped, BitVec.toNat_sub_of_le less, count, holds.size, List.length_drop]
  · have room := holds.room
    simp only [List.length_drop]
    omega
  · intro i inside
    rw [List.length_drop] at inside
    have divides : view.bufferSize.toNat ∣ 2 ^ 64 := by
      rw [powerOfTwo]
      have bound := view.bufferSize.isLt
      rw [powerOfTwo] at bound
      exact Nat.pow_dvd_pow 2 (Nat.le_of_lt ((Nat.pow_lt_pow_iff_right (by decide)).mp bound))
    -- The offsets wrap at a multiple of the buffer's size.
    have place : ((view.tail + BitVec.ofNat 64 n).toNat + i) % view.bufferSize.toNat
        = (view.tail.toNat + (n + i)) % view.bufferSize.toNat := by
      rw [BitVec.toNat_add, count, Nat.add_mod, Nat.mod_mod_of_dvd _ divides, ← Nat.add_mod,
        Nat.add_assoc]
    simp only [place, holds.byte (n + i) (by omega), List.getElem_drop]

/-- **A view presents the bytes it holds as one sequence, up to a head that stays.** -/
theorem source_presents (head : BitVec 64) :
    source.Presents fun view bytes => view.Holds bytes ∧ view.head = head where
  size holds := holds.1.size
  read holds enough := ⟨_, read_eq holds.1 enough, holds_advanced holds.1 enough, holds.2⟩

/-- The tail is as far from the head as there are bytes left. -/
theorem tail_eq (holds : view.Holds bytes) :
    view.tail = view.head - BitVec.ofNat 64 bytes.length := by
  have count : BitVec.ofNat 64 bytes.length = view.size := by
    rw [← holds.size, BitVec.ofNat_toNat, BitVec.setWidth_eq]
  rw [count, size]
  bv_omega

end RingBufferView

end Silifuzz.PmuEventProxy
