import Silifuzz.Library.LittleEndian

/-!
# Length-prefixed frames

A stream of payloads, each after its length as a little-endian number of `width` bytes,
and what of it is in its first `n` bytes: `cut` is the number of frames that are whole,
and the bytes there are of the next one.
-/

namespace Framing

open LittleEndian

variable {width : Nat} {payload : Bytes} {payloads : List Bytes} {n : Nat}

def frame (width : Nat) (payload : Bytes) : Bytes := encode width payload.length ++ payload

def stream (width : Nat) (payloads : List Bytes) : Bytes := payloads.flatMap (frame width)

def cut (width : Nat) : List Bytes → Nat → Nat × Nat
  | [], _ => (0, 0)
  | payload :: payloads, n =>
    if (frame width payload).length ≤ n then
      let rest := cut width payloads (n - (frame width payload).length)
      (rest.1 + 1, rest.2)
    else (0, n)

@[simp] theorem length_frame : (frame width payload).length = width + payload.length := by
  simp [frame]

@[simp] theorem stream_nil : stream width [] = [] := rfl

@[simp] theorem stream_cons :
    stream width (payload :: payloads) = frame width payload ++ stream width payloads := rfl

theorem stream_append (a b : List Bytes) :
    stream width (a ++ b) = stream width a ++ stream width b := List.flatMap_append

/-- The whole frames, and what is there of the next. -/
theorem take_stream (payloads : List Bytes) (n : Nat) :
    (stream width payloads).take n = stream width (payloads.take (cut width payloads n).1) ++
      (stream width (payloads.drop (cut width payloads n).1)).take (cut width payloads n).2 := by
  induction payloads generalizing n with
  | nil => simp [cut]
  | cons payload payloads ih =>
    unfold cut
    split
    · next whole =>
      rw [stream_cons, List.take_append, List.take_of_length_le whole, ih, List.take_succ_cons,
        List.drop_succ_cons, stream_cons, List.append_assoc]
    · simp

theorem cut_le_length : (cut width payloads n).1 ≤ payloads.length := by
  induction payloads generalizing n with
  | nil => exact le_refl 0
  | cons payload payloads ih =>
    unfold cut
    split
    · exact Nat.succ_le_succ ih
    · exact Nat.zero_le _

/-- What is left over is less than the next frame. -/
theorem cut_left (payloads : List Bytes) (n : Nat) :
    (cut width payloads n).2 = 0 ∨
      ∃ payload rest, payloads.drop (cut width payloads n).1 = payload :: rest ∧
        (cut width payloads n).2 < (frame width payload).length := by
  induction payloads generalizing n with
  | nil => exact Or.inl rfl
  | cons payload payloads ih =>
    unfold cut
    split
    · exact ih _
    · next part => exact Or.inr ⟨payload, payloads, rfl, not_le.mp part⟩

end Framing
