import Silifuzz.Library.LittleEndian

/-!
# ByteIo

`Read()` of `util/byte_io.cc` on a descriptor from which the bytes `stream` can still be
read. What the system calls do is a script that the loop follows to its end: a call that
the kernel could not answer so has no run.
-/

namespace Silifuzz.ByteIo

open LittleEndian

def EINTR : Nat := 4

/-- What a `read()` did. -/
inductive SysRead where
  | returned (bytes : Nat)
  | failed (errno : Nat)
  deriving DecidableEq, Repr

/-- After `Read()`: the bytes in the buffer, or none for a result of -1, `errno`, and what is
left of the stream and the script. -/
structure ReadResult where
  buffer : Option Bytes
  errno : Nat
  stream : Bytes
  script : List SysRead
  deriving DecidableEq, Repr

/-- The loop, with `space` bytes left to read. -/
def read (space errno : Nat) (stream : Bytes) (script : List SysRead) : Option ReadResult :=
  if space = 0 then some ⟨some [], errno, stream, script⟩
  else
    match script with
    | [] => none
    | .returned 0 :: script => if stream = [] then some ⟨some [], errno, stream, script⟩ else none
    | .returned r :: script =>
      if r ≤ space ∧ r ≤ stream.length then
        (read (space - r) errno (stream.drop r) script).map fun rest =>
          { rest with buffer := rest.buffer.map (stream.take r ++ ·) }
      else none
    | .failed errno :: script =>
      if errno = EINTR then read space errno stream script
      else some ⟨none, errno, stream, script⟩

@[simp] theorem read_zero (errno : Nat) (stream : Bytes) (script : List SysRead) :
    read 0 errno stream script = some ⟨some [], errno, stream, script⟩ := by
  unfold read
  rfl

/-- No system call fails but by an interrupt. -/
def Interruptible (script : List SysRead) : Prop := ∀ e, .failed e ∈ script → e = EINTR

/-- Without failures `Read()` reads all there is up to `space`, whatever the parts. -/
theorem read_reads {space errno : Nat} {stream : Bytes} {script : List SysRead} {r : ReadResult}
    (fine : Interruptible script) (run : read space errno stream script = some r) :
    r.buffer = some (stream.take space) ∧ r.stream = stream.drop space ∧
      ∃ calls, script = calls ++ r.script ∧
        r.errno = if .failed EINTR ∈ calls then EINTR else errno := by
  induction script generalizing space errno stream r with
  | nil =>
    unfold read at run
    split at run
    · next done =>
      obtain rfl := Option.some.inj run
      exact ⟨by simp [done], by simp [done], [], rfl, rfl⟩
    · contradiction
  | cons call script ih =>
    have rest : Interruptible script := fun e he => fine e (List.mem_cons_of_mem call he)
    unfold read at run
    split at run
    · next done =>
      obtain rfl := Option.some.inj run
      exact ⟨by simp [done], by simp [done], [], rfl, rfl⟩
    split at run
    · contradiction
    · next eq =>
      split at run
      · next ended =>
        obtain ⟨rfl, rfl⟩ := List.cons.inj eq
        obtain rfl := Option.some.inj run
        exact ⟨by simp [ended], by simp [ended], [.returned 0], rfl, rfl⟩
      · contradiction
    · next r' script' _ eq =>
      obtain ⟨rfl, rfl⟩ := List.cons.inj eq
      split at run
      · next fits =>
        obtain ⟨last, more, rfl⟩ := Option.map_eq_some_iff.mp run
        obtain ⟨buffer, left, calls, rfl, errno'⟩ := ih rest more
        refine ⟨?_, ?_, .returned r' :: calls, rfl, ?_⟩
        · simp only [buffer, Option.map_some, Option.some.injEq]
          have split : space = r' + (space - r') := by omega
          conv => rhs; rw [split]
          exact List.take_add.symm
        · simp only [left, List.drop_drop]
          congr 1
          omega
        · simpa using errno'
      · contradiction
    · next e script' eq =>
      obtain ⟨rfl, rfl⟩ := List.cons.inj eq
      obtain rfl := fine e (by simp)
      obtain ⟨buffer, left, calls, rfl, errno'⟩ := ih rest (by simpa using run)
      refine ⟨buffer, left, .failed EINTR :: calls, rfl, ?_⟩
      simpa using errno'

/-- The system calls of a `Read()` that gets all there is at once. -/
def wholeScript (space : Nat) (stream : Bytes) : List SysRead :=
  if space = 0 then []
  else if stream.length = 0 then [.returned 0]
  else if space ≤ stream.length then [.returned space]
  else [.returned stream.length, .returned 0]

theorem wholeScript_interruptible (space : Nat) (stream : Bytes) :
    Interruptible (wholeScript space stream) := by
  intro e failed
  unfold wholeScript at failed
  split at failed
  · simp at failed
  · split at failed
    · simp at failed
    · split at failed <;> simp at failed

theorem read_wholeScript (space errno : Nat) (stream : Bytes) (later : List SysRead) :
    read space errno stream (wholeScript space stream ++ later) =
      some ⟨some (stream.take space), errno, stream.drop space, later⟩ := by
  unfold wholeScript
  split
  · next zero => simp [zero]
  · next more =>
    split
    · next empty =>
      obtain rfl := List.eq_nil_of_length_eq_zero empty
      simp [read, more]
    · next some =>
      obtain ⟨n, length⟩ := Nat.exists_eq_succ_of_ne_zero some
      split
      · next fits =>
        obtain ⟨m, rfl⟩ := Nat.exists_eq_succ_of_ne_zero more
        simp [read, fits]
      · next short =>
        have rest : space - stream.length ≠ 0 := by omega
        rw [length] at rest ⊢
        simp only [List.cons_append, List.nil_append]
        unfold read
        rw [if_neg more]
        simp only [← length, le_refl, and_true, List.drop_length, List.take_length]
        rw [if_pos (by omega)]
        unfold read
        rw [length, if_neg rest]
        simp [List.take_of_length_le (show stream.length ≤ space by omega),
          List.drop_eq_nil_of_le (show stream.length ≤ space by omega)]

end Silifuzz.ByteIo
