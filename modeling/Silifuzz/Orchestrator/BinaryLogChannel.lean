import Silifuzz.Library.Framing
import Silifuzz.Library.Schedules
import Silifuzz.Util.ByteIo
import Mathlib.Tactic.Common

/-!
# BinaryLogChannel

`orchestrator/binary_log_channel.cc`, on descriptors that the constructors have found good.
The protobuf library is a pair of functions, `serialize` and `parse`:

* `step`: the threads that call `BinaryLogProducer::Send()`, action by action, each `write()`
  taking any part of what is left;
* `receive`: `BinaryLogConsumer::Receive()`, `receiveAll` the calls one after the other.
-/

namespace Silifuzz.BinaryLogChannel

open LittleEndian ByteIo

/-- A thread in `Send()`: before `lock_` is held, in the `Write()` of the size, in that of the
proto. -/
inductive Thread (Entry : Type) where
  | idle
  | sending (entry : Entry)
  | writingSize (left serializedProto : Bytes)
  | writingProto (left : Bytes)
  deriving DecidableEq, Repr

/-- `lock_`, the threads, and the bytes written to the descriptor. -/
structure Producer (Entry : Type) where
  lock : Option Nat
  threads : List (Thread Entry)
  stream : Bytes
  deriving DecidableEq, Repr

inductive Action (Entry : Type) where
  | send (thread : Nat) (entry : Entry)
  | lock (thread : Nat)
  | write (thread bytes : Nat)
  | next (thread : Nat)

def Action.thread {Entry : Type} : Action Entry → Nat
  | .send thread _ | .lock thread | .write thread _ | .next thread => thread

/-- The entry that a thread starts to write. -/
structure Sent (Entry : Type) where
  thread : Nat
  entry : Entry
  deriving DecidableEq, Repr

section
variable {Entry : Type} (serialize : Entry → Bytes)

/-- The thread's next action. An interrupted `write()` changes nothing. -/
def stepThread (s : Producer Entry) : Thread Entry → Action Entry →
    Option (Producer Entry × List (Sent Entry))
  | .idle, .send t entry => some ({ s with threads := s.threads.set t (.sending entry) }, [])
  | .sending entry, .lock t =>
    match s.lock with
    | some _ => none
    | none =>
      let serializedProto := serialize entry
      some ({ s with lock := some t
                     threads := s.threads.set t
                       (.writingSize (encode 8 serializedProto.length) serializedProto) },
        [⟨t, entry⟩])
  | .writingSize left serializedProto, .write t bytes =>
    if 0 < bytes ∧ bytes ≤ left.length then
      some ({ s with stream := s.stream ++ left.take bytes
                     threads := s.threads.set t (.writingSize (left.drop bytes) serializedProto) },
        [])
    else none
  | .writingSize [] serializedProto, .next t =>
    some ({ s with threads := s.threads.set t (.writingProto serializedProto) }, [])
  | .writingProto left, .write t bytes =>
    if 0 < bytes ∧ bytes ≤ left.length then
      some ({ s with stream := s.stream ++ left.take bytes
                     threads := s.threads.set t (.writingProto (left.drop bytes)) }, [])
    else none
  | .writingProto [], .next t =>
    some ({ s with lock := none, threads := s.threads.set t .idle }, [])
  | _, _ => none

def step (s : Producer Entry) (action : Action Entry) :
    Option (Producer Entry × List (Sent Entry)) := do
  stepThread serialize s (← s.threads[action.thread]?) action

def start (threads : Nat) : Producer Entry := ⟨none, List.replicate threads .idle, []⟩

end

inductive Status where
  | outOfRange (message : String)
  | dataLoss (message : String)
  | internal (message : String)
  | errnoToStatus (errno : Nat) (message : String)
  deriving DecidableEq, Repr

def endOfChannelError : Status := .outOfRange "EOC"

/-- `ErrnoToStatus()` of 0 is the OK status. -/
def Status.ok : Status → Bool
  | .errnoToStatus errno _ => errno == 0
  | _ => false

/-- How a `Receive()` ends. -/
inductive Received (Entry : Type) where
  | entry (entry : Entry)
  | error (status : Status)
  | aborted
  deriving DecidableEq, Repr

section
variable {Entry : Type} (debug : Bool)

/-- A `StatusOr` of a status, which must not be OK: a debug build checks that, an
optimized one takes an internal error instead. -/
def statusOr (status : Status) : Received Entry :=
  if status.ok then
    if debug then .aborted
    else .error (.internal "An OK status is not a valid constructor argument to StatusOr<T>")
  else .error status

variable (parse : Bytes → Option Entry) (fd : Int)

/-- `Receive()`, with the result and what is left of the stream and the script. -/
def receiveCall (errno : Nat) (stream : Bytes) (script : List SysRead) :
    Option (Received Entry × Bytes × List SysRead) := do
  let size ← read 8 errno stream script
  match size.buffer with
  | none =>
    return (statusOr debug (.errnoToStatus size.errno s!"Cannot read BinaryLogEntry size, fd={fd}"),
      size.stream, size.script)
  | some leProtoSize =>
    if leProtoSize.length = 0 then return (.error endOfChannelError, size.stream, size.script)
    else if leProtoSize.length ≠ 8 then
      return (.error (.dataLoss
        s!"Malformed stream: expected 8 but got {leProtoSize.length} bytes"),
        size.stream, size.script)
    else
      let protoSize := decode leProtoSize
      let proto ← read protoSize size.errno size.stream size.script
      match proto.buffer with
      | none =>
        return (statusOr debug (.errnoToStatus proto.errno "Cannot read BinaryLogEntry proto"),
          proto.stream, proto.script)
      | some serializedProto =>
        if serializedProto.length ≠ protoSize then
          return (statusOr debug (.errnoToStatus proto.errno "Cannot read BinaryLogEntry proto"),
            proto.stream, proto.script)
        else
          match parse serializedProto with
          | none =>
            return (.error (.dataLoss "Cannot deserialize BinaryLogEntry"), proto.stream,
              proto.script)
          | some entry => return (.entry entry, proto.stream, proto.script)

/-- What surrounds a call: `errno` before it, and what its system calls do. -/
structure Call where
  errno : Nat
  script : List SysRead

/-- A call whose system calls are those of the script. -/
def receive (stream : Bytes) (call : Call) : Option (Received Entry × Bytes) := do
  match ← receiveCall debug parse fd call.errno stream call.script with
  | (received, stream, []) => return (received, stream)
  | _ => none

/-- The calls one after the other. An abort is the last thing that there is, whatever calls the
process would still have made. -/
def receiveAll (stream : Bytes) : List Call → Option (List (Received Entry))
  | [] => some []
  | call :: calls => do
    match ← receive debug parse fd stream call with
    | (.aborted, _) => return [.aborted]
    | (received, stream) =>
      let rest ← receiveAll stream calls
      return received :: rest

end

end Silifuzz.BinaryLogChannel

/-!
## What the producer's threads write

The stream is at every moment the frames of the entries sent so far, in the order in which
their threads took the lock, less what the holder of the lock has still to write.
-/

namespace Silifuzz.BinaryLogChannel

open LittleEndian Framing Schedules

variable {Entry : Type} {serialize : Entry → Bytes}

/-- What a thread inside `lock_` has still to write. -/
def Thread.pending : Thread Entry → Bytes
  | .writingSize left serializedProto => left ++ serializedProto
  | .writingProto left => left
  | _ => []

def Thread.holds : Thread Entry → Bool
  | .writingSize _ _ | .writingProto _ => true
  | _ => false

def Producer.pending (s : Producer Entry) : Bytes :=
  match s.lock.bind (s.threads[·]?) with
  | some thread => thread.pending
  | none => []

/-- The frames of the entries sent, in order. -/
def sentStream (serialize : Entry → Bytes) (trace : List (Sent Entry)) : Bytes :=
  stream 8 (trace.map fun sent => serialize sent.entry)

structure Framed (serialize : Entry → Bytes) (s : Producer Entry) (trace : List (Sent Entry)) :
    Prop where
  written : s.stream ++ s.pending = sentStream serialize trace
  alone : ∀ t thread, s.threads[t]? = some thread → thread.holds = true → s.lock = some t

variable {s s' : Producer Entry} {trace new : List (Sent Entry)} {t : Nat}
  {thread next : Thread Entry}

theorem start_framed (threads : Nat) : Framed serialize (start threads) [] := by
  constructor
  · rfl
  · intro t thread here holds
    have idle := List.eq_of_mem_replicate (List.mem_of_getElem? here)
    rw [idle] at holds
    contradiction

/-- A thread without the lock moves. -/
theorem Framed.outside (inv : Framed serialize s trace) (here : s.threads[t]? = some thread)
    (out : thread.holds = false) (out' : next.holds = false) :
    Framed serialize { s with threads := s.threads.set t next } (trace ++ []) := by
  have quiet : ∀ thread : Thread Entry, thread.holds = false → thread.pending = [] := by
    intro thread idle
    cases thread with
    | idle | sending _ => rfl
    | writingSize _ _ | writingProto _ => contradiction
  constructor
  · rw [List.append_nil, ← inv.written]
    congr 1
    simp only [Producer.pending]
    cases held : s.lock with
    | none => rfl
    | some owner =>
      simp only [Option.bind_some]
      by_cases same : owner = t
      · subst same
        rw [List.getElem?_set_self (List.getElem?_eq_some_iff.mp here).1, here]
        exact (quiet next out').trans (quiet thread out).symm
      · rw [List.getElem?_set_ne (Ne.symm same)]
  · intro t' thread' here' holds
    by_cases same : t' = t
    · subst same
      rw [List.getElem?_set_self (List.getElem?_eq_some_iff.mp here).1] at here'
      obtain rfl := Option.some.inj here'
      rw [out'] at holds
      contradiction
    · rw [List.getElem?_set_ne (Ne.symm same)] at here'
      exact inv.alone t' thread' here' holds

/-- The thread that has the lock writes, or passes from the size to the proto. -/
theorem Framed.inside (inv : Framed serialize s trace) (here : s.threads[t]? = some thread)
    (holds : thread.holds = true) (bytes : Bytes)
    (pending : thread.pending = bytes ++ next.pending) :
    Framed serialize { s with stream := s.stream ++ bytes, threads := s.threads.set t next }
      (trace ++ []) := by
  have held := inv.alone t thread here holds
  have written := inv.written
  have inside := (List.getElem?_eq_some_iff.mp here).1
  simp only [Producer.pending, held, Option.bind_some, here] at written
  constructor
  · simp only [Producer.pending, held, Option.bind_some, List.getElem?_set_self inside,
      List.append_nil]
    rw [List.append_assoc, ← pending, written]
  · intro t' thread' here' holds'
    by_cases same : t' = t
    · exact same ▸ held
    · rw [List.getElem?_set_ne (Ne.symm same)] at here'
      exact inv.alone t' thread' here' holds'

theorem Framed.lock {entry : Entry} (inv : Framed serialize s trace)
    (here : s.threads[t]? = some (.sending entry)) (free : s.lock = none) :
    Framed serialize
      { s with lock := some t
               threads := s.threads.set t
                 (.writingSize (encode 8 (serialize entry).length) (serialize entry)) }
      (trace ++ [⟨t, entry⟩]) := by
  have written := inv.written
  have inside := (List.getElem?_eq_some_iff.mp here).1
  simp only [Producer.pending, free, Option.bind_none, List.append_nil] at written
  constructor
  · simp only [Producer.pending, Option.bind_some, List.getElem?_set_self inside, Thread.pending,
      sentStream, List.map_append, stream_append]
    rw [written, sentStream]
    simp [frame]
  · intro t' thread' here' holds'
    by_cases same : t' = t
    · exact congrArg some same.symm
    · rw [List.getElem?_set_ne (Ne.symm same)] at here'
      have other := inv.alone t' thread' here' holds'
      rw [free] at other
      contradiction

theorem Framed.unlock (inv : Framed serialize s trace)
    (here : s.threads[t]? = some (.writingProto [])) :
    Framed serialize { s with lock := none, threads := s.threads.set t .idle } (trace ++ []) := by
  have held := inv.alone t _ here rfl
  have written := inv.written
  simp only [Producer.pending, held, Option.bind_some, here, Thread.pending] at written
  constructor
  · simpa [Producer.pending] using written
  · intro t' thread' here' holds'
    by_cases same : t' = t
    · subst same
      rw [List.getElem?_set_self (List.getElem?_eq_some_iff.mp here).1] at here'
      obtain rfl := Option.some.inj here'
      contradiction
    · rw [List.getElem?_set_ne (Ne.symm same)] at here'
      have other := inv.alone t' thread' here' holds'
      rw [held] at other
      exact absurd (Option.some.inj other).symm same

theorem stepThread_framed {action : Action Entry} (inv : Framed serialize s trace)
    (here : s.threads[action.thread]? = some thread)
    (h : stepThread serialize s thread action = some (s', new)) :
    Framed serialize s' (trace ++ new) := by
  unfold stepThread at h
  split at h
  · obtain ⟨rfl, rfl⟩ := Prod.mk.inj (Option.some.inj h)
    exact inv.outside here rfl rfl
  · split at h
    · contradiction
    · next free =>
      obtain ⟨rfl, rfl⟩ := Prod.mk.inj (Option.some.inj h)
      exact inv.lock here free
  · next left serializedProto _ bytes =>
    split at h
    · obtain ⟨rfl, rfl⟩ := Prod.mk.inj (Option.some.inj h)
      apply inv.inside here rfl
      rw [Thread.pending, Thread.pending, ← List.append_assoc, List.take_append_drop]
    · contradiction
  · next serializedProto t =>
    obtain ⟨rfl, rfl⟩ := Prod.mk.inj (Option.some.inj h)
    have pending : (Thread.writingSize [] serializedProto : Thread Entry).pending =
        [] ++ (Thread.writingProto serializedProto : Thread Entry).pending := rfl
    have passed := inv.inside here rfl [] pending
    rwa [List.append_nil s.stream] at passed
  · next left _ bytes =>
    split at h
    · obtain ⟨rfl, rfl⟩ := Prod.mk.inj (Option.some.inj h)
      apply inv.inside here rfl
      rw [Thread.pending, Thread.pending, List.take_append_drop]
    · contradiction
  · obtain ⟨rfl, rfl⟩ := Prod.mk.inj (Option.some.inj h)
    exact inv.unlock here
  · contradiction

/-- In every interleaving. -/
theorem run_framed {threads : Nat} {schedule : List (Action Entry)}
    (h : run (step serialize) (start threads) schedule = some (s, trace)) :
    Framed serialize s trace := by
  apply run_after (P := Framed serialize) (start_framed threads) _ h
  intro s trace action s' new inv h
  obtain ⟨thread, here, h⟩ := Option.bind_eq_some_iff.mp h
  exact stepThread_framed inv here h

/-- Whatever is cut off the stream, the rest is a part of the frames from their start. -/
theorem take_sentStream {threads : Nat} {schedule : List (Action Entry)}
    (h : run (step serialize) (start threads) schedule = some (s, trace)) (n : Nat) :
    s.stream.take n = (sentStream serialize trace).take (min n s.stream.length) := by
  rw [← (run_framed h).written, List.take_append_of_le_length (Nat.min_le_right n _),
    ← List.take_take, List.take_length]

end Silifuzz.BinaryLogChannel
