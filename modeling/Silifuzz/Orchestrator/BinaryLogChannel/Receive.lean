import Silifuzz.Orchestrator.BinaryLogChannel

/-!
# What the consumer's calls return

On a stream of frames that is cut off anywhere: the entries whose frames are whole, and
then the error that the rest of the stream makes of the next call.
-/

namespace Silifuzz.BinaryLogChannel

open LittleEndian Framing Schedules ByteIo

variable {Entry : Type} {serialize : Entry → Bytes} {parse : Bytes → Option Entry}
  {debug : Bool} {fd : Int} {stream rest : Bytes} {call : Call} {received : Received Entry}

/-- The `errno` that a call's system calls leave. -/
def Call.lastErrno (call : Call) : Nat :=
  if .failed EINTR ∈ call.script then EINTR else call.errno

theorem receive_call (run : receive debug parse fd stream call = some (received, rest)) :
    receiveCall debug parse fd call.errno stream call.script = some (received, rest, []) := by
  obtain ⟨⟨received', rest', script⟩, inner, run⟩ := Option.bind_eq_some_iff.mp run
  cases script with
  | nil =>
    obtain ⟨rfl, rfl⟩ := Prod.mk.inj (Option.some.inj run)
    exact inner
  | cons _ _ => contradiction

/-- At the end of the stream. -/
theorem receive_end (fine : Interruptible call.script)
    (run : receive debug parse fd [] call = some (received, rest)) :
    received = .error endOfChannelError := by
  have run := receive_call run
  obtain ⟨size, first, run⟩ := Option.bind_eq_some_iff.mp run
  obtain ⟨buffer, -⟩ := read_reads fine first
  simp only [buffer, List.take_nil, List.length_nil, ↓reduceIte] at run
  exact (Prod.mk.inj (Option.some.inj run)).1.symm

/-- Inside a size. -/
theorem receive_inSize (fine : Interruptible call.script) (begun : 0 < stream.length)
    (part : stream.length < 8)
    (run : receive debug parse fd stream call = some (received, rest)) :
    ∃ message, received = .error (.dataLoss message) := by
  have run := receive_call run
  obtain ⟨size, first, run⟩ := Option.bind_eq_some_iff.mp run
  obtain ⟨buffer, -⟩ := read_reads fine first
  have whole : stream.take 8 = stream := List.take_of_length_le (by omega)
  simp only [buffer, whole, if_neg begun.ne', ne_eq, if_pos part.ne] at run
  exact ⟨_, (Prod.mk.inj (Option.some.inj run)).1.symm⟩

/-- After a size, the call reads what there is of the proto. -/
theorem receive_proto {size : Nat} {left : Bytes} (fine : Interruptible call.script)
    (fits : size < 256 ^ 8)
    (run : receive debug parse fd (encode 8 size ++ left) call = some (received, rest)) :
    rest = left.drop size ∧
      if (left.take size).length ≠ size then
        received = statusOr debug
          (.errnoToStatus call.lastErrno "Cannot read BinaryLogEntry proto")
      else
        match parse (left.take size) with
        | none => received = .error (.dataLoss "Cannot deserialize BinaryLogEntry")
        | some entry => received = .entry entry := by
  have run := receive_call run
  obtain ⟨first, reads, run⟩ := Option.bind_eq_some_iff.mp run
  obtain ⟨buffer, stream, before, script, errno⟩ := read_reads fine reads
  have fine' : Interruptible first.script := fun e he => fine e (by simp [script, he])
  have size8 : (encode 8 size ++ left).take 8 = encode 8 size :=
    List.take_left' (length_encode 8 size)
  have left8 : (encode 8 size ++ left).drop 8 = left := List.drop_left' (length_encode 8 size)
  rw [left8] at stream
  rw [size8] at buffer
  simp only [buffer, length_encode, OfNat.ofNat_ne_zero, ↓reduceIte, ne_eq, not_true_eq_false,
    decode_encode_of_lt fits, stream] at run
  obtain ⟨proto, reads', run⟩ := Option.bind_eq_some_iff.mp run
  obtain ⟨buffer', stream', after, script', errno'⟩ := read_reads fine' reads'
  simp only [buffer'] at run
  -- the script has no system calls after these two reads
  have ends : proto.script = [] → proto.errno = call.lastErrno := by
    intro ended
    rw [errno', errno, Call.lastErrno, script, script', ended, List.append_nil]
    simp only [List.mem_append]
    by_cases late : SysRead.failed EINTR ∈ after
    · simp [late]
    · simp [late]
  split at run
  · next short =>
    simp only [Option.pure_def, Option.some.injEq, Prod.mk.injEq] at run
    obtain ⟨rfl, rfl, ended⟩ := run
    rw [if_pos short, ends ended]
    exact ⟨stream', rfl⟩
  · next all =>
    rw [if_neg all]
    cases parsed : parse (left.take size) with
    | none =>
      simp only [parsed, Option.pure_def, Option.some.injEq, Prod.mk.injEq] at run
      obtain ⟨rfl, rfl, -⟩ := run
      exact ⟨stream', rfl⟩
    | some entry =>
      simp only [parsed, Option.pure_def, Option.some.injEq, Prod.mk.injEq] at run
      obtain ⟨rfl, rfl, -⟩ := run
      exact ⟨stream', rfl⟩

/-- What the protobuf library promises: parsing inverts serialisation, and no serialised
entry has 2 GiB. -/
structure Protobuf (serialize : Entry → Bytes) (parse : Bytes → Option Entry) : Prop where
  inverts : ∀ entry, parse (serialize entry) = some entry
  limit : ∀ entry, (serialize entry).length < 2 ^ 31

theorem receive_entry {entry : Entry} {left : Bytes} (protobuf : Protobuf serialize parse)
    (fine : Interruptible call.script)
    (run : receive debug parse fd (frame 8 (serialize entry) ++ left) call =
      some (received, rest)) : received = .entry entry ∧ rest = left := by
  have limit := protobuf.limit entry
  rw [frame, List.append_assoc] at run
  obtain ⟨after, got⟩ := receive_proto fine (by omega) run
  rw [List.take_left, if_neg (by simp), protobuf.inverts] at got
  rw [List.drop_left] at after
  exact ⟨got, after⟩

/-- Inside a proto. -/
theorem receive_inProto {payload : Bytes} {n : Nat} (limit : payload.length < 2 ^ 31)
    (fine : Interruptible call.script) (size : 8 ≤ n) (part : n < (frame 8 payload).length)
    (run : receive debug parse fd ((frame 8 payload).take n) call = some (received, rest)) :
    received = statusOr debug
      (.errnoToStatus call.lastErrno "Cannot read BinaryLogEntry proto") := by
  rw [length_frame] at part
  have after : (frame 8 payload).take n =
      encode 8 payload.length ++ payload.take (n - 8) := by
    rw [frame, List.take_append, length_encode,
      List.take_of_length_le (by rw [length_encode]; exact size)]
  rw [after] at run
  obtain ⟨-, got⟩ := receive_proto fine (by omega) run
  rw [if_pos] at got
  · exact got
  · simp only [List.length_take]
    omega

/-- Whole frames give their entries. -/
theorem receiveAll_frames {entries : List Entry} {left : Bytes} {calls later : List Call}
    {results : List (Received Entry)} (protobuf : Protobuf serialize parse)
    (fine : ∀ call ∈ calls, Interruptible call.script)
    (each : calls.length = entries.length)
    (run : receiveAll debug parse fd (Framing.stream 8 (entries.map serialize) ++ left)
      (calls ++ later) = some results) :
    ∃ last, receiveAll debug parse fd left later = some last ∧
      results = entries.map .entry ++ last := by
  induction entries generalizing calls results with
  | nil =>
    obtain rfl := List.eq_nil_of_length_eq_zero each
    exact ⟨results, run, rfl⟩
  | cons entry entries ih =>
    cases calls with
    | nil => contradiction
    | cons call calls =>
      rw [List.map_cons, stream_cons, List.append_assoc, List.cons_append] at run
      obtain ⟨⟨received, rest⟩, first, run⟩ := Option.bind_eq_some_iff.mp run
      obtain ⟨rfl, rfl⟩ := receive_entry protobuf (fine call (by simp)) first
      obtain ⟨results', next, run⟩ := Option.bind_eq_some_iff.mp run
      obtain rfl := Option.some.inj run
      obtain ⟨last, ends, rfl⟩ := ih (fun c hc => fine c (by simp [hc]))
        (Nat.succ.inj each) next
      exact ⟨last, ends, rfl⟩

theorem receiveAll_last {results : List (Received Entry)}
    (run : receiveAll debug parse fd stream [call] = some results) :
    ∃ received rest, receive debug parse fd stream call = some (received, rest) ∧
      results = [received] := by
  obtain ⟨⟨received, rest⟩, first, run⟩ := Option.bind_eq_some_iff.mp run
  refine ⟨received, rest, first, ?_⟩
  cases received with
  | entry _ | error _ | aborted => exact (Option.some.inj run).symm

/-- What the calls are to return on the first `n` bytes of the entries' frames: the entries
whose frames are whole, and an error, that of the end of the channel at a frame's end. -/
def Delivers (serialize : Entry → Bytes) (entries : List Entry) (n : Nat)
    (results : List (Received Entry)) : Prop :=
  let whole := cut 8 (entries.map serialize) n
  ∃ status, results = (entries.take whole.1).map .entry ++ [.error status] ∧
    status.ok = false ∧ (whole.2 = 0 → status = endOfChannelError)

theorem statusOr_error {status : Status} (h : status.ok = true → debug = false) :
    ∃ error, (statusOr debug status : Received Entry) = .error error ∧ error.ok = false := by
  unfold statusOr
  split
  · next ok => exact ⟨_, by rw [if_neg (by simp [h ok])], rfl⟩
  · next bad => exact ⟨status, rfl, by simpa using bad⟩

/-- The call on the bytes after the last whole frame. -/
theorem receive_left {entries : List Entry} {n : Nat} (protobuf : Protobuf serialize parse)
    (fine : Interruptible call.script)
    (run : receive debug parse fd
      ((Framing.stream 8 ((entries.map serialize).drop (cut 8 (entries.map serialize) n).1)).take
        (cut 8 (entries.map serialize) n).2) call = some (received, rest)) :
    (∃ status, received = .error status ∧ status.ok = false ∧
      ((cut 8 (entries.map serialize) n).2 = 0 → status = endOfChannelError)) ↔
    ¬ (debug = true ∧ 8 ≤ (cut 8 (entries.map serialize) n).2 ∧ call.lastErrno = 0) := by
  obtain none | ⟨payload, others, left, part⟩ := cut_left (entries.map serialize) n
  · rw [none, List.take_zero] at run
    rw [receive_end fine run, none]
    simp [endOfChannelError, Status.ok]
  have limit : payload.length < 2 ^ 31 := by
    have mem : payload ∈ entries.map serialize := List.mem_of_mem_drop (left ▸ List.mem_cons_self)
    obtain ⟨entry, -, rfl⟩ := List.mem_map.mp mem
    exact protobuf.limit entry
  rw [left, stream_cons, List.take_append_of_le_length part.le] at run
  generalize (cut 8 (entries.map serialize) n).2 = m at run part ⊢
  by_cases size : 8 ≤ m
  · rw [receive_inProto limit fine size part run]
    constructor
    · rintro ⟨status, got, -⟩ ⟨rfl, -, zero⟩
      simp [statusOr, Status.ok, zero] at got
    · intro ok
      have checked : Status.ok (.errnoToStatus call.lastErrno "Cannot read BinaryLogEntry proto") =
          true → debug = false := by
        intro zero
        simp only [Status.ok, beq_iff_eq] at zero
        by_contra debug
        exact ok ⟨by simpa using debug, size, zero⟩
      obtain ⟨error, got, bad⟩ := statusOr_error checked
      exact ⟨error, got, bad, fun zero => absurd zero (by omega)⟩
  · rcases Nat.eq_zero_or_pos m with rfl | pos
    · rw [List.take_zero] at run
      rw [receive_end fine run]
      simp [endOfChannelError, Status.ok]
    · have length : ((frame 8 payload).take m).length = m := by
        rw [List.length_take]
        omega
      obtain ⟨message, rfl⟩ := receive_inSize fine (by omega) (by omega) run
      constructor
      · rintro - ⟨-, size', -⟩
        exact size size'
      · intro _
        exact ⟨_, rfl, rfl, fun zero => absurd zero pos.ne'⟩

/-- Whatever the stream and `errno` are, a call has system calls that bring it to its end. -/
theorem receive_returns (debug : Bool) (parse : Bytes → Option Entry) (fd : Int)
    (stream : Bytes) (errno : Nat) :
    ∃ script result, Interruptible script ∧
      receive debug parse fd stream ⟨errno, script⟩ = some result := by
  by_cases short : stream.length < 8
  · have ran := read_wholeScript 8 errno stream []
    rw [List.append_nil] at ran
    refine ⟨wholeScript 8 stream, ?_⟩
    simp only [wholeScript_interruptible, true_and, receive, receiveCall, ran, Option.bind_eq_bind,
      Option.bind_some, List.length_take, min_eq_right short.le, ne_eq, if_pos short.ne]
    split
    · exact ⟨_, rfl⟩
    · exact ⟨_, rfl⟩
  · have size : (stream.take 8).length = 8 := by
      rw [List.length_take]
      omega
    have ran := read_wholeScript 8 errno stream
      (wholeScript (decode (stream.take 8)) (stream.drop 8))
    have ran' := read_wholeScript (decode (stream.take 8)) errno (stream.drop 8) []
    rw [List.append_nil] at ran'
    refine ⟨wholeScript 8 stream ++ wholeScript (decode (stream.take 8)) (stream.drop 8), ?_⟩
    have fine : Interruptible
        (wholeScript 8 stream ++ wholeScript (decode (stream.take 8)) (stream.drop 8)) := by
      intro e failed
      rcases List.mem_append.mp failed with failed | failed
      · exact wholeScript_interruptible _ _ e failed
      · exact wholeScript_interruptible _ _ e failed
    simp only [fine, true_and, receive, receiveCall, ran, Option.bind_eq_bind, Option.bind_some,
      size, OfNat.ofNat_ne_zero, ↓reduceIte, ne_eq, not_true_eq_false, ran']
    split
    · exact ⟨_, rfl⟩
    · split
      · exact ⟨_, rfl⟩
      · exact ⟨_, rfl⟩

/--
**The consumer gets the whole entries, unless a cut proto meets an `errno` of 0.**

Whatever the threads have sent, and wherever the stream ends: calls of `Receive()`, one more
than there are whole frames, return their entries in the order written and then an error,
that of the end of the channel at a frame's end, exactly if it is not the case that a debug
build finds the stream cut inside a proto while `errno` was 0 and no `read()` was
interrupted. Every call returns.
-/
theorem receive_delivers (debug : Bool) (parse : Bytes → Option Entry) (fd : Int)
    (protobuf : Protobuf serialize parse) {threads n : Nat} {schedule : List (Action Entry)}
    {s : Producer Entry} {trace : List (Sent Entry)} {calls : List Call} {last : Call}
    {results : List (Received Entry)}
    (sent : run (step serialize) (start threads) schedule = some (s, trace))
    (end_ : n ≤ s.stream.length)
    (fine : ∀ call ∈ calls ++ [last], Interruptible call.script)
    (each : calls.length = (cut 8 ((trace.map (·.entry)).map serialize) n).1)
    (ran : receiveAll debug parse fd (s.stream.take n) (calls ++ [last]) = some results) :
    (Delivers serialize (trace.map (·.entry)) n results ↔
      ¬ (debug = true ∧ 8 ≤ (cut 8 ((trace.map (·.entry)).map serialize) n).2 ∧
        last.errno = 0 ∧ .failed EINTR ∉ last.script)) ∧
    ∀ stream errno, ∃ script result, Interruptible script ∧
      receive debug parse fd stream ⟨errno, script⟩ = some result := by
  refine ⟨?_, receive_returns debug parse fd⟩
  have zero : last.lastErrno = 0 ↔ last.errno = 0 ∧ .failed EINTR ∉ last.script := by
    unfold Call.lastErrno EINTR
    split
    · next interrupted => simp [interrupted]
    · next calm => simp [calm]
  rw [← zero]
  have frames : sentStream serialize trace =
      Framing.stream 8 ((trace.map (·.entry)).map serialize) := by
    rw [sentStream, List.map_map]
    rfl
  generalize trace.map (·.entry) = entries at frames each ⊢
  rw [take_sentStream sent, min_eq_left end_, frames, take_stream, ← List.map_take] at ran
  have whole : calls.length = (entries.take (cut 8 (entries.map serialize) n).1).length := by
    have inside := @cut_le_length 8 (entries.map serialize) n
    rw [List.length_map] at inside
    rw [List.length_take, each, min_eq_left inside]
  obtain ⟨lasts, ends, rfl⟩ := receiveAll_frames protobuf
    (fun call hc => fine call (by simp [hc])) whole ran
  obtain ⟨received, rest, call, rfl⟩ := receiveAll_last ends
  rw [← receive_left protobuf (fine last (by simp)) call]
  simp only [Delivers, List.append_cancel_left_eq, List.cons.injEq, and_true]

/-- Entries of at most two bytes, as their own serialisation. -/
abbrev SmallEntry := { bytes : Bytes // bytes.length ≤ 2 }

def parseSmall (bytes : Bytes) : Option SmallEntry :=
  if small : bytes.length ≤ 2 then some ⟨bytes, small⟩ else none

theorem smallProtobuf : Protobuf (fun entry : SmallEntry => entry.val) parseSmall := by
  constructor
  · intro entry
    simp [parseSmall, entry.property]
  · intro entry
    have small := entry.property
    omega

theorem two_small : [8#8, 1#8].length ≤ 2 := Nat.le_refl 2

theorem other_small : [16#8, 3#8].length ≤ 2 := Nat.le_refl 2

def someEntry : SmallEntry := ⟨[8#8, 1#8], two_small⟩

def otherEntry : SmallEntry := ⟨[16#8, 3#8], other_small⟩

/-- One thread sends an entry, and writes its size in two parts. -/
def oneSend : List (Action SmallEntry) :=
  [.send 0 someEntry, .lock 0, .write 0 3, .write 0 5, .next 0, .write 0 2, .next 0]

def oneStream : Bytes := [2#8, 0#8, 0#8, 0#8, 0#8, 0#8, 0#8, 0#8, 8#8, 1#8]

/-- The call on the entry without its last byte. -/
def cutCall : Call := ⟨0, [.returned 8, .returned 1, .returned 0]⟩

def oneSent : List (Sent SmallEntry) := [⟨0, someEntry⟩]

theorem oneSend_runs :
    run (step fun entry : SmallEntry => entry.val) (start 1) oneSend =
      some (⟨none, [.idle], oneStream⟩, oneSent) := by
  decide +kernel

/-- A debug build aborts on an entry that lacks its last byte. -/
theorem receive_aborts :
    run (step fun entry : SmallEntry => entry.val) (start 1) oneSend =
        some (⟨none, [.idle], oneStream⟩, oneSent) ∧
      receiveAll true parseSmall 3 (oneStream.take 9) [cutCall] = some [.aborted] ∧
      ¬ Delivers (fun entry : SmallEntry => entry.val) (oneSent.map (·.entry)) 9 [.aborted] := by
  refine ⟨oneSend_runs, by decide +kernel, ?_⟩
  rintro ⟨status, got, -⟩
  simp [cut, oneSent, someEntry] at got

/-- Two threads send an entry each, the second one while the first has the lock. -/
def twoSends : List (Action SmallEntry) :=
  [.send 0 someEntry, .send 1 otherEntry, .lock 0, .write 0 8, .next 0, .write 0 2, .next 0,
    .lock 1, .write 1 8, .next 1, .write 1 1, .write 1 1, .next 1]

def twoSent : List (Sent SmallEntry) := [⟨0, someEntry⟩, ⟨1, otherEntry⟩]

def twoStream : Bytes := oneStream ++ [2#8, 0#8, 0#8, 0#8, 0#8, 0#8, 0#8, 0#8, 16#8, 3#8]

theorem twoSends_run :
    run (step fun entry : SmallEntry => entry.val) (start 2) twoSends =
      some (⟨none, [.idle, .idle], twoStream⟩, twoSent) := by
  decide +kernel

/-- The call on the first entry, which comes in parts. -/
def wholeCall : Call := ⟨0, [.returned 5, .returned 3, .returned 1, .returned 1]⟩

/-- The call on the second entry without its last byte, where an interrupt has set `errno`. -/
def interruptedCall : Call := ⟨0, [.returned 8, .failed EINTR, .returned 1, .returned 0]⟩

theorem calls_interruptible : ∀ call ∈ [wholeCall] ++ [interruptedCall],
    Interruptible call.script := by
  intro call mem e failed
  rcases List.mem_cons.mp mem with rfl | mem
  · simp [wholeCall] at failed
  · obtain rfl := List.mem_singleton.mp mem
    simpa [interruptedCall] using failed

/-- The first entry, and the error of the interrupt. -/
theorem receive_delivers_interrupted :
    Delivers (fun entry : SmallEntry => entry.val) (twoSent.map (·.entry)) 19
      [.entry someEntry, .error (.errnoToStatus EINTR "Cannot read BinaryLogEntry proto")] :=
  have ran : receiveAll true parseSmall 3 (twoStream.take 19) ([wholeCall] ++ [interruptedCall]) =
      some [.entry someEntry,
        .error (.errnoToStatus EINTR "Cannot read BinaryLogEntry proto")] := by
    decide +kernel
  have inside : 19 ≤ twoStream.length := by decide
  have each : [wholeCall].length =
      (cut 8 ((twoSent.map (·.entry)).map fun entry : SmallEntry => entry.val) 19).1 := by
    decide
  (receive_delivers true parseSmall 3 smallProtobuf twoSends_run inside
    calls_interruptible each ran).1.mpr fun ⟨_, _, _, calm⟩ =>
      calm (by simp [interruptedCall])

end Silifuzz.BinaryLogChannel
