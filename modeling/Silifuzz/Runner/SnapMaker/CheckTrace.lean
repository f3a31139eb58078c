import Silifuzz.Runner.DisassemblingSnapTracer.Tracing
import Silifuzz.Runner.Runner.Signals

/-!
# CheckTrace

`SnapMaker::CheckTrace` of `runner/snap_maker.cc`: a runner that executes the snapshot once
under the disassembling tracer. It is ok only if the tracer has not given up, so everything
that the tracer has examined has passed the filters.
-/

namespace Silifuzz.SnapMaker

open Checked HarnessTracer RunnerDriver

/-- `RunnerOptions::TraceOptions` with one iteration. -/
def traceRunnerOptions : Runner.RunnerMainOptions := ⟨false, 1, 1, false⟩

/-- How `TraceOne` goes: what the tracee and the runner do, which are the same process, how
it terminates and what it has written. -/
structure TraceOne where
  events : List Tracee.Event
  runnerEvents : List Runner.Event
  info : ProcessStatus
  runnerStdout : String
  debugString : Proto.SnapshotExecutionResult → String

namespace TraceOne

variable (course : TraceOne) (t : DisassemblingSnapTracer)

def trace : List Tracee.Entry := ((t.run course.events).map Prod.snd).getD []

def runnerRun : Option (Runner.Process × List Runner.Delivery) :=
  Runner.run traceRunnerOptions course.runnerEvents

def runResult : Option (RunnerDriver.RunResult × TraceResult) := do
  let (traced, _) ← t.run course.events
  let (process, _) ← course.runnerRun
  let result ← handleRunnerOutput course.debugString course.runnerStdout
    (Proto.RunnerOutput.ofFields process.stdout) course.info t.snapshot.id
  return (result, traced.callbackState.traceResult)

/-- The two views of the process agree: it exits as the runner does, and a signal that is
injected at an instruction of the snapshot is one that ends the snap. -/
structure Possible : Prop where
  exits : ∀ process deliveries exitCode, course.runnerRun = some (process, deliveries) →
    course.info = .exited exitCode → process.phase = .exited exitCode
  signalled : t.Injects (course.trace t) → .snapSignal SIGUSR1 ∈ course.runnerEvents

end TraceOne

/-- What `CheckTrace` depends on beside its arguments. -/
structure TraceHost where
  xed : XedInterface
  fullText : BitVec 64 → ByteData → String
  currentPlatformId : PlatformId
  /-- `RunnerDriverFromSnapshot` -/
  driver : Checked Unit
  /-- The runner, or why it does not start. -/
  traceOne : Except String TraceOne

/-- The result of the driver, and that of the tracer. -/
def TraceHost.trace (host : TraceHost) (t : DisassemblingSnapTracer) :
    Option (RunnerDriver.RunResult × TraceResult) :=
  if t.snapshot.id = [] then none
  else
    match host.traceOne with
    | .error message =>
      some (.internalError message, DisassemblingSnapTracer.State.start.traceResult)
    | .ok course => course.runResult t

def strJoin (lines : List String) : ByteData :=
  (String.intercalate "\n" lines).toList.map fun c => BitVec.ofNat 8 c.toNat

/-- The copy of the snapshot, with its trace. -/
def withTraceData (debug : Bool) (platform : PlatformId) (snapshot : Snapshot)
    (traceResult : TraceResult) : Checked Snapshot := do
  let traceData := TraceData.new traceResult.instructionsExecuted (strJoin traceResult.disassembly)
  let traceData ← traceData.addPlatform debug platform
  return { snapshot with traceMetadata := [traceData] }

def checkTrace (debug : Bool) (host : TraceHost) (snapshot : Snapshot) (options : TraceOptions) :
    Checked Snapshot := do
  host.driver
  let t ← orAbort (DisassemblingSnapTracer.new host.xed host.fullText snapshot options)
  let (runResult, traceResult) ← orAbort (host.trace t)
  if !runResult.success then
    .error (.status ("Tracing failed: " ++ traceResult.earlyTerminationReason))
  else withTraceData debug host.currentPlatformId snapshot traceResult

end SnapMaker

namespace DisassemblingSnapTracer

open HarnessTracer

variable (t : DisassemblingSnapTracer)

def executionOf : Tracee.Entry → Option (UserRegs × TraceeMemory)
  | .executed regs memory _ => if t.inSnapshot regs then some (regs, memory) else none
  | _ => none

/-- The instructions that are executed at addresses mapped by the snapshot. -/
def executions (trace : List Tracee.Entry) : List (UserRegs × TraceeMemory) :=
  trace.filterMap t.executionOf

/-- Every instruction of the snapshot is single-stepped from a stop that is not the one
that starts or ends the tracing. -/
def Stepped (trace : List Tracee.Entry) : Prop :=
  ∀ regs memory origin, .executed regs memory origin ∈ trace → t.inSnapshot regs = true →
    ∃ stop, origin = some stop ∧ stop.stopSig ≠ SIGSTOP

variable {t}

/-- Stepped instructions execute as their stops have found them. -/
theorem executions_eq {trace : List Tracee.Entry} (stepped : t.Stepped trace)
    (origin : ∀ regs memory stop, .executed regs memory (some stop) ∈ trace →
      regs = stop.regs ∧ memory = stop.memory) :
    t.executions trace = (t.origins trace).map fun stop => (stop.regs, stop.memory) := by
  induction trace with
  | nil => rfl
  | cons entry trace ih =>
    have rest := ih (fun regs memory origin mem => stepped regs memory origin (.tail _ mem))
      (fun regs memory stop mem => origin regs memory stop (.tail _ mem))
    have here : t.executionOf entry =
        (t.originOf entry).map fun stop => (stop.regs, stop.memory) := by
      cases entry with
      | stopped | injected => rfl
      | executed regs memory from? =>
        by_cases inside : t.inSnapshot regs = true
        · obtain ⟨stop, rfl, toggle⟩ := stepped regs memory from? (.head _) inside
          obtain ⟨rfl, rfl⟩ := origin regs memory stop (.head _)
          simp [executionOf, originOf, inside, toggle]
        · cases from? with
          | none => simp [executionOf, originOf, inside]
          | some stop =>
            obtain ⟨rfl, rfl⟩ := origin regs memory stop (.head _)
            simp [executionOf, originOf, inside]
    rw [executions, origins] at rest ⊢
    rw [List.filterMap_cons, List.filterMap_cons, here, rest]
    cases t.originOf entry <;> rfl

end DisassemblingSnapTracer

namespace SnapMaker

open Checked HarnessTracer RunnerDriver

variable {course : TraceOne} {t : DisassemblingSnapTracer}

theorem TraceOne.runResult_eq {result : RunnerDriver.RunResult × TraceResult}
    (made : course.runResult t = some result) :
    ∃ traced process deliveries, t.run course.events = some (traced, course.trace t) ∧
      course.runnerRun = some (process, deliveries) ∧
      handleRunnerOutput course.debugString course.runnerStdout
        (Proto.RunnerOutput.ofFields process.stdout) course.info t.snapshot.id =
          some result.1 := by
  obtain ⟨⟨traced, trace⟩, ran, made⟩ := Option.bind_eq_some_iff.mp made
  obtain ⟨⟨process, deliveries⟩, runnerRan, made⟩ := Option.bind_eq_some_iff.mp made
  obtain ⟨result, handled, made⟩ := Option.bind_eq_some_iff.mp made
  cases made
  refine ⟨traced, process, deliveries, ?_, runnerRan, handled⟩
  rw [TraceOne.trace, ran]
  rfl

/-- A tracer that has given up leaves no success, unless the runner is interrupted. -/
theorem TraceOne.calm {result : RunnerDriver.RunResult × TraceResult}
    (possible : course.Possible t)
    (named : t.snapshot.id ≠ [])
    (uninterrupted : .snapSignal SIGUSR1 ∈ course.runnerEvents → course.info ≠ .signaled SIGINT)
    (made : course.runResult t = some result) (success : result.1.success = true) :
    ¬ t.Injects (course.trace t) := by
  intro injects
  have signal := possible.signalled injects
  obtain ⟨traced, process, deliveries, -, runnerRan, handled⟩ := runResult_eq made
  cases info : course.info with
  | exited exitCode =>
    rw [info] at handled
    have ends := possible.exits process deliveries exitCode runnerRan info
    have failed := Runner.signalled_snap_fails rfl runnerRan signal ends named handled
    rw [success] at failed
    cases failed
  | signaled sigNum =>
    have other : sigNum ≠ SIGINT := fun interrupted =>
      uninterrupted signal (interrupted ▸ info)
    rw [info, handleRunnerOutput, if_neg other] at handled
    split at handled
    all_goals
      rw [← Option.some.inj handled] at success
      cases success
  | other status =>
    rw [info, handleRunnerOutput] at handled
    rw [← Option.some.inj handled] at success
    cases success

/-- The paths on which the tracer misses nothing: the snapshot executes only while it is
stepped, what it executes can be fetched, the last instruction that is fetched decodes, and
its length is not the one that the limit forgets. -/
structure TraceOne.Followed (course : TraceOne) (t : DisassemblingSnapTracer) : Prop where
  stepped : t.Stepped (course.trace t)
  fetched : ∀ e ∈ t.executions (course.trace t), t.fetched e.1 e.2
  decodes : ∀ stop, ((t.stops (course.trace t)).filter fun stop =>
    t.fetched stop.regs stop.memory).getLast? = some stop → t.Decodes stop.regs stop.memory
  length : 0 < t.options.instructionCountLimit →
    ((t.executions (course.trace t)).length : Int) ≠ t.options.instructionCountLimit + 1
  uninterrupted : .snapSignal SIGUSR1 ∈ course.runnerEvents → course.info ≠ .signaled SIGINT

theorem TraceOne.Followed.stops_decode {s : Traced DisassemblingSnapTracer.State}
    (h : course.Followed t) (sound : DisassemblingSnapTracer.Sound t s (course.trace t))
    {stop : PtraceStop} (seen : stop ∈ t.stops (course.trace t))
    (fetched : t.fetched stop.regs stop.memory = true) : t.Decodes stop.regs stop.memory := by
  let fetchable (stop : PtraceStop) : Bool := t.fetched stop.regs stop.memory
  have mem : stop ∈ (t.stops (course.trace t)).filter fetchable :=
    List.mem_filter.mpr ⟨seen, fetched⟩
  obtain ⟨older, last, split⟩ := List.eq_nil_or_concat' _ |>.resolve_left (List.ne_nil_of_mem mem)
  have final : t.Decodes last.regs last.memory := by
    apply h.decodes last
    change ((t.stops (course.trace t)).filter fetchable).getLast? = some last
    rw [split, List.getLast?_concat]
  have lastFetched : t.fetched last.regs last.memory = true := by
    have lastMem : last ∈ (t.stops (course.trace t)).filter fetchable := by
      rw [split]
      exact List.mem_append_right older (List.mem_singleton_self last)
    exact (List.mem_filter.mp lastMem).2
  have noticed := sound.knows.noticed.filter fetchable
  rw [split] at mem noticed
  cases List.mem_append.mp mem with
  | inr new =>
    cases List.mem_singleton.mp new
    exact final
  | inl old =>
    by_contra not
    have later := (List.pairwise_append.mp noticed).2.2 stop old last (List.mem_singleton_self last)
    exact later fetched not lastFetched final

theorem new_options {xed : XedInterface} {fullText : BitVec 64 → ByteData → String} {snapshot : Snapshot}
    {options : TraceOptions}
    (made : DisassemblingSnapTracer.new xed fullText snapshot options = some t) :
    t.options = options := by
  obtain ⟨registers, -, made⟩ := Option.bind_eq_some_iff.mp made
  obtain ⟨start, -, made⟩ := Option.bind_eq_some_iff.mp made
  split at made
  · cases made
    rfl
  · cases made

theorem checkTrace_ok {debug : Bool} {host : TraceHost} {snapshot : Snapshot}
    {options : TraceOptions} {traced : Snapshot}
    (ok : checkTrace debug host snapshot options = .ok traced) :
    ∃ t course result,
      DisassemblingSnapTracer.new host.xed host.fullText snapshot options = some t ∧
      host.traceOne = .ok course ∧ t.snapshot.id ≠ [] ∧ course.runResult t = some result ∧
      result.1.success = true := by
  obtain ⟨-, -, ok⟩ := bind_eq_ok.mp ok
  obtain ⟨t, made, ok⟩ := bind_eq_ok.mp ok
  obtain ⟨⟨result, traceResult⟩, ran, ok⟩ := bind_eq_ok.mp ok
  rw [orAbort_eq_ok] at made ran
  have success : result.success = true := by
    by_contra failed
    simp only [Bool.eq_false_iff.mpr failed, Bool.not_false, if_true] at ok
    cases ok
  unfold TraceHost.trace at ran
  split at ran
  · cases ran
  · rename_i named
    cases happens : host.traceOne with
    | error message =>
      rw [happens] at ran
      cases ran
      cases success
    | ok course =>
      rw [happens] at ran
      exact ⟨t, course, _, made, rfl, named, ran, success⟩

/-- **A snapshot whose path the tracer can follow is filtered**: if `CheckTrace` is ok, every
instruction that was executed at an address of the snapshot passes the filters, and there are
no more of them than the limit. -/
theorem checkTrace_filters {debug : Bool} {host : TraceHost} {snapshot : Snapshot}
    {options : TraceOptions} {traced : Snapshot}
    (ok : checkTrace debug host snapshot options = .ok traced) {t : DisassemblingSnapTracer}
    (made : DisassemblingSnapTracer.new host.xed host.fullText snapshot options = some t)
    {course : TraceOne} (happens : host.traceOne = .ok course) (possible : course.Possible t)
    (followed : course.Followed t) :
    (∀ e ∈ t.executions (course.trace t), t.Passes e.1 e.2) ∧
      (0 < options.instructionCountLimit →
        ((t.executions (course.trace t)).length : Int) ≤ options.instructionCountLimit) := by
  obtain ⟨t', course', result, made', happens', named, run, success⟩ := checkTrace_ok ok
  cases made.symm.trans made'
  cases happens.symm.trans happens'
  have calm := TraceOne.calm possible named followed.uninterrupted run success
  obtain ⟨traced, -, -, ran, -, -⟩ := TraceOne.runResult_eq run
  have sound := DisassemblingSnapTracer.run_sound ran calm
  have among := sound.follows.sublist
  have executed := DisassemblingSnapTracer.executions_eq followed.stepped
    fun _ _ _ mem => run_origin ran mem
  have same := new_options made
  constructor
  · intro e mem
    have fetched := followed.fetched e mem
    rw [executed] at mem
    obtain ⟨stop, stepped, rfl⟩ := List.mem_map.mp mem
    have seen := among.subset stepped
    exact sound.knows.passed stop seen fetched (followed.stops_decode sound seen fetched)
  · intro limited
    have forgotten := followed.length (same ▸ limited)
    have within := sound.knows.within (same ▸ limited)
    have fewer := among.length_le
    rw [executed, List.length_map, same] at forgotten
    rw [executed, List.length_map]
    rw [same] at within
    omega

/-! ## A page end that is not fetched -/

/-- What XED answers of an instruction without memory operands. -/
def plainInst (iclass : Xed.Iclass) (category : Xed.Category) (length : Nat) : Xed.DecodedInst where
  iclass := iclass
  iform := .other "INVALID"
  nprefixes := 0
  length := length
  locked := false
  memoryOperands := []
  operandWidth := 32
  reg0 := .other "INVALID"
  immediateIsSigned := false
  unsignedImmediate := 0
  extension := .other "BASE"
  category := category
  cpl := 3
  operands := []

/-- `RDTSC`, a short `JMP` and the indirect `CALL` of the exit sequence. -/
def threeInsns : ByteData → Except String Xed.DecodedInst
  | 0x0f :: 0x31 :: _ => .ok (plainInst .RDTSC (.other "SYSTEM") 2)
  | 0xeb :: _ :: _ => .ok (plainInst (.other "JMP") (.other "UNCOND_BR") 2)
  | 0xff :: 0x15 :: _ =>
    .ok { plainInst (.other "CALL_NEAR") (.other "CALL") 6 with memoryOperands := [8] }
  | _ => .error "GENERAL_ERROR"

def threeInsnsXed : XedInterface where
  decode := threeInsns
  valid _ := true
  format _ _ := some ""
  agen _ _ _ _ := .ok 0
  iclassStr _ := ""
  iformStr _ := ""
  regStr _ := ""
  l1CacheLineSize := 64

/-- The code page: two jumps to the exit sequence, and `rdtsc; jmp` back to it at the very
end. -/
def codeByte (offset : Nat) : BitVec 8 :=
  if offset < 0xf60 then 0
  else if offset < 0xf80 then [0xeb, 0x0e].getD (offset % 16) 0
  else if offset < 0xf8e then
    [0xff, 0x15, 0, 0, 0, 0, 0, 0, 0xcd, 0xab, 0, 0, 0, 0].getD (offset - 0xf80) 0
  else if offset < 0xffc then 0
  else [0x0f, 0x31, 0xeb, 0x80].getD (offset - 0xffc) 0

def codeStart : Nat := 0x30000000
def stackStart : Nat := 0x1000000

/-- Nothing is mapped after the code page. -/
def codePage : TraceeMemory := fun address =>
  if codeStart ≤ address.toNat ∧ address.toNat < codeStart + 0x1000 then
    some (codeByte (address.toNat - codeStart))
  else none

def bytesOf (value : Nat) : ByteData := LittleEndian.encode 8 value

/-- Serialized registers at an offset of the code page, with the stack at its end. -/
def registersAt (offset : Nat) : RegisterState where
  gregs := [0x69, 0x67, 0, 0, 0, 0, 0, 0] ++ List.replicate 120 0 ++ bytesOf (stackStart + 0x1000) ++
    bytesOf (codeStart + offset) ++ List.replicate 40 0
  fpregs := [0x69, 0x66, 0, 0, 0, 0, 0, 0] ++ List.replicate 512 0

def pageMapping (start : Nat) (perms : MemoryPerms) (bounded : start + 0x1000 ≤ kMaxAddress)
    (proper : perms.Proper) (unmapped : perms.has .kMapped = false) : MemoryMapping :=
  ⟨start, 0x1000, perms, MemoryMapping.page_nonempty, bounded, proper, unmapped⟩

def pageBytes (start : Nat) (byte : Nat → BitVec 8) (bounded : start + 0x1000 ≤ kMaxAddress) :
    MemoryBytes where
  startAddress := start
  byteValues := (List.range 0x1000).map byte
  nonempty := List.ne_nil_of_length_pos (by rw [List.length_map, List.length_range]; decide)
  bounded := by rw [List.length_map, List.length_range]; exact bounded

/-- A snapshot of the two pages that starts at an offset of its code. -/
def codeSnapshot (offset : Nat) : Snapshot where
  architecture := .kX86_64
  mappedMemoryMap :=
    ⟨[⟨stackStart, stackStart + 0x1000, .rw⟩, ⟨codeStart, codeStart + 0x1000, .xr⟩]⟩
  negativeMappedMemoryMap := .empty
  writtenMemorySet :=
    ⟨[⟨stackStart, stackStart + 0x1000, true⟩, ⟨codeStart, codeStart + 0x1000, true⟩]⟩
  memoryMappings := [
    pageMapping stackStart .rw (by decide) MemoryPerms.proper_rw MemoryPerms.unmapped_rw,
    pageMapping codeStart .xr (by decide) MemoryPerms.proper_xr MemoryPerms.unmapped_xr]
  negativeMemoryMappings := []
  memoryBytes := [
    pageBytes stackStart (fun _ => 0) (by decide), pageBytes codeStart codeByte (by decide)]
  id := [0x73]
  registers := some (registersAt offset)
  expectedEndStates := [
    (EndState.new (.kInstruction (codeStart + 0xf80)) (registersAt 0xf80)).addPlatform 1]
  metadata := .default
  traceMetadata := []

def regsAt (rip : Nat) : UserRegs := ⟨fun _ => BitVec.ofNat 64 rip, 0, 0, 0⟩

def toggleAt (rip : Nat) : PtraceStop := ⟨SIGSTOP, ⟨SIGSTOP, 0, 1, 0⟩, regsAt rip, codePage⟩

def trapAt (rip : Nat) : PtraceStop := ⟨SIGTRAP, ⟨SIGTRAP, TRAP_TRACE, 0, 0⟩, regsAt rip, codePage⟩

/-- The runner raises the signal that starts the tracing, and jumps into the snapshot, which
executes at the given addresses and returns to the runner. -/
def tracedPath (path : List Nat) : List Tracee.Event :=
  [.stop (toggleAt 0x456700000000), .singleStep] ++
    path.flatMap (fun rip => [.stop (trapAt rip), .singleStep]) ++
    [.stop (trapAt 0x456700000010), .stop (toggleAt 0x456700000020)]

/-- The snap ends as expected. -/
def endsAsExpected (path : List Nat) : TraceOne where
  events := tracedPath path
  runnerEvents := [.runSnap, .snapExit true true true, .judge, .conclude, .exit]
  info := .exited 0
  runnerStdout := ""
  debugString _ := ""

def hostOf (course : TraceOne) : TraceHost := ⟨threeInsnsXed, fun _ _ => "", 1, .ok (), .ok course⟩

def lastBytes : TraceOne := endsAsExpected [codeStart + 0xffc, codeStart + 0xffe, codeStart + 0xf80]

/-- The tracer of a snapshot that starts at an offset of the code. -/
def codeTracer (offset : Nat) : DisassemblingSnapTracer where
  xed := threeInsnsXed
  fullText _ _ := ""
  snapshot := codeSnapshot offset
  options := .default .kX86_64
  endState := (EndState.new (.kInstruction (codeStart + 0xf80)) (registersAt 0xf80)).addPlatform 1
  snapshotStartAddress := codeStart + offset
  snapshotEndAddress := codeStart + 0xf80

theorem new_codeTracer (offset : Nat) (rip : (codeSnapshot offset).extractRip
    (registersAt offset) = some (codeStart + offset)) :
    DisassemblingSnapTracer.new threeInsnsXed (fun _ _ => "") (codeSnapshot offset)
      (.default .kX86_64) = some (codeTracer offset) := by
  have registers : (codeSnapshot offset).registers = some (registersAt offset) := rfl
  rw [DisassemblingSnapTracer.new, registers]
  simp only [Option.bind_eq_bind, Option.bind_some, rip]
  rfl

theorem ok_of_isSome {α : Type} {x : Checked α} (h : x.toOption.isSome = true) :
    ∃ a, x = .ok a := by
  cases x with
  | ok a => exact ⟨a, rfl⟩
  | error e => cases h

def isInjected : Tracee.Entry → Bool
  | .injected _ _ => true
  | _ => false

/-- A path on which nothing is injected, and the snap ends as expected. -/
theorem possible_of_calm {path : List Nat} {t : DisassemblingSnapTracer}
    (calm : ((endsAsExpected path).trace t).any isInjected = false) :
    (endsAsExpected path).Possible t := by
  constructor
  · intro process deliveries exitCode ran info
    cases info
    have runs : (endsAsExpected path).runnerRun =
        some (⟨.exited 0, false, [.executionResult ⟨some .kOk, none⟩]⟩, []) := rfl
    rw [runs] at ran
    cases ran
    rfl
  · rintro ⟨stop, mem, -⟩
    have := List.any_eq_false.mp calm _ mem
    simp [isInjected] at this

/-- The instruction is banned. -/
def isBanned (e : UserRegs × TraceeMemory) : Bool :=
  match (codeTracer 0xffc).decoded e.1 e.2 with
  | .ok insn => !insn.isAllowedInRunner
  | .error _ => false

theorem not_passes_of_isBanned {e : UserRegs × TraceeMemory} (banned : isBanned e = true) :
    ¬ (codeTracer 0xffc).Passes e.1 e.2 := by
  rintro ⟨insn, decodes, passes⟩
  have allowed := passes.allowed rfl
  simp [isBanned, decodes, allowed] at banned

/-- The instructions in the last bytes of the page are executed and not examined. -/
theorem checkTrace_unfiltered : ¬ ∀ debug host snapshot options traced t course,
    checkTrace debug host snapshot options = .ok traced →
      DisassemblingSnapTracer.new host.xed host.fullText snapshot options = some t →
      host.traceOne = .ok course → course.Possible t →
      (∀ e ∈ t.executions (course.trace t), t.Passes e.1 e.2) ∧
        (0 < options.instructionCountLimit →
          ((t.executions (course.trace t)).length : Int) ≤ options.instructionCountLimit) := by
  intro always
  obtain ⟨traced, ok⟩ : ∃ traced, checkTrace false (hostOf lastBytes) (codeSnapshot 0xffc)
      (.default .kX86_64) = .ok traced := ok_of_isSome (by decide +kernel)
  have made := new_codeTracer 0xffc (by decide +kernel)
  have possible : lastBytes.Possible (codeTracer 0xffc) := possible_of_calm (by decide +kernel)
  have filtered := (always false _ _ _ traced _ lastBytes ok made rfl possible).1
  have executed : ((codeTracer 0xffc).executions (lastBytes.trace (codeTracer 0xffc))).any
      isBanned = true := by
    decide +kernel
  obtain ⟨e, mem, banned⟩ := List.any_eq_true.mp executed
  exact not_passes_of_isBanned banned (filtered e mem)

/-- The path over both jumps. -/
def twoJumps : TraceOne := endsAsExpected [codeStart + 0xf60, codeStart + 0xf70, codeStart + 0xf80]

def isStepped (t : DisassemblingSnapTracer) : Tracee.Entry → Bool
  | .executed regs _ origin => !t.inSnapshot regs || origin.any (·.stopSig != SIGSTOP)
  | _ => true

theorem stepped_of_all {t : DisassemblingSnapTracer} {trace : List Tracee.Entry}
    (h : trace.all (isStepped t) = true) : t.Stepped trace := by
  intro regs memory origin mem inside
  have steps := List.all_eq_true.mp h _ mem
  cases origin with
  | none => simp [isStepped, inside] at steps
  | some stop => exact ⟨stop, rfl, by simpa [isStepped, inside] using steps⟩

theorem twoJumps_followed : twoJumps.Followed (codeTracer 0xf60) := by
  let t := codeTracer 0xf60
  have fetched : (t.executions (twoJumps.trace t)).all (fun e => t.fetched e.1 e.2) = true := by
    decide +kernel
  have decodes : (t.stops (twoJumps.trace t)).all
      (fun stop => (t.decoded stop.regs stop.memory).toOption.isSome) = true := by
    decide +kernel
  have three : (t.executions (twoJumps.trace t)).length = 3 := by decide +kernel
  constructor
  · exact stepped_of_all (by decide +kernel)
  · exact List.all_eq_true.mp fetched
  · intro stop last
    have mem := List.mem_of_mem_filter (List.mem_of_getLast? last)
    have some := List.all_eq_true.mp decodes stop mem
    change ∃ insn, t.decoded stop.regs stop.memory = .ok insn
    cases known : t.decoded stop.regs stop.memory with
    | ok insn => exact ⟨insn, rfl⟩
    | error message =>
      rw [known] at some
      cases some
  · intro _
    rw [three]
    decide
  · intro signal
    simp [twoJumps, endsAsExpected] at signal

/-- A snapshot of two jumps to its exit sequence. -/
theorem checkTrace_filters_twoJumps : ∃ traced,
    checkTrace false (hostOf twoJumps) (codeSnapshot 0xf60) (.default .kX86_64) = .ok traced ∧
      (∀ e ∈ (codeTracer 0xf60).executions (twoJumps.trace (codeTracer 0xf60)),
        (codeTracer 0xf60).Passes e.1 e.2) ∧
      ((codeTracer 0xf60).executions (twoJumps.trace (codeTracer 0xf60))).length = 3 := by
  obtain ⟨traced, ok⟩ : ∃ traced, checkTrace false (hostOf twoJumps) (codeSnapshot 0xf60)
      (.default .kX86_64) = .ok traced := ok_of_isSome (by decide +kernel)
  have made := new_codeTracer 0xf60 (by decide +kernel)
  have possible : twoJumps.Possible (codeTracer 0xf60) := possible_of_calm (by decide +kernel)
  have filtered := checkTrace_filters ok made rfl possible twoJumps_followed
  exact ⟨traced, ok, filtered.1, by decide +kernel⟩

end SnapMaker

end Silifuzz
