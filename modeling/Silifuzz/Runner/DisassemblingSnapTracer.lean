import Silifuzz.Common.HarnessTracer
import Silifuzz.Common.Snapshot.Full
import Silifuzz.Instruction.StaticInsnFilter

/-!
# The disassembling tracer

`runner/disassembling_snap_tracer.cc` and its `StepInstruction` for either architecture:
the callback that filters the instructions of a snapshot while they are single-stepped.
-/

namespace Silifuzz

open Serialize HarnessTracer

structure TraceOptions where
  instructionCountLimit : Int
  x86FilterSplitLock : Bool
  filterBannedInstructions : Bool
  filterMemoryAccess : Bool
  x86FilterNonCanonicalEvexSp : Bool
  aarch64FilterIndirectBranches : Bool
  aarch64FilterFpAndAdvancedSimd : Bool

/-- `kInstructCountLimit` -/
def kInstructCountLimit : Architecture → Int
  | .kX86_64 => 1000
  | .kAArch64 => 4000

/-- `TraceOptions::Default` -/
def TraceOptions.default (arch : Architecture) : TraceOptions :=
  ⟨kInstructCountLimit arch, true, true, false, false, false, false⟩

structure TraceResult where
  /-- An `int` in the source, so this is its value for fewer than `2 ^ 31` instructions. -/
  instructionsExecuted : Nat
  disassembly : List String
  earlyTerminationReason : String
  deriving DecidableEq, Repr

/-- What the tracer is set up with. The host is of the snapshot's architecture. -/
structure DisassemblingSnapTracer where
  xed : XedInterface
  /-- `FullText` of the AArch64 disassembler. -/
  fullText : BitVec 64 → ByteData → String
  snapshot : Snapshot
  options : TraceOptions
  endState : EndState
  snapshotStartAddress : Address
  snapshotEndAddress : Address

namespace DisassemblingSnapTracer

/-- What changes from stop to stop. -/
structure State where
  traceResult : TraceResult
  wasInSnapshot : Bool
  prevInstructionAddr : BitVec 64
  prevInstructionDecodingFailed : Bool

def State.start : State := ⟨⟨0, [], ""⟩, false, 0, false⟩

/-- The constructor; none is a failed `CHECK`. -/
def new (xed : XedInterface) (fullText : BitVec 64 → ByteData → String) (snapshot : Snapshot)
    (options : TraceOptions) : Option DisassemblingSnapTracer := do
  let registers ← snapshot.registers
  let start ← snapshot.extractRip registers
  match snapshot.expectedEndStates with
  | [endState] =>
    let stop := endState.endpoint.instructionAddress
    some ⟨xed, fullText, snapshot, options, endState, start, stop⟩
  | _ => none

namespace State

variable (s : State)

def terminate (reason : String) : State × ContinuationMode :=
  ({ s with traceResult := { s.traceResult with earlyTerminationReason := reason } },
    .kInjectSigusr1)

def countInstruction : State :=
  { s with traceResult :=
    { s.traceResult with instructionsExecuted := s.traceResult.instructionsExecuted + 1 } }

def addDisassembly (text : String) : State :=
  { s with traceResult := { s.traceResult with disassembly := s.traceResult.disassembly ++ [text] } }

/-- Multiple lines of the same instruction are suppressed. -/
def disassemble (addr : BitVec 64) (insn : DecodedInsn) : State :=
  if s.prevInstructionAddr = addr then s
  else s.addDisassembly (toString s.traceResult.instructionsExecuted ++ " addr=" ++
    hexStr addr.toNat ++ " size=" ++ toString insn.length ++ " " ++ insn.debugString)

end State

variable (t : DisassemblingSnapTracer)

def arch : Architecture := t.snapshot.architecture

def inSnapshot (regs : UserRegs) : Bool :=
  t.snapshot.mappedMemoryMap.contains (getIPFromUserRegs t.arch regs).toNat

section X86

def splitLockReason (regs : UserRegs) (insn : DecodedInsn) : Option String :=
  if t.options.x86FilterSplitLock && insn.isLocking then
    match insn.mayHaveSplitLock t.xed regs with
    | .error _ => some ("may_have_split_lock() failed for insn " ++ insn.mnemonic t.xed)
    | .ok true => some ("Split-lock insn " ++ insn.mnemonic t.xed)
    | .ok false => none
  else none

/-- The exit sequence is an indirect call, which is exempt; none is a failed `CHECK`. -/
def memoryAccessReason (regs : UserRegs) (insn : DecodedInsn) : Option (Option String) :=
  if t.options.filterMemoryAccess && insn.mayAccessMemory then do
    let endStateRip ← t.snapshot.extractRip t.endState.registers
    return if (regs.gpr .rip).toNat ≠ endStateRip then some "Memory access not allowed" else none
  else some none

def nonCanonicalReason (insn : DecodedInsn) : Option (Option String) :=
  if t.options.x86FilterNonCanonicalEvexSp then do
    let nonCanonical ← insn.isNonCanonicalEvexSp
    return if nonCanonical then some "Non-canonical EVEX instruction" else none
  else some none

/-- Why the snapshot has to be stopped before an instruction, if it has to. -/
def terminationReason (regs : UserRegs) (insn : DecodedInsn) : Option (Option String) :=
  if !insn.isAllowedInRunner && t.options.filterBannedInstructions then
    some (some ("Banned instruction: " ++ insn.mnemonic t.xed))
  else
    match t.splitLockReason regs insn with
    | some reason => some (some reason)
    | none => do
      match ← t.memoryAccessReason regs insn with
      | some reason => return some reason
      | none => t.nonCanonicalReason insn

def stepX86 (s : State) (regs : UserRegs) (memory : TraceeMemory) :
    Option (State × ContinuationMode) :=
  let addr := regs.gpr .rip
  match DecodedInsn.fetchInstruction memory addr with
  | none => some (s, .kKeepTracing)
  | some data =>
    match DecodedInsn.new t.xed data addr with
    | .error _ =>
      some ({ s with prevInstructionDecodingFailed := true, prevInstructionAddr := addr },
        .kKeepTracing)
    | .ok insn =>
      if s.prevInstructionDecodingFailed then
        some (s.terminate (hexStr addr.toNat ++ ": Insn at " ++
          hexStr s.prevInstructionAddr.toNat ++ " didn't decode but was still executed"))
      else do
        let s := s.disassemble addr insn
        match ← t.terminationReason regs insn with
        | some reason => return s.terminate reason
        | none => return ({ s with prevInstructionAddr := addr }, .kKeepTracing)

end X86

section AArch64

def fetchInstructionFromProcess (memory : TraceeMemory) (addr : BitVec 64) : Option ByteData :=
  if addr.toNat % 4 ≠ 0 then none else (peekText memory addr).map (·.take 4)

def filterConfig (addr : BitVec 64) : InstructionFilterConfig :=
  let isInsideSnapshot : Bool :=
    t.snapshotStartAddress ≤ addr.toNat ∧ addr.toNat < t.snapshotEndAddress
  { indirectBranchesAllowed := !(t.options.aarch64FilterIndirectBranches && isInsideSnapshot)
    scalarFpAndAdvancedSimdAllowed :=
      !(t.options.aarch64FilterFpAndAdvancedSimd && isInsideSnapshot) }

def stepAArch64 (s : State) (regs : UserRegs) (memory : TraceeMemory) :
    State × ContinuationMode :=
  let addr := regs.pc
  match fetchInstructionFromProcess memory addr with
  | none => (s, .kKeepTracing)
  | some insn =>
    if !staticInstructionFilter insn (t.filterConfig addr) then
      s.terminate "Has problematic instructions."
    else
      (s.addDisassembly (toString s.traceResult.instructionsExecuted ++ " addr=" ++
        hexStr addr.toNat ++ " " ++ t.fullText addr insn), .kKeepTracing)

end AArch64

/-- The instruction limit, with which both architectures begin. The count that is compared
is the one from before this instruction. -/
def stepInstruction (s : State) (regs : UserRegs) (memory : TraceeMemory) :
    Option (State × ContinuationMode) :=
  let executed := s.traceResult.instructionsExecuted
  let s := s.countInstruction
  if t.options.instructionCountLimit < executed ∧ 0 < t.options.instructionCountLimit then
    some (s.terminate "Reached instruction limit")
  else
    match t.arch with
    | .kX86_64 => t.stepX86 s regs memory
    | .kAArch64 => some (t.stepAArch64 s regs memory)

def step (s : State) (regs : UserRegs) (memory : TraceeMemory) (reason : CallbackReason) :
    Option (State × ContinuationMode) :=
  match reason with
  | .kSignalStop => some (s, .kStopTracing)
  | .kBecomingInactive => some ({ s with wasInSnapshot := false }, .kStopTracing)
  | .kSyscallStop | .kSingleStepStop =>
    if t.inSnapshot regs then do
      let (s, r) ← t.stepInstruction s regs memory
      return ({ s with wasInSnapshot := r = .kKeepTracing }, r)
    else if s.wasInSnapshot then some ({ s with wasInSnapshot := false }, .kStopTracing)
    else some (s, .kKeepTracing)

end DisassemblingSnapTracer

end Silifuzz

/-!
## The filters

What it means for an instruction to pass the filters that are enabled, in terms of its own
bytes, and what a step of the tracer that keeps on tracing has found out about it.
-/

namespace Silifuzz

open HarnessTracer

/-- The bytes from an address on, as far as they are mapped, and `n` at most. -/
def codeBytes (memory : TraceeMemory) : Nat → BitVec 64 → ByteData
  | 0, _ => []
  | n + 1, addr =>
    match memory addr with
    | none => []
    | some byte => byte :: codeBytes memory n (addr + 1)

theorem readBytes_append {memory : TraceeMemory} {n m : Nat} {addr : BitVec 64}
    {first second : ByteData} (hf : readBytes memory n addr = some first)
    (hs : readBytes memory m (addr + BitVec.ofNat 64 n) = some second) :
    readBytes memory (n + m) addr = some (first ++ second) := by
  induction n generalizing addr first with
  | zero =>
    cases hf
    simpa using hs
  | succ n ih =>
    obtain ⟨byte, mapped, hf⟩ := Option.bind_eq_some_iff.mp hf
    obtain ⟨rest, later, hf⟩ := Option.bind_eq_some_iff.mp hf
    cases hf
    have next : addr + BitVec.ofNat 64 (n + 1) = addr + 1 + BitVec.ofNat 64 n := by
      rw [Nat.add_comm, BitVec.ofNat_add, BitVec.add_assoc]
      rfl
    rw [next] at hs
    rw [Nat.succ_add, readBytes, mapped]
    simp only [Option.bind_eq_bind, Option.bind_some, ih later hs]
    rfl

theorem codeBytes_of_readBytes {memory : TraceeMemory} {n k : Nat} {addr : BitVec 64}
    {bytes : ByteData} (h : readBytes memory n addr = some bytes) (le : k ≤ n) :
    codeBytes memory k addr = bytes.take k := by
  induction k generalizing n addr bytes with
  | zero => rfl
  | succ k ih =>
    cases n with
    | zero => cases le
    | succ n =>
      obtain ⟨byte, mapped, h⟩ := Option.bind_eq_some_iff.mp h
      obtain ⟨rest, later, h⟩ := Option.bind_eq_some_iff.mp h
      cases h
      simp only [codeBytes, mapped, List.take_succ_cons]
      rw [ih later (Nat.le_of_succ_le_succ le)]

/-- What the tracer fetches are the bytes of the instruction. -/
theorem fetchInstruction_eq {memory : TraceeMemory} {addr : BitVec 64} {data : ByteData}
    (h : DecodedInsn.fetchInstruction memory addr = some data) :
    data = codeBytes memory kMaxX86InsnLength addr := by
  obtain ⟨first, hf, h⟩ := Option.bind_eq_some_iff.mp h
  obtain ⟨second, hs, h⟩ := Option.bind_eq_some_iff.mp h
  cases h
  exact (codeBytes_of_readBytes (readBytes_append hf hs) (by decide)).symm

theorem fetchInstructionFromProcess_eq {memory : TraceeMemory} {addr : BitVec 64}
    {insn : ByteData}
    (h : DisassemblingSnapTracer.fetchInstructionFromProcess memory addr = some insn) :
    insn = codeBytes memory 4 addr := by
  simp only [DisassemblingSnapTracer.fetchInstructionFromProcess,
    Option.ite_none_left_eq_some] at h
  obtain ⟨word, read, h⟩ := Option.map_eq_some_iff.mp h.2
  rw [← h, codeBytes_of_readBytes read (by decide)]

namespace DisassemblingSnapTracer

variable (t : DisassemblingSnapTracer)

/-- The instruction at which `regs` are. -/
def decoded (regs : UserRegs) (memory : TraceeMemory) : Except String DecodedInsn :=
  DecodedInsn.new t.xed (codeBytes memory kMaxX86InsnLength (regs.gpr .rip)) (regs.gpr .rip)

structure PassesX86 (regs : UserRegs) (insn : DecodedInsn) : Prop where
  allowed : t.options.filterBannedInstructions → insn.isAllowedInRunner
  noSplitLock : t.options.x86FilterSplitLock → insn.mayHaveSplitLock t.xed regs = .ok false
  noMemoryAccess : t.options.filterMemoryAccess → insn.mayAccessMemory →
    t.snapshot.extractRip t.endState.registers = some (regs.gpr .rip).toNat
  canonical : t.options.x86FilterNonCanonicalEvexSp → insn.isNonCanonicalEvexSp = some false

/-- The instruction passes every filter that is enabled. -/
def Passes (regs : UserRegs) (memory : TraceeMemory) : Prop :=
  match t.arch with
  | .kX86_64 => ∃ insn, t.decoded regs memory = .ok insn ∧ t.PassesX86 regs insn
  | .kAArch64 =>
    staticInstructionFilter (codeBytes memory 4 regs.pc) (t.filterConfig regs.pc) = true

/-- XED decodes the instruction; no filter for AArch64 needs that. -/
def Decodes (regs : UserRegs) (memory : TraceeMemory) : Prop :=
  match t.arch with
  | .kX86_64 => ∃ insn, t.decoded regs memory = .ok insn
  | .kAArch64 => True

/-- The words that the tracer reads of the instruction are mapped. -/
def fetched (regs : UserRegs) (memory : TraceeMemory) : Bool :=
  match t.arch with
  | .kX86_64 => (DecodedInsn.fetchInstruction memory (regs.gpr .rip)).isSome
  | .kAArch64 => (fetchInstructionFromProcess memory regs.pc).isSome

variable {t}

theorem Passes.decodes {regs : UserRegs} {memory : TraceeMemory} (h : t.Passes regs memory) :
    t.Decodes regs memory := by
  cases host : t.arch with
  | kX86_64 =>
    simp only [Passes, Decodes, host] at h ⊢
    exact ⟨h.choose, h.choose_spec.1⟩
  | kAArch64 => simp only [Decodes, host]

theorem terminationReason_none {regs : UserRegs} {insn : DecodedInsn}
    (h : t.terminationReason regs insn = some none) : t.PassesX86 regs insn := by
  unfold terminationReason at h
  split at h
  · cases h
  · rename_i allowed
    split at h
    · cases h
    · rename_i noSplitLock
      obtain ⟨access, noAccess, h⟩ := Option.bind_eq_some_iff.mp h
      cases access with
      | some reason => cases h
      | none =>
        constructor
        · intro enabled
          simpa [enabled] using allowed
        · intro enabled
          cases locking : insn.isLocking with
          | false => simp [DecodedInsn.mayHaveSplitLock, locking]
          | true =>
            simp only [splitLockReason, enabled, locking, Bool.and_self, if_true] at noSplitLock
            split at noSplitLock
            · cases noSplitLock
            · cases noSplitLock
            · assumption
        · intro enabled accesses
          simp only [memoryAccessReason, enabled, accesses, Bool.and_self, if_true] at noAccess
          obtain ⟨rip, known, same⟩ := Option.bind_eq_some_iff.mp noAccess
          rw [known]
          simpa [eq_comm] using same
        · intro enabled
          simp only [nonCanonicalReason, enabled, if_true] at h
          obtain ⟨nonCanonical, known, same⟩ := Option.bind_eq_some_iff.mp h
          cases nonCanonical with
          | false => exact known
          | true => simp at same

/-- What is known when the tracer lets an instruction execute. -/
inductive Kept (t : DisassemblingSnapTracer) (s s' : State) (regs : UserRegs)
    (memory : TraceeMemory) : Prop where
  | unfetched (not : ¬ t.fetched regs memory)
      (same : s'.prevInstructionDecodingFailed = s.prevInstructionDecodingFailed)
  | undecoded (host : t.arch = .kX86_64) (not : ¬ t.Decodes regs memory)
      (failed : s'.prevInstructionDecodingFailed = true)
  | passed (passes : t.Passes regs memory)
      (known : t.arch = .kX86_64 → s.prevInstructionDecodingFailed = false)
      (same : s'.prevInstructionDecodingFailed = s.prevInstructionDecodingFailed)

theorem State.disassemble_same (s : State) (addr : BitVec 64) (insn : DecodedInsn) :
    (s.disassemble addr insn).prevInstructionDecodingFailed = s.prevInstructionDecodingFailed ∧
      (s.disassemble addr insn).traceResult.instructionsExecuted =
        s.traceResult.instructionsExecuted := by
  unfold State.disassemble
  split
  · exact ⟨rfl, rfl⟩
  · exact ⟨rfl, rfl⟩

/-- What a step leaves of the count. -/
def SameCount (s s' : State) : Prop :=
  s'.traceResult.instructionsExecuted = s.traceResult.instructionsExecuted

theorem stepX86_kept {s s' : State} {regs : UserRegs} {memory : TraceeMemory}
    {m : ContinuationMode} (host : t.arch = .kX86_64)
    (h : t.stepX86 s regs memory = some (s', m)) :
    m = .kInjectSigusr1 ∨ (m = .kKeepTracing ∧ SameCount s s' ∧ Kept t s s' regs memory) := by
  simp only [stepX86] at h
  cases word : DecodedInsn.fetchInstruction memory (regs.gpr .rip) with
  | none =>
    rw [word] at h
    cases h
    have not : ¬ t.fetched regs memory := by simp [DisassemblingSnapTracer.fetched, host, word]
    exact .inr ⟨rfl, rfl, .unfetched not rfl⟩
  | some data =>
    have read : t.decoded regs memory = DecodedInsn.new t.xed data (regs.gpr .rip) := by
      rw [decoded, fetchInstruction_eq word]
    rw [word] at h
    dsimp only at h
    rw [← read] at h
    cases decodes : t.decoded regs memory with
    | error message =>
      rw [decodes] at h
      cases h
      have not : ¬ t.Decodes regs memory := by simp [Decodes, host, decodes]
      exact .inr ⟨rfl, rfl, .undecoded host not rfl⟩
    | ok insn =>
      simp only [decodes, Option.bind_eq_bind] at h
      split at h
      · cases h
        exact .inl rfl
      · rename_i known
        obtain ⟨reason, why, h⟩ := Option.bind_eq_some_iff.mp h
        cases reason with
        | some text =>
          cases h
          exact .inl rfl
        | none =>
          cases h
          have passes : t.Passes regs memory := by
            simp only [Passes, host]
            exact ⟨insn, decodes, terminationReason_none why⟩
          obtain ⟨failed, count⟩ := s.disassemble_same (regs.gpr .rip) insn
          exact .inr ⟨rfl, count, .passed passes (fun _ => by simpa using known) failed⟩

theorem stepAArch64_kept {s s' : State} {regs : UserRegs} {memory : TraceeMemory}
    {m : ContinuationMode} (host : t.arch = .kAArch64)
    (h : t.stepAArch64 s regs memory = (s', m)) :
    m = .kInjectSigusr1 ∨ (m = .kKeepTracing ∧ SameCount s s' ∧ Kept t s s' regs memory) := by
  simp only [stepAArch64] at h
  cases word : fetchInstructionFromProcess memory regs.pc with
  | none =>
    rw [word] at h
    cases h
    have not : ¬ t.fetched regs memory := by simp [DisassemblingSnapTracer.fetched, host, word]
    exact .inr ⟨rfl, rfl, .unfetched not rfl⟩
  | some insn =>
    simp only [word] at h
    split at h
    · cases h
      exact .inl rfl
    · rename_i allowed
      cases h
      have passes : t.Passes regs memory := by
        simp only [Passes, host]
        rw [← fetchInstructionFromProcess_eq word]
        simpa using allowed
      exact .inr ⟨rfl, rfl, .passed passes (fun x86 => by simp [host] at x86) rfl⟩

/-- The instruction executes if it is within the limit and nothing is found against it. -/
theorem stepInstruction_kept {s s' : State} {regs : UserRegs} {memory : TraceeMemory}
    {m : ContinuationMode} (h : t.stepInstruction s regs memory = some (s', m)) :
    m = .kInjectSigusr1 ∨ (m = .kKeepTracing ∧
      s'.traceResult.instructionsExecuted = s.traceResult.instructionsExecuted + 1 ∧
      (0 < t.options.instructionCountLimit →
        (s.traceResult.instructionsExecuted : Int) ≤ t.options.instructionCountLimit) ∧
      Kept t s s' regs memory) := by
  simp only [stepInstruction] at h
  split at h
  · cases h
    exact .inl rfl
  · rename_i within
    have bounded : 0 < t.options.instructionCountLimit →
        (s.traceResult.instructionsExecuted : Int) ≤ t.options.instructionCountLimit := by
      omega
    have kept : m = .kInjectSigusr1 ∨ (m = .kKeepTracing ∧ SameCount s.countInstruction s' ∧
        Kept t s.countInstruction s' regs memory) := by
      split at h
      · rename_i host
        exact stepX86_kept host h
      · rename_i host
        exact stepAArch64_kept host (Option.some.inj h)
    cases kept with
    | inl injected => exact .inl injected
    | inr kept =>
      obtain ⟨keeps, count, known⟩ := kept
      refine .inr ⟨keeps, count, bounded, ?_⟩
      cases known with
      | unfetched not same => exact .unfetched not same
      | undecoded host not failed => exact .undecoded host not failed
      | passed passes known same => exact .passed passes known same

end DisassemblingSnapTracer

end Silifuzz
