import Silifuzz.Instruction.DecodedInsn

/-!
# The harness tracer

`Trace` of `common/harness_tracer.cc`: what the tracer does at a stop of the tracee, and
how it resumes the tracee.
-/

namespace Silifuzz

/-- `GetIPFromUserRegs` -/
def getIPFromUserRegs (arch : Architecture) (regs : UserRegs) : BitVec 64 :=
  match arch with
  | .kX86_64 => regs.gpr .rip
  | .kAArch64 => regs.pc

namespace HarnessTracer

def SIGTRAP : Nat := 5
def SIGUSR1 : Nat := 10
def SIGSTOP : Nat := 19
def SI_USER : Nat := 0
def SI_KERNEL : Nat := 0x80
def TRAP_BRKPT : Nat := 1
def TRAP_TRACE : Nat := 2
def kTrapUnk : Nat := 5

inductive Mode where
  | kSyscall
  | kSingleStep
  deriving DecidableEq, Repr

inductive ContinuationMode where
  | kKeepTracing
  | kStopTracing
  | kInjectSigusr1
  deriving DecidableEq, Repr

inductive CallbackReason where
  | kSyscallStop
  | kSingleStepStop
  | kSignalStop
  | kBecomingInactive
  deriving DecidableEq, Repr

/-- `siginfo_t` -/
structure SigInfo where
  siSigno : Nat
  siCode : Nat
  siPid : Nat
  siUid : Nat
  deriving DecidableEq, Repr

/-- A stop of the tracee that `waitpid` reports. -/
structure PtraceStop where
  /-- `WSTOPSIG` of the status. -/
  stopSig : Nat
  info : SigInfo
  regs : UserRegs
  memory : TraceeMemory

/-- How the tracee goes on. -/
structure Resume where
  /-- `PTRACE_SINGLESTEP` (or `PTRACE_SYSCALL`) rather than `PTRACE_CONT`. -/
  steps : Bool
  /-- The signal that is injected, if any. -/
  signal : Nat
  deriving DecidableEq, Repr

def isSingleStepOrPtraceTrap (info : SigInfo) : Bool :=
  info.siSigno = SIGTRAP ∧ (info.siCode = TRAP_TRACE ∨ info.siCode = kTrapUnk)

def looksLikeBogusTrap (arch : Architecture) (info : SigInfo) : Bool :=
  match arch with
  | .kAArch64 =>
    info.siSigno = SIGTRAP ∧ info.siCode = SI_USER ∧ info.siPid = 0 ∧ info.siUid = 0
  | .kX86_64 => false

def shouldSuppressInactiveTrap (arch : Architecture) (info : SigInfo) : Bool :=
  isSingleStepOrPtraceTrap info || looksLikeBogusTrap arch info

/-- The reason that the callback is given; none is the `LOG_FATAL`. -/
def callbackReason (arch : Architecture) (mode : Mode) (stop : PtraceStop) :
    Option CallbackReason :=
  let info := stop.info
  if stop.stopSig = SI_KERNEL ||| SIGTRAP then some .kSyscallStop
  else if info.siSigno ≠ SIGTRAP then some .kSignalStop
  else if mode = .kSingleStep ∧ looksLikeBogusTrap arch info then some .kSingleStepStop
  else if info.siCode = SI_KERNEL ∨ info.siCode = 0 ∨ mode = .kSyscall then some .kSignalStop
  else if info.siCode = TRAP_TRACE ∨ info.siCode = TRAP_BRKPT ∨ info.siCode = kTrapUnk then
    some .kSingleStepStop
  else none

section Trace

variable {σ : Type}

/-- The callback, with the memory that it may read of the tracee; none is an abort. -/
abbrev Callback (σ : Type) :=
  σ → UserRegs → TraceeMemory → CallbackReason → Option (σ × ContinuationMode)

variable (arch : Architecture) (mode : Mode) (callback : Callback σ)

/-- A stop while the tracer is active, other than a `SIGSTOP`. -/
def traceActive (s : σ) (stop : PtraceStop) : Option (σ × Resume) := do
  let reason ← callbackReason arch mode stop
  let signal := if reason = .kSignalStop then stop.info.siSigno else 0
  let (s, m) ← callback s stop.regs stop.memory reason
  match m with
  | .kKeepTracing => return (s, ⟨true, signal⟩)
  | .kStopTracing =>
    let (s, _) ← callback s stop.regs stop.memory .kBecomingInactive
    return (s, ⟨false, signal⟩)
  | .kInjectSigusr1 =>
    let (s, _) ← callback s stop.regs stop.memory .kBecomingInactive
    return (s, ⟨false, SIGUSR1⟩)

def trace (s : σ) (isActive : Bool) (stop : PtraceStop) : Option (σ × Bool × Resume) :=
  if stop.stopSig = SIGSTOP then some (s, !isActive, ⟨!isActive, 0⟩)
  else if !isActive then
    some (s, false, ⟨false,
      if shouldSuppressInactiveTrap arch stop.info then 0 else stop.info.siSigno⟩)
  else (traceActive arch mode callback s stop).map fun next => (next.1, true, next.2)

end Trace

end HarnessTracer

end Silifuzz
