import Silifuzz.Runner.Runner
import Silifuzz.Util.Ucontext.SimpleSerialize

/-!
# Where a snap ended

`EndSpot` of `runner/endspot.h` and `EndSpotToEndpoint` of `runner/x86_64/runner_util.cc`
and `runner/aarch64/runner_util.cc`. The registers are the bytes of their structs.
-/

namespace Silifuzz.RunnerUtil

open Serialize Runner

def SIGILL : Nat := 4
def SIGTRAP : Nat := 5
def SIGBUS : Nat := 7
def SIGFPE : Nat := 8
def SIGSEGV : Nat := 11

/-- `SignalRegSet` of an x86. -/
structure TrapRegSet where
  err : BitVec 64
  cr2 : BitVec 64
  trapno : BitVec 64
  deriving DecidableEq, Repr

/-- `ESR`, all of the `SignalRegSet` of an AArch64. -/
abbrev ESR := BitVec 64

def SignalRegSet : Architecture → Type
  | .kX86_64 => TrapRegSet
  | .kAArch64 => ESR

structure EndSpot (arch : Architecture) where
  signum : Nat
  sigAddress : BitVec 64
  sigregs : SignalRegSet arch
  gregs : ByteData
  fpregs : ByteData
  registerChecksum : RegisterChecksum
  gregs_size : gregs.length = gRegSetSize arch
  fpregs_size : fpregs.length = fpRegSetSize arch

/-- The constructor of an `Endpoint` for a signal. Its `DCHECK` stops a debug build. -/
def signalEndpoint (debug : Bool) (sigNum : SigNum) (sigCause : SigCause)
    (sigAddress sigInstructionAddress : Address) : Option Endpoint :=
  if debug && !((sigCause != .kGenericSigCause) == (sigNum == .kSigSegv)) then none
  else some (.kSignal sigNum sigCause sigAddress sigInstructionAddress)

namespace X86

def X86_TRAP_BP : BitVec 64 := 3
def X86_TRAP_OF : BitVec 64 := 4
def X86_TRAP_GP : BitVec 64 := 13
def X86_TRAP_PF : BitVec 64 := 14

def PF_WRITE_BIT : BitVec 64 := 2
def PF_USER_BIT : BitVec 64 := 4
def PF_INSTR_BIT : BitVec 64 := 16

def sigSegvCause (sigregs : TrapRegSet) : SigCause :=
  let regErrBits := sigregs.err &&& (PF_WRITE_BIT ||| PF_USER_BIT ||| PF_INSTR_BIT)
  if regErrBits = PF_INSTR_BIT ||| PF_USER_BIT then .kSegvCantExec
  else if regErrBits = PF_WRITE_BIT ||| PF_USER_BIT then .kSegvCantWrite
  else if regErrBits = PF_USER_BIT then .kSegvCantRead
  else .kGenericSigCause

/-- The cause of a `SIGSEGV`, where it has one. -/
def segvCause (sigregs : TrapRegSet) : Option SigCause :=
  if sigregs.trapno = X86_TRAP_PF then
    let cause := sigSegvCause sigregs
    if cause = .kGenericSigCause then none else some cause
  else if sigregs.trapno = X86_TRAP_GP then some .kSegvGeneralProtection
  else if sigregs.trapno = X86_TRAP_OF then some .kSegvOverflow
  else none

/-- `EndSpotToEndpoint`: `some none` is the `nullopt`, none a failed check. -/
def endSpotToEndpoint (debug : Bool) (actualEndspot : EndSpot .kX86_64) :
    Option (Option Endpoint) :=
  let pc := instructionPointer .kX86_64 actualEndspot.gregs
  let sigregs : TrapRegSet := actualEndspot.sigregs
  let sigAddress := actualEndspot.sigAddress.toNat
  if actualEndspot.signum = 0 then some (some (.kInstruction pc))
  else if actualEndspot.signum = SIGTRAP then
    if sigregs.err ≠ 0 then none
    else if sigregs.trapno = X86_TRAP_BP then
      -- The insn after the trap is at `pc`, and the trap has one byte.
      (signalEndpoint debug .kSigTrap .kGenericSigCause sigAddress
        ((pc + (2 ^ 64 - 1)) % 2 ^ 64)).map some
    else some none
  else if actualEndspot.signum = SIGSEGV then
    match segvCause sigregs with
    | some cause => (signalEndpoint debug .kSigSegv cause sigAddress pc).map some
    | none => some none
  else if actualEndspot.signum = SIGFPE then
    (signalEndpoint debug .kSigFPE .kGenericSigCause sigAddress pc).map some
  else if actualEndspot.signum = SIGILL then
    (signalEndpoint debug .kSigIll .kGenericSigCause sigAddress pc).map some
  else if actualEndspot.signum = SIGBUS then
    (signalEndpoint debug .kSigBus .kGenericSigCause sigAddress pc).map some
  else if actualEndspot.signum = SIGXCPU ∨ actualEndspot.signum = SIGALRM then
    some (some (.kInstruction pc))
  else some none

end X86

namespace ESR

def exceptionClass (esr : ESR) : Nat := (esr.toNat / 2 ^ 26) % 64

/-- Of any level, that is, but for the last bit. -/
def isInstructionAbort (esr : ESR) : Bool := exceptionClass esr / 2 == 0b10000

def isDataAbort (esr : ESR) : Bool := exceptionClass esr / 2 == 0b10010

/-- Of the syndrome of a data abort. -/
def writeNotRead (esr : ESR) : Bool := esr.getLsbD 6

end ESR

namespace AArch64

def sigSegvCause (esr : ESR) : SigCause :=
  if ESR.isDataAbort esr then
    if ESR.writeNotRead esr then .kSegvCantWrite else .kSegvCantRead
  else if ESR.isInstructionAbort esr then .kSegvCantExec
  else .kGenericSigCause

def endSpotToEndpoint (debug : Bool) (actualEndspot : EndSpot .kAArch64) :
    Option (Option Endpoint) :=
  let pc := instructionPointer .kAArch64 actualEndspot.gregs
  let sigAddress := actualEndspot.sigAddress.toNat
  if actualEndspot.signum = 0 then some (some (.kInstruction pc))
  else if actualEndspot.signum = SIGTRAP then
    (signalEndpoint debug .kSigTrap .kGenericSigCause sigAddress pc).map some
  else if actualEndspot.signum = SIGSEGV then
    (signalEndpoint debug .kSigSegv (sigSegvCause actualEndspot.sigregs) sigAddress pc).map some
  else if actualEndspot.signum = SIGFPE then
    (signalEndpoint debug .kSigFPE .kGenericSigCause sigAddress pc).map some
  else if actualEndspot.signum = SIGILL then
    (signalEndpoint debug .kSigIll .kGenericSigCause sigAddress pc).map some
  else if actualEndspot.signum = SIGBUS then
    (signalEndpoint debug .kSigBus .kGenericSigCause sigAddress pc).map some
  else if actualEndspot.signum = SIGXCPU ∨ actualEndspot.signum = SIGALRM then
    some (some (.kInstruction pc))
  else some none

end AArch64

/-- `EndSpotToEndpoint` of the host. -/
def endSpotToEndpoint (debug : Bool) : {arch : Architecture} → EndSpot arch →
    Option (Option Endpoint)
  | .kX86_64, actualEndspot => X86.endSpotToEndpoint debug actualEndspot
  | .kAArch64, actualEndspot => AArch64.endSpotToEndpoint debug actualEndspot

/-- The addresses of an endpoint are those of a 64-bit machine. -/
def AddressesFit : Endpoint → Prop
  | .kInstruction instructionAddress => instructionAddress < 2 ^ 64
  | .kSignal _ _ sigAddress sigInstructionAddress =>
    sigAddress < 2 ^ 64 ∧ sigInstructionAddress < 2 ^ 64

theorem instructionPointer_lt (arch : Architecture) (gregs : ByteData) :
    instructionPointer arch gregs < 2 ^ 64 := by
  have bound (offset : Nat) : register gregs offset < 2 ^ 64 := by
    have decoded := LittleEndian.decode_lt ((gregs.drop offset).take 8)
    have size : ((gregs.drop offset).take 8).length ≤ 8 := List.length_take_le _ _
    calc register gregs offset < 256 ^ ((gregs.drop offset).take 8).length := decoded
      _ ≤ 256 ^ 8 := Nat.pow_le_pow_right (by decide) size
      _ = 2 ^ 64 := by decide
  cases arch
  · exact bound 128
  · exact bound 256

theorem signalEndpoint_fits {debug : Bool} {sigNum : SigNum} {sigCause : SigCause}
    {sigAddress sigInstructionAddress : Address} {endpoint : Endpoint}
    (made : (signalEndpoint debug sigNum sigCause sigAddress sigInstructionAddress).map some =
      some (some endpoint)) (address : sigAddress < 2 ^ 64)
    (instruction : sigInstructionAddress < 2 ^ 64) : AddressesFit endpoint := by
  rw [signalEndpoint] at made
  split at made
  · cases made
  · cases made
    exact ⟨address, instruction⟩

theorem endSpotToEndpoint_fits {arch : Architecture} {debug : Bool} {actualEndspot : EndSpot arch}
    {endpoint : Endpoint} (ends : endSpotToEndpoint debug actualEndspot = some (some endpoint)) :
    AddressesFit endpoint := by
  have address := actualEndspot.sigAddress.isLt
  have pc := instructionPointer_lt arch actualEndspot.gregs
  cases arch with
  | kX86_64 =>
    simp only [endSpotToEndpoint, X86.endSpotToEndpoint] at ends
    split at ends
    · cases ends
      exact pc
    split at ends
    · split at ends
      · cases ends
      split at ends
      · exact signalEndpoint_fits ends address (Nat.mod_lt _ (by decide))
      · cases ends
    split at ends
    · split at ends
      · exact signalEndpoint_fits ends address pc
      · cases ends
    split at ends
    · exact signalEndpoint_fits ends address pc
    split at ends
    · exact signalEndpoint_fits ends address pc
    split at ends
    · exact signalEndpoint_fits ends address pc
    split at ends
    · cases ends
      exact pc
    · cases ends
  | kAArch64 =>
    simp only [endSpotToEndpoint, AArch64.endSpotToEndpoint] at ends
    split at ends
    · cases ends
      exact pc
    split at ends
    · exact signalEndpoint_fits ends address pc
    split at ends
    · exact signalEndpoint_fits ends address pc
    split at ends
    · exact signalEndpoint_fits ends address pc
    split at ends
    · exact signalEndpoint_fits ends address pc
    split at ends
    · exact signalEndpoint_fits ends address pc
    split at ends
    · cases ends
      exact pc
    · cases ends

end Silifuzz.RunnerUtil
