import Silifuzz.Common.Snapshot
import Silifuzz.Util.Checks

/-!
# Decoded x86 instructions

`instruction/decoded_insn.cc` and the predicates of `instruction/xed_util.cc`, over what
XED answers about an instruction.
-/

namespace Silifuzz

inductive Gpr where
  | rax | rcx | rdx | rbx | rsp | rbp | rsi | rdi
  | r8 | r9 | r10 | r11 | r12 | r13 | r14 | r15 | rip
  deriving DecidableEq, Repr

/-- `struct user_regs_struct`, as far as the tracer reads it. -/
structure UserRegs where
  gpr : Gpr → BitVec 64
  fsBase : BitVec 64
  gsBase : BitVec 64
  /-- `pc`, on AArch64. -/
  pc : BitVec 64

namespace Xed

inductive SegmentReg where
  | cs | ss | ds | es | fs | gs
  deriving DecidableEq, Repr

inductive RegWidth where
  | bits8 | bits16 | bits32 | bits64
  deriving DecidableEq, Repr

def RegWidth.bits : RegWidth → Nat
  | bits8 => 8
  | bits16 => 16
  | bits32 => 32
  | bits64 => 64

/-- `xed_reg_enum_t` -/
inductive Reg where
  /-- A register by its largest enclosing one, and its width. -/
  | gpr (widest : Gpr) (width : RegWidth)
  /-- `AH`, `CH`, `DH` and `BH` -/
  | highByte (widest : Gpr)
  | fsBase
  | gsBase
  | segment (reg : SegmentReg)
  /-- Of the classes `XMM`, `YMM` and `ZMM`. -/
  | avx (name : String)
  | other (name : String)
  deriving DecidableEq, Repr

/-- `xed_iclass_enum_t` -/
inductive Iclass where
  | RDPID | RDRAND | RDSEED | RDTSC | RDTSCP
  | CPUID | RDFSBASE | RDGSBASE | RDMSR | RDMSRLIST | RDPKRU | RDPMC | RDPRU | RDSSPD | RDSSPQ
  | WRFSBASE | WRGSBASE | WRMSR | WRMSRLIST | WRMSRNS | WRPKRU | WRSSD | WRSSQ | WRUSSD | WRUSSQ
  | XGETBV
  | SYSCALL | SYSCALL_AMD | SYSENTER | SYSEXIT | SYSRET | SYSRET64 | SYSRET_AMD | INT | INT1 | INTO
  | FNSAVE | FXSAVE | FXSAVE64 | XSAVE | XSAVE64 | XSAVEC | XSAVEC64 | XSAVEOPT | XSAVEOPT64
  | XSAVES | XSAVES64 | FLDENV | FLDCW | FNSTENV | FNSTSW | FXRSTOR | FRSTOR | FXRSTOR64
  | XRSTOR | XRSTORS | XRSTOR64
  | ARPL | LAR | LSL | SIDT | SGDT | SLDT | SMSW | STR | VERR | VERW
  | XBEGIN | XEND | XABORT | MWAIT | MWAITX | MONITOR | MONITORX | TPAUSE | UMWAIT | UMONITOR
  | ENTER
  | CLZERO | MOVBE | PALIGNR | VPALIGNR
  | BTC_LOCK | BTR_LOCK | BTS_LOCK
  | other (name : String)
  deriving DecidableEq, Repr

/-- `xed_iform_enum_t`, which tells the bit tests with a lock apart. -/
inductive Iform where
  /-- `BTC_LOCK_MEMv_GPRv` and the like. -/
  | lockMemvGprv
  /-- `BTC_LOCK_MEMv_IMMb` and the like. -/
  | lockMemvImmb
  | other (name : String)
  deriving DecidableEq, Repr

inductive Extension where
  | AMX_TILE
  | AVX512EVEX
  | other (name : String)
  deriving DecidableEq, Repr

/-- `XED_CATEGORY_IO`, `XED_CATEGORY_IOSTRINGOP` and the others. -/
inductive Category where
  | io
  | ioStringOp
  | other (name : String)
  deriving DecidableEq, Repr

inductive OperandAction where
  | R | CR | W | CW
  | other (name : String)
  deriving DecidableEq, Repr

/-- An operand, with its register if it is one of `REG0` to `REG9`. -/
structure Operand where
  reg : Option Reg
  action : OperandAction
  deriving DecidableEq, Repr

/-- What `xed_decoded_inst_t` and its `xed_inst_t` answer. -/
structure DecodedInst where
  iclass : Iclass
  iform : Iform
  nprefixes : Nat
  length : Nat
  /-- `XED_ATTRIBUTE_LOCKED` -/
  locked : Bool
  /-- The lengths of the memory operands. -/
  memoryOperands : List (BitVec 64)
  operandWidth : BitVec 64
  /-- The register of `XED_OPERAND_REG0`. -/
  reg0 : Reg
  immediateIsSigned : Bool
  unsignedImmediate : BitVec 64
  extension : Extension
  category : Category
  cpl : Nat
  operands : List Operand
  deriving DecidableEq, Repr

/-- A callback of `xed_agen`; none is its `error`. -/
abbrev Callback := Reg → Option (BitVec 64)

end Xed

open Xed

/-- The XED library, and the cache line size that `sysconf` reports. -/
structure XedInterface where
  /-- `xed_decode_with_features`, or its error. -/
  decode : ByteData → Except String DecodedInst
  /-- `xed_decoded_inst_valid` -/
  valid : DecodedInst → Bool
  /-- `xed_format_generic` at an address. -/
  format : DecodedInst → BitVec 64 → Option String
  /-- `xed_agen` for a memory operand. -/
  agen : DecodedInst → Nat → Callback → Callback → Except String (BitVec 64)
  iclassStr : Iclass → String
  iformStr : Iform → String
  regStr : Reg → String
  l1CacheLineSize : BitVec 64

namespace Xed.DecodedInst

variable (instruction : DecodedInst)

def instructionClassIsAllowedInRunner : Bool :=
  match instruction.iclass with
  | .RDPID | .RDRAND | .RDSEED | .RDTSC | .RDTSCP => false
  | .CPUID | .RDFSBASE | .RDGSBASE | .RDMSR | .RDMSRLIST | .RDPKRU | .RDPMC | .RDPRU | .RDSSPD
  | .RDSSPQ | .WRFSBASE | .WRGSBASE | .WRMSR | .WRMSRLIST | .WRMSRNS | .WRPKRU | .WRSSD | .WRSSQ
  | .WRUSSD | .WRUSSQ | .XGETBV => false
  | .SYSCALL | .SYSCALL_AMD | .SYSENTER | .SYSEXIT | .SYSRET | .SYSRET64 | .SYSRET_AMD | .INT
  | .INT1 | .INTO => false
  | .FNSAVE | .FXSAVE | .FXSAVE64 | .XSAVE | .XSAVE64 | .XSAVEC | .XSAVEC64 | .XSAVEOPT
  | .XSAVEOPT64 | .XSAVES | .XSAVES64 | .FLDENV | .FLDCW | .FNSTENV | .FNSTSW | .FXRSTOR | .FRSTOR
  | .FXRSTOR64 | .XRSTOR | .XRSTORS | .XRSTOR64 => false
  | .ARPL | .LAR | .LSL | .SIDT | .SGDT | .SLDT | .SMSW | .STR | .VERR | .VERW => false
  | .XBEGIN | .XEND | .XABORT | .MWAIT | .MWAITX | .MONITOR | .MONITORX | .TPAUSE | .UMWAIT
  | .UMONITOR => false
  | .ENTER => false
  | _ => true

def instructionExtensionIsAllowedInRunner : Bool := instruction.extension ≠ .AMX_TILE

def instructionCanRunInUserSpace : Bool := 3 ≤ instruction.cpl

def instructionRequiresIOPrivileges : Bool :=
  instruction.category = .io ∨ instruction.category = .ioStringOp

def instructionIsAllowedInRunner : Bool :=
  instruction.instructionClassIsAllowedInRunner &&
    instruction.instructionExtensionIsAllowedInRunner &&
    instruction.instructionCanRunInUserSpace && !instruction.instructionRequiresIOPrivileges

def instructionIsAVX512EVEX : Bool := instruction.extension = .AVX512EVEX

end Xed.DecodedInst

/-- A valid `DecodedInsn`. -/
structure DecodedInsn where
  xedInsn : DecodedInst
  debugString : String
  rawBytes : ByteData

namespace DecodedInsn

/-- The constructor; an error is the status of an instruction that is not valid. -/
def new (xed : XedInterface) (data : ByteData) (address : BitVec 64) : Except String DecodedInsn :=
  match xed.decode data with
  | .error message => .error message
  | .ok insn =>
    if !xed.valid insn then .error "!xed_decoded_inst_valid"
    else
      match xed.format insn address with
      | none => .error "!xed_format_generic, buffer too small?"
      | some text => .ok ⟨insn, text, data.take insn.length⟩

variable (insn : DecodedInsn)

def isAllowedInRunner : Bool :=
  if insn.xedInsn.iclass = .CLZERO ∧ 0 < insn.xedInsn.nprefixes then false
  else if insn.xedInsn.iclass = .MOVBE then false
  else if (insn.xedInsn.iclass = .PALIGNR ∨ insn.xedInsn.iclass = .VPALIGNR) ∧
      0 < insn.xedInsn.memoryOperands.length then false
  else insn.xedInsn.instructionIsAllowedInRunner

def isLocking : Bool := insn.xedInsn.locked

def mayAccessMemory : Bool := insn.xedInsn.memoryOperands.length ≠ 0

def length : Nat := insn.xedInsn.length

def mnemonic (xed : XedInterface) : String := xed.iclassStr insn.xedInsn.iclass

/-- The value of a register, zero-extended. XED has no register of width zero here. -/
def getReg (xed : XedInterface) (reg : Reg) (regs : UserRegs) : Checked (BitVec 64) :=
  match reg with
  | .fsBase => .ok regs.fsBase
  | .gsBase => .ok regs.gsBase
  | .gpr widest width => .ok (regs.gpr widest &&& (BitVec.allOnes 64 >>> (64 - width.bits)))
  | .highByte widest => .ok (regs.gpr widest >>> 8 &&& 0xff)
  | .segment _ | .avx _ | .other _ => .error (.status ("Invalid register " ++ xed.regStr reg))

def agenRegCallback (xed : XedInterface) (regs : UserRegs) (reg : Reg) : Option (BitVec 64) :=
  (getReg xed reg regs).toOption

/-- In 64-bit mode, all other segments are zero-based. -/
def agenSegmentCallback (xed : XedInterface) (regs : UserRegs) (reg : Reg) : Option (BitVec 64) :=
  match reg with
  | .segment .fs => agenRegCallback xed regs .fsBase
  | .segment .gs => agenRegCallback xed regs .gsBase
  | .segment _ => some 0
  | _ => none

def memoryOperandAddress (xed : XedInterface) (i : Nat) (regs : UserRegs) : Checked (BitVec 64) :=
  match xed.agen insn.xedInsn i (agenRegCallback xed regs) (agenSegmentCallback xed regs) with
  | .ok address => .ok address
  | .error message => .error (.status ("xed_agen: " ++ message))

/-- The bit offset of a bit test instruction with a lock. -/
def bitOffset (xed : XedInterface) (regs : UserRegs) : Checked (BitVec 64) :=
  match insn.xedInsn.iform with
  | .lockMemvGprv => getReg xed insn.xedInsn.reg0 regs
  | .lockMemvImmb =>
    if insn.xedInsn.immediateIsSigned then
      .error (.status ("Unexpected signed immediate in iform " ++
        xed.iformStr insn.xedInsn.iform))
    else .ok (insn.xedInsn.unsignedImmediate &&& (insn.xedInsn.operandWidth - 1))
  | iform => .error (.status ("Unexpected iform: " ++ xed.iformStr iform))

/-- The address that the instruction locks, of which a bit test chooses a part. -/
def lockedAddress (xed : XedInterface) (regs : UserRegs) : Checked (BitVec 64) := do
  let address ← insn.memoryOperandAddress xed 0 regs
  match insn.xedInsn.iclass with
  | .BTC_LOCK | .BTR_LOCK | .BTS_LOCK =>
    let bitOffset ← insn.bitOffset xed regs
    let size := insn.xedInsn.operandWidth
    return address + bitOffset / size * size / 8
  | _ => return address

def mayHaveSplitLock (xed : XedInterface) (regs : UserRegs) : Checked Bool :=
  if !insn.isLocking then .ok false
  else
    match insn.xedInsn.memoryOperands with
    | [operandSize] => do
      let address ← insn.lockedAddress xed regs
      let offset := address &&& (xed.l1CacheLineSize - 1)
      return xed.l1CacheLineSize < offset + operandSize
    | _ => .ok false

def readsStackPointer (operand : Operand) : Bool :=
  match operand.action, operand.reg with
  | .R, some (.gpr .rsp _) | .CR, some (.gpr .rsp _) => true
  | _, _ => false

def writesAvx (operand : Operand) : Bool :=
  match operand.action, operand.reg with
  | .W, some (.avx _) | .CW, some (.avx _) => true
  | _, _ => false

/-- Whether the EVEX prefix is non-canonical; none is a failed `CHECK`. -/
def evexIsNonCanonical : ByteData → Option Bool
  | [] => none
  | byte :: rest =>
    if byte = 0x62 then
      if rest.length < 4 then none else rest.head?.map fun second => second &&& 0x40 = 0
    else evexIsNonCanonical rest

def isNonCanonicalEvexSp : Option Bool :=
  if !insn.xedInsn.instructionIsAVX512EVEX then some false
  else if !(insn.xedInsn.operands.any readsStackPointer &&
      insn.xedInsn.operands.any writesAvx) then some false
  else evexIsNonCanonical insn.rawBytes

end DecodedInsn

/-- What `ptrace` reads of a tracee that is stopped. -/
abbrev TraceeMemory := BitVec 64 → Option (BitVec 8)

/-- The bytes from an address on, if all are mapped. -/
def readBytes (memory : TraceeMemory) : Nat → BitVec 64 → Option ByteData
  | 0, _ => some []
  | n + 1, addr => do
    let byte ← memory addr
    let rest ← readBytes memory n (addr + 1)
    return byte :: rest

/-- `PTRACE_PEEKTEXT` reads a word, or fails. -/
def peekText (memory : TraceeMemory) (addr : BitVec 64) : Option ByteData :=
  readBytes memory 8 addr

def kMaxX86InsnLength : Nat := 15

/-- `FetchInstruction`. Its error is only logged. -/
def DecodedInsn.fetchInstruction (memory : TraceeMemory) (addr : BitVec 64) :
    Option ByteData := do
  let first ← peekText memory addr
  let second ← peekText memory (addr + 8)
  return (first ++ second).take kMaxX86InsnLength

end Silifuzz
