import Silifuzz.Library.LittleEndian
import Silifuzz.Util.BitMatcher

/-!
# The static instruction filter

The rules of `instruction/static_insn_filter.cc` for AArch64: banned instructions,
bits that instructions must have, and the system registers that tests may use.
-/

namespace Silifuzz

open LittleEndian

/-- In the order of the source, which gives the reason of each rule. -/
def kBannedInstructions : List (BitMatcher 32) := [
  ⟨0b0011_1111_1100_0000_0000_0000_0000_0000,
    0b0000_1000_0000_0000_0000_0000_0000_0000⟩,
  ⟨0b0011_1011_0010_0000_0000_0100_0000_0000,
    0b0011_1000_0010_0000_0000_0100_0000_0000⟩,
  ⟨0b1111_1110_0000_0000_0000_1000_0000_0000,
    0b1101_0110_0000_0000_0000_1000_0000_0000⟩,
  ⟨0b1111_1111_1111_1111_1111_1101_0001_1111,
    0b1101_0101_0000_0011_0010_0001_0001_1111⟩,
  ⟨0b1111_1111_1111_1111_0000_0000_0000_0000,
    0b1101_1010_1100_0001_0000_0000_0000_0000⟩,
  ⟨0b1111_1111_1110_0000_1111_1100_0000_0000,
    0b1001_1010_1100_0000_0011_0000_0000_0000⟩,
  ⟨0b1111_1111_1111_1111_1111_1111_1111_1111,
    0b1101_0101_0000_0011_0010_0000_0101_1111⟩,
  ⟨0b1111_1111_1111_1111_1111_1111_1111_1111,
    0b1101_0101_0000_0011_0010_0000_0111_1111⟩,
  ⟨0b1111_1111_1111_1111_1111_0000_0000_0000,
    0b1101_0101_0000_0011_0001_0000_0000_0000⟩,
  ⟨0b1001_1110_0000_0000_0000_0000_0000_0000,
    0b0000_0000_0000_0000_0000_0000_0000_0000⟩,
  ⟨0b0001_1110_0000_0000_0000_0000_0000_0000,
    0b0000_0010_0000_0000_0000_0000_0000_0000⟩,
  ⟨0b0001_1110_0000_0000_0000_0000_0000_0000,
    0b0000_0110_0000_0000_0000_0000_0000_0000⟩,
  ⟨0b0011_1111_0010_0000_1110_1100_0000_0000,
    0b0011_1000_0010_0000_1110_0000_0000_0000⟩,
  ⟨0b0011_1111_1010_0000_1111_1100_0000_0000,
    0b0011_1000_0010_0000_1100_0000_0000_0000⟩,
  ⟨0b0011_1111_0010_0000_0000_1100_0000_0000,
    0b0011_1100_0010_0000_0000_0000_0000_0000⟩,
  ⟨0b1111_1110_0001_0000_1110_0000_0000_0000,
    0b1010_0100_0001_0000_1010_0000_0000_0000⟩,
  ⟨0b1111_1111_1010_0000_1010_0000_0000_0000,
    0b1000_0100_1010_0000_0010_0000_0000_0000⟩,
  ⟨0b1111_1111_1010_0000_1010_0000_0000_0000,
    0b1000_0101_0010_0000_0010_0000_0000_0000⟩,
  ⟨0b1111_1111_1010_0000_1010_0000_0000_0000,
    0b1000_0100_0000_0000_0010_0000_0000_0000⟩,
  ⟨0b1111_1111_1010_0000_1010_0000_0000_0000,
    0b1000_0100_1000_0000_0010_0000_0000_0000⟩,
  ⟨0b1111_1111_1010_0000_1010_0000_0000_0000,
    0b1000_0101_0000_0000_0010_0000_0000_0000⟩,
  ⟨0b1111_1111_1110_0000_1010_0000_0000_0000,
    0b1000_0100_0010_0000_1010_0000_0000_0000⟩,
  ⟨0b1111_1111_1110_0000_1010_0000_0000_0000,
    0b1000_0100_1010_0000_1010_0000_0000_0000⟩,
  ⟨0b1111_1111_1110_0000_1010_0000_0000_0000,
    0b1000_0101_0010_0000_1010_0000_0000_0000⟩,
  ⟨0b1111_1110_0000_0000_1110_0000_0000_0000,
    0b1010_0100_0000_0000_0110_0000_0000_0000⟩,
  ⟨0b1111_1111_1110_0000_1010_0000_0000_0000,
    0b1100_0100_1110_0000_1010_0000_0000_0000⟩,
  ⟨0b1111_1111_1110_0000_1010_0000_0000_0000,
    0b1100_0101_0110_0000_1010_0000_0000_0000⟩,
  ⟨0b1111_1111_1110_0000_1010_0000_0000_0000,
    0b1100_0101_1110_0000_1010_0000_0000_0000⟩,
  ⟨0b1111_1111_1010_0000_1010_0000_0000_0000,
    0b1100_0100_1010_0000_0010_0000_0000_0000⟩,
  ⟨0b1111_1111_1010_0000_1010_0000_0000_0000,
    0b1100_0101_0010_0000_0010_0000_0000_0000⟩,
  ⟨0b1111_1111_1010_0000_1010_0000_0000_0000,
    0b1100_0101_1010_0000_0010_0000_0000_0000⟩,
  ⟨0b1111_1110_0110_0000_1010_0000_0000_0000,
    0b1100_0100_0010_0000_1010_0000_0000_0000⟩,
  ⟨0b1111_1110_0110_0000_1010_0000_0000_0000,
    0b1100_0100_0100_0000_1010_0000_0000_0000⟩,
  ⟨0b1111_1110_0010_0000_1010_0000_0000_0000,
    0b1100_0100_0000_0000_0010_0000_0000_0000⟩]

def kRequiredInstructionBits : List (RequiredBits 32) := [
  ⟨⟨0b1111_1111_0000_0000_0000_0000_0000_0000,
    0b1101_0101_0000_0000_0000_0000_0000_0000⟩,
   ⟨0b0000_0000_1100_0000_0000_0000_0000_0000,
    0b0000_0000_0000_0000_0000_0000_0000_0000⟩⟩,
  ⟨⟨0b1011_1111_0000_0000_0000_0000_0000_0000,
    0b0000_1100_0000_0000_0000_0000_0000_0000⟩,
   ⟨0b0000_0000_0010_0000_0000_0000_0000_0000,
    0b0000_0000_0000_0000_0000_0000_0000_0000⟩⟩,
  ⟨⟨0b1011_1110_1000_0000_0000_0000_0000_0000,
    0b0000_1100_0000_0000_0000_0000_0000_0000⟩,
   ⟨0b0000_0000_0001_1111_0000_0000_0000_0000,
    0b0000_0000_0000_0000_0000_0000_0000_0000⟩⟩,
  ⟨⟨0b1011_1010_0000_0000_0000_0000_0000_0000,
    0b1000_1000_0000_0000_0000_0000_0000_0000⟩,
   ⟨0b0000_0100_0000_0000_0000_0000_0000_0000,
    0b0000_0000_0000_0000_0000_0000_0000_0000⟩⟩,
  ⟨⟨0b0011_1111_1010_0000_0000_0000_0000_0000,
    0b0000_1000_1010_0000_0000_0000_0000_0000⟩,
   ⟨0b0000_0000_0000_0000_0111_1100_0000_0000,
    0b0000_0000_0000_0000_0111_1100_0000_0000⟩⟩,
  ⟨⟨0b0101_1111_1110_0000_0000_0000_0000_0000,
    0b0101_1010_1100_0000_0000_0000_0000_0000⟩,
   ⟨0b0010_0000_0001_1110_1000_0000_0000_0000,
    0b0000_0000_0000_0000_0000_0000_0000_0000⟩⟩,
  ⟨⟨0b0111_1111_1111_1111_0000_0000_0000_0000,
    0b0101_1010_1100_0000_0000_0000_0000_0000⟩,
   ⟨0b0000_0000_0000_0000_0110_0000_0000_0000,
    0b0000_0000_0000_0000_0000_0000_0000_0000⟩⟩,
  ⟨⟨0b0001_1111_0010_0000_0000_0000_0000_0000,
    0b0000_1011_0010_0000_0000_0000_0000_0000⟩,
   ⟨0b0000_0000_1100_0000_0000_0000_0000_0000,
    0b0000_0000_0000_0000_0000_0000_0000_0000⟩⟩,
  ⟨⟨0b0101_1111_0010_0000_0000_1100_0000_0000,
    0b0001_1110_0010_0000_0000_1000_0000_0000⟩,
   ⟨0b1010_0000_0000_0000_0000_0000_0000_0000,
    0b0000_0000_0000_0000_0000_0000_0000_0000⟩⟩,
  ⟨⟨0b0101_1111_0000_0000_0000_0000_0000_0000,
    0b0001_1111_0000_0000_0000_0000_0000_0000⟩,
   ⟨0b1010_0000_0000_0000_0000_0000_0000_0000,
    0b0000_0000_0000_0000_0000_0000_0000_0000⟩⟩,
  ⟨⟨0b0101_1111_0010_0000_0001_1100_0000_0000,
    0b0001_1110_0010_0000_0001_0000_0000_0000⟩,
   ⟨0b1010_0000_0000_0000_0000_0011_1110_0000,
    0b0000_0000_0000_0000_0000_0000_0000_0000⟩⟩]

def kSVEInstruction : BitMatcher 32 :=
  ⟨0b0001_1110_0000_0000_0000_0000_0000_0000,
    0b0000_0100_0000_0000_0000_0000_0000_0000⟩

def kScalarFpAndAdvancedSIMDInstruction : BitMatcher 32 :=
  ⟨0b0000_1110_0000_0000_0000_0000_0000_0000,
    0b0000_1110_0000_0000_0000_0000_0000_0000⟩

def kSysregInstruction : BitMatcher 32 :=
  ⟨0b1111_1111_1101_0000_0000_0000_0000_0000,
    0b1101_0101_0001_0000_0000_0000_0000_0000⟩

def kSystemInstruction : BitMatcher 32 :=
  ⟨0b1111_1111_1101_1000_0000_0000_0000_0000,
    0b1101_0101_0000_1000_0000_0000_0000_0000⟩

def kLoadStoreInstruction : BitMatcher 32 :=
  ⟨0b0000_1010_0000_0000_0000_0000_0000_0000,
    0b0000_1000_0000_0000_0000_0000_0000_0000⟩

def kFpSimdLoadStoreInstruction : BitMatcher 32 :=
  ⟨0b0000_1110_0000_0000_0000_0000_0000_0000,
    0b0000_1100_0000_0000_0000_0000_0000_0000⟩

def kSVEMemoryOperationInstruction : BitMatcher 32 :=
  ⟨0b1001_1110_0000_0000_0000_0000_0000_0000,
    0b1000_0100_0000_0000_0000_0000_0000_0000⟩

def kSMEMemoryOperationInstruction : BitMatcher 32 :=
  ⟨0b1111_1110_0000_0000_0000_0000_0000_0000,
    0b1110_0000_0000_0000_0000_0000_0000_0000⟩

def kBranchToRegisterInstructions : BitMatcher 32 :=
  ⟨0b1111_1110_0000_0000_0000_0000_0000_0000,
    0b1101_0110_0000_0000_0000_0000_0000_0000⟩

structure InstructionFilterConfig where
  sveInstructionsAllowed : Bool := true
  loadStoreInstructionsAllowed : Bool := true
  indirectBranchesAllowed : Bool := true
  scalarFpAndAdvancedSimdAllowed : Bool := true

def isLoadStoreInsn (insn : BitVec 32) : Bool :=
  kLoadStoreInstruction.isMatch insn || kSMEMemoryOperationInstruction.isMatch insn ||
    kSVEMemoryOperationInstruction.isMatch insn

def isIndirectBranchInsn (insn : BitVec 32) : Bool := kBranchToRegisterInstructions.isMatch insn

def isSystemInsn (insn : BitVec 32) : Bool := kSystemInstruction.isMatch insn

def sysreg (op0 op1 crn crm op2 : BitVec 32) : BitVec 32 :=
  op0 <<< 19 ||| op1 <<< 16 ||| crn <<< 12 ||| crm <<< 8 ||| op2 <<< 5

def kSysregMask : BitVec 32 := sysreg 0b11 0b111 0b1111 0b1111 0b111

/-- NZCV, FPCR, FPSR, TPIDR_EL0 and TPIDRRO_EL0. -/
def kAllowedSysregs : List (BitVec 32) := [
  sysreg 0b11 0b011 0b0100 0b0010 0b000,
  sysreg 0b11 0b011 0b0100 0b0100 0b000,
  sysreg 0b11 0b011 0b0100 0b0100 0b001,
  sysreg 0b11 0b011 0b1101 0b0000 0b010,
  sysreg 0b11 0b011 0b1101 0b0000 0b011]

def instructionIsOK (insn : BitVec 32) (config : InstructionFilterConfig) : Bool :=
  if kBannedInstructions.any (·.isMatch insn) then false
  else if !config.loadStoreInstructionsAllowed && isLoadStoreInsn insn then false
  else if !config.sveInstructionsAllowed && kSVEInstruction.isMatch insn then false
  else if !config.scalarFpAndAdvancedSimdAllowed &&
      (kScalarFpAndAdvancedSIMDInstruction.isMatch insn ||
        kFpSimdLoadStoreInstruction.isMatch insn) then false
  else if !config.indirectBranchesAllowed && isIndirectBranchInsn insn then false
  else if kRequiredInstructionBits.any (·.violatesRequirements insn) then false
  else if kSysregInstruction.isMatch insn then
    kAllowedSysregs.any fun sysreg => insn &&& kSysregMask == sysreg
  else if isSystemInsn insn then false
  else true

/-- The instruction words of `code`, which are little-endian. -/
def insnWords : Bytes → List (BitVec 32)
  | b0 :: b1 :: b2 :: b3 :: rest => BitVec.ofNat 32 (decode [b0, b1, b2, b3]) :: insnWords rest
  | _ => []

def staticInstructionFilter (code : Bytes) (config : InstructionFilterConfig := {}) : Bool :=
  if code.length % 4 ≠ 0 then false else (insnWords code).all (instructionIsOK · config)

end Silifuzz
