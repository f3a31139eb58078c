import Silifuzz.Common.SnapshotUtil
import Silifuzz.Instruction.StaticInsnFilter

/-!
# Snapshots of raw instructions

`InstructionsToSnapshot` of `common/raw_insns_util.cc`: a page of code, padded with traps,
a stack below the stack pointer, the registers, and an end state where the code ends.
-/

namespace Silifuzz

open Checked Serialize

/-- The register sets of a context, as they lie in memory. -/
structure UContext (arch : Architecture) where
  gregs : ByteData
  fpregs : ByteData
  gregsSize : gregs.length = gRegSetSize arch
  fpregsSize : fpregs.length = fpRegSetSize arch

structure MemoryRange where
  startAddress : BitVec 64
  numBytes : BitVec 64

/-- What `InstructionsToSnapshot` reads of a `FuzzingConfig`; both parts are in that of
AArch64 only. -/
structure FuzzingConfig where
  stackRange : MemoryRange
  instructionFilter : InstructionFilterConfig

namespace RawInsns

/-- `kPageSize` -/
def kPageSize : Nat := 4096

/-- `kSnapExitAddress` -/
def kSnapExitAddress : Address := 0xabcd0000

/-- `StackSize`. On x86 the stack is the first page of the data. -/
def stackSize (arch : Architecture) (config : FuzzingConfig) : Nat :=
  match arch with
  | .kX86_64 => kPageSize
  | .kAArch64 => config.stackRange.numBytes.toNat

/-- `ExitSequenceSize`, which for x86 is not the size of its exit sequence. -/
def exitSequenceSize : Architecture → Nat
  | .kX86_64 => 32
  | .kAArch64 => 12

/-- `StaticInstructionFilter` of the architecture. -/
def filter (arch : Architecture) (code : ByteData) (config : InstructionFilterConfig) : Bool :=
  match arch with
  | .kX86_64 => true
  | .kAArch64 => staticInstructionFilter code config

def isPageAligned (value : Nat) : Bool := value % kPageSize == 0

/-- `PadToSizeWithTraps` of `util/arch_mem.cc`. -/
def padToSizeWithTraps (arch : Architecture) (code : ByteData) (targetSize : Nat) :
    Checked ByteData :=
  if targetSize < code.length then .error .abort
  else match arch with
    | .kX86_64 => .ok (code ++ List.replicate (targetSize - code.length) 0xcc)
    | .kAArch64 =>
      if code.length % 4 ≠ 0 ∨ targetSize % 4 ≠ 0 then .error .abort
      else .ok (code ++ List.replicate (targetSize - code.length) 0)

/-- `DCHECK_STATUS`. -/
def dcheckStatus (debug : Bool) (status : Checked Unit) : Checked Unit :=
  match debug, status with
  | true, .error _ => .error .abort
  | _, _ => .ok ()

end RawInsns

namespace Snapshot

open RawInsns

/-! The mutators with what a debug build checks first. -/

def checkedAddMemoryMapping (debug : Bool) (s : Snapshot) (x : MemoryMapping) :
    Checked Snapshot := do
  dcheckStatus debug (ofStatus (s.canAddMemoryMapping x))
  let memory ← orAbort (s.addMemoryMapping x)
  return { s with toSnapshotMemory := memory }

def checkedAddMemoryBytes (debug : Bool) (s : Snapshot) (x : MemoryBytes) : Checked Snapshot := do
  dcheckStatus debug (ofStatus (s.canAddMemoryBytes x))
  let memory ← orAbort (s.addMemoryBytes x)
  return { s with toSnapshotMemory := memory }

def checkedSetRegisters (debug : Bool) (s : Snapshot) (x : RegisterState) : Checked Snapshot := do
  let set ← s.setRegisters x
  dcheckStatus debug (s.canSetRegisters x false)
  return set

def checkedAddExpectedEndState (debug : Bool) (s : Snapshot) (x : EndState) :
    Checked Snapshot := do
  dcheckStatus debug (s.canAddExpectedEndState x false false)
  return s.addExpectedEndState x

end Snapshot

open RawInsns in
/-- `InstructionsToSnapshot`. Addresses are of 64 bits. -/
def instructionsToSnapshot (debug : Bool) (arch : Architecture) (code : ByteData)
    (uctx : UContext arch) (config : FuzzingConfig) : Checked Snapshot := do
  ensure (filter arch code config.instructionFilter)
    "code snippet contains problematic instructions."
  ensure (code.length ≤ kPageSize - exitSequenceSize arch)
    "code snippet + the exit sequence must fit into a single page."
  let codeStartAddr := instructionPointer arch uctx.gregs
  let codeEndAddr := (codeStartAddr + code.length) % 2 ^ 64
  ensure (isPageAligned codeStartAddr) "initial instruction point is not page aligned."
  ensure (codeStartAddr != kSnapExitAddress)
    "derived code address collides with exit sequence address."
  let snapshot := Snapshot.new arch unsetId
  MemoryMapping.checkSized codeStartAddr kPageSize
  let codePageMapping ← orAbort (MemoryMapping.makeSized codeStartAddr kPageSize .xr)
  let snapshot ← snapshot.checkedAddMemoryMapping debug codePageMapping
  let codeWithTraps ← padToSizeWithTraps arch code kPageSize
  let codeBytes ← orAbort (MemoryBytes.make codeStartAddr codeWithTraps)
  let snapshot ← snapshot.checkedAddMemoryBytes debug codeBytes
  let stackPointer := stackPointer arch uctx.gregs
  ensure (isPageAligned stackPointer) "stack pointer is not page aligned."
  let stackSize := stackSize arch config
  let stackStart := (stackPointer + 2 ^ 64 - stackSize) % 2 ^ 64
  MemoryMapping.checkSized stackStart stackSize
  let dataPageMapping ← orAbort (MemoryMapping.makeSized stackStart stackSize .rw)
  let snapshot ← snapshot.checkedAddMemoryMapping debug dataPageMapping
  let snapshot ← snapshot.checkedSetRegisters debug
    (convertRegsToSnapshot arch uctx.gregs uctx.fpregs)
  snapshot.checkedAddExpectedEndState debug (.new (.kInstruction codeEndAddr) ⟨[], []⟩)

end Silifuzz
