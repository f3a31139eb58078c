import Silifuzz.Common.Snapshot
import Silifuzz.Library.LittleEndian

/-!
# Serialized registers

The byte strings in which a snapshot keeps its registers
(`util/ucontext/serialize.h` and the `simple_serialize.h` it is built on), and those
of a register checksum (`util/reg_checksum.cc`): a header, then the struct as it lies
in memory.
-/

namespace Silifuzz

open LittleEndian

namespace Serialize

def kHeaderSize : Nat := 8

/-- `SimpleDeserialize`: the number of bytes read and the struct of `size` bytes;
`none` is -1. -/
def simpleDeserialize (expectedMagic size : Nat) (src : ByteData) : Option (Nat × ByteData) :=
  if src.length < kHeaderSize then none
  else if decode (src.take 2) ≠ expectedMagic then none
  else if decode ((src.drop 2).take 2) ≠ 0 then none
  else if src.length - kHeaderSize < size then none
  else some (kHeaderSize + size, (src.drop kHeaderSize).take size)

/-- `MayBeSimpleSerialized`. -/
def mayBeSimpleSerialized (expectedMagic size : Nat) (src : ByteData) : Bool :=
  if src.length < kHeaderSize then false
  else if decode (src.take 2) ≠ expectedMagic then false
  else if decode ((src.drop 2).take 2) ≠ 0 then false
  else if src.length - kHeaderSize < size then false
  else true

def gRegsMagic : Architecture → Nat
  | .kX86_64 => 0x6769
  | .kAArch64 => 0x6761

def fpRegsMagic : Architecture → Nat
  | .kX86_64 => 0x6669
  | .kAArch64 => 0x6661

/-- `sizeof(GRegSet<Arch>)`. -/
def gRegSetSize : Architecture → Nat
  | .kX86_64 => 176
  | .kAArch64 => 288

/-- `sizeof(FPRegSet<Arch>)`. -/
def fpRegSetSize : Architecture → Nat
  | .kX86_64 => 512
  | .kAArch64 => 528

theorem zero_fpregs_size :
    (List.replicate 512 (0 : BitVec 8)).length = fpRegSetSize .kX86_64 := List.length_replicate

/-- `DeserializeGRegs`: all of the bytes have to be consumed. -/
def deserializeGRegs (arch : Architecture) (src : ByteData) : Option ByteData := do
  let (consumed, gregs) ← simpleDeserialize (gRegsMagic arch) (gRegSetSize arch) src
  guard (consumed = src.length)
  return gregs

def deserializeFPRegs (arch : Architecture) (src : ByteData) : Option ByteData := do
  let (consumed, fpregs) ← simpleDeserialize (fpRegsMagic arch) (fpRegSetSize arch) src
  guard (consumed = src.length)
  return fpregs

def mayBeSerializedGRegs (arch : Architecture) (src : ByteData) : Bool :=
  mayBeSimpleSerialized (gRegsMagic arch) (gRegSetSize arch) src

def mayBeSerializedFPRegs (arch : Architecture) (src : ByteData) : Bool :=
  mayBeSimpleSerialized (fpRegsMagic arch) (fpRegSetSize arch) src

/-- A `uint64_t` field of a register set, from its offset. -/
def register (regs : ByteData) (offset : Nat) : Nat := decode ((regs.drop offset).take 8)

/-- `GetInstructionPointer`: `rip` or `pc`. -/
def instructionPointer (arch : Architecture) (gregs : ByteData) : Address :=
  match arch with
  | .kX86_64 => register gregs 128
  | .kAArch64 => register gregs 256

/-- `GetStackPointer`: `rsp` or `sp`. -/
def stackPointer (arch : Architecture) (gregs : ByteData) : Address :=
  match arch with
  | .kX86_64 => register gregs 120
  | .kAArch64 => register gregs 248

theorem simpleDeserialize_isSome (magic size : Nat) (src : ByteData) :
    (simpleDeserialize magic size src).isSome = mayBeSimpleSerialized magic size src := by
  unfold simpleDeserialize mayBeSimpleSerialized
  split_ifs <;> rfl

/-- What deserializes may be serialized registers. -/
theorem mayBeSerializedGRegs_of_some {arch : Architecture} {src gregs : ByteData}
    (h : deserializeGRegs arch src = some gregs) : mayBeSerializedGRegs arch src = true := by
  obtain ⟨read, some, _⟩ := Option.bind_eq_some_iff.mp h
  rw [mayBeSerializedGRegs, ← simpleDeserialize_isSome, some, Option.isSome_some]

theorem mayBeSerializedFPRegs_of_some {arch : Architecture} {src fpregs : ByteData}
    (h : deserializeFPRegs arch src = some fpregs) : mayBeSerializedFPRegs arch src = true := by
  obtain ⟨read, some, _⟩ := Option.bind_eq_some_iff.mp h
  rw [mayBeSerializedFPRegs, ← simpleDeserialize_isSome, some, Option.isSome_some]

end Serialize

/-- The `ArchitectureId` in the header of a register checksum. -/
def Architecture.toInt : Architecture → Nat
  | .kX86_64 => 1
  | .kAArch64 => 2

/-- `IsValidRegisterChecksumForArch`: empty, or a header `RC` with the architecture and
version 0, and two numbers. Bytes after these are not looked at. -/
def isValidRegisterChecksumForArch (arch : Architecture) (data : ByteData) : Bool :=
  data.isEmpty ||
    (!decide (data.length < 24) && decide (data.take 2 = [0x52, 0x43]) &&
      decide ((data.getD 2 0).toNat = arch.toInt) && decide (data.getD 3 0 = 0))

end Silifuzz
