import Silifuzz.Library.Images
import Silifuzz.Util.Ucontext.SimpleSerialize

/-!
# Snap

`snap/snap.h`: the structs of a corpus as they lie in memory, by their sizes and alignments and
the offsets of their fields, and as what a program reads there. An architecture only changes the
register sets.
-/

namespace Silifuzz

/-- `sizeof` and `alignof`. -/
structure CType where
  size : Nat
  align : Nat

namespace CType

def char : CType := ⟨1, 1⟩

def uint8 : CType := ⟨1, 1⟩

/-- `const Snap<Arch>*` -/
def snapPointer : CType := ⟨8, 8⟩

def snapMemoryBytes : CType := ⟨32, 8⟩

def snapMemoryMapping : CType := ⟨40, 8⟩

/-- `Snap<Arch>::RegisterState`: `fpregs`, `gregs`. -/
def registerState : CType := ⟨16, 8⟩

def snap : CType := ⟨112, 8⟩

def snapCorpusHeader : CType := ⟨40, 8⟩

def snapCorpus : CType := ⟨56, 8⟩

def gRegSet (arch : Architecture) : CType := ⟨Serialize.gRegSetSize arch, 8⟩

def fpRegSet (arch : Architecture) : CType := ⟨Serialize.fpRegSetSize arch, 16⟩

end CType

/-! ## `offsetof` -/

namespace Offset

namespace SnapArray

def size : Nat := 0

def elements : Nat := 8

end SnapArray

namespace SnapMemoryBytes

def startAddress : Nat := 0

def flags : Nat := 8

/-- `data.byte_values` -/
def byteValues : Nat := 16

/-- `data.byte_run.value` -/
def byteRunValue : Nat := 16

/-- `data.byte_run.size` -/
def byteRunSize : Nat := 24

def kRepeating : Nat := 1

end SnapMemoryBytes

namespace SnapMemoryMapping

def startAddress : Nat := 0

def numBytes : Nat := 8

def perms : Nat := 16

def memoryChecksum : Nat := 20

def memoryBytes : Nat := 24

end SnapMemoryMapping

namespace RegisterState

def fpregs : Nat := 0

def gregs : Nat := 8

end RegisterState

namespace Snap

def id : Nat := 0

def memoryMappings : Nat := 8

def registers : Nat := 24

def endStateInstructionAddress : Nat := 40

def endStateRegisters : Nat := 48

def endStateMemoryBytes : Nat := 64

/-- `register_groups`, `checksum`. -/
def endStateRegisterChecksum : Nat := 80

/-- `fpregs_checksum`, `gregs_checksum`. -/
def registersMemoryChecksum : Nat := 96

def endStateRegistersMemoryChecksum : Nat := 104

end Snap

namespace SnapCorpus

def magic : Nat := 0

def headerSize : Nat := 8

def checksum : Nat := 12

def numBytes : Nat := 16

def corpusTypeSize : Nat := 24

def snapTypeSize : Nat := 28

def registerStateTypeSize : Nat := 32

def architectureId : Nat := 36

def padding : Nat := 37

def snaps : Nat := 40

end SnapCorpus

end Offset

/-- `SnapCorp` -/
def kSnapCorpusMagic : Nat := 0x70726f4370616e53

/-! ## What a program reads -/

inductive SnapByteData where
  | byteValues (elements : ByteData)
  | byteRun (value : BitVec 8) (size : Nat)
  deriving DecidableEq, Repr

structure SnapMemoryBytes where
  startAddress : Nat
  data : SnapByteData
  deriving DecidableEq, Repr

structure SnapMemoryMapping where
  startAddress : Nat
  numBytes : Nat
  perms : Nat
  memoryChecksum : Nat
  memoryBytes : List SnapMemoryBytes
  deriving DecidableEq, Repr

/-- `Snap<Arch>::RegisterState`: the bytes of the register sets. -/
structure SnapRegisterState where
  fpregs : ByteData
  gregs : ByteData
  deriving DecidableEq, Repr

structure SnapRegisterMemoryChecksum where
  fpregsChecksum : Nat
  gregsChecksum : Nat
  deriving DecidableEq, Repr

structure Snap where
  id : ByteData
  memoryMappings : List SnapMemoryMapping
  registers : SnapRegisterState
  endStateInstructionAddress : Nat
  endStateRegisters : SnapRegisterState
  endStateMemoryBytes : List SnapMemoryBytes
  endStateRegisterChecksum : RegisterChecksum
  registersMemoryChecksum : SnapRegisterMemoryChecksum
  endStateRegistersMemoryChecksum : SnapRegisterMemoryChecksum
  deriving DecidableEq, Repr

namespace SnapMemoryBytes

def repeating (b : SnapMemoryBytes) : Bool :=
  match b.data with
  | .byteValues _ => false
  | .byteRun _ _ => true

def size (b : SnapMemoryBytes) : Nat :=
  match b.data with
  | .byteValues elements => elements.length
  | .byteRun _ size => size

/-- The bytes that are to be at the start address. -/
def bytes (b : SnapMemoryBytes) : ByteData :=
  match b.data with
  | .byteValues elements => elements
  | .byteRun value size => List.replicate size value

@[simp] theorem length_bytes (b : SnapMemoryBytes) : b.bytes.length = b.size := by
  unfold bytes size
  cases b.data <;> simp

end SnapMemoryBytes

namespace SnapReader

open Images

-- A corpus that is at the address `base`, by the offsets of what lies in it.
variable (base : Nat) (image : ByteData)

/-- The offset of what a pointer points to. -/
def pointee (field : Nat) : Nat := number image field 8 - base

/-- The offsets of the elements of a `SnapArray<t>`. -/
def elements (t : CType) (array : Nat) : List Nat :=
  (List.range (number image (array + Offset.SnapArray.size) 8)).map fun i =>
    pointee base image (array + Offset.SnapArray.elements) + i * t.size

def memoryBytesAt (offset : Nat) : SnapMemoryBytes where
  startAddress := number image (offset + Offset.SnapMemoryBytes.startAddress) 8
  data :=
    if number image (offset + Offset.SnapMemoryBytes.flags) 1 &&&
        Offset.SnapMemoryBytes.kRepeating ≠ 0 then
      .byteRun (BitVec.ofNat 8 (number image (offset + Offset.SnapMemoryBytes.byteRunValue) 1))
        (number image (offset + Offset.SnapMemoryBytes.byteRunSize) 8)
    else
      let byteValues := offset + Offset.SnapMemoryBytes.byteValues
      .byteValues (piece image (pointee base image (byteValues + Offset.SnapArray.elements))
        (number image (byteValues + Offset.SnapArray.size) 8))

def memoryBytesListAt (array : Nat) : List SnapMemoryBytes :=
  (elements base image .snapMemoryBytes array).map (memoryBytesAt base image)

def memoryMappingAt (offset : Nat) : SnapMemoryMapping where
  startAddress := number image (offset + Offset.SnapMemoryMapping.startAddress) 8
  numBytes := number image (offset + Offset.SnapMemoryMapping.numBytes) 8
  perms := number image (offset + Offset.SnapMemoryMapping.perms) 4
  memoryChecksum := number image (offset + Offset.SnapMemoryMapping.memoryChecksum) 4
  memoryBytes := memoryBytesListAt base image (offset + Offset.SnapMemoryMapping.memoryBytes)

def registerStateAt (arch : Architecture) (offset : Nat) : SnapRegisterState where
  fpregs := piece image (pointee base image (offset + Offset.RegisterState.fpregs))
    (CType.fpRegSet arch).size
  gregs := piece image (pointee base image (offset + Offset.RegisterState.gregs))
    (CType.gRegSet arch).size

/-- The characters up to the NUL. -/
def stringAt (offset : Nat) : ByteData := (image.drop offset).takeWhile (· ≠ 0)

def registerChecksumAt (offset : Nat) : RegisterChecksum where
  registerGroups := BitVec.ofNat 64 (number image offset 8)
  checksum := BitVec.ofNat 64 (number image (offset + 8) 8)

def registerMemoryChecksumAt (offset : Nat) : SnapRegisterMemoryChecksum where
  fpregsChecksum := number image offset 4
  gregsChecksum := number image (offset + 4) 4

def snapAt (arch : Architecture) (offset : Nat) : Snap where
  id := stringAt image (pointee base image (offset + Offset.Snap.id))
  memoryMappings := (elements base image .snapMemoryMapping
    (offset + Offset.Snap.memoryMappings)).map (memoryMappingAt base image)
  registers := registerStateAt base image arch (offset + Offset.Snap.registers)
  endStateInstructionAddress := number image (offset + Offset.Snap.endStateInstructionAddress) 8
  endStateRegisters := registerStateAt base image arch (offset + Offset.Snap.endStateRegisters)
  endStateMemoryBytes := memoryBytesListAt base image (offset + Offset.Snap.endStateMemoryBytes)
  endStateRegisterChecksum :=
    registerChecksumAt image (offset + Offset.Snap.endStateRegisterChecksum)
  registersMemoryChecksum :=
    registerMemoryChecksumAt image (offset + Offset.Snap.registersMemoryChecksum)
  endStateRegistersMemoryChecksum :=
    registerMemoryChecksumAt image (offset + Offset.Snap.endStateRegistersMemoryChecksum)

/-- The snaps of a corpus. -/
def snaps (arch : Architecture) : List Snap :=
  (elements base image .snapPointer Offset.SnapCorpus.snaps).map fun element =>
    snapAt base image arch (pointee base image element)

end SnapReader

end Silifuzz
