import Silifuzz.Library.Images
import Silifuzz.Library.Triples
import Silifuzz.Snap.Snap
import Silifuzz.Snap.SnapChecksum

/-!
# The snap relocator

`snap/snap_relocator.cc`: the offsets in a corpus are turned into addresses, where the corpus
lies, while it is walked. A pointer or a size is read where it is when it is used, which an
earlier turn may have changed. An access outside of the corpus ends the run with `outside`, and
a loop over an array that is given too little fuel with `fuel`.
-/

namespace Silifuzz

open LittleEndian Images Triples

inductive SnapRelocatorError where
  | kEmptyCorpus
  | kAlignment
  | kOutOfBound
  | kMprotect
  | kBadData
  | kBadChecksum
  deriving DecidableEq, Repr

namespace SnapRelocator

inductive Stop where
  | error (error : SnapRelocatorError)
  | outside (address size : Nat)
  | fuel
  deriving DecidableEq, Repr

/-- The bytes of the corpus change in a run. -/
abbrev Relocation := StateT Bytes (Except Stop)

/-- A `SnapRelocator`, and the machine that it runs on. -/
structure Relocator where
  arch : Architecture
  startAddress : Nat
  limitAddress : Nat
  machine : Crc32c.Machine
  best : Crc32c.Implementation

variable (r : Relocator)

def load (address size : Nat) : Relocation Nat := do
  let image ← get
  if r.startAddress ≤ address ∧ address + size ≤ r.limitAddress then
    return number image (address - r.startAddress) size
  else throw (.outside address size)

def store (address size v : Nat) : Relocation Unit := do
  let image ← get
  if r.startAddress ≤ address ∧ address + size ≤ r.limitAddress then
    set (put image (address - r.startAddress) size v)
  else throw (.outside address size)

def fail (error : SnapRelocatorError) : Relocation Unit := throw (.error error)

def validateRelocatedAddress (t : CType) (address : Nat) : Relocation Unit :=
  if address < r.startAddress ∨ 2 ^ 64 ≤ address + t.size ∨ r.limitAddress < address + t.size then
    fail .kOutOfBound
  else if address % t.align ≠ 0 then fail .kAlignment
  else pure ()

/-- `AdjustPointer`, of a `t*` that is at `ptr`. -/
def adjustPointer (t : CType) (ptr : Nat) : Relocation Unit := do
  let offset ← load r ptr 8
  if 2 ^ 64 ≤ r.startAddress + offset then fail .kOutOfBound
  else do
    validateRelocatedAddress r t (r.startAddress + offset)
    store r ptr 8 (r.startAddress + offset)

/-- `AdjustArray`, of a `SnapArray<t>` that is at `array`. -/
def adjustArray (t : CType) (array : Nat) : Relocation Unit := do
  let size ← load r (array + Offset.SnapArray.size) 8
  if size > 0 then do
    adjustPointer r t (array + Offset.SnapArray.elements)
    let size ← load r (array + Offset.SnapArray.size) 8
    if 2 ^ 64 ≤ size * t.size then fail .kOutOfBound
    else do
      let elements ← load r (array + Offset.SnapArray.elements) 8
      if 2 ^ 64 ≤ elements + size * t.size ∨ r.limitAddress < elements + size * t.size then
        fail .kOutOfBound
      else pure ()
  else store r (array + Offset.SnapArray.elements) 8 0

/-- `RelocationIterator`: `begin()` and `end()`. -/
def relocationIterator (t : CType) (array : Nat) : Relocation (Nat × Nat) := do
  let elements ← load r (array + Offset.SnapArray.elements) 8
  let size ← load r (array + Offset.SnapArray.size) 8
  return (elements, (elements + size * t.size) % 2 ^ 64)

/-- The loop from `it` to `last`. -/
def forElements (t : CType) (body : Nat → Relocation Unit) : Nat → Nat → Nat → Relocation Unit
  | 0, _, _ => throw .fuel
  | fuel + 1, it, last =>
    if it = last then pure ()
    else do
      body it
      forElements t body fuel ((it + t.size) % 2 ^ 64) last

/-- An array is adjusted, and then its elements. -/
def relocateArray (fuel : Nat) (t : CType) (array : Nat) (body : Nat → Relocation Unit) :
    Relocation Unit := do
  adjustArray r t array
  let (first, last) ← relocationIterator r t array
  forElements t body fuel first last

def relocateMemoryBytes (memoryByte : Nat) : Relocation Unit := do
  let flags ← load r (memoryByte + Offset.SnapMemoryBytes.flags) 1
  if flags &&& Offset.SnapMemoryBytes.kRepeating = 0 then
    adjustPointer r .uint8 (memoryByte + Offset.SnapMemoryBytes.byteValues + Offset.SnapArray.elements)
  else pure ()

def relocateMemoryBytesArray (fuel array : Nat) : Relocation Unit :=
  relocateArray r fuel .snapMemoryBytes array (relocateMemoryBytes r)

def relocateRegisterState (registerState : Nat) : Relocation Unit := do
  adjustPointer r (.fpRegSet r.arch) (registerState + Offset.RegisterState.fpregs)
  adjustPointer r (.gRegSet r.arch) (registerState + Offset.RegisterState.gregs)

/-- The turn of the loop of `RelocateCorpus` for the pointer that is at `snapPtr`. -/
def relocateSnap (fuel snapPtr : Nat) : Relocation Unit := do
  adjustPointer r .snap snapPtr
  let snap ← load r snapPtr 8
  adjustPointer r .char (snap + Offset.Snap.id)
  relocateArray r fuel .snapMemoryMapping (snap + Offset.Snap.memoryMappings) fun mapping =>
    relocateMemoryBytesArray r fuel (mapping + Offset.SnapMemoryMapping.memoryBytes)
  relocateRegisterState r (snap + Offset.Snap.registers)
  relocateRegisterState r (snap + Offset.Snap.endStateRegisters)
  relocateMemoryBytesArray r fuel (snap + Offset.Snap.endStateMemoryBytes)

/-- The checksum of the `count` bytes at the start. -/
def corpusChecksum (count : Nat) : Relocation Nat := do
  let image ← get
  let bytes := image.take count
  if fits : r.startAddress + bytes.length < 2 ^ 64 then
    if r.startAddress + count ≤ r.limitAddress then
      let chunk : Crc32c.Buffer := { address := r.startAddress, bytes, fits }
      let sum := SnapChecksum.CorpusChecksumCalculator.checksumOf r.machine [chunk]
      match (sum.run r.best).1 with
      | some checksum => return checksum.toNat
      | none => throw (.outside r.startAddress count)
    else throw (.outside r.startAddress count)
  else throw (.outside r.startAddress count)

/-- A field of the header has to have the value. -/
def checkHeader (field size expected : Nat) : Relocation Unit := do
  let v ← load r (r.startAddress + field) size
  if v ≠ expected then fail .kBadData
  else pure ()

def verifyChecksum (verify : Bool) : Relocation Unit :=
  if verify then do
    let expected ← load r (r.startAddress + Offset.SnapCorpus.checksum) 4
    let numBytes ← load r (r.startAddress + Offset.SnapCorpus.numBytes) 8
    let actual ← corpusChecksum r numBytes
    if expected ≠ actual then fail .kBadChecksum
    else pure ()
  else pure ()

/-- What is checked before anything is relocated. -/
def checkCorpus (verify : Bool) : Relocation Unit := do
  validateRelocatedAddress r .snapCorpus r.startAddress
  checkHeader r Offset.SnapCorpus.magic 8 kSnapCorpusMagic
  checkHeader r Offset.SnapCorpus.headerSize 4 CType.snapCorpusHeader.size
  checkHeader r Offset.SnapCorpus.numBytes 8 (r.limitAddress - r.startAddress)
  verifyChecksum r verify
  checkHeader r Offset.SnapCorpus.architectureId 1 r.arch.toInt
  checkHeader r Offset.SnapCorpus.corpusTypeSize 4 CType.snapCorpus.size
  checkHeader r Offset.SnapCorpus.snapTypeSize 4 CType.snap.size
  checkHeader r Offset.SnapCorpus.registerStateTypeSize 4 CType.registerState.size

/-- `RelocateCorpus` of a relocator. -/
def relocate (fuel : Nat) (verify : Bool) : Relocation Unit := do
  checkCorpus r verify
  relocateArray r fuel .snapPointer (r.startAddress + Offset.SnapCorpus.snaps) (relocateSnap r fuel)

/-- Where a corpus is mapped. -/
structure Mmapped where
  address : Nat
  bytes : Bytes
  fits : address + bytes.length < 2 ^ 64

/-- `SnapRelocator<Arch>::RelocateCorpus`: the bytes of the corpus when it is relocated. The
`mprotect` may fail. -/
def relocateCorpus (arch : Architecture) (machine : Crc32c.Machine) (best : Crc32c.Implementation)
    (mprotects : Bool) (fuel : Nat) (relocatable : Mmapped) (verify : Bool) : Except Stop Bytes :=
  if relocatable.bytes.length = 0 then .error (.error .kEmptyCorpus)
  else do
    let relocator : Relocator :=
      { arch
        startAddress := relocatable.address
        limitAddress := relocatable.address + relocatable.bytes.length
        machine
        best }
    let (_, bytes) ← relocate relocator fuel verify relocatable.bytes
    if mprotects then return bytes
    else throw (.error .kMprotect)

end SnapRelocator

end Silifuzz
