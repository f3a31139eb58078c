import Silifuzz.Common.Snapshot
import Silifuzz.Util.Checks

/-!
# The parts of a Snapshot beside its memory

`RegisterState`, `EndState`, `Metadata` and `TraceData` of `common/snapshot.h`, with
their own checks and mutators.
-/

namespace Silifuzz

open Checked

/-- What a `Status` of the memory checks is for a function that returns it. -/
def Checked.ofStatus {α : Type} : Option (Except SnapshotError α) → Checked α
  | some (.ok a) => .ok a
  | some (.error e) => invalidArgument e.text
  | none => .error .abort

/-- `kMaxPlatformId`, which is `kNonExistent`. -/
def kMaxPlatformId : Nat := 50

/-- The enum `PlatformId`. Only the values named here are treated specially. -/
abbrev PlatformId := Fin (kMaxPlatformId + 1)

instance (priority := 2000) : @NeZero Nat Zero.ofOfNat0 (kMaxPlatformId + 1) := ⟨by decide⟩

namespace PlatformId

def kUndefined : PlatformId := 0
/-- Any platform, for platform selectors. -/
def kAny : PlatformId := 49
/-- For tests only. -/
def kNonExistent : PlatformId := 50

/-- A platform that a trace can have. -/
def Traced (p : PlatformId) : Prop := p ≠ kUndefined ∧ p < kAny

end PlatformId

structure RegisterState where
  gregs : ByteData
  fpregs : ByteData
  deriving DecidableEq, Repr

def RegisterState.isUnset (x : RegisterState) : Bool := x.gregs.isEmpty && x.fpregs.isEmpty

/-- `Snapshot::MemoryBytesListEq`: the same elements, in any order. -/
def sortedMemoryBytes (l : List MemoryBytes) : List MemoryBytes :=
  l.insertionSort fun x y => y.less x = false

def memoryBytesListEq (x y : List MemoryBytes) : Bool :=
  x.length == y.length && sortedMemoryBytes x == sortedMemoryBytes y

/-- Possible types of good states. -/
inductive State where
  | kUndefinedEndState
  | kNormalState
  | kMakingState
  deriving DecidableEq, Repr

structure EndState where
  changedMemorySet : MemoryBytesSet
  endpoint : Endpoint
  registers : RegisterState
  memoryBytes : List MemoryBytes
  platforms : PlatformId → Bool
  registerChecksum : ByteData
  deriving DecidableEq

namespace EndState

/-- The constructor, which leaves the memory bytes empty. -/
def new (endpoint : Endpoint) (registers : RegisterState) : EndState :=
  ⟨.empty, endpoint, registers, [], fun _ => false, []⟩

/-- Ignores differences in the platforms. -/
def dataEquals (x y : EndState) : Bool :=
  x.endpoint == y.endpoint && x.registers == y.registers &&
    x.registerChecksum == y.registerChecksum && memoryBytesListEq x.memoryBytes y.memoryBytes

/-- `operator==`. -/
def eq (x y : EndState) : Bool := x.dataEquals y && x.platforms == y.platforms

def hasPlatform (x : EndState) (platform : PlatformId) : Bool := x.platforms platform

def emptyPlatforms (x : EndState) : Bool := (List.finRange _).all fun p => !x.platforms p

/-- `platforms()`, in the order of their ids. -/
def platformList (x : EndState) : List PlatformId := (List.finRange _).filter x.platforms

def isComplete (x : EndState) : State → Checked Unit
  | .kUndefinedEndState | .kMakingState => do
    ensure (x.registers.gregs.isEmpty && x.registers.fpregs.isEmpty)
      "Non empty registers in EndState"
    ensure x.memoryBytes.isEmpty "Non empty memory_bytes in EndState"
    ensure x.emptyPlatforms "Non empty platforms in an EndState"
  | .kNormalState => do
    ensure (!x.registers.gregs.isEmpty && !x.registers.fpregs.isEmpty)
      "Empty registers in an EndState"
    ensure (!x.emptyPlatforms) "Empty platforms in an EndState"

def canAddMemoryBytes (x : EndState) (b : MemoryBytes) : Checked Unit := do
  let disjoint ← orAbort (x.changedMemorySet.isDisjoint b.startAddress b.limitAddress)
  ensure disjoint "Overlaps with existing memory_bytes"

def addMemoryBytes (x : EndState) (b : MemoryBytes) : Checked EndState := do
  let changed ← orAbort (x.changedMemorySet.add b.startAddress b.limitAddress)
  return { x with changedMemorySet := changed, memoryBytes := x.memoryBytes ++ [b] }

/-- `ReplaceMemoryBytes`. On an error the end state is left in an undefined state. -/
def replaceMemoryBytes (x : EndState) (bs : List MemoryBytes) : Checked EndState :=
  bs.foldlM (fun x b => do x.canAddMemoryBytes b; x.addMemoryBytes b)
    { x with changedMemorySet := .empty, memoryBytes := [] }

def addPlatform (x : EndState) (platform : PlatformId) : EndState :=
  { x with platforms := Function.update x.platforms platform true }

/-- `set_platforms`, with its `CHECK_LT(i, ToInt(kMaxPlatformId))`. -/
def setPlatforms (x : EndState) (platforms : List PlatformId) : Checked EndState :=
  platforms.foldlM (fun x p => if p.val < kMaxPlatformId then .ok (x.addPlatform p)
    else .error .abort) { x with platforms := fun _ => false }

def setRegisterChecksum (x : EndState) (value : ByteData) : EndState :=
  { x with registerChecksum := value }

def setRegisters (x : EndState) (registers : RegisterState) : EndState :=
  { x with registers := registers }

end EndState

inductive Origin where
  | kUndefined
  | kIfuzz
  | kUnicorn
  | kBochs
  | kXed
  | kGem5
  | kUseString
  deriving DecidableEq, Repr

structure Metadata where
  origin : Origin
  originString : ByteData
  deriving DecidableEq, Repr

def Metadata.default : Metadata := ⟨.kUndefined, []⟩

structure TraceData where
  numInstructions : Nat
  humanReadableDisassembly : ByteData
  platforms : List PlatformId
  deriving DecidableEq, Repr

namespace TraceData

def new (numInstructions : Nat) (disassembly : ByteData) : TraceData :=
  ⟨numInstructions, disassembly, []⟩

/-- The list with `platform` at its `lower_bound`, unless it is there. -/
def insertPlatform (platform : PlatformId) : List PlatformId → List PlatformId
  | [] => [platform]
  | p :: ps =>
    if p < platform then p :: insertPlatform platform ps
    else if p = platform then p :: ps
    else platform :: p :: ps

/-- `add_platform`. Its `DCHECK` stops a debug build only. -/
def addPlatform (debug : Bool) (t : TraceData) (platform : PlatformId) : Checked TraceData :=
  if debug && !(platform != .kUndefined && decide (platform < .kAny)) then .error .abort
  else .ok { t with platforms := insertPlatform platform t.platforms }

end TraceData

end Silifuzz
