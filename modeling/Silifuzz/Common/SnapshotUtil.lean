import Silifuzz.Common.Snapshot.Normal
import Silifuzz.Util.Ucontext.SimpleSerialize

/-!
# Snapshot utilities

`common/snapshot_util.cc`: which memory bytes are in which mapping, registers as a
snapshot has them, and the instructions that a snapshot was made of.
-/

namespace Silifuzz

open Checked Serialize

/-- The bytes are completely inside of the mapping. The sum is one of 64 bits. -/
def MemoryMapping.holdsBytes (mapping : MemoryMapping) (bytes : MemoryBytes) : Bool :=
  decide (mapping.startAddress ≤ bytes.startAddress) &&
    decide ((bytes.startAddress - mapping.startAddress + bytes.byteValues.length) % 2 ^ 64 ≤
      mapping.numBytes)

/-- One turn of `SplitBytesByMapping`: the bytes go to the first mapping that holds them. None
is a `LOG_FATAL`. -/
def assignBytes (memoryMappingList : List MemoryMapping) (output : List (List MemoryBytes))
    (bytes : MemoryBytes) : Option (List (List MemoryBytes)) :=
  match memoryMappingList.findIdx? (·.holdsBytes bytes) with
  | some i => some (output.modify i (· ++ [bytes]))
  | none => none

/-- The bytes of each mapping. What is borrowed in the source is the bytes themselves here. -/
def splitBytesByMapping (memoryMappingList : List MemoryMapping)
    (memoryByteList : List MemoryBytes) : Option (List (List MemoryBytes)) :=
  memoryByteList.foldlM (assignBytes memoryMappingList)
    (List.replicate memoryMappingList.length [])

/-- `ConvertRegsToSnapshot`, of register sets as they lie in memory. -/
def convertRegsToSnapshot (arch : Architecture) (gregs fpregs : ByteData) : RegisterState :=
  ⟨serializeGRegs arch gregs, serializeFPRegs arch fpregs⟩

/-- `instruction_address()`, which has a `DCHECK` of the type. -/
def Endpoint.checkedInstructionAddress (debug : Bool) (endpoint : Endpoint) : Checked Address :=
  match debug, endpoint with
  | true, .kSignal .. => .error .abort
  | _, _ => .ok endpoint.instructionAddress

/-- Each end state ends at `endCode`. -/
def checkEndCode (debug : Bool) (endCode : Address) (es : EndState) : Checked Unit := do
  let otherEndCode ← es.endpoint.checkedInstructionAddress debug
  ensure (endCode = otherEndCode)
    ("Endpoint position is inconsistent between endstates: " ++ hexStr endCode ++ " vs. " ++
      hexStr otherEndCode)

def getInstructionBytesFromSnapshot (debug : Bool) (snapshot : Snapshot) : Checked ByteData := do
  let registers ← orAbort snapshot.registers
  let beginCode ← orAbort (snapshot.extractRip registers)
  match snapshot.expectedEndStates with
  | [] => invalidArgument "Expected at least 1 end state"
  | first :: _ =>
    let endCode ← first.endpoint.checkedInstructionAddress debug
    if endCode < beginCode then .error .abort
    snapshot.expectedEndStates.forM (checkEndCode debug endCode)
    let memoryBytes ← orAbort
      (SnapshotMemory.normalizeBytes snapshot.mappedMemoryMap snapshot.memoryBytes)
    let found := memoryBytes.find? fun bytes =>
      decide (bytes.startAddress ≤ beginCode) && decide (endCode ≤ bytes.limitAddress)
    match found with
    | some bytes =>
      return (bytes.byteValues.drop (beginCode - bytes.startAddress)).take (endCode - beginCode)
    | none => invalidArgument "Could not find instructions in the memory bytes"

end Silifuzz
