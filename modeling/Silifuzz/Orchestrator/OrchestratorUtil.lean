import Mathlib.Data.BitVec
import Silifuzz.Util.Status

/-!
# Orchestrator resources

`CapResourcesToMemLimit` of `orchestrator/orchestrator_util.cc`, with the estimate of
`orchestrator/corpus_util.cc` and the rounding of `util/math.h`. `int64_t` and `uint64_t`
are both `BitVec 64`, and an operation on one of each is that on two `uint64_t`.
-/

namespace Silifuzz.OrchestratorUtil

open Absl

/-- What ends the process, or leaves its behaviour undefined. -/
inductive Fault where
  | check
  | divisionByZero
  | signedOverflow
  deriving DecidableEq, Repr

/-- `absl::StatusOr`, of a function that may also end the process. -/
abbrev StatusOr (α : Type) := ExceptT Status (Except Fault) α

def fault {α : Type} (e : Fault) : StatusOr α := .mk (.error e)

def resourceExhaustedError (message : String) : Status := ⟨.resourceExhausted, message⟩

/-! ## `corpus_util.cc` -/

/-- What the system answers to the calls about a path. The contents of a file matter only for
their number of bytes. -/
structure Files where
  getFileSize : String → Except Status Int
  readXzipFile : String → Except Status (BitVec 64)
  readCord : String → Except Status (BitVec 64)
  writeSharedMemoryFile : String → Except Status Unit

def kXzExtension : String := ".xz"

variable (files : Files)

/-- `LoadCorpus`: the `file_size` of the shard. -/
def loadCorpus (path : String) : Except Status (BitVec 64) := do
  let contents ←
    if path.endsWith kXzExtension then files.readXzipFile path else files.readCord path
  files.writeSharedMemoryFile path
  return contents

def kMb : BitVec 64 := 1 <<< 20

def INT_MAX : Nat := 2 ^ 31 - 1

/-- `RoundUpToPowerOfTwo<uint64_t>`; none if a `CHECK` fails. -/
def roundUpToPowerOfTwo (value target : BitVec 64) : Option (BitVec 64) :=
  if ¬0 < target then none
  else if target &&& (target - 1) ≠ 0 then none
  else if value.uaddOverflow (target - 1) then none
  else some ((value + (target - 1)) &&& ~~~(target - 1))

/-- The loop over the paths from `i` on, of `EstimateLargestCorpusSizeMB`. -/
def largestFrom (i : Nat) (largestPath : String) (largestSize : Int) :
    List String → StatusOr String
  | [] => pure largestPath
  | path :: paths => do
    let size ← ExceptT.mk (.ok (files.getFileSize path))
    let larger := size > largestSize
    let largestPath := if larger then path else largestPath
    let largestSize := if larger then size else largestSize
    if i = INT_MAX then fault .signedOverflow
    else largestFrom (i + 1) largestPath largestSize paths

/-- The number of megabytes that is returned, if the size can be rounded up. -/
def inMb : Option (BitVec 64) → StatusOr (BitVec 64)
  | none => fault .check
  | some rounded => pure (rounded / kMb)

def roundedMb (fileSize : BitVec 64) : StatusOr (BitVec 64) :=
  inMb (roundUpToPowerOfTwo fileSize kMb)

def estimateLargestCorpusSizeMb : List String → StatusOr (BitVec 64)
  | [] => fault .check
  | path :: paths => do
    let largestSize ← ExceptT.mk (.ok (files.getFileSize path))
    let largestPath ← largestFrom files 1 path largestSize paths
    let fileSize ← ExceptT.mk (.ok (loadCorpus files largestPath))
    roundedMb fileSize

/-! ## `orchestrator_util.cc` -/

structure OrchestratorResources where
  numConcurrentRunners : BitVec 64
  shards : List String
  deriving DecidableEq, Repr

def kSingleRunnerMemoryUsageMb : BitVec 64 := 512

/-- `std::shuffle`, in whichever way the random bits have it. -/
structure Shuffle where
  shuffled : List String → List String
  perm (shards : List String) : (shuffled shards).Perm shards

/-- `std::vector::resize` -/
def resize (shards : List String) (n : Nat) : List String :=
  shards.take n ++ List.replicate (n - shards.length) ""

/-- `std::min<uint64_t>` -/
def minUint64 (a b : BitVec 64) : BitVec 64 := if b < a then b else a

/-- `std::min<int>`, of numbers that are narrowed. -/
def minInt (a b : BitVec 64) : BitVec 32 :=
  let a := a.setWidth 32
  let b := b.setWidth 32
  if b.slt a then b else a

/-- `CapResourcesToMemLimit` with the estimate at hand. -/
def capToEstimate (shuffle : Shuffle) (memoryUsageLimitMb : BitVec 64)
    (resources : OrchestratorResources) (shardSizeEstimateMb : BitVec 64) :
    Except Fault (Except Status Unit × OrchestratorResources) :=
  let maxNumRunners := resources.numConcurrentRunners
  let memoryBudgetMb := memoryUsageLimitMb - shardSizeEstimateMb
  if memoryBudgetMb.sle 0 then
    .ok (.error (resourceExhaustedError <|
      "Not enough memory to run a single runner with the given budget of " ++
        s!"{memoryUsageLimitMb.toInt}MB"), resources)
  else
    let resources := { resources with
      numConcurrentRunners :=
        minUint64 maxNumRunners (memoryBudgetMb / kSingleRunnerMemoryUsageMb) }
    if resources.numConcurrentRunners = 0 then
      .ok (.error (resourceExhaustedError <|
        s!"Not enough memory to run {resources.numConcurrentRunners.toNat} runners " ++
          s!"with the given budget of {memoryUsageLimitMb.toInt}MB"), resources)
    else
      let memoryBudgetMb :=
        memoryBudgetMb - kSingleRunnerMemoryUsageMb * resources.numConcurrentRunners
      let totalShards := BitVec.ofNat 64 resources.shards.length
      let memoryBudgetMb := memoryBudgetMb + shardSizeEstimateMb
      if shardSizeEstimateMb = 0 then .error .divisionByZero
      else
        let maxShards := minInt totalShards (memoryBudgetMb / shardSizeEstimateMb)
        if maxShards.sle 0 then .error .check
        else .ok (.ok (), { resources with
          shards := resize (shuffle.shuffled resources.shards) maxShards.toNat })

/-- The status, with the resources after the call. -/
def capResourcesToMemLimit (shuffle : Shuffle) (memoryUsageLimitMb : BitVec 64)
    (resources : OrchestratorResources) :
    Except Fault (Except Status Unit × OrchestratorResources) :=
  match (estimateLargestCorpusSizeMb files resources.shards).run with
  | .error fault => .error fault
  | .ok (.error status) => .ok (.error status, resources)
  | .ok (.ok shardSizeEstimateMb) =>
    capToEstimate shuffle memoryUsageLimitMb resources shardSizeEstimateMb

end Silifuzz.OrchestratorUtil
