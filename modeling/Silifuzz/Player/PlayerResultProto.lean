import Silifuzz.Common.SnapshotProto

/-!
# Results of a playback

`PlaybackResult` of `common/snapshot_enums.h` and `FromProto` of
`player/player_result_proto.cc`.
-/

namespace Silifuzz

inductive PlaybackOutcome where
  | kAsExpected
  | kPlatformMismatch
  | kMemoryMismatch
  | kRegisterStateMismatch
  | kEndpointMismatch
  | kExecutionRunaway
  | kExecutionMisbehave
  deriving DecidableEq, Repr

def PlaybackOutcome.toInt : PlaybackOutcome → Nat
  | kAsExpected => 0
  | kPlatformMismatch => 1
  | kMemoryMismatch => 2
  | kRegisterStateMismatch => 3
  | kEndpointMismatch => 4
  | kExecutionRunaway => 5
  | kExecutionMisbehave => 6

/-- `kUnknownCPUId` -/
def kUnknownCPUId : Int := -1

/-- `absl::Duration`, in nanoseconds. -/
abbrev Duration := Int

structure PlayerResult where
  outcome : PlaybackOutcome
  endStateIndex : Option Int
  actualEndState : Option EndState
  cpuUsage : Duration
  cpuId : Int

namespace Proto

/-- `google.protobuf.Duration` -/
structure Duration where
  seconds : Int
  nanos : Int

structure PlayerResult where
  outcome : Option PlaybackOutcome
  endStateIndex : Option Int
  actualEndState : Option EndState
  cpuUsage : Option Duration
  cpuId : Option Int

/-- `DebugString()`: the fields that are not zero. -/
def Duration.debugString (d : Duration) : String :=
  (if d.seconds = 0 then "" else "seconds: " ++ toString d.seconds ++ "\n") ++
    (if d.nanos = 0 then "" else "nanos: " ++ toString d.nanos ++ "\n")

end Proto

open Checked

def kDurationProtoMaxSeconds : Nat := 315576000000

def kDurationProtoMaxNanos : Nat := 999999999

def isRepresentableDuration (seconds nanoSeconds : Int) : Bool :=
  seconds.natAbs ≤ kDurationProtoMaxSeconds && nanoSeconds.natAbs ≤ kDurationProtoMaxNanos

def decodeGoogleApiProto (proto : Proto.Duration) : Checked Duration := do
  ensure (isRepresentableDuration proto.seconds proto.nanos)
    ("Proto " ++ proto.debugString ++ " cannot be decoded to a Duration.")
  return proto.seconds * 1000000000 + proto.nanos

namespace PlayerResultProto

/-- The outcomes that match no end state. -/
def matchesNoEndState (outcome : PlaybackOutcome) : Bool :=
  outcome == .kEndpointMismatch || outcome == .kExecutionRunaway ||
    outcome == .kExecutionMisbehave

def fromProto (proto : Proto.PlayerResult) : Checked PlayerResult := do
  let outcome ← SnapshotProto.mustHaveField "outcome" proto.outcome
  ensure (!(matchesNoEndState outcome && proto.endStateIndex.isSome))
    "Unexpected field: end_state_index"
  let actualEndState ← proto.actualEndState.mapM fun e =>
    plus "Bad EndState: " (SnapshotProto.endStateFromProto e)
  let cpuUsage ← proto.cpuUsage.mapM fun d => plus "Bad CPU usage: " (decodeGoogleApiProto d)
  return {
    outcome := outcome
    endStateIndex := proto.endStateIndex
    actualEndState := actualEndState
    cpuUsage := cpuUsage.getD 0
    cpuId := proto.cpuId.getD kUnknownCPUId }

end PlayerResultProto

end Silifuzz
