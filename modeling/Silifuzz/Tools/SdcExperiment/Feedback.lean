import Silifuzz.Tools.SdcExperiment.HwLogParser

/-!
# feedback

`tools/sdc_experiment/feedback.py`: the hits of an experiment, their replays, and the seed
files of those that are confirmed. What the experiment's files, `snap_tool` and the runner
give is an `Environment`; a run that raises `OSError` or times out gives nothing.
-/

namespace Silifuzz.SdcExperiment

/-- A row of a `hw_rows.json`; one that is no dict counts as 0. -/
structure HwRow where
  group : Option String
  hwSdc : Int

/-- What a `hw_*.json` holds. -/
inductive HwJson where
  | rows (rows : List HwRow)
  | scan (sdcHits : Int) (sdcDetails : List String) (device : Option String)
  | other

structure Hit where
  file : String
  device : Option String
  group : Option String
  count : Int
  hashes : List String
  outcomes : List Nat
  deriving DecidableEq, Repr

inductive Verdict where
  | sdcConfirmed
  | transient
  | notReproduced
  deriving DecidableEq, Repr

inductive ItemAction where
  | replayConfirm
  | quarantine
  | confirmed
  | transient
  | notReproduced
  deriving DecidableEq, Repr

inductive Replay where
  | error (message : String)
  | ran (corpus : String) (runs : Int) (reproduced : Nat) (confirmed : Bool) (verdict : Verdict)
  deriving DecidableEq, Repr

structure Item where
  hash : Option String
  outcome : Option Nat
  device : Option String
  group : Option String
  source : String
  pb : Option String
  instructions : Option (List UInt8)
  action : ItemAction
  replay : Option Replay
  confirmed : Bool
  deriving DecidableEq, Repr

/-- The outside world, by the number of the item that a tool is run for, and for the runner
also by that of the replay. -/
structure Environment where
  hwFiles : List (String × HwJson)
  pbFiles : List String
  decimal : Char → Option Nat
  print : String → Option String
  getInstructions : Nat → String → Option (List UInt8)
  generateCorpus : Nat → String → Option String
  runner : Nat → Nat → Option String

variable (env : Environment)

def decimalNumber (decimal : Char → Option Nat) (digits : List Char) : Nat :=
  digits.foldl (fun n c => 10 * n + (decimal c).getD 0) 0

def extractHits : List Hit :=
  env.hwFiles.flatMap fun (file, json) =>
    match json with
    | .rows rows => rows.filterMap fun row =>
      if row.hwSdc > 0 then some ⟨file, none, row.group, row.hwSdc, [], []⟩ else none
    | .scan sdcHits sdcDetails device =>
      if sdcHits > 0 then
        let details := "\n".intercalate sdcDetails
        [⟨file, device, none, sdcHits, findAll hashRe details,
          (findAll (outcomeRe env.decimal) details).map (decimalNumber env.decimal)⟩]
      else []
    | .other => []

/-- The line `  Id: <hash>` of the printed snapshot. -/
def idOfLine (line : List Char) : Option String := do
  let (hash, rest) ← many hexDigit (← literal "  Id: " line)
  if rest = [] then some (String.ofList hash) else none

def snapshotIdOfPb (pb : String) : Option String := do
  let printed ← env.print pb
  (printed.toList.splitOn '\n').findSome? idOfLine

/-- `hash_to_pb`, where a later file takes the place of an earlier one. -/
def hashToPb (hash : String) : Option String :=
  env.pbFiles.reverse.find? fun pb => snapshotIdOfPb env pb == some hash

/-- The hits of a file as `(hash, outcome)`, of which there is one without when the group has no
hashes. -/
def Hit.pairs (hit : Hit) : List (Option String × Option Nat) :=
  match hit.hashes.zip hit.outcomes with
  | [] => [(none, none)]
  | pairs => pairs.map fun (hash, outcome) => (some hash, some outcome)

def buildItem (number : Nat) (hit : Hit) (pair : Option String × Option Nat) : Item :=
  let pb := pair.1.bind (hashToPb env)
  { hash := pair.1
    outcome := pair.2
    device := hit.device
    group := hit.group
    source := hit.file
    pb
    instructions := pb.bind (env.getInstructions number)
    action := if pb.isSome then .replayConfirm else .quarantine
    replay := none
    confirmed := false }

def buildFeedbackReport (hits : List Hit) : List Item :=
  (hits.flatMap fun hit => hit.pairs.map (hit, ·)).mapIdx fun number (hit, pair) =>
    buildItem env number hit pair

/-- `"failed" in out or "mismatch" in out.lower()`. -/
def namesFailure (out : String) : Bool :=
  decide ("failed".toList <:+: out.toList) ||
    decide ("mismatch".toList <:+: out.toList.map Char.toLower)

/-- `replay_confirm`'s loop, with `left` replays to go from the `k`-th on. -/
def replayLoop (runner : Nat → Option String) : Nat → Nat → Nat → Nat
  | 0, _, repro => repro
  | left + 1, k, repro =>
    match runner k with
    | none => repro
    | some out => replayLoop runner left (k + 1) (if namesFailure out then repro + 1 else repro)

def replayConfirm (runner : Nat → Option String) (corpus : String) (n : Int) : Replay :=
  let repro := replayLoop runner n.toNat 0 0
  .ran corpus n repro (decide ((repro : Int) = n))
    (if (repro : Int) = n then .sdcConfirmed
      else if repro > 0 then .transient else .notReproduced)

/-- `replay_gate` for one item. -/
def gateItem (n : Int) (number : Nat) (item : Item) : Item :=
  if item.action ≠ .replayConfirm then item
  else
    match item.pb with
    | none => item
    | some pb =>
      match env.generateCorpus number pb with
      | none => { item with replay := some (.error "generate_corpus 打包失败 (end state 无该 platform 位?)")
                            confirmed := false
                            action := .transient }
      | some corpus =>
        match replayConfirm (env.runner number) corpus n with
        | .ran corpus runs reproduced confirmed verdict =>
          { item with replay := some (.ran corpus runs reproduced confirmed verdict)
                      confirmed
                      action := if confirmed then .confirmed
                        else if reproduced > 0 then .transient else .notReproduced }
        | .error _ => item

def replayGate (items : List Item) (n : Int) : List Item := items.mapIdx (gateItem env n)

/-- The seed file that `reseed` writes for an item. -/
def Item.seedFile (item : Item) : Option (String × List UInt8) :=
  match item.confirmed, item.hash, item.instructions with
  | true, some hash, some insns =>
    if hash = "" ∨ insns = [] then none else some (s!"seeds/evolved/{hash}.bin", insns)
  | _, _, _ => none

def reseed (items : List Item) : List (String × List UInt8) := items.filterMap Item.seedFile

/-- `main` with `--replay-n` and `--no-reseed`: the report's items and the files written. -/
def feedback (replayN : Int) (noReseed : Bool) : List Item × List (String × List UInt8) :=
  let hits := extractHits env
  let report := buildFeedbackReport env hits
  if hits.isEmpty then (report, [])
  else
    let gated := replayGate env report replayN
    (gated, if noReseed then [] else reseed gated)

end Silifuzz.SdcExperiment
