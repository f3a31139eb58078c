import Mathlib.Data.List.Infix

/-!
# hw_log_parser

`tools/sdc_experiment/hw_log_parser.py`: the regular expressions that read the lines
`Snapshot [<hex>] failed, outcome = <n>` of a runner's log, and the counts that `parse_log`
makes of them. A pattern is a function from the text at a position to what its group
matches and the text after the match; `decimal` is the value of a character that `\d`
matches.
-/

namespace Silifuzz.SdcExperiment

abbrev Pattern (α : Type) := List Char → Option (α × List Char)

/-- `findall`: the matches from left to right, none inside another. -/
def findAllLoop {α : Type} (pattern : Pattern α) : Nat → List Char → List α
  | 0, _ => []
  | fuel + 1, text =>
    match pattern text with
    | some (a, rest) => a :: findAllLoop pattern fuel rest
    | none =>
      match text with
      | [] => []
      | _ :: text => findAllLoop pattern fuel text

def findAll {α : Type} (pattern : Pattern α) (text : String) : List α :=
  findAllLoop pattern (text.toList.length + 1) text.toList

def literal (word : String) (text : List Char) : Option (List Char) :=
  if word.toList <+: text then some (text.drop word.toList.length) else none

/-- `([0-9a-f]+)`, `(\d+)`. -/
def many (p : Char → Bool) : Pattern (List Char) := fun text =>
  if (text.takeWhile p).isEmpty then none else some (text.takeWhile p, text.dropWhile p)

def hexDigit (c : Char) : Bool := c.isDigit || ('a' ≤ c && c ≤ 'f')

/-- `[^\n]*` and a pattern: the longest part of the line after which the pattern matches. -/
def restOfLine {α : Type} (pattern : Pattern α) : Pattern α
  | [] => pattern []
  | c :: text =>
    if c = '\n' then pattern (c :: text)
    else
      match restOfLine pattern text with
      | some found => some found
      | none => pattern (c :: text)

/-- `Snapshot \[([0-9a-f]+)\]`, `HASH_RE`. -/
def hashRe : Pattern String := fun text => do
  let text ← literal "Snapshot [" text
  let (hash, text) ← many hexDigit text
  let text ← literal "]" text
  return (String.ofList hash, text)

section
variable (decimal : Char → Option Nat)

/-- `outcome = (\d+)`, `OUTCOME_RE`. -/
def outcomeRe : Pattern (List Char) := fun text => do
  many (fun c => (decimal c).isSome) (← literal "outcome = " text)

/-- `_FAILED_RE`. -/
def failedRe : Pattern (List Char) := fun text => do
  let (_, text) ← hashRe text
  restOfLine (fun text => do
    many (fun c => (decimal c).isSome) (← literal "failed, outcome = " text)) text

/-- `_SDC_DETAIL_RE`, with all of the match. -/
def sdcDetailRe : Pattern String := fun text => do
  let (_, rest) ← hashRe text
  let (_, rest) ← restOfLine (fun text => do
    match ← literal "failed, outcome = " text with
    | c :: rest => if c = '2' ∨ c = '3' ∨ c = '4' then some (c, rest) else none
    | [] => none) rest
  return (String.ofList (text.take (text.length - rest.length)), rest)

structure LogCounts where
  sigsegvNoise : Nat
  sigterm : Nat
  runawayNoise : Nat
  misbehaveNoise : Nat
  sdcHits : Nat
  sdcDetails : List String
  totalFailed : Nat
  deriving DecidableEq, Repr

def parseLog (text : String) : LogCounts :=
  let word (w : String) : Pattern Unit := fun text => (literal w text).map ((), ·)
  let allFailed := findAll (failedRe decimal) text
  { sigsegvNoise := (findAll (word "SIGSEGV while outside of snap") text).length
    sigterm := (findAll (word "SIGTERM") text).length
    runawayNoise := allFailed.countP (· == ['5'])
    misbehaveNoise := allFailed.countP (· == ['6'])
    sdcHits := allFailed.countP fun o => o == ['2'] || o == ['3'] || o == ['4']
    sdcDetails := (findAll sdcDetailRe text).take 10
    totalFailed := allFailed.length }

end

/-- `\d` on the digits that a runner prints. -/
def asciiDecimal (c : Char) : Option Nat :=
  if c.isDigit then some (c.toNat - '0'.toNat) else none

example : parseLog asciiDecimal "Snapshot [ab0] failed, outcome = 3\nSnapshot [ab0] failed, outcome = 5" =
    ⟨0, 0, 1, 0, 1, ["Snapshot [ab0] failed, outcome = 3"], 2⟩ := by decide +kernel

end Silifuzz.SdcExperiment
