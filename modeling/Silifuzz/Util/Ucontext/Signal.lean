import Silifuzz.Library.LittleEndian
import Silifuzz.Library.Triples
import Mathlib.Data.List.Basic
import Mathlib.Data.List.Infix

/-!
# Records of a signal frame

`FindContext` of `util/ucontext/aarch64/signal.cc`, which walks over the records in the reserved
area of a signal frame, and the two functions that convert what it finds. Every read is checked
to be in the area.
-/

namespace Silifuzz.Signal

open Triples

/-- `__reserved` -/
structure Reserved where
  bytes : List (BitVec 8)
  size : bytes.length = 4096

/-- How the walk ends. -/
inductive End where
  /-- A read outside of the area. -/
  | outside
  | fatal (message : String)
  | returned (ctx : Option Nat)
  deriving DecidableEq, Repr

variable (area : Reserved) (magic : BitVec 32)

/-- The number in the `n` bytes at `p`. -/
def numberAt (p n : Nat) : Nat := LittleEndian.decode ((area.bytes.drop p).take n)

def readNumber (p n : Nat) : Except End Nat :=
  if p + n ≤ area.bytes.length then .ok (numberAt area p n) else .error .outside

/-- The words of the `_aarch64_ctx` at `p`. -/
def magicAt (p : Nat) : BitVec 32 := BitVec.ofNat 32 (numberAt area p 4)

def sizeAt (p : Nat) : Nat := numberAt area (p + 4) 4

/-- A turn of the loop: where it goes on, with `ctx` after it. -/
def turn (current : Nat) (ctx : Option Nat) : Except End (Nat × Option Nat) :=
  if ¬ current < area.bytes.length then .error (.returned ctx)
  else if 8 > area.bytes.length - current then .error (.fatal "Not enough space for header.")
  else do
    let size ← readNumber area (current + 4) 4
    if size > area.bytes.length - current then .error (.fatal "Not enough space for body.")
    else do
      let headMagic ← readNumber area current 4
      if BitVec.ofNat 32 headMagic = magic then
        if ctx.isSome then .error (.fatal "Found two contexts with the same magic.")
        else .ok (current + size, some current)
      else if BitVec.ofNat 32 headMagic = 0 then .error (.returned ctx)
      else .ok (current + size, ctx)

/-- The loop; none if it has not ended after so many turns. -/
def findLoop : Nat → Nat → Option Nat → Option End
  | 0, _, _ => none
  | turns + 1, current, ctx =>
    match turn area magic current ctx with
    | .ok (next, ctx) => findLoop turns next ctx
    | .error e => some e

def findContext (turns : Nat) : Option End := findLoop area magic turns 0 none

def fpsimdMagic : BitVec 32 := 0x46508001

def esrMagic : BitVec 32 := 0x45535201

structure FPRegs where
  v : List Nat
  fpsr : Nat
  fpcr : Nat

/-- A use of what `FindContext` returns. -/
def withContext {α : Type} (turns : Nat) (use : Option Nat → Except End α) :
    Option (Except End α) :=
  (findContext area magic turns).map fun
    | .returned ctx => use ctx
    | e => .error e

/-- `ConvertFPRegsFromLibC`; `fpsimd_context` has 528 bytes. -/
def convertFPRegsFromLibC (turns : Nat) : Option (Except End FPRegs) :=
  withContext area fpsimdMagic turns fun
    | none => .error (.fatal "Did not find FPSIMD record")
    | some fpc => do
      if (← readNumber area (fpc + 4) 4) ≠ 528 then .error (.fatal "FPSIMD record is wrong size.")
      else
        let v ← (List.range 32).mapM fun i => readNumber area (fpc + 16 + 16 * i) 16
        let fpsr ← readNumber area (fpc + 8) 4
        let fpcr ← readNumber area (fpc + 12) 4
        return ⟨v, fpsr, fpcr⟩

/-- `ConvertSignalRegsFromLibC`; `esr_context` has 16 bytes. -/
def convertSignalRegsFromLibC (turns : Nat) : Option (Except End Nat) :=
  withContext area esrMagic turns fun
    | none => return 0
    | some esrCtx => do
      if (← readNumber area (esrCtx + 4) 4) ≠ 16 then .error (.fatal "ESR record is wrong size.")
      else readNumber area (esrCtx + 8) 8

/-! ## What it is to do -/

/-- The header is in the area, and the body too. -/
def Inside (p : Nat) : Prop :=
  p + 8 ≤ area.bytes.length ∧ p + sizeAt area p ≤ area.bytes.length

/-- The records `l`, from the start of the area on, are in front of the offset. -/
inductive Walk : List Nat → Nat → Prop where
  | start : Walk [] 0
  | record {l : List Nat} {p : Nat} (before : Walk l p) (inside : Inside area p) :
      Walk (l ++ [p]) (p + sizeAt area p)

/-- The records that precede the terminator, or the end of the area. -/
def Records (l : List Nat) : Prop :=
  ∃ p, Walk area l p ∧ (∀ r ∈ l, magicAt area r ≠ 0) ∧
    (p = area.bytes.length ∨ p + 8 ≤ area.bytes.length ∧ magicAt area p = 0)

/-- `ctx` is the one record with the magic, and null if there is none. -/
def Answers (ctx : Option Nat) : Prop :=
  ∃ l, Records area l ∧ l.filter (magicAt area · = magic) = ctx.toList

/-- The states that the loop comes to. -/
inductive Reaches : Nat → Option Nat → Prop where
  | start : Reaches 0 none
  | next {current next : Nat} {ctx ctx' : Option Nat} (before : Reaches current ctx)
      (step : turn area magic current ctx = .ok (next, ctx')) : Reaches next ctx'

/-- The walk ends, stays in the area and gives the right record. -/
structure Finds : Prop where
  ends : ∃ turns, (findContext area magic turns).isSome
  inside : ∀ current ctx, Reaches area magic current ctx →
    turn area magic current ctx ≠ .error .outside ∧ current ≤ area.bytes.length ∧
      ∀ p, ctx = some p → Inside area p
  answers : ∀ turns ctx, findContext area magic turns = some (.returned ctx) →
    Answers area magic ctx

/-- The walk comes to a record without a size, which it neither looks for nor ends at. -/
def Stuck : Prop :=
  ∃ l p, Walk area l p ∧ (∀ r ∈ l, magicAt area r = magic ∨ magicAt area r ≠ 0) ∧
    (l.filter (magicAt area · = magic)).length ≤ 1 ∧ p + 8 ≤ area.bytes.length ∧
      sizeAt area p = 0 ∧ magicAt area p ≠ magic ∧ magicAt area p ≠ 0

/-- The area is full of records, of which one is a terminator. -/
def OneTerminator : Prop :=
  ∃ l p, Walk area l area.bytes.length ∧ l.filter (magicAt area · = 0) = [p]

/-! ## Turns -/

variable {area magic} {current next p : Nat} {ctx ctx' : Option Nat} {l : List Nat} {e : End}

theorem readNumber_ok {n : Nat} (fits : p + n ≤ area.bytes.length) :
    readNumber area p n = .ok (numberAt area p n) := if_pos fits

theorem turn_end (done : area.bytes.length ≤ current) :
    turn area magic current ctx = .error (.returned ctx) := if_pos (Nat.not_lt.mpr done)

theorem turn_noHeader (inside : current < area.bytes.length)
    (short : area.bytes.length < current + 8) :
    turn area magic current ctx = .error (.fatal "Not enough space for header.") := by
  unfold turn
  rw [if_neg (not_not.mpr inside), if_pos (by omega)]

theorem turn_header (header : current + 8 ≤ area.bytes.length) :
    turn area magic current ctx =
      if sizeAt area current > area.bytes.length - current then
        .error (.fatal "Not enough space for body.")
      else if magicAt area current = magic then
        if ctx.isSome then .error (.fatal "Found two contexts with the same magic.")
        else .ok (current + sizeAt area current, some current)
      else if magicAt area current = 0 then .error (.returned ctx)
      else .ok (current + sizeAt area current, ctx) := by
  unfold turn
  rw [if_neg (by omega), if_neg (by omega), readNumber_ok (by omega), readNumber_ok (by omega)]
  rfl

theorem turn_noBody (header : current + 8 ≤ area.bytes.length)
    (short : area.bytes.length < current + sizeAt area current) :
    turn area magic current ctx = .error (.fatal "Not enough space for body.") := by
  rw [turn_header header, if_pos (by omega)]

theorem turn_match (inside : Inside area current) (found : magicAt area current = magic) :
    turn area magic current ctx =
      if ctx.isSome then .error (.fatal "Found two contexts with the same magic.")
      else .ok (current + sizeAt area current, some current) := by
  rw [turn_header inside.1, if_neg (by have := inside.2; omega), if_pos found]

theorem turn_terminator (inside : Inside area current) (other : magicAt area current ≠ magic)
    (zero : magicAt area current = 0) :
    turn area magic current ctx = .error (.returned ctx) := by
  rw [turn_header inside.1, if_neg (by have := inside.2; omega), if_neg other, if_pos zero]

theorem turn_skip (inside : Inside area current) (other : magicAt area current ≠ magic)
    (nonzero : magicAt area current ≠ 0) :
    turn area magic current ctx = .ok (current + sizeAt area current, ctx) := by
  rw [turn_header inside.1, if_neg (by have := inside.2; omega), if_neg other, if_neg nonzero]

/-- All that a turn can do. -/
inductive Turns (area : Reserved) (magic : BitVec 32) (current : Nat) (ctx : Option Nat) :
    Except End (Nat × Option Nat) → Prop where
  | done (all : area.bytes.length ≤ current) : Turns area magic current ctx (.error (.returned ctx))
  | fatal (message : String) : Turns area magic current ctx (.error (.fatal message))
  | terminator (inside : Inside area current) (other : magicAt area current ≠ magic)
      (zero : magicAt area current = 0) : Turns area magic current ctx (.error (.returned ctx))
  | found (inside : Inside area current) (found : magicAt area current = magic)
      (first : ctx = none) :
      Turns area magic current ctx (.ok (current + sizeAt area current, some current))
  | skip (inside : Inside area current) (other : magicAt area current ≠ magic)
      (nonzero : magicAt area current ≠ 0) :
      Turns area magic current ctx (.ok (current + sizeAt area current, ctx))

theorem turn_turns (area : Reserved) (magic : BitVec 32) (current : Nat) (ctx : Option Nat) :
    Turns area magic current ctx (turn area magic current ctx) := by
  rcases Nat.lt_or_ge current area.bytes.length with inside | all
  · rcases Nat.lt_or_ge area.bytes.length (current + 8) with short | header
    · rw [turn_noHeader inside short]
      exact .fatal _
    · rcases Nat.lt_or_ge area.bytes.length (current + sizeAt area current) with short | body
      · rw [turn_noBody header short]
        exact .fatal _
      · by_cases found : magicAt area current = magic
        · rw [turn_match ⟨header, body⟩ found]
          cases ctx with
          | none => exact .found ⟨header, body⟩ found rfl
          | some p => exact .fatal _
        · by_cases zero : magicAt area current = 0
          · rw [turn_terminator ⟨header, body⟩ found zero]
            exact .terminator ⟨header, body⟩ found zero
          · rw [turn_skip ⟨header, body⟩ found zero]
            exact .skip ⟨header, body⟩ found zero
  · rw [turn_end all]
    exact .done all

theorem turn_ok (step : turn area magic current ctx = .ok (next, ctx')) :
    Inside area current ∧ next = current + sizeAt area current ∧
      (magicAt area current = magic ∧ ctx = none ∧ ctx' = some current ∨
        magicAt area current ≠ magic ∧ magicAt area current ≠ 0 ∧ ctx' = ctx) := by
  have cases := turn_turns area magic current ctx
  rw [step] at cases
  cases cases with
  | found inside found first => exact ⟨inside, rfl, .inl ⟨found, first, rfl⟩⟩
  | skip inside other nonzero => exact ⟨inside, rfl, .inr ⟨other, nonzero, rfl⟩⟩

/-! ## States -/

/-- The records that the loop has passed. -/
def Passed (area : Reserved) (magic : BitVec 32) (l : List Nat) (current : Nat)
    (ctx : Option Nat) : Prop :=
  Walk area l current ∧ (∀ r ∈ l, magicAt area r = magic ∨ magicAt area r ≠ 0) ∧
    l.filter (magicAt area · = magic) = ctx.toList

theorem Walk.le (walk : Walk area l p) : p ≤ area.bytes.length := by
  cases walk with
  | start => exact Nat.zero_le _
  | record _ inside => exact inside.2

theorem Walk.inside (walk : Walk area l p) {r : Nat} (member : r ∈ l) : Inside area r := by
  induction walk with
  | start => cases member
  | record before inside ih =>
    rcases List.mem_append.mp member with earlier | last
    · exact ih earlier
    · rw [List.mem_singleton.mp last]
      exact inside

/-- **The loop has passed the records of a walk**, of which it remembers the one that it looks
for. -/
theorem Reaches.passed (reached : Reaches area magic current ctx) :
    ∃ l, Passed area magic l current ctx := by
  induction reached with
  | start => exact ⟨[], .start, by simp, rfl⟩
  | @next current next ctx ctx' before step ih =>
    obtain ⟨l, walk, kinds, found⟩ := ih
    obtain ⟨inside, rfl, ⟨same, rfl, rfl⟩ | ⟨other, nonzero, rfl⟩⟩ := turn_ok step
    · refine ⟨l ++ [current], .record walk inside, ?_, ?_⟩
      · intro r member
        rcases List.mem_append.mp member with earlier | last
        · exact kinds r earlier
        · rw [List.mem_singleton.mp last]
          exact .inl same
      · rw [List.filter_append, found]
        simp [same]
    · refine ⟨l ++ [current], .record walk inside, ?_, ?_⟩
      · intro r member
        rcases List.mem_append.mp member with earlier | last
        · exact kinds r earlier
        · rw [List.mem_singleton.mp last]
          exact .inr nonzero
      · rw [List.filter_append, found]
        simp [other]

/-- It passes the records of a walk with at most one that it looks for. -/
theorem reaches_of_walk (walk : Walk area l current)
    (kinds : ∀ r ∈ l, magicAt area r = magic ∨ magicAt area r ≠ 0)
    (found : l.filter (magicAt area · = magic) = ctx.toList) : Reaches area magic current ctx := by
  induction walk generalizing ctx with
  | start =>
    cases ctx with
    | none => exact .start
    | some p => cases found
  | @record l p before inside ih =>
    have kinds' : ∀ r ∈ l, magicAt area r = magic ∨ magicAt area r ≠ 0 :=
      fun r member => kinds r (List.mem_append_left [p] member)
    rw [List.filter_append] at found
    by_cases same : magicAt area p = magic
    · have alone : l.filter (magicAt area · = magic) ++ [p] = ctx.toList := by
        simpa [same] using found
      cases ctx with
      | none => simp at alone
      | some q =>
        have ends : l.filter (magicAt area · = magic) ++ [p] = [] ++ [q] := alone
        obtain ⟨empty, last⟩ := List.append_inj' ends rfl
        cases last
        have step : turn area magic p none = .ok (p + sizeAt area p, some p) :=
          turn_match inside same
        exact .next (@ih none kinds' empty) step
    · have nonzero : magicAt area p ≠ 0 := by
        rcases kinds p (by simp) with eq | nonzero
        · exact absurd eq same
        · exact nonzero
      have rest : l.filter (magicAt area · = magic) = ctx.toList := by
        simpa [same] using found
      exact .next (ih kinds' rest) (turn_skip inside same nonzero)

/-! ## Runs -/

theorem findLoop_of_reaches (reached : Reaches area magic current ctx)
    (forever : ∀ turns, findLoop area magic turns current ctx = none) (turns : Nat) :
    findContext area magic turns = none := by
  induction reached generalizing turns with
  | start => exact forever turns
  | @next current next ctx ctx' before step ih =>
    apply ih
    intro turns
    cases turns with
    | zero => rfl
    | succ turns =>
      rw [findLoop, step]
      exact forever turns

/-- How a run ends is how the turn of a state that it reaches ends. -/
theorem reaches_of_findLoop {turns : Nat} (reached : Reaches area magic current ctx)
    (run : findLoop area magic turns current ctx = some e) :
    ∃ last ctx', Reaches area magic last ctx' ∧ turn area magic last ctx' = .error e := by
  induction turns generalizing current ctx with
  | zero => cases run
  | succ turns ih =>
    unfold findLoop at run
    split at run
    · next step => exact ih (.next reached step) run
    · next step =>
      cases run
      exact ⟨current, ctx, reached, step⟩

theorem returned_of_reaches (reached : Reaches area magic current ctx)
    (stop : turn area magic current ctx = .error e) :
    ∃ turns, findContext area magic turns = some e := by
  obtain ⟨turns, run⟩ : ∃ turns, findLoop area magic turns current ctx = some e :=
    ⟨1, by rw [findLoop, stop]⟩
  clear stop
  induction reached generalizing turns with
  | start => exact ⟨turns, run⟩
  | @next current next ctx ctx' before step ih =>
    apply ih (turns + 1)
    rw [findLoop, step]
    exact run

/-- A record without a size holds the loop. -/
theorem stuck_forever (stuck : Stuck area magic) (turns : Nat) :
    findContext area magic turns = none := by
  obtain ⟨l, p, walk, kinds, few, header, empty, other, nonzero⟩ := stuck
  have body : p + sizeAt area p ≤ area.bytes.length := by omega
  have still (ctx : Option Nat) : turn area magic p ctx = .ok (p, ctx) := by
    rw [turn_skip ⟨header, body⟩ other nonzero, empty, Nat.add_zero]
  obtain ⟨ctx, found⟩ : ∃ ctx : Option Nat, l.filter (magicAt area · = magic) = ctx.toList := by
    match found : l.filter (magicAt area · = magic), few with
    | [], _ => exact ⟨none, rfl⟩
    | [q], _ => exact ⟨some q, rfl⟩
  apply findLoop_of_reaches (reaches_of_walk walk kinds found)
  intro turns
  induction turns with
  | zero => rfl
  | succ turns ih =>
    rw [findLoop, still]
    exact ih

/-- What is left to walk over; the record that is looked for may be met once without progress. -/
def remaining (area : Reserved) (current : Nat) (ctx : Option Nat) : Nat :=
  2 * (area.bytes.length - current) + if ctx.isNone then 1 else 0

theorem remaining_lt (progress : ¬ Stuck area magic) (reached : Reaches area magic current ctx)
    (step : turn area magic current ctx = .ok (next, ctx')) :
    remaining area next ctx' < remaining area current ctx := by
  obtain ⟨inside, rfl, ⟨same, rfl, rfl⟩ | ⟨other, nonzero, rfl⟩⟩ := turn_ok step
  · have body := inside.2
    simp only [remaining, Option.isNone_none, Option.isNone_some, if_true]
    rw [if_neg (by decide)]
    omega
  · have size : sizeAt area current ≠ 0 := by
      intro empty
      obtain ⟨l, walk, kinds, found⟩ := reached.passed
      refine progress ⟨l, current, walk, kinds, ?_, inside.1, empty, other, nonzero⟩
      rw [found]
      cases ctx' with
      | none => exact Nat.zero_le 1
      | some p => exact Nat.le_refl 1
    have body := inside.2
    have header := inside.1
    unfold remaining
    omega

theorem findLoop_ends (progress : ¬ Stuck area magic) (reached : Reaches area magic current ctx) :
    ∃ turns, (findLoop area magic turns current ctx).isSome := by
  induction left : remaining area current ctx using Nat.strongRecOn generalizing current ctx with
  | ind left' ih =>
    cases step : turn area magic current ctx with
    | error e =>
      refine ⟨1, ?_⟩
      rw [findLoop, step]
      rfl
    | ok state =>
      obtain ⟨next, ctx'⟩ := state
      have less := remaining_lt progress reached step
      rw [left] at less
      obtain ⟨turns, ends⟩ := ih _ less (.next reached step) rfl
      refine ⟨turns + 1, ?_⟩
      rw [findLoop, step]
      exact ends

theorem reaches_inside (reached : Reaches area magic current ctx) :
    turn area magic current ctx ≠ .error .outside ∧ current ≤ area.bytes.length ∧
      ∀ p, ctx = some p → Inside area p := by
  obtain ⟨l, walk, kinds, found⟩ := reached.passed
  refine ⟨?_, walk.le, ?_⟩
  · intro outside
    have cases := turn_turns area magic current ctx
    rw [outside] at cases
    cases cases
  · rintro p rfl
    have member : p ∈ l.filter (magicAt area · = magic) := by
      rw [found]
      exact List.mem_singleton_self p
    exact walk.inside (List.mem_filter.mp member).1

/-- A normal end answers, unless it took the terminator for the record. -/
theorem returned_answers {turns : Nat}
    (run : findContext area magic turns = some (.returned ctx)) :
    Answers area magic ctx ∨ magic = 0 ∧ OneTerminator area := by
  obtain ⟨last, ctx', reached, stop⟩ := reaches_of_findLoop .start run
  obtain ⟨l, walk, kinds, found⟩ := reached.passed
  have cases := turn_turns area magic last ctx'
  rw [stop] at cases
  cases cases with
  | done all =>
    have full : last = area.bytes.length := Nat.le_antisymm walk.le all
    by_cases zero : magic = 0
    · subst zero
      cases ctx with
      | none =>
        left
        refine ⟨l, ⟨last, walk, ?_, .inl full⟩, found⟩
        intro r member
        have out := List.filter_eq_nil_iff.mp found r member
        simpa using out
      | some p =>
        right
        exact ⟨rfl, l, p, full ▸ walk, found⟩
    · left
      refine ⟨l, ⟨last, walk, ?_, .inl full⟩, found⟩
      intro r member
      rcases kinds r member with same | nonzero
      · rwa [same]
      · exact nonzero
  | terminator inside other zero =>
    left
    refine ⟨l, ⟨last, walk, ?_, .inr ⟨inside.1, zero⟩⟩, found⟩
    intro r member
    rcases kinds r member with same | nonzero
    · rw [same]
      intro eq
      exact other (zero.trans eq.symm)
    · exact nonzero

/-- **`FindContext` does its part exactly if no record without a size holds it**, and the
magic, if it is that of the terminator, is not met exactly once. -/
theorem finds_iff (area : Reserved) (magic : BitVec 32) :
    Finds area magic ↔ ¬ Stuck area magic ∧ ¬ (magic = 0 ∧ OneTerminator area) := by
  constructor
  · intro finds
    constructor
    · intro stuck
      obtain ⟨turns, ends⟩ := finds.ends
      rw [stuck_forever stuck turns] at ends
      cases ends
    · rintro ⟨rfl, l, p, walk, found⟩
      have kinds : ∀ r ∈ l, magicAt area r = 0 ∨ magicAt area r ≠ 0 := fun r _ => em _
      have reached : Reaches area 0 area.bytes.length (some p) := reaches_of_walk walk kinds found
      obtain ⟨turns, run⟩ := returned_of_reaches reached (turn_end (Nat.le_refl _))
      obtain ⟨l', ⟨-, -, nonzero, -⟩, found'⟩ := finds.answers turns (some p) run
      have member : p ∈ l'.filter (magicAt area · = 0) := by
        rw [found']
        exact List.mem_singleton_self p
      obtain ⟨inside, zero⟩ := List.mem_filter.mp member
      exact nonzero p inside (by simpa using zero)
  · rintro ⟨progress, plain⟩
    constructor
    · exact findLoop_ends progress .start
    · exact fun current ctx reached => reaches_inside reached
    · intro turns ctx run
      rcases returned_answers run with answers | wrong
      · exact answers
      · exact absurd wrong plain

/-- A record whose first word is no terminator, and which has no size. -/
def emptyRecordArea : Reserved :=
  ⟨1 :: List.replicate 4095 0, by rw [List.length_cons, List.length_replicate]⟩

theorem finds_emptyRecord_not : ¬ Finds emptyRecordArea fpsimdMagic := by
  intro finds
  obtain ⟨turns, ends⟩ := finds.ends
  have header : 0 + 8 ≤ emptyRecordArea.bytes.length := by
    rw [emptyRecordArea.size]
    decide
  have stuck : Stuck emptyRecordArea fpsimdMagic :=
    ⟨[], 0, .start, by simp, by simp, header, rfl, by decide, by decide⟩
  rw [stuck_forever stuck turns] at ends
  cases ends

/-! ## Conversions -/

theorem findContext_ne_outside (area : Reserved) (magic : BitVec 32) (turns : Nat) :
    findContext area magic turns ≠ some .outside := by
  intro run
  obtain ⟨last, ctx, reached, stop⟩ := reaches_of_findLoop .start run
  exact (reaches_inside reached).1 stop

/-- What is returned is in the area. -/
theorem returned_inside {turns : Nat}
    (run : findContext area magic turns = some (.returned (some p))) : Inside area p := by
  obtain ⟨last, ctx, reached, stop⟩ := reaches_of_findLoop .start run
  have cases := turn_turns area magic last ctx
  rw [stop] at cases
  cases cases with
  | done => exact (reaches_inside reached).2.2 p rfl
  | terminator => exact (reaches_inside reached).2.2 p rfl

/-- The reads of `x` are in the area. -/
def Within {α : Type} (x : Except End α) : Prop := Yields x (fun _ => True) (· ≠ .outside)

theorem readNumber_within {n : Nat} (fits : p + n ≤ area.bytes.length) :
    Yields (readNumber area p n) (numberAt area p n = ·) (· ≠ .outside) := by
  rw [readNumber_ok fits]
  exact rfl

/-- A use that stays within the record that is found stays in the area. -/
theorem withContext_ne_outside {α : Type} {use : Option Nat → Except End α} {turns : Nat}
    (null : Within (use none)) (body : ∀ p, Inside area p → Within (use (some p))) :
    withContext area magic turns use ≠ some (.error .outside) := by
  unfold withContext
  intro outside
  obtain ⟨e, run, result⟩ := Option.map_eq_some_iff.mp outside
  have within {x : Except End α} (h : Within x) : x ≠ .error .outside := by
    rintro rfl
    exact h rfl
  cases e with
  | outside => exact findContext_ne_outside area magic turns run
  | fatal message => cases result
  | returned ctx =>
    cases ctx with
    | none => exact within null result
    | some p => exact within (body p (returned_inside run)) result

theorem fpsimd_within (inside : Inside area p) (size : sizeAt area p = 528) :
    Within (do
      let v ← (List.range 32).mapM fun i => readNumber area (p + 16 + 16 * i) 16
      let fpsr ← readNumber area (p + 8) 4
      let fpcr ← readNumber area (p + 12) 4
      return (⟨v, fpsr, fpcr⟩ : FPRegs)) := by
  have body := inside.2
  rw [size] at body
  apply yields_bind
  · apply yields_mapM
    intro i below
    have small := List.mem_range.mp below
    exact readNumber_within (by omega)
  · intro v _
    apply yields_bind (readNumber_within (by omega))
    intro fpsr _
    apply yields_bind (readNumber_within (by omega))
    intro fpcr _
    exact trivial

/-- **No conversion reads outside of the area.** -/
theorem conversions_ne_outside (area : Reserved) (turns : Nat) :
    convertFPRegsFromLibC area turns ≠ some (.error .outside) ∧
      convertSignalRegsFromLibC area turns ≠ some (.error .outside) := by
  constructor
  · apply withContext_ne_outside
    · exact fun outside => by cases outside
    · intro p inside
      have header := inside.1
      apply yields_bind (readNumber_within (by omega))
      rintro _ rfl
      split
      · exact fun outside => by cases outside
      · next size => exact fpsimd_within inside (not_not.mp size)
  · apply withContext_ne_outside
    · exact trivial
    · intro p inside
      have header := inside.1
      have body := inside.2
      apply yields_bind (readNumber_within (by omega))
      rintro _ rfl
      split
      · exact fun outside => by cases outside
      · next size =>
        change ¬ sizeAt area p ≠ 16 at size
        exact yields_post (readNumber_within (by omega)) fun _ _ => trivial

end Silifuzz.Signal
