import Mathlib.Algebra.Ring.Int.Defs
import Silifuzz.Library.Segments

/-!
# RangeMap

`RangeMap<Key, Value, Methods>` of `util/range_map.h`. The `std::map` from key
ranges to values is the list of its entries in key order, and an iterator is a
position in that list, with `m.length` for `end()`:

* `lowerBound`, `upperBound`, `find`: the `std::map` searches by `(k, k)`;
* `change`: `Change()`, the loop over the entries a range overlaps; an entry is
  replaced in place by the records its case emplaces or keeps, because each of
  these sorts next to the entry it comes from;
* `merge`: `Merge()` over an iterator range;
* `changeRangeMap`, `changeEach`, `addIntersectionOf`, `addDifferenceOf`;
* `findAt`, `covers`: what the map has at a key, or on a range.

A failed `CHECK` is `none`. What an operation adds to `*usage` is carried as
`usage`, and a pointer to `nullptr` there changes nothing else. The operations
that return nothing leave `result` unread.
-/

namespace Silifuzz

open Segments

/-- What `AddTo` or `RemoveFrom` leaves: `*dest`, the returned `bool`, and `*empty`. -/
structure Update (V : Type) where
  dest : V
  ok : Bool
  empty : Bool

/-- The static methods of a `Methods` class; `none` is `*empty` set to true. -/
structure Methods (K V : Type) where
  slice : K → K → V → K → K → V
  addTo : V → V → Update V
  removeFrom : V → V → Update V
  canMerge : V → V → Bool
  merge : V → V → V
  makeIntersection : V → V → Option V
  makeDifference : V → V → Option V
  usage : Segment K V → Int

inductive ChangeMode where
  | add
  | remove
  deriving DecidableEq, Repr

abbrev RangeMap (K V : Type) := List (Segment K V)

/-- A map after an operation, the operation's result and the change of `*usage`. -/
structure Changed (K V : Type) where
  map : RangeMap K V
  result : Bool
  usage : Int

namespace RangeMap

variable {K V : Type} [LinearOrder K] (M : Methods K V)

/-- `key_compare`: by start, then by limit. -/
def keyLess (x y : K × K) : Bool := decide (x.1 < y.1) || (x.1 == y.1 && decide (x.2 < y.2))

def usageOf (m : RangeMap K V) : Int := (m.map M.usage).sum

def lowerBound (m : RangeMap K V) (k : K) : Nat :=
  let i := m.findIdx fun s => !keyLess (s.start, s.limit) (k, k)
  if i ≠ 0 then
    match m[i - 1]? with
    | some p => if p.limit > k then i - 1 else i
    | none => i
  else i

def upperBound (m : RangeMap K V) (k : K) : Nat :=
  m.findIdx fun s => keyLess (k, k) (s.start, s.limit)

def find (m : RangeMap K V) (start limit : K) : Option (Nat × Nat) :=
  if start ≤ limit then
    if start = limit then some (m.length, m.length)
    else some (lowerBound m start, upperBound m limit)
  else none

/-- The entries of an iterator range. -/
def range (m : RangeMap K V) (r : Nat × Nat) : List (Segment K V) := (m.take r.2).drop r.1

def findAt (m : RangeMap K V) (key : K) : Option (Segment K V) :=
  let i := m.findIdx fun s => keyLess (key, key) (s.start, s.limit)
  match m[i]? with
  | some s => if s.start = key then some s else before i
  | none => before i
where
  before (i : Nat) : Option (Segment K V) :=
    if i = 0 then none
    else m[i - 1]?.bind fun s => if s.limit ≤ key then none else some s

/-- `Covers`'s loop from `prev` on; the accumulator's captures are the state `σ`. -/
def coversLoop {σ : Type} (limit : K) (accumulator : σ → Segment K V → Bool × σ) (prev : K)
    (result : Bool) (acc : σ) : List (Segment K V) → Bool × σ
  | [] => (if prev < limit then false else result, acc)
  | i :: rest =>
    let result := if i.start > prev then false else result
    let a := accumulator acc i
    coversLoop limit accumulator i.limit (if a.1 then result else false) a.2 rest

def covers {σ : Type} (m : RangeMap K V) (start limit : K)
    (accumulator : σ → Segment K V → Bool × σ) (acc : σ) : Option (Bool × σ) := do
  let r ← find m start limit
  if (range m r).isEmpty then return (decide (start = limit), acc)
  else return coversLoop limit accumulator start true acc (range m r)

/-- `Merge`'s loop: `prev`, and the entries `iter` has still to pass. -/
def mergeLoop (prev : Segment K V) : List (Segment K V) → RangeMap K V × Int
  | [] => ([prev], 0)
  | iter :: rest =>
    if prev.limit = iter.start ∧ M.canMerge prev.value iter.value = true then
      let merged : Segment K V := ⟨prev.start, iter.limit, M.merge prev.value iter.value⟩
      let next := mergeLoop merged rest
      (next.1, next.2 - M.usage prev - M.usage iter + M.usage merged)
    else
      let next := mergeLoop iter rest
      (prev :: next.1, next.2)

def merge (m : RangeMap K V) (r : Nat × Nat) : RangeMap K V × Int :=
  let second := if r.2 ≠ m.length then r.2 + 1 else r.2
  -- at `begin()` the first entry itself is `prev`, and an empty range has no pairs
  let prev := if r.1 ≠ 0 then r.1 - 1 else 0
  match range m (prev, second) with
  | [] => (m, 0)
  | p :: rest =>
    let merged := mergeLoop M p rest
    (m.take prev ++ merged.1 ++ m.drop second, merged.2)

/-- The value left in a record, `none` when the record is to be erased, and `*result`. -/
def changeValue (mode : ChangeMode) (dest value : V) (result : Bool) : Option V × Bool :=
  match mode with
  | .add =>
    let u := M.addTo dest value
    (if u.empty then none else some u.dest, if u.ok then true else result)
  | .remove =>
    let u := M.removeFrom dest value
    (if u.empty then none else some u.dest, if u.ok then result else false)

/-- The record `[s, l)` holding `dest`, after `ChangeValue`. -/
def changeRecord (mode : ChangeMode) (s l : K) (dest value : V) (result : Bool) : Changed K V :=
  match changeValue M mode dest value result with
  | (some v, result) => ⟨[⟨s, l, v⟩], result, M.usage ⟨s, l, v⟩⟩
  | (none, result) => ⟨[], result, 0⟩

/-- The part `[s, l)` of the entry `i`. -/
def sliceOf (i : Segment K V) (s l : K) : Segment K V :=
  ⟨s, l, M.slice i.start i.limit i.value s l⟩

/-- `Change` on the keys `[s, l)` that no entry holds. -/
def changeGap (mode : ChangeMode) (start limit : K) (value : V) (s l : K) (result : Bool) :
    Changed K V :=
  if s < l then
    match mode with
    | .add =>
      let n : Segment K V := ⟨s, l, M.slice start limit value s l⟩
      ⟨[n], true, M.usage n⟩
    | .remove => ⟨[], false, 0⟩
  else ⟨[], result, 0⟩

/-- `Change` on one entry that the range overlaps, by the part it covers. -/
def changeEntry (mode : ChangeMode) (start limit : K) (value : V) (prevStart : K)
    (i : Segment K V) (result : Bool) : Changed K V :=
  if prevStart ≤ i.start ∧ i.limit ≤ limit then
    -- all of the entry
    let v := M.slice start limit value i.start i.limit
    let n := changeRecord M mode i.start i.limit i.value v result
    ⟨n.map, n.result, n.usage - M.usage i⟩
  else if prevStart ≤ i.start ∧ limit < i.limit then
    -- a prefix
    let v := M.slice start limit value i.start limit
    let n := changeRecord M mode i.start limit (sliceOf M i i.start limit).value v result
    let v₂ := sliceOf M i limit i.limit
    ⟨n.map ++ [v₂], n.result, n.usage + M.usage v₂ - M.usage i⟩
  else if i.start < prevStart ∧ limit < i.limit then
    -- a subrange, the whole of `[start, limit)`, so `value` is not sliced
    let v₁ := sliceOf M i i.start start
    let n := changeRecord M mode start limit (sliceOf M i start limit).value value result
    let v₃ := sliceOf M i limit i.limit
    ⟨[v₁] ++ n.map ++ [v₃], n.result, M.usage v₁ + n.usage + M.usage v₃ - M.usage i⟩
  else
    -- a suffix
    let v₁ := sliceOf M i i.start start
    let v := M.slice start limit value start i.limit
    let n := changeRecord M mode start i.limit (sliceOf M i start i.limit).value v result
    ⟨[v₁] ++ n.map, n.result, M.usage v₁ + n.usage - M.usage i⟩

/-- `Change`'s loop over the entries of the range, and the gap left after the last one. -/
def changeLoop (mode : ChangeMode) (start limit : K) (value : V) (prevStart : K)
    (result : Bool) : List (Segment K V) → Changed K V
  | [] => changeGap M mode start limit value prevStart limit result
  | i :: rest =>
    let gap := changeGap M mode start limit value prevStart i.start result
    let cur := changeEntry M mode start limit value prevStart i gap.result
    let next := changeLoop mode start limit value i.limit cur.result rest
    ⟨gap.map ++ cur.map ++ next.map, next.result, gap.usage + cur.usage + next.usage⟩

def change (m : RangeMap K V) (start limit : K) (value : V) (mode : ChangeMode)
    (postMerge : Bool) : Option (Changed K V) := do
  guard (start < limit)
  let r ← find m start limit
  let c := changeLoop M mode start limit value start (mode = .remove) (range m r)
  let changed := m.take r.1 ++ c.map ++ m.drop r.2
  if postMerge then
    let merged := merge M changed (← find changed start limit)
    return ⟨merged.1, c.result, c.usage + merged.2⟩
  else
    return ⟨changed, c.result, c.usage⟩

/-- `Change` as a later step of a loop over ranges. -/
def Changed.change (c : Changed K V) (s : Segment K V) (mode : ChangeMode) (postMerge : Bool) :
    Option (Changed K V) := do
  let n ← RangeMap.change M c.map s.start s.limit s.value mode postMerge
  return ⟨n.map, match mode with | .add => n.result || c.result | .remove => n.result && c.result,
    c.usage + n.usage⟩

def changeRangeMap (m rangeMap : RangeMap K V) (mode : ChangeMode) (postMerge : Bool) :
    Option (Changed K V) :=
  rangeMap.foldlM (fun c i => Changed.change M c i mode postMerge) ⟨m, mode = .remove, 0⟩

/-- `ChangeEach`'s loop over all entries, with no gaps and no partial cover. -/
def changeEachLoop (mode : ChangeMode) (start limit : K) (value : V) (result : Bool) :
    List (Segment K V) → Changed K V
  | [] => ⟨[], result, 0⟩
  | i :: rest =>
    let v := M.slice start limit value i.start i.limit
    let n := changeRecord M mode i.start i.limit i.value v result
    let next := changeEachLoop mode start limit value n.result rest
    ⟨n.map ++ next.map, next.result, n.usage - M.usage i + next.usage⟩

def changeEach (m : RangeMap K V) (value : V) (mode : ChangeMode) : Changed K V :=
  match m.head?, m.getLast? with
  | some first, some last =>
    let c := changeEachLoop M mode first.start last.limit value (mode = .remove) m
    let merged := merge M c.map (0, c.map.length)
    ⟨merged.1, c.result, c.usage + merged.2⟩
  | _, _ => ⟨m, mode = .remove, 0⟩

/-- The part of the entry `i` inside `[start, limit)`. -/
def clip (start limit : K) (i : Segment K V) : Segment K V :=
  sliceOf M i (if start < i.start then i.start else start)
    (if i.limit < limit then i.limit else limit)

/-- The body of `AddIntersectionOf`'s loop, for the entry `i` of `map_x`. -/
def intersectEntry (start limit : K) (valueY : V) (postMerge : Bool) (c : Changed K V)
    (i : Segment K V) : Option (Changed K V) :=
  let p := clip M start limit i
  match M.makeIntersection p.value (M.slice start limit valueY p.start p.limit) with
  | none => some c
  | some v => Changed.change M c ⟨p.start, p.limit, v⟩ .add postMerge

/-- `AddIntersectionOf` of a map and one range. -/
def addIntersectionOf (c : Changed K V) (x : RangeMap K V) (start limit : K) (valueY : V)
    (postMerge : Bool) : Option (Changed K V) := do
  let r ← find x start limit
  (range x r).foldlM (intersectEntry M start limit valueY postMerge) c

/-- `AddIntersectionOf` of two maps. -/
def addIntersectionOfMaps (m x y : RangeMap K V) (postMerge : Bool) : Option (Changed K V) :=
  y.foldlM (fun c i => addIntersectionOf M c x i.start i.limit i.value postMerge) ⟨m, false, 0⟩

/-- `Add` of the part `[s, l)` of `[start, limit) ↦ valueX` when it is not empty. -/
def addGap (c : Changed K V) (start limit : K) (valueX : V) (s l : K) (postMerge : Bool) :
    Option (Changed K V) :=
  if s < l then Changed.change M c ⟨s, l, M.slice start limit valueX s l⟩ .add postMerge
  else some c

/-- The part of `[start, limit) ↦ valueX` that the entry `i` of `map_y` overlaps. -/
def subtractEntry (start limit : K) (valueX : V) (postMerge : Bool) (c : Changed K V)
    (i : Segment K V) : Option (Changed K V) :=
  let p := clip M start limit i
  match M.makeDifference (M.slice start limit valueX p.start p.limit) p.value with
  | none => some c
  | some v => Changed.change M c ⟨p.start, p.limit, v⟩ .add postMerge

/-- `AddDifferenceOf`'s loop over the entries of `map_y`; `prev` is where the last one ended. -/
def addDifferenceLoop (start limit : K) (valueX : V) (postMerge : Bool) (prev : K)
    (c : Changed K V) : List (Segment K V) → Option (Changed K V)
  | [] => addGap M c start limit valueX prev limit postMerge
  | i :: rest => do
    let c ← subtractEntry M start limit valueX postMerge c i
    let c ← addGap M c start limit valueX prev i.start postMerge
    addDifferenceLoop start limit valueX postMerge i.limit c rest

/-- `AddDifferenceOf` of one range and a map. -/
def addDifferenceOf (c : Changed K V) (start limit : K) (valueX : V) (y : RangeMap K V)
    (postMerge : Bool) : Option (Changed K V) := do
  let r ← find y start limit
  addDifferenceLoop M start limit valueX postMerge start c (range y r)

/-- `AddDifferenceOf` of two maps. -/
def addDifferenceOfMaps (m x y : RangeMap K V) (postMerge : Bool) : Option (Changed K V) :=
  x.foldlM (fun c i => addDifferenceOf M c i.start i.limit i.value y postMerge) ⟨m, false, 0⟩

end RangeMap

end Silifuzz
