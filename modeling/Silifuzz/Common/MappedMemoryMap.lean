import Silifuzz.Common.MemoryPerms
import Silifuzz.Util.RangeMap

/-!
# MappedMemoryMap

A map from address ranges to `MemoryPerms` (`common/mapped_memory_map.cc`): a
`RangeMap` with the methods of `MemoryPermsMethods`. A `DCHECK` is not compiled
into the release build and is no check here.
-/

namespace Silifuzz

open Segments

abbrev Address := Nat

/-- `MemoryPermsMethods`. The size of an entry is a constant of the platform. -/
def memoryPermsMethods : Methods Address MemoryPerms where
  slice _ _ v _ _ := v
  addTo dest v := ⟨dest.add v, !dest.hasAllOf v, false⟩
  removeFrom dest v := ⟨dest.clear v, true, (dest.clear v).isEmpty⟩
  canMerge v₁ v₂ := v₁ = v₂
  merge dest _ := dest
  makeIntersection v₁ v₂ :=
    if (v₁.intersect v₂).isEmpty then none else some (v₁.intersect v₂)
  makeDifference v₁ v₂ := if v₁ = v₂ then none else some (v₁.clear v₂)
  usage _ := 24

structure MappedMemoryMap where
  rep : RangeMap Address MemoryPerms
  deriving DecidableEq, Repr

namespace MappedMemoryMap

def empty : MappedMemoryMap := ⟨[]⟩

def isEmpty (m : MappedMemoryMap) : Bool := m.rep.isEmpty

/-- `rep_.Add` and `rep_.Remove`. -/
def change (m : MappedMemoryMap) (start limit : Address) (perms : MemoryPerms)
    (mode : ChangeMode) : Option MappedMemoryMap :=
  (RangeMap.change memoryPermsMethods m.rep start limit perms mode true).map (⟨·.map⟩)

def add (m : MappedMemoryMap) (start limit : Address) (perms : MemoryPerms) :
    Option MappedMemoryMap := m.change start limit perms .add

def addMap (m y : MappedMemoryMap) : Option MappedMemoryMap :=
  (RangeMap.changeRangeMap memoryPermsMethods m.rep y.rep .add true).map (⟨·.map⟩)

def addNew (m : MappedMemoryMap) (start limit : Address) (perms : MemoryPerms) :
    Option MappedMemoryMap := m.add start limit perms

def set (m : MappedMemoryMap) (start limit : Address) (perms : MemoryPerms) :
    Option MappedMemoryMap := do
  let m ← m.change start limit .allPlusMapped .remove
  m.change start limit perms .add

def remove (m : MappedMemoryMap) (start limit : Address)
    (perms : MemoryPerms := .allPlusMapped) : Option MappedMemoryMap :=
  m.change start limit perms .remove

/-- The `for` loop of `RemoveRangesOf` from the entry `r` on. -/
def removeRangesLoop (y : MappedMemoryMap) (perms : MemoryPerms) :
    Nat → MappedMemoryMap → Nat → Option MappedMemoryMap
  | 0, _, _ => none
  | fuel + 1, m, r =>
    match m.rep[r]? with
    | none => some m
    | some s => do
      let found ← RangeMap.find y.rep s.start s.limit
      let m ← (RangeMap.range y.rep found).foldlM (fun m i => m.remove i.start i.limit perms) m
      removeRangesLoop y perms fuel m (RangeMap.lowerBound m.rep s.limit)

/-- `RemoveRangesOf`. Every turn takes `r` past `r_limit`, so the last limit of the
map bounds the number of turns. -/
def removeRangesOf (m y : MappedMemoryMap) (perms : MemoryPerms := .allPlusMapped) :
    Option MappedMemoryMap :=
  removeRangesLoop y perms ((m.rep.getLast?.elim 0 Segment.limit) + 1) m 0

def addIntersectionOf (m x y : MappedMemoryMap) : Option MappedMemoryMap :=
  (RangeMap.addIntersectionOfMaps memoryPermsMethods m.rep x.rep y.rep true).map (⟨·.map⟩)

/-- `AddDifferenceOf` of one range and a map. -/
def addDifferenceOf (m : MappedMemoryMap) (start limit : Address) (perms : MemoryPerms)
    (y : MappedMemoryMap) : Option MappedMemoryMap :=
  (RangeMap.addDifferenceOf memoryPermsMethods ⟨m.rep, false, 0⟩ start limit perms y.rep true).map
    (⟨·.map⟩)

/-- `AddDifferenceOf` of two maps. -/
def addDifferenceOfMaps (m x y : MappedMemoryMap) : Option MappedMemoryMap :=
  (RangeMap.addDifferenceOfMaps memoryPermsMethods m.rep x.rep y.rep true).map (⟨·.map⟩)

/-- What the map says at each address. -/
def read (m : MappedMemoryMap) (address : Address) : Option MemoryPerms :=
  (RangeMap.findAt m.rep address).map Segment.value

def contains (m : MappedMemoryMap) (address : Address) : Bool :=
  (RangeMap.findAt m.rep address).isSome

def permsAt (m : MappedMemoryMap) (address : Address) : MemoryPerms :=
  (RangeMap.findAt m.rep address).elim .none Segment.value

/-- `Contains` of a whole range. -/
def containsRange (m : MappedMemoryMap) (start limit : Address) : Option Bool :=
  (RangeMap.covers m.rep start limit (fun () _ => (true, ())) ()).map Prod.fst

def overlaps (m : MappedMemoryMap) (start limit : Address) : Option Bool :=
  (RangeMap.find m.rep start limit).map fun r => r.1 ≠ r.2

def perms (m : MappedMemoryMap) (start limit : Address) (mode : JoinMode) :
    Option MemoryPerms :=
  if start ≥ limit then some .none
  else do
    let r := match mode with | .kOr => MemoryPerms.none | .kAnd => MemoryPerms.allPlusMapped
    let c ← RangeMap.covers m.rep start limit (fun r i => (true, r.join i.value mode)) r
    return if c.1 then c.2 else c.2.join .none mode

/-- What `Iterate` over a range passes to `func`, in order. -/
def iterate (m : MappedMemoryMap) (start limit : Address) :
    Option (List (Segment Address MemoryPerms)) :=
  (RangeMap.covers m.rep start limit (fun seen i => (true, seen ++ [i])) []).map Prod.snd

end MappedMemoryMap

end Silifuzz
