import Silifuzz.Common.MemoryMapping
import Silifuzz.Util.RangeMap.Unique
import Mathlib.Order.Interval.Finset.Nat

/-!
# MemoryBytesSet

A set of addresses as a `RangeMap` whose values mean nothing
(`common/memory_bytes_set.cc`), and the laws by which it is a set.
-/

namespace Silifuzz

open Segments RangeMap

/-- `MemoryBytesSetMethods`, with `kDummyMappedValue` for every value. -/
def memoryBytesSetMethods : Methods Address Bool where
  slice _ _ v _ _ := v
  addTo _ _ := ⟨false, false, false⟩
  removeFrom _ _ := ⟨false, true, true⟩
  canMerge _ _ := true
  merge _ _ := false
  makeIntersection _ _ := some false
  makeDifference _ _ := none
  usage _ := 24

structure MemoryBytesSet where
  rep : RangeMap Address Bool
  deriving DecidableEq, Repr

namespace MemoryBytesSet

def empty : MemoryBytesSet := ⟨[]⟩

def isEmpty (m : MemoryBytesSet) : Bool := m.rep.isEmpty

def byteSize (m : MemoryBytesSet) : Nat := (m.rep.map fun i => i.limit - i.start).sum

def add (m : MemoryBytesSet) (start limit : Address) : Option MemoryBytesSet :=
  (RangeMap.change memoryBytesSetMethods m.rep start limit false .add true).map (⟨·.map⟩)

def addSet (m y : MemoryBytesSet) : Option MemoryBytesSet :=
  (RangeMap.changeRangeMap memoryBytesSetMethods m.rep y.rep .add true).map (⟨·.map⟩)

def remove (m : MemoryBytesSet) (start limit : Address) : Option MemoryBytesSet :=
  (RangeMap.change memoryBytesSetMethods m.rep start limit false .remove true).map (⟨·.map⟩)

def intersect (m y : MemoryBytesSet) : Option MemoryBytesSet :=
  (RangeMap.addIntersectionOfMaps memoryBytesSetMethods [] m.rep y.rep true).map (⟨·.map⟩)

def isDisjoint (m : MemoryBytesSet) (start limit : Address) : Option Bool :=
  (RangeMap.find m.rep start limit).map fun r => r.1 = r.2

end MemoryBytesSet

/-- A value in the set says only that its addresses are there, and is the dummy one. -/
def memoryBytesSet : Lawful memoryBytesSetMethods Unit where
  view _ _ _ _ := ()
  fits _ _ _ v := v = false
  plus _ _ := some ()
  minus _ _ := none
  inter _ _ := some ()
  diff _ _ := none
  slice_fits fits _ _ _ := fits
  slice_view := by simp
  addTo_fits _ _ _ := rfl
  addTo_view := by simp [memoryBytesSetMethods]
  removeFrom_fits := by simp [memoryBytesSetMethods]
  removeFrom_view := by simp [memoryBytesSetMethods]
  merge_fits _ _ _ _ _ := rfl
  merge_left := by simp
  merge_right := by simp
  intersection_fits := by simp [memoryBytesSetMethods]
  intersection_view := by simp [memoryBytesSetMethods]
  difference_fits := by simp [memoryBytesSetMethods]
  difference_view := by simp [memoryBytesSetMethods]
  canMerge_slice_left := by simp [memoryBytesSetMethods]
  canMerge_slice_right := by simp [memoryBytesSetMethods]
  canMerge_merge_left := by simp [memoryBytesSetMethods]
  canMerge_merge_right := by simp [memoryBytesSetMethods]

theorem memoryBytesSet_extensional : memoryBytesSet.Extensional where
  ext _ hv hw _ := hv.trans hw.symm
  refl _ := rfl

namespace MemoryBytesSet

/-- The ranges are canonical and hold exactly the addresses of `s`. -/
def Represents (m : MemoryBytesSet) (s : Address → Bool) : Prop :=
  memoryBytesSet.Represents m.rep fun k => if s k then some () else none

variable {m y : MemoryBytesSet} {s t : Address → Bool} {start limit : Address}

theorem empty_represents : empty.Represents fun _ => false := Lawful.Represents.nil

theorem Represents.congr (hm : m.Represents s) (e : ∀ k, s k = t k) : m.Represents t :=
  Lawful.Represents.congr hm fun k => by rw [e]

theorem Represents.unique (hm : m.Represents s) (hy : y.Represents s) : m = y := by
  have same : m.rep = y.rep := Lawful.Represents.unique memoryBytesSet_extensional hm hy
  cases m
  cases y
  rw [MemoryBytesSet.mk.injEq]
  exact same

theorem Represents.add_represents (hm : m.Represents s) (h : start < limit) :
    ∃ m', m.add start limit = some m' ∧
      m'.Represents fun k => s k || decide (start ≤ k ∧ k < limit) := by
  obtain ⟨c, run, denotes, canonical⟩ := change_denotes .add false
    hm.toDenotes hm.canonical h rfl
  refine ⟨⟨c.map⟩, by simp [MemoryBytesSet.add, run], denotes.congr fun k => ?_, canonical⟩
  simp only [Lawful.changed]
  by_cases hs : s k = true <;> by_cases hk : start ≤ k ∧ k < limit <;>
    simp [hs, hk, Lawful.combine, memoryBytesSet]

theorem Represents.remove_represents (hm : m.Represents s) (h : start < limit) :
    ∃ m', m.remove start limit = some m' ∧
      m'.Represents fun k => s k && !decide (start ≤ k ∧ k < limit) := by
  obtain ⟨c, run, denotes, canonical⟩ := change_denotes .remove false
    hm.toDenotes hm.canonical h rfl
  refine ⟨⟨c.map⟩, by simp [MemoryBytesSet.remove, run], denotes.congr fun k => ?_, canonical⟩
  simp only [Lawful.changed]
  by_cases hs : s k = true <;> by_cases hk : start ≤ k ∧ k < limit <;>
    simp [hs, hk, Lawful.combine, memoryBytesSet]

theorem Represents.addSet_represents (hm : m.Represents s) (hy : y.Represents t) :
    ∃ m', m.addSet y = some m' ∧ m'.Represents fun k => s k || t k := by
  obtain ⟨c, run, hc⟩ := changeRangeMap_represents .add hm hy.separated hy.fits
  refine ⟨⟨c.map⟩, by simp [addSet, run], Lawful.Represents.congr hc fun k => ?_⟩
  simp only [Lawful.overlay, hy.reads]
  by_cases hs : s k = true <;> by_cases ht : t k = true <;>
    simp [hs, ht, Lawful.combine, memoryBytesSet]

theorem Represents.intersect_represents (hm : m.Represents s) (hy : y.Represents t) :
    ∃ m', m.intersect y = some m' ∧ m'.Represents fun k => s k && t k := by
  obtain ⟨c, run, hc⟩ :=
    addIntersectionOfMaps_represents Lawful.Represents.nil hm.toDenotes hy.toDenotes
  refine ⟨⟨c.map⟩, by simp [intersect, run], Lawful.Represents.congr hc fun k => ?_⟩
  by_cases hs : s k = true <;> by_cases ht : t k = true <;>
    simp [hs, ht, Lawful.overlay, Lawful.combine, memoryBytesSet]

theorem Represents.isDisjoint_eq (hm : m.Represents s) (h : start < limit) :
    ∃ b, m.isDisjoint start limit = some b ∧
      (b = true ↔ ∀ k, start ≤ k → k < limit → s k = false) := by
  obtain ⟨r, found, empty⟩ := find_empty hm.toDenotes h
  refine ⟨_, by rw [isDisjoint, found]; rfl, ?_⟩
  rw [decide_eq_true_eq, empty]
  simp

/-- The addresses of the ranges, which `Iterate` goes through. -/
def addresses (m : MemoryBytesSet) : Finset Address :=
  m.rep.foldr (fun i a => Finset.Ico i.start i.limit ∪ a) ∅

theorem mem_addresses {k : Address} :
    k ∈ m.addresses ↔ ∃ i ∈ m.rep, i.start ≤ k ∧ k < i.limit := by
  obtain ⟨rep⟩ := m
  unfold addresses
  induction rep with
  | nil => simp
  | cons i rep ih =>
    rw [List.foldr_cons, Finset.mem_union, Finset.mem_Ico, ih]
    simp

theorem Represents.mem_addresses_iff (hm : m.Represents s) (k : Address) :
    k ∈ m.addresses ↔ s k = true := by
  have none_iff : lookup memoryBytesSet.view m.rep k = none ↔ _ := lookup_none_iff
  have reads := hm.reads k
  rw [Lawful.lookup] at reads
  rw [reads] at none_iff
  rw [mem_addresses]
  by_cases hs : s k = true <;> simp [hs] at none_iff ⊢
  · simpa using none_iff
  · exact none_iff

/-- Disjoint ranges have as many addresses as their sizes add up to. -/
theorem byteSize_eq (h : Separated m.rep) : m.byteSize = m.addresses.card := by
  obtain ⟨rep⟩ := m
  induction rep with
  | nil => rfl
  | cons i rep ih =>
    obtain ⟨_, after, sep⟩ := separated_cons.mp h
    have apart : Disjoint (Finset.Ico i.start i.limit) (MemoryBytesSet.mk rep).addresses := by
      refine Finset.disjoint_left.mpr fun k hk hr => ?_
      obtain ⟨j, hj, low, _⟩ := mem_addresses.mp hr
      have := after j hj
      have := (Finset.mem_Ico.mp hk).2
      order
    calc (MemoryBytesSet.mk (i :: rep)).byteSize
        = (i.limit - i.start) + (MemoryBytesSet.mk rep).byteSize := by
          simp [byteSize]
      _ = (Finset.Ico i.start i.limit).card + (MemoryBytesSet.mk rep).addresses.card := by
          rw [ih sep, Nat.card_Ico]
      _ = (MemoryBytesSet.mk (i :: rep)).addresses.card := (Finset.card_union_of_disjoint apart).symm

end MemoryBytesSet

end Silifuzz
