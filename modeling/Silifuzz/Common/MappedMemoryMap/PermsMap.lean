import Silifuzz.Common.MappedMemoryMap
import Silifuzz.Util.RangeMap.Maps

/-!
# Permissions by address

What a `MappedMemoryMap` is for: a function from addresses to permissions, with
`none` where nothing is said. Each operation of the class is a simple one on
these functions, and the class represents it range by range:

* `PermsMap`: the functions and their operations;
* `memoryPerms`: the laws of `MemoryPermsMethods`;
* `MappedMemoryMap.Represents`: the map is canonical and says `f`; the theorems
  named after the operations keep it.
-/

namespace Silifuzz

open Segments RangeMap

abbrev PermsMap := Address → Option MemoryPerms

namespace PermsMap

def empty : PermsMap := fun _ => none

/-- Permissions that are dropped from a map once they are empty. -/
def keep (p : MemoryPerms) : Option MemoryPerms := if p.isEmpty then none else some p

@[simp] theorem keep_none : keep .none = none := rfl

/-- Clearing the same permissions again changes nothing. -/
theorem keep_keep (v p : MemoryPerms) :
    (keep (v.clear p)).bind (fun v => keep (v.clear p)) = keep (v.clear p) := by
  by_cases h : v.clear p = .none <;> simp [keep, h]

def add (f : PermsMap) (start limit : Address) (p : MemoryPerms) : PermsMap := fun k =>
  if start ≤ k ∧ k < limit then some (((f k).getD .none).add p) else f k

def set (f : PermsMap) (start limit : Address) (p : MemoryPerms) : PermsMap := fun k =>
  if start ≤ k ∧ k < limit then some p else f k

section
variable {f : PermsMap} {start limit k : Address} {p : MemoryPerms}

theorem add_inside (h : start ≤ k ∧ k < limit) :
    f.add start limit p k = some (((f k).getD .none).add p) := if_pos h

theorem add_outside (h : ¬ (start ≤ k ∧ k < limit)) : f.add start limit p k = f k := if_neg h

theorem set_inside (h : start ≤ k ∧ k < limit) : f.set start limit p k = some p := if_pos h

theorem set_outside (h : ¬ (start ≤ k ∧ k < limit)) : f.set start limit p k = f k := if_neg h

end

def remove (f : PermsMap) (start limit : Address) (p : MemoryPerms) : PermsMap := fun k =>
  if start ≤ k ∧ k < limit then (f k).bind fun v => keep (v.clear p) else f k

def addMap (f g : PermsMap) : PermsMap := fun k =>
  match g k with
  | none => f k
  | some p => some (((f k).getD .none).add p)

def removeRangesOf (f g : PermsMap) (p : MemoryPerms) : PermsMap := fun k =>
  if (g k).isSome then (f k).bind fun v => keep (v.clear p) else f k

theorem removeRangesOf_none {f g : PermsMap} {p : MemoryPerms} {k : Address} (h : f k = none) :
    f.removeRangesOf g p k = none := by simp [removeRangesOf, h]

theorem removeRangesOf_twice (f g h : PermsMap) (p : MemoryPerms) (k : Address) :
    (f.removeRangesOf g p).removeRangesOf h p k =
      f.removeRangesOf (fun k => (g k).or (h k)) p k := by
  simp only [removeRangesOf, Option.isSome_or, Bool.or_eq_true]
  by_cases hg : (g k).isSome = true <;> by_cases hh : (h k).isSome = true
  · cases f k <;> simp [hg, hh, keep_keep]
  all_goals simp [hg, hh]

def inter (f g : PermsMap) : PermsMap := fun k =>
  (f k).bind fun a => (g k).bind fun b => keep (a.intersect b)

/-- Equal permissions leave nothing, different ones what is only in `f`, even if empty. -/
def diff (f g : PermsMap) : PermsMap := fun k =>
  (f k).bind fun a =>
    match g k with
    | none => some a
    | some b => if a = b then none else some (a.clear b)

/-- One range of permissions. -/
def single (start limit : Address) (p : MemoryPerms) : PermsMap := fun k =>
  if start ≤ k ∧ k < limit then some p else none

@[simp] theorem empty_addMap (f : PermsMap) : empty.addMap f = f := by
  funext k
  simp only [addMap, empty]
  cases f k <;> simp

theorem addMap_congr {f g h : PermsMap} {k : Address} (e : g k = h k) :
    f.addMap g k = f.addMap h k := by simp [addMap, e]

/-- All permissions of the map are made of `Permission` bits. -/
def Proper (f : PermsMap) : Prop := ∀ k, ∀ p ∈ f k, p.Proper

variable {f g : PermsMap} {start limit : Address} {p : MemoryPerms}

theorem proper_keep {v w : MemoryPerms} (hv : v.Proper) (h : PermsMap.keep v = some w) :
    w.Proper := by
  simp only [PermsMap.keep] at h
  split at h
  · cases h
  · exact (Option.some.inj h) ▸ hv

theorem Proper.getD (hf : f.Proper) (k : Address) : ((f k).getD .none).Proper := by
  cases h : f k with
  | none => exact MemoryPerms.proper_none
  | some v => exact hf k v h

theorem Proper.add (hf : f.Proper) (hp : p.Proper) : (f.add start limit p).Proper := by
  intro k v hv
  simp only [PermsMap.add] at hv
  split at hv
  · exact (Option.some.inj hv) ▸ (hf.getD k).add hp
  · exact hf k v hv

theorem Proper.set (hf : f.Proper) (hp : p.Proper) : (f.set start limit p).Proper := by
  intro k v hv
  simp only [PermsMap.set] at hv
  split at hv
  · exact (Option.some.inj hv) ▸ hp
  · exact hf k v hv

theorem Proper.cleared (hf : f.Proper) {k : Address} {v : MemoryPerms}
    (hv : (f k).bind (fun v => PermsMap.keep (v.clear p)) = some v) : v.Proper := by
  obtain ⟨u, hu, hv⟩ := Option.bind_eq_some_iff.mp hv
  exact proper_keep ((hf k u hu).clear p) hv

theorem Proper.remove (hf : f.Proper) : (f.remove start limit p).Proper := by
  intro k v hv
  simp only [PermsMap.remove] at hv
  split at hv
  · exact hf.cleared hv
  · exact hf k v hv

theorem Proper.removeRangesOf (hf : f.Proper) : (f.removeRangesOf g p).Proper := by
  intro k v hv
  simp only [PermsMap.removeRangesOf] at hv
  split at hv
  · exact hf.cleared hv
  · exact hf k v hv

theorem Proper.addMap (hf : f.Proper) (hg : g.Proper) : (f.addMap g).Proper := by
  intro k v hv
  simp only [PermsMap.addMap] at hv
  cases h : g k with
  | none => exact hf k v (by simpa [h] using hv)
  | some p =>
    simp only [h, Option.mem_some_iff] at hv
    exact hv ▸ (hf.getD k).add (hg k p h)

theorem Proper.inter (hf : f.Proper) : (f.inter g).Proper := by
  intro k v hv
  obtain ⟨a, ha, hv⟩ := Option.bind_eq_some_iff.mp hv
  obtain ⟨b, _, hv⟩ := Option.bind_eq_some_iff.mp hv
  exact proper_keep ((hf k a ha).intersect b) hv

theorem Proper.diff (hf : f.Proper) : (f.diff g).Proper := by
  intro k v hv
  obtain ⟨a, ha, hv⟩ := Option.bind_eq_some_iff.mp hv
  cases hg : g k with
  | none =>
    simp only [hg, Option.some.injEq] at hv
    exact hv ▸ hf k a ha
  | some b =>
    simp only [hg] at hv
    split at hv
    · cases hv
    · exact (Option.some.inj hv) ▸ (hf k a ha).clear b

theorem Proper.single (hp : p.Proper) : (PermsMap.single start limit p).Proper := by
  intro k v hv
  simp only [PermsMap.single] at hv
  split at hv
  · exact (Option.some.inj hv) ▸ hp
  · cases hv

end PermsMap

/-- Single permissions are combined as `MemoryPermsMethods` combines those of a range. -/
def memoryPerms : Lawful memoryPermsMethods MemoryPerms where
  view _ _ v _ := v
  fits _ _ _ _ := True
  plus a b := some (a.add b)
  minus a b := PermsMap.keep (a.clear b)
  inter a b := PermsMap.keep (a.intersect b)
  diff a b := if a = b then none else some (a.clear b)
  slice_fits := by simp
  slice_view := by simp [memoryPermsMethods]
  addTo_fits := by simp
  addTo_view := by simp [memoryPermsMethods]
  removeFrom_fits := by simp
  removeFrom_view := by simp [memoryPermsMethods, PermsMap.keep]
  merge_fits := by simp
  merge_left := by simp [memoryPermsMethods]
  merge_right := by simp +contextual [memoryPermsMethods]
  intersection_fits := by simp
  intersection_view := by simp [memoryPermsMethods, PermsMap.keep, apply_ite]
  difference_fits := by simp
  difference_view := by simp [memoryPermsMethods, apply_ite]
  canMerge_slice_left := by simp [memoryPermsMethods]
  canMerge_slice_right := by simp [memoryPermsMethods]
  canMerge_merge_left := by simp +contextual [memoryPermsMethods]
  canMerge_merge_right := by simp [memoryPermsMethods]

@[simp] theorem memoryPerms_view (start limit k : Address) (p : MemoryPerms) :
    memoryPerms.view start limit p k = p := rfl

namespace MappedMemoryMap

/-- The entries are sorted, non-empty, disjoint and not mergeable, and they say `f`. -/
def Represents (m : MappedMemoryMap) (f : PermsMap) : Prop := memoryPerms.Represents m.rep f

theorem Represents.congr {m : MappedMemoryMap} {f g : PermsMap} (h : m.Represents f)
    (e : ∀ k, f k = g k) : m.Represents g := Lawful.Represents.congr h e

theorem empty_represents : empty.Represents PermsMap.empty := Lawful.Represents.nil

variable {m x y : MappedMemoryMap} {f g e : PermsMap} {start limit : Address} {p : MemoryPerms}

theorem change_represents (hm : m.Represents f) (h : start < limit) (mode : ChangeMode) :
    ∃ m', m.change start limit p mode = some m' ∧
      m'.Represents (memoryPerms.changed mode start limit (fun _ => p) f) := by
  obtain ⟨c, run, denotes, canonical⟩ := change_denotes mode p
    hm.toDenotes hm.canonical h trivial
  exact ⟨⟨c.map⟩, by simp [change, run], denotes, canonical⟩

theorem Represents.add_represents (hm : m.Represents f) (h : start < limit) (p : MemoryPerms) :
    ∃ m', m.add start limit p = some m' ∧ m'.Represents (f.add start limit p) := by
  obtain ⟨m', run, hm'⟩ := change_represents (p := p) hm h .add
  refine ⟨m', run, hm'.congr fun k => ?_⟩
  simp only [Lawful.changed, PermsMap.add]
  cases f k <;> simp [Lawful.combine, memoryPerms]

theorem Represents.remove_represents (hm : m.Represents f) (h : start < limit) (p : MemoryPerms) :
    ∃ m', m.remove start limit p = some m' ∧ m'.Represents (f.remove start limit p) := by
  obtain ⟨m', run, hm'⟩ := change_represents (p := p) hm h .remove
  refine ⟨m', run, hm'.congr fun k => ?_⟩
  simp only [Lawful.changed, PermsMap.remove]
  cases f k <;> simp [Lawful.combine, memoryPerms]

theorem Represents.set_represents (hm : m.Represents f) (proper : f.Proper) (h : start < limit)
    (p : MemoryPerms) :
    ∃ m', m.set start limit p = some m' ∧ m'.Represents (f.set start limit p) := by
  obtain ⟨m₁, run₁, hm₁⟩ := remove_represents hm h .allPlusMapped
  obtain ⟨m₂, run₂, hm₂⟩ := add_represents hm₁ h p
  refine ⟨m₂, ?_, hm₂.congr fun k => ?_⟩
  · simp only [remove, add] at run₁ run₂
    simp [set, run₁, run₂]
  · simp only [PermsMap.add, PermsMap.remove, PermsMap.set]
    split
    · cases hk : f k with
      | none => simp
      | some v =>
        have cleared : v.clear .allPlusMapped = .none := proper k v hk
        simp [cleared, PermsMap.keep]
    · rfl

theorem Represents.addMap_represents (hm : m.Represents f) (hy : y.Represents g) :
    ∃ m', m.addMap y = some m' ∧ m'.Represents (f.addMap g) := by
  obtain ⟨c, run, hc⟩ := changeRangeMap_represents .add hm hy.separated
    fun _ _ => trivial
  refine ⟨⟨c.map⟩, by simp [addMap, run], Represents.congr hc fun k => ?_⟩
  simp only [Lawful.overlay, hy.reads, PermsMap.addMap]
  cases g k <;> cases f k <;> simp [Lawful.combine, memoryPerms]

/-- Adding what `h` has at each key to a map that says `f`. -/
theorem overlay_add (f h : PermsMap) (k : Address) :
    memoryPerms.overlay .add f h k = f.addMap h k := by
  simp only [Lawful.overlay, PermsMap.addMap]
  cases h k <;> cases f k <;> simp [Lawful.combine, memoryPerms]

theorem Represents.addIntersectionOf_represents (hm : m.Represents e) (hx : x.Represents f)
    (hy : y.Represents g) :
    ∃ m', m.addIntersectionOf x y = some m' ∧ m'.Represents (e.addMap (f.inter g)) := by
  obtain ⟨c, run, hc⟩ := addIntersectionOfMaps_represents hm hx.toDenotes hy.toDenotes
  exact ⟨⟨c.map⟩, by simp [addIntersectionOf, run], Represents.congr hc fun k => overlay_add _ _ k⟩

theorem Represents.addDifferenceOf_represents (hm : m.Represents e) (h : start < limit) (p : MemoryPerms)
    (hy : y.Represents g) :
    ∃ m', m.addDifferenceOf start limit p y = some m' ∧
      m'.Represents (e.addMap ((PermsMap.single start limit p).diff g)) := by
  obtain ⟨c, run, hc⟩ := RangeMap.addDifferenceOf_represents (c := ⟨m.rep, false, 0⟩) p
    hm hy.toDenotes h trivial
  refine ⟨⟨c.map⟩, by simp [addDifferenceOf, run], Represents.congr hc fun k =>
    (overlay_add _ _ k).trans (PermsMap.addMap_congr ?_)⟩
  simp only [PermsMap.diff, PermsMap.single, Lawful.remain]
  split
  · cases g k <;> rfl
  · rfl

theorem Represents.addDifferenceOfMaps_represents (hm : m.Represents e) (hx : x.Represents f)
    (hy : y.Represents g) :
    ∃ m', m.addDifferenceOfMaps x y = some m' ∧ m'.Represents (e.addMap (f.diff g)) := by
  obtain ⟨c, run, hc⟩ := RangeMap.addDifferenceOfMaps_represents hm hx.toDenotes hy.toDenotes
  refine ⟨⟨c.map⟩, by simp [addDifferenceOfMaps, run], Represents.congr hc fun k =>
    (overlay_add _ _ k).trans (PermsMap.addMap_congr ?_)⟩
  simp only [PermsMap.diff]
  cases f k with
  | none => rfl
  | some a => cases g k <;> rfl

theorem lookup_iff (hm : m.Represents f) (k : Address) :
    (∃ s ∈ m.rep, s.start ≤ k ∧ k < s.limit) ↔ (f k).isSome := by
  rw [← hm.reads, Option.isSome_iff_ne_none, ne_eq, Lawful.lookup, lookup_none_iff]
  simp

/-- An entry says its value at each of its addresses. -/
theorem Represents.entry (hm : m.Represents f) {i : Segment Address MemoryPerms} (hi : i ∈ m.rep)
    {k : Address} (hk : i.start ≤ k ∧ k < i.limit) : f k = some i.value := by
  rw [← hm.reads]
  exact lookup_mem hm.separated hi hk

theorem Represents.limit_le (hm : m.Represents f) {bound : Address}
    (bounded : ∀ k, (f k).isSome → k < bound) {i : Segment Address MemoryPerms}
    (hi : i ∈ m.rep) : i.limit ≤ bound := by
  have lt := hm.separated.1 i hi
  have last := bounded (i.limit - 1)
    (Option.isSome_of_mem (hm.entry hi ⟨by grind, by grind⟩))
  grind

theorem Represents.read_eq (hm : m.Represents f) : m.read = f := by
  funext k
  rw [read, findAt_find hm.separated]
  exact hm.reads k

/-- `PermsAt` reads what the map says, with no permissions where it says nothing. -/
theorem permsAt_eq (hm : m.Represents f) (k : Address) : m.permsAt k = (f k).getD .none := by
  rw [← hm.reads, permsAt, findAt_find hm.separated, Lawful.lookup, lookup]
  cases m.rep.find? (·.covers k) <;> rfl

theorem contains_eq (hm : m.Represents f) (k : Address) : m.contains k = (f k).isSome := by
  rw [← hm.reads, contains, findAt_find hm.separated, Lawful.lookup, lookup, Option.isSome_map]

theorem overlaps_eq (hm : m.Represents f) (h : start < limit) :
    ∃ b, m.overlaps start limit = some b ∧
      (b = true ↔ ∃ k, start ≤ k ∧ k < limit ∧ (f k).isSome) := by
  obtain ⟨r, found, empty⟩ := find_empty hm.toDenotes h
  refine ⟨_, by rw [overlaps, found]; rfl, ?_⟩
  rw [decide_eq_true_eq, ne_eq, empty]
  push Not
  simp only [← Option.isSome_iff_ne_none]

/-- Where `AddNew` may be used it does what `Set` does. -/
theorem addNew_set (hm : m.Represents f) (h : start < limit)
    (new : m.overlaps start limit = some false) (p : MemoryPerms) :
    ∃ m', m.addNew start limit p = some m' ∧ m'.Represents (f.set start limit p) := by
  obtain ⟨m', run, hm'⟩ := hm.add_represents h p
  refine ⟨m', run, hm'.congr fun k => ?_⟩
  obtain ⟨b, overlaps, iff⟩ := overlaps_eq hm h
  obtain rfl : b = false := by simpa [new] using overlaps.symm
  simp only [PermsMap.add, PermsMap.set]
  split
  · next hk =>
    have : f k = none := by
      by_contra some
      exact absurd (iff.mpr ⟨k, hk.1, hk.2, Option.isSome_iff_ne_none.mpr some⟩) (by simp)
    simp [this]
  · rfl

end MappedMemoryMap

end Silifuzz
