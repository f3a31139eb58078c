import Silifuzz.Common.MappedMemoryMap.Queries
import Silifuzz.Common.MappedMemoryMap.RemoveRanges
import Silifuzz.Util.RangeMap.Result

/-!
# Operations on canonical maps

The operations stated through the queries of the class, for any maps that are
canonical, which every map a program makes is:

* `change_result`: the flags that `rep_.Add` and `rep_.Remove` return;
* `operations_exact`: `RemoveRangesOf`, `AddDifferenceOf` and `AddIntersectionOf`
  do at each address what the two maps say there, and nothing elsewhere.
-/

namespace Silifuzz

open Segments RangeMap

/-- `AddTo` tells whether the permissions grew, and `RemoveFrom` has nothing to refuse. -/
theorem memoryPerms_telling : memoryPerms.Telling where
  adds {s l d v} h _ _ := by
    have grows : d.hasAllOf v = true ↔ d.add v = d := by
      simp only [MemoryPerms.hasAllOf, MemoryPerms.add, beq_iff_eq, MemoryPerms.ext_iff]
      constructor
      · intro all
        rw [← all, BitVec.or_comm]
        exact MemoryPerms.ext_iff.mp (MemoryPerms.ext_bits (x := ⟨_⟩) (y := ⟨_⟩) (by simp; grind))
      · intro same
        rw [← same]
        exact MemoryPerms.ext_iff.mp (MemoryPerms.ext_bits (x := ⟨_⟩) (y := ⟨_⟩) (by simp; grind))
    have ok : (memoryPermsMethods.addTo d v).ok = true ↔ d.add v ≠ d := by
      rw [ne_eq, ← grows]
      simp [memoryPermsMethods]
    rw [ok]
    constructor
    · intro changes
      exact ⟨s, ⟨le_rfl, h⟩, by simpa [memoryPerms] using changes⟩
    · rintro ⟨_, _, changes⟩
      simpa [memoryPerms] using changes
  removes _ _ := rfl

namespace MappedMemoryMap

/-- The entries are sorted, non-empty and disjoint, and touching ones differ. -/
structure Canonical (m : MappedMemoryMap) : Prop where
  separated : Separated m.rep
  apart : RangeMap.Canonical memoryPermsMethods m.rep

variable {m x y : MappedMemoryMap} {f : PermsMap} {start limit : Address}

theorem Represents.canonical_map (hm : m.Represents f) : m.Canonical :=
  ⟨hm.separated, hm.canonical⟩

theorem Canonical.represents (hm : m.Canonical) : m.Represents m.read where
  separated := hm.separated
  fits _ _ := trivial
  reads k := by
    rw [read, findAt_find hm.separated]
    rfl
  canonical := hm.apart

/-- **`Add` returns true exactly when it changes the map, and `Remove` exactly when the
map covered the whole range.** -/
theorem change_result (canonical : m.Canonical) (h : start < limit) (p : MemoryPerms) :
    (∃ c, RangeMap.change memoryPermsMethods m.rep start limit p .add true = some c ∧
      (c.result = true ↔ c.map ≠ m.rep)) ∧
    ∃ c, RangeMap.change memoryPermsMethods m.rep start limit p .remove true = some c ∧
      (c.result = true ↔
        ∀ k, start ≤ k → k < limit → ∃ s ∈ m.rep, s.start ≤ k ∧ k < s.limit) := by
  have hm := canonical.represents
  have told := fun mode c
      (run : RangeMap.change memoryPermsMethods m.rep start limit p mode true = some c) =>
    change_told memoryPerms_telling hm.toDenotes h trivial run
  constructor
  · obtain ⟨c, run, denotes, apart⟩ := change_denotes .add p hm.toDenotes hm.canonical h trivial
    apply Exists.intro c
    apply And.intro run
    simp only [told .add c run, Lawful.told]
    constructor
    · rintro (impossible | ⟨k, hk, changes⟩) same
      · cases impossible
      · have now := denotes.reads k
        rw [same, Lawful.changed, if_pos hk] at now
        exact changes (now.symm.trans (hm.reads k))
    · intro differs
      by_contra unchanged
      apply differs
      apply denotes_unique memoryPerms_extensional (denotes.congr fun k => ?_) hm.toDenotes apart
        hm.canonical
      simp only [Lawful.changed]
      split
      · next hk =>
        by_contra changes
        exact unchanged (.inr ⟨k, hk, changes⟩)
      · rfl
  · obtain ⟨c, run, -, -⟩ := change_denotes .remove p hm.toDenotes hm.canonical h trivial
    apply Exists.intro c
    apply And.intro run
    simp only [told .remove c run, Lawful.told, lookup_iff hm]
    simp

def twoEntries : MappedMemoryMap := ⟨[⟨0, 4, .of .kReadable⟩, ⟨4, 8, .of .kWritable⟩]⟩

def gapBetween : MappedMemoryMap := ⟨[⟨0, 2, .of .kReadable⟩, ⟨6, 8, .rw⟩]⟩

theorem twoEntries_canonical : twoEntries.Canonical :=
  ⟨by simp [Separated, twoEntries], by unfold RangeMap.Canonical; decide⟩

theorem gapBetween_canonical : gapBetween.Canonical :=
  ⟨by simp [Separated, gapBetween], by unfold RangeMap.Canonical; decide⟩

theorem change_result_twoEntries :
    (∃ c, RangeMap.change memoryPermsMethods twoEntries.rep 2 6 .rw .add true = some c ∧
      (c.result = true ↔ c.map ≠ twoEntries.rep)) ∧
    ∃ c, RangeMap.change memoryPermsMethods twoEntries.rep 2 6 .rw .remove true = some c ∧
      (c.result = true ↔
        ∀ k, 2 ≤ k → k < 6 → ∃ s ∈ twoEntries.rep, s.start ≤ k ∧ k < s.limit) :=
  change_result twoEntries_canonical (by decide) .rw

theorem Canonical.contains_read (hm : m.Canonical) (k : Address) :
    m.contains k = (m.read k).isSome := contains_eq hm.represents k

theorem Canonical.permsAt_read (hm : m.Canonical) (k : Address) :
    m.permsAt k = (m.read k).getD .none := permsAt_eq hm.represents k

/-- What adding `added` to a map says where it has something to add. -/
theorem read_addMap (hm : m.Canonical) {r : MappedMemoryMap} {added : PermsMap}
    (hr : r.Represents (PermsMap.addMap m.read added)) (k : Address) :
    r.read k = match added k with
      | none => m.read k
      | some p => some ((m.permsAt k).add p) := by
  have perms := hm.permsAt_read k
  cases has : added k with
  | none => simp only [hr.read_eq, PermsMap.addMap, has]
  | some p => simp only [hr.read_eq, PermsMap.addMap, has, perms]

/-- **`RemoveRangesOf` ends and clears the permissions exactly at the addresses of both maps;
`AddDifferenceOf` adds what `y` does not have, and `AddIntersectionOf` what both have.** -/
theorem operations_exact (hm : m.Canonical) (hx : x.Canonical) (hy : y.Canonical)
    (h : start < limit) (p : MemoryPerms) :
    (∃ r, x.removeRangesOf y p = some r ∧ r.Canonical ∧ ∀ k, r.read k =
      if x.contains k = true ∧ y.contains k = true then PermsMap.keep ((x.permsAt k).clear p)
      else x.read k) ∧
    (∃ r, m.addDifferenceOfMaps x y = some r ∧ r.Canonical ∧ ∀ k, r.read k =
      if x.contains k = true ∧ x.read k ≠ y.read k then
        some ((m.permsAt k).add ((x.permsAt k).clear (y.permsAt k)))
      else m.read k) ∧
    (∃ r, m.addDifferenceOf start limit p y = some r ∧ r.Canonical ∧ ∀ k, r.read k =
      if (start ≤ k ∧ k < limit) ∧ some p ≠ y.read k then
        some ((m.permsAt k).add (p.clear (y.permsAt k)))
      else m.read k) ∧
    ∃ r, m.addIntersectionOf x y = some r ∧ r.Canonical ∧ ∀ k, r.read k =
      if (x.contains k = true ∧ y.contains k = true) ∧
          (x.permsAt k).intersect (y.permsAt k) ≠ .none then
        some ((m.permsAt k).add ((x.permsAt k).intersect (y.permsAt k)))
      else m.read k := by
  refine ⟨?_, ?_, ?_, ?_⟩
  · obtain ⟨r, run, hr⟩ := hx.represents.removeRangesOf_represents hy.represents p
    refine ⟨r, run, hr.canonical_map, fun k => ?_⟩
    rw [hr.read_eq, PermsMap.removeRangesOf, hx.contains_read, hy.contains_read, hx.permsAt_read]
    cases x.read k <;> cases y.read k <;> simp
  · obtain ⟨r, run, hr⟩ :=
      hm.represents.addDifferenceOfMaps_represents hx.represents hy.represents
    refine ⟨r, run, hr.canonical_map, fun k => ?_⟩
    rw [read_addMap hm hr, PermsMap.diff, hx.contains_read, hx.permsAt_read, hy.permsAt_read]
    cases x.read k with
    | none => simp
    | some a =>
      cases y.read k with
      | none => simp
      | some b => by_cases same : a = b <;> simp [same]
  · obtain ⟨r, run, hr⟩ := hm.represents.addDifferenceOf_represents h p hy.represents
    refine ⟨r, run, hr.canonical_map, fun k => ?_⟩
    rw [read_addMap hm hr, PermsMap.diff, PermsMap.single, hy.permsAt_read]
    by_cases inside : start ≤ k ∧ k < limit
    · cases y.read k with
      | none => simp [inside]
      | some b => by_cases same : p = b <;> simp [inside, same]
    · simp [inside]
  · obtain ⟨r, run, hr⟩ := hm.represents.addIntersectionOf_represents hx.represents hy.represents
    refine ⟨r, run, hr.canonical_map, fun k => ?_⟩
    rw [read_addMap hm hr, PermsMap.inter, hx.contains_read, hy.contains_read, hx.permsAt_read,
      hy.permsAt_read]
    cases x.read k with
    | none => simp
    | some a =>
      cases y.read k with
      | none => simp
      | some b => by_cases common : a.intersect b = .none <;> simp [PermsMap.keep, common]

theorem operations_exact_twoEntries :
    (∃ r, twoEntries.removeRangesOf gapBetween .rw = some r ∧ r.Canonical ∧ ∀ k, r.read k =
      if twoEntries.contains k = true ∧ gapBetween.contains k = true then
        PermsMap.keep ((twoEntries.permsAt k).clear .rw)
      else twoEntries.read k) ∧
    (∃ r, empty.addDifferenceOfMaps twoEntries gapBetween = some r ∧ r.Canonical ∧
      ∀ k, r.read k =
        if twoEntries.contains k = true ∧ twoEntries.read k ≠ gapBetween.read k then
          some ((empty.permsAt k).add ((twoEntries.permsAt k).clear (gapBetween.permsAt k)))
        else empty.read k) ∧
    (∃ r, empty.addDifferenceOf 1 7 .rw gapBetween = some r ∧ r.Canonical ∧ ∀ k, r.read k =
      if (1 ≤ k ∧ k < 7) ∧ some .rw ≠ gapBetween.read k then
        some ((empty.permsAt k).add (MemoryPerms.rw.clear (gapBetween.permsAt k)))
      else empty.read k) ∧
    ∃ r, empty.addIntersectionOf twoEntries gapBetween = some r ∧ r.Canonical ∧ ∀ k, r.read k =
      if (twoEntries.contains k = true ∧ gapBetween.contains k = true) ∧
          (twoEntries.permsAt k).intersect (gapBetween.permsAt k) ≠ .none then
        some ((empty.permsAt k).add
          ((twoEntries.permsAt k).intersect (gapBetween.permsAt k)))
      else empty.read k :=
  operations_exact empty_represents.canonical_map twoEntries_canonical gapBetween_canonical
    (by decide) .rw

end MappedMemoryMap

end Silifuzz
