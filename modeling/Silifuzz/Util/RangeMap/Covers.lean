import Silifuzz.Util.RangeMap.Lawful

/-!
# Covers

`Covers` runs its accumulator over every entry that overlaps a range, and says
whether the entries leave a gap.
-/

namespace Silifuzz

open Segments

namespace RangeMap

variable {K V σ : Type} [LinearOrder K]

/-- An accumulator that never says no has run over all the entries. -/
theorem coversLoop_snd (limit prev : K) (result : Bool) (g : σ → Segment K V → σ) (acc : σ)
    (w : RangeMap K V) :
    (coversLoop limit (fun a i => (true, g a i)) prev result acc w).2 = w.foldl g acc := by
  induction w generalizing prev result acc with
  | nil => rfl
  | cons i w ih => simp [coversLoop, ih]

/-- Without a gap the loop returns what it started with. -/
theorem coversLoop_fst {limit prev : K} {result : Bool} {g : σ → Segment K V → σ} {acc : σ}
    {w : RangeMap K V} (sep : Separated w) (within : ∀ s ∈ w, prev < s.limit ∧ s.start < limit)
    (full : ∀ k, prev ≤ k → k < limit → ∃ s ∈ w, s.start ≤ k ∧ k < s.limit) :
    (coversLoop limit (fun a i => (true, g a i)) prev result acc w).1 = result := by
  induction w generalizing prev result acc with
  | nil =>
    have : ¬ prev < limit := fun h => by simpa using full prev le_rfl h
    simp [coversLoop, this]
  | cons i w ih =>
    obtain ⟨nonempty, after, sep⟩ := separated_cons.mp sep
    have first : ¬ i.start > prev := fun gap => by
      obtain ⟨s, hs, low, _⟩ := full prev le_rfl (gap.trans (within i (by simp)).2)
      rcases List.mem_cons.mp hs with rfl | hs
      · exact absurd low (not_le.mpr gap)
      · have := after s hs
        order
    simp only [coversLoop, first, if_false, if_true]
    refine ih sep (fun s hs => ?_) fun k low high => ?_
    · exact ⟨(after s hs).trans_lt (sep.1 s hs), (within s (by simp [hs])).2⟩
    · obtain ⟨s, hs, hk⟩ := full k ((within i (by simp)).1.le.trans low) high
      rcases List.mem_cons.mp hs with rfl | hs
      · exact absurd hk.2 (not_lt.mpr low)
      · exact ⟨s, hs, hk⟩

/-- A loop that says yes has met no gap. -/
theorem coversLoop_full {limit prev : K} {result : Bool} {g : σ → Segment K V → σ} {acc : σ}
    {w : RangeMap K V}
    (yes : (coversLoop limit (fun a i => (true, g a i)) prev result acc w).1 = true) :
    result = true ∧ ∀ k, prev ≤ k → k < limit → ∃ s ∈ w, s.start ≤ k ∧ k < s.limit := by
  induction w generalizing prev result acc with
  | nil =>
    simp only [coversLoop] at yes
    split at yes
    · cases yes
    · exact ⟨yes, fun k low high => absurd (low.trans_lt high) ‹_›⟩
  | cons i w ih =>
    simp only [coversLoop, if_true] at yes
    obtain ⟨ok, rest⟩ := ih yes
    split at ok
    · cases ok
    · refine ⟨ok, fun k low high => ?_⟩
      by_cases hk : k < i.limit
      · exact ⟨i, by simp, (not_lt.mp ‹_›).trans low, hk⟩
      · obtain ⟨s, hs, covers⟩ := rest k (not_lt.mp hk) high
        exact ⟨s, by simp [hs], covers⟩

/-- `Covers` accumulates the entries `w` that overlap the range, and says whether
every key of it is held by an entry. -/
theorem covers_run {m : RangeMap K V} (sep : Separated m) {start limit : K} (h : start < limit)
    (g : σ → Segment K V → σ) (acc : σ) :
    ∃ (w : RangeMap K V) (c : Bool),
      covers m start limit (fun a i => (true, g a i)) acc = some (c, w.foldl g acc) ∧
      (∀ s, s ∈ w ↔ s ∈ m ∧ start < s.limit ∧ s.start < limit) ∧
      (c = true ↔ ∀ k, start ≤ k → k < limit → ∃ s ∈ m, s.start ≤ k ∧ k < s.limit) := by
  obtain ⟨a, w, b, rfl, split, found⟩ := find_split sep h
  have inW : ∀ s, s ∈ w ↔ s ∈ a ++ (w ++ b) ∧ start < s.limit ∧ s.start < limit := by
    intro s
    constructor
    · exact fun hs => ⟨by simp [hs], split.within s hs⟩
    · rintro ⟨hs, low, high⟩
      simp only [List.mem_append] at hs
      rcases hs with hs | hs | hs
      · exact absurd (split.before s hs) (not_le.mpr low)
      · exact hs
      · exact absurd (split.after s hs) (not_le.mpr high)
  have held : (∀ k, start ≤ k → k < limit → ∃ s ∈ w, s.start ≤ k ∧ k < s.limit) ↔
      ∀ k, start ≤ k → k < limit → ∃ s ∈ a ++ (w ++ b), s.start ≤ k ∧ k < s.limit := by
    constructor
    · intro full k low high
      obtain ⟨s, hs, covers⟩ := full k low high
      exact ⟨s, by simp [hs], covers⟩
    · intro full k low high
      obtain ⟨s, hs, covers⟩ := full k low high
      exact ⟨s, (inW s).mpr ⟨hs, low.trans_lt covers.2, covers.1.trans_lt high⟩, covers⟩
  have run : covers (a ++ (w ++ b)) start limit (fun a i => (true, g a i)) acc =
      if w.isEmpty then some (decide (start = limit), acc)
      else some (coversLoop limit (fun a i => (true, g a i)) start true acc w) := by
    simp only [covers, found, Option.bind_eq_bind, Option.bind_some, range_split]
    rfl
  cases w with
  | nil =>
    refine ⟨[], decide (start = limit), run, inW, ?_⟩
    rw [← held, decide_eq_true_eq]
    exact iff_of_false h.ne fun full => by simpa using full start le_rfl h
  | cons i w =>
    refine ⟨i :: w, (coversLoop limit (fun a i => (true, g a i)) start true acc (i :: w)).1, ?_,
      inW, ?_⟩
    · rw [run, ← coversLoop_snd limit start true g acc (i :: w)]
      rfl
    · rw [← held]
      constructor
      · exact fun yes => (coversLoop_full yes).2
      · exact coversLoop_fst (separated_append.mp (separated_append.mp sep).2.1).1 split.within

/-- Where all values merge, a range that is held throughout lies in one entry. -/
theorem find_single {V : Type} {M : Methods K V} {m : RangeMap K V} (sep : Separated m)
    (canonical : Canonical M m) (merges : ∀ v w, M.canMerge v w = true) {start limit : K}
    (h : start < limit) (full : ∀ k, start ≤ k → k < limit → ∃ s ∈ m, s.start ≤ k ∧ k < s.limit) :
    ∃ a i b, m = a ++ i :: b ∧ find m start limit = some (a.length, a.length + 1) ∧
      i.start ≤ start ∧ limit ≤ i.limit := by
  obtain ⟨i, hi, first⟩ := full start le_rfl h
  -- the entry after `i` would touch it
  have reach : limit ≤ i.limit := by
    by_contra beyond
    obtain ⟨j, hj, low, high⟩ := full i.limit first.2.le (not_le.mp beyond)
    have touch : i.limit = j.start := by
      by_contra apart
      have before : j.start < i.limit := lt_of_le_of_ne low (Ne.symm apart)
      have covers : i.start ≤ max i.start j.start ∧ max i.start j.start < i.limit :=
        ⟨le_max_left _ _, max_lt (sep.1 i hi) before⟩
      have covers' : j.start ≤ max i.start j.start ∧ max i.start j.start < j.limit :=
        ⟨le_max_right _ _, max_lt ((sep.1 i hi).trans high) (before.trans high)⟩
      obtain rfl := sep.unique hi hj covers covers'
      exact lt_irrefl _ high
    have unmerged := canonical i hi j hj touch
    rw [merges] at unmerged
    cases unmerged
  obtain ⟨a, w, b, rfl, split, found⟩ := find_split sep h
  have inW : i ∈ w := by
    simp only [List.mem_append] at hi
    rcases hi with hi | hi | hi
    · exact absurd (split.before i hi) (not_le.mpr first.2)
    · exact hi
    · exact absurd (split.after i hi) (not_le.mpr (first.1.trans_lt h))
  have alone : ∀ j ∈ w, j = i := by
    intro j hj
    obtain ⟨low, high⟩ := split.within j hj
    have within : start ≤ max start j.start ∧ max start j.start < limit :=
      ⟨le_max_left _ _, max_lt h high⟩
    exact sep.unique (by simp [hj]) hi
      ⟨le_max_right _ _, max_lt low (sep.1 j (by simp [hj]))⟩
      ⟨first.1.trans within.1, within.2.trans_le reach⟩
  obtain ⟨-, sepW, -⟩ := separated_append.mp sep
  obtain rfl : w = [i] := by
    match w, inW, alone, (separated_append.mp sepW).1 with
    | [j], _, alone, _ => rw [alone j (by simp)]
    | j :: k :: w, _, alone, sepW =>
      obtain ⟨nonempty, after, -⟩ := separated_cons.mp sepW
      have later := after k (by simp)
      rw [alone j (by simp), alone k (by simp)] at later
      rw [alone j (by simp)] at nonempty
      exact absurd later (not_le.mpr nonempty)
  exact ⟨a, i, b, rfl, found, first.1, reach⟩

end RangeMap

end Silifuzz
