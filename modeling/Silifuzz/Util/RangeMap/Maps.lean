import Silifuzz.Library.Loops
import Silifuzz.Util.RangeMap.Merge

/-!
# Whole maps

The operations that add, remove, intersect or subtract a whole map, as one
`overlay` of what they add at each key:

* `changeRangeMap_represents`: `AddRangeMap()` and `RemoveRangeMap()`;
* `addIntersectionOf_represents`, `addIntersectionOfMaps_represents`;
* `addDifferenceOf_represents`, `addDifferenceOfMaps_represents`.
-/

namespace Silifuzz

open Segments Loops

namespace RangeMap

variable {K V β : Type} [LinearOrder K] {M : Methods K V} {L : Lawful M β}

namespace Lawful

/-- The map is canonical and says `f`. -/
structure Represents (L : Lawful M β) (m : RangeMap K V) (f : K → Option β) : Prop extends
    L.Denotes m f where
  canonical : Canonical M m

theorem Represents.nil : L.Represents [] fun _ => none := ⟨.nil, by simp [Canonical]⟩

theorem Represents.congr {m : RangeMap K V} {f g : K → Option β} (h : L.Represents m f)
    (e : ∀ k, f k = g k) : L.Represents m g := ⟨h.toDenotes.congr e, h.canonical⟩

theorem changed_overlay (mode : ChangeMode) (start limit : K) (b : K → β) (f : K → Option β)
    (k : K) : L.changed mode start limit b f k =
      L.overlay mode f (fun k => if start ≤ k ∧ k < limit then some (b k) else none) k := by
  by_cases hk : start ≤ k ∧ k < limit
  · simp [changed, overlay, hk]
  · simp [changed, overlay, if_neg hk]

/-- Two maps with no key in common go in one after the other or together. -/
theorem overlay_overlay {mode : ChangeMode} {f g h : K → Option β} {k : K}
    (disjoint : g k = none ∨ h k = none) :
    L.overlay mode (L.overlay mode f g) h k = L.overlay mode f (fun k => (g k).or (h k)) k := by
  simp only [overlay]
  rcases disjoint with hg | hh
  · rw [hg]
    rfl
  · rw [hh]
    cases g k <;> rfl

theorem overlay_none {mode : ChangeMode} {f g : K → Option β} {k : K} (h : g k = none) :
    L.overlay mode f g k = f k := by simp [overlay, h]

theorem overlay_congr {mode : ChangeMode} {f g h : K → Option β} {k : K} (e : g k = h k) :
    L.overlay mode f g k = L.overlay mode f h k := by simp [overlay, e]

end Lawful

/-- `Change()` inside a loop over ranges. -/
theorem changedChange_represents {c : Changed K V} {f : K → Option β} {s : Segment K V}
    (mode : ChangeMode) (hc : L.Represents c.map f) (h : s.start < s.limit)
    (fits : L.fits mode s.start s.limit s.value) :
    ∃ c', Changed.change M c s mode true = some c' ∧
      L.Represents c'.map (L.changed mode s.start s.limit (L.view s.start s.limit s.value) f) := by
  obtain ⟨n, run, denotes, canonical⟩ := change_denotes mode s.value hc.toDenotes hc.canonical h fits
  obtain ⟨c', run', same⟩ : ∃ c', Changed.change M c s mode true = some c' ∧ c'.map = n.map := by
    simp [Changed.change, run]
  exact ⟨c', run', same ▸ denotes, same ▸ canonical⟩

/-- An entry of a separated map is the only one at its keys. -/
theorem lookup_done {done rest : RangeMap K V} {i : Segment K V}
    (sep : Separated (done ++ i :: rest)) {k : K} :
    L.lookup done k = none ∨ ¬ (i.start ≤ k ∧ k < i.limit) := by
  refine or_iff_not_imp_right.mpr fun hk => lookup_before fun s hs => ?_
  have := (separated_append.mp sep).2.2 s hs i (by simp)
  exact this.trans (not_not.mp hk).1

theorem lookup_snoc (done : RangeMap K V) (i : Segment K V) (k : K) :
    L.lookup (done ++ [i]) k = (L.lookup done k).or
      (if i.start ≤ k ∧ k < i.limit then some (L.view i.start i.limit i.value k) else none) := by
  rw [Lawful.lookup, lookup_append, lookup_cons, lookup_nil]

theorem changeRangeMap_represents {m y : RangeMap K V} {f : K → Option β} (mode : ChangeMode)
    (hm : L.Represents m f) (sep : Separated y)
    (fits : ∀ s ∈ y, L.fits mode s.start s.limit s.value) :
    ∃ c, changeRangeMap M m y mode true = some c ∧
      L.Represents c.map (L.overlay mode f (L.lookup y)) := by
  refine foldlM_run (P := fun done c => L.Represents (Changed.map c)
    (L.overlay mode f (L.lookup done))) hm fun done i rest c hl hc => ?_
  obtain ⟨c', run, hc'⟩ := changedChange_represents mode hc (sep.1 i (by simp [hl]))
    (fits i (by simp [hl]))
  refine ⟨c', run, hc'.congr fun k => ?_⟩
  rw [Lawful.changed_overlay, Lawful.overlay_overlay]
  · exact Lawful.overlay_congr (lookup_snoc done i k).symm
  · exact (lookup_done (hl ▸ sep)).imp_right fun hk => if_neg hk

section
variable {start limit : K} {value : V} {f g : K → Option β}

/-- The part of an overlapping entry inside the range. -/
theorem clip_bounds {i : Segment K V} (h : start < limit) (hi : i.start < i.limit)
    (meets : start < i.limit ∧ i.start < limit) :
    let p := clip M start limit i
    p.start < p.limit ∧ i.start ≤ p.start ∧ p.limit ≤ i.limit ∧ start ≤ p.start ∧
      p.limit ≤ limit ∧ ∀ k, (p.start ≤ k ∧ k < p.limit) ↔
        (start ≤ k ∧ k < limit) ∧ i.start ≤ k ∧ k < i.limit := by
  simp only [clip, sliceOf]
  grind

/-- What an entry adds at the keys it shares with the range. -/
def Lawful.shared (start limit : K) (i : Segment K V) (b : K → Option β) (k : K) : Option β :=
  if (start ≤ k ∧ k < limit) ∧ i.start ≤ k ∧ k < i.limit then b k else none

/-- One turn of a loop that adds `r` where the entry and the range overlap. -/
theorem addShared_represents {c : Changed K V} {i : Segment K V} {r : Option V}
    {b : K → Option β} (hc : L.Represents c.map f) (h : start < limit) (hi : i.start < i.limit)
    (meets : start < i.limit ∧ i.start < limit)
    (fits : ∀ v ∈ r, L.fits .add (clip M start limit i).start (clip M start limit i).limit v)
    (view : ∀ k, (clip M start limit i).start ≤ k → k < (clip M start limit i).limit →
      b k = r.map (L.view (clip M start limit i).start (clip M start limit i).limit · k)) :
    ∃ c', (match r with
      | none => some c
      | some v => Changed.change M c ⟨(clip M start limit i).start, (clip M start limit i).limit, v⟩
          .add true) = some c' ∧
      L.Represents c'.map (L.overlay .add f (Lawful.shared start limit i b)) := by
  obtain ⟨hp, -, -, -, -, iff⟩ := clip_bounds (M := M) h hi meets
  cases r with
  | none =>
    refine ⟨c, rfl, hc.congr fun k => (Lawful.overlay_none ?_).symm⟩
    simp only [Lawful.shared, ← iff]
    split
    · next hk => rw [view k hk.1 hk.2]; rfl
    · rfl
  | some v =>
    obtain ⟨c', run, hc'⟩ := changedChange_represents .add
      (s := ⟨(clip M start limit i).start, (clip M start limit i).limit, v⟩) hc hp (fits v rfl)
    refine ⟨c', run, hc'.congr fun k => ?_⟩
    rw [Lawful.changed_overlay]
    refine Lawful.overlay_congr ?_
    simp only [Lawful.shared, ← iff]
    split
    · next hk => rw [view k hk.1 hk.2]; rfl
    · rfl

theorem intersectEntry_represents {c : Changed K V} {i : Segment K V}
    (hc : L.Represents c.map f) (h : start < limit) (hi : i.start < i.limit)
    (meets : start < i.limit ∧ i.start < limit) (fits : L.fits .add start limit value)
    (fi : L.fits .add i.start i.limit i.value) :
    ∃ c', intersectEntry M start limit value true c i = some c' ∧
      L.Represents c'.map (L.overlay .add f (Lawful.shared start limit i fun k =>
        L.inter (L.view i.start i.limit i.value k) (L.view start limit value k))) := by
  obtain ⟨hp, his, hil, hs, hl, -⟩ := clip_bounds (M := M) h hi meets
  have fp := L.slice_fits fi his hp hil
  have fv := L.slice_fits fits hs hp hl
  refine addShared_represents hc h hi meets (fun v hv => L.intersection_fits fp fv hv)
    fun k hk hk' => ?_
  rw [← L.slice_view fi his hil hk hk', ← L.slice_view fits hs hl hk hk',
    L.intersection_view fp fv hk hk']
  rfl

theorem subtractEntry_represents {c : Changed K V} {i : Segment K V}
    (hc : L.Represents c.map f) (h : start < limit) (hi : i.start < i.limit)
    (meets : start < i.limit ∧ i.start < limit) (fits : L.fits .add start limit value)
    (fi : L.fits .add i.start i.limit i.value) :
    ∃ c', subtractEntry M start limit value true c i = some c' ∧
      L.Represents c'.map (L.overlay .add f (Lawful.shared start limit i fun k =>
        L.diff (L.view start limit value k) (L.view i.start i.limit i.value k))) := by
  obtain ⟨hp, his, hil, hs, hl, -⟩ := clip_bounds (M := M) h hi meets
  have fp := L.slice_fits fi his hp hil
  have fv := L.slice_fits fits hs hp hl
  refine addShared_represents hc h hi meets (fun v hv => L.difference_fits fv fp hv)
    fun k hk hk' => ?_
  rw [← L.slice_view fi his hil hk hk', ← L.slice_view fits hs hl hk hk',
    L.difference_view fv fp hk hk']
  rfl

/-- At the keys of a range, what a map has is what the entries found for it have. -/
theorem lookup_found {a w b : RangeMap K V} (hx : L.Denotes (a ++ (w ++ b)) g)
    (split : Split start limit a w b) {k : K} (hk : start ≤ k ∧ k < limit) :
    g k = L.lookup w k := by
  obtain ⟨_, hwb, _, reads⟩ := Lawful.denotes_append hx
  obtain ⟨_, _, _, reads'⟩ := Lawful.denotes_append hwb
  have before : L.lookup a k = none := lookup_before fun s hs => (split.before s hs).trans hk.1
  have after : L.lookup b k = none := lookup_after fun s hs => hk.2.trans_le (split.after s hs)
  rw [reads, reads', before, after, Option.none_or, Option.or_none]

/-- The range that `Find` returns is empty when no key of it is in the map. -/
theorem find_empty {m : RangeMap K V} (hm : L.Denotes m f) (h : start < limit) :
    ∃ r, find m start limit = some r ∧
      (r.1 = r.2 ↔ ∀ k, start ≤ k → k < limit → f k = none) := by
  obtain ⟨a, w, b, rfl, split, found⟩ := find_split hm.separated h
  refine ⟨_, found, ?_⟩
  cases w with
  | nil => exact iff_of_true rfl fun k low high => by rw [lookup_found hm split ⟨low, high⟩]; rfl
  | cons i w =>
    have meets := split.within i (by simp)
    have hi := hm.separated.1 i (by simp)
    refine iff_of_false (by simp) fun none => ?_
    have absent := none (max start i.start) (le_max_left _ _) (max_lt h meets.2)
    rw [← hm.reads, Lawful.lookup, lookup_mem hm.separated (s := i) (by simp)
      ⟨le_max_right _ _, max_lt meets.1 hi⟩] at absent
    cases absent

/-- What the intersection of `g` with `value` on `[start, limit)` adds at a key. -/
def Lawful.meet (L : Lawful M β) (start limit : K) (value : V) (g : K → Option β) (k : K) :
    Option β :=
  if start ≤ k ∧ k < limit then (g k).bind fun a => L.inter a (L.view start limit value k)
  else none

theorem addIntersectionOf_represents {c : Changed K V} {x : RangeMap K V}
    (hc : L.Represents c.map f) (hx : L.Denotes x g) (h : start < limit)
    (fits : L.fits .add start limit value) :
    ∃ c', addIntersectionOf M c x start limit value true = some c' ∧
      L.Represents c'.map (L.overlay .add f (L.meet start limit value g)) := by
  obtain ⟨a, w, b, rfl, split, found⟩ := find_split hx.separated h
  obtain ⟨_, hwb, _⟩ := Lawful.denotes_append hx
  obtain ⟨hw, _⟩ := Lawful.denotes_append hwb
  simp only [addIntersectionOf, found, Option.bind_eq_bind, Option.bind_some, range_split]
  obtain ⟨c', run, hc'⟩ := foldlM_run (l := w) (s := c)
    (f := intersectEntry M start limit value true)
    (P := fun done c => L.Represents (Changed.map c)
      (L.overlay .add f (L.meet start limit value (L.lookup done))))
    (hc.congr fun k => (Lawful.overlay_none (by simp [Lawful.meet])).symm)
    fun done i rest c hl hc => by
      obtain ⟨c', run, hc'⟩ := intersectEntry_represents hc h (hw.separated.1 i (by simp [hl]))
        (split.within i (by simp [hl])) fits (hw.fits i (by simp [hl]))
      refine ⟨c', run, hc'.congr fun k => ?_⟩
      have alone := lookup_done (L := L) (hl ▸ hw.separated) (k := k)
      rw [Lawful.overlay_overlay]
      · refine Lawful.overlay_congr ?_
        simp only [Lawful.meet, Lawful.shared, lookup_snoc]
        rcases alone with none | out
        · rw [none]
          split_ifs <;> simp_all
        · simp [out]
      · simp only [Lawful.meet, Lawful.shared]
        exact alone.imp (by simp +contextual) fun out => if_neg fun hk => out hk.2
  refine ⟨c', run, hc'.congr fun k => Lawful.overlay_congr ?_⟩
  simp only [Lawful.meet]
  split
  · next hk => rw [lookup_found hx split hk]
  · rfl

theorem addIntersectionOfMaps_represents {m x y : RangeMap K V} {e : K → Option β}
    (hm : L.Represents m e) (hx : L.Denotes x f) (hy : L.Denotes y g) :
    ∃ c, addIntersectionOfMaps M m x y true = some c ∧
      L.Represents c.map (L.overlay .add e fun k =>
        (f k).bind fun a => (g k).bind fun b => L.inter a b) := by
  obtain ⟨c, run, hc⟩ := foldlM_run (l := y) (s := Changed.mk m false 0)
    (f := fun c i => addIntersectionOf M c x i.start i.limit i.value true)
    (P := fun done c => L.Represents (Changed.map c) (L.overlay .add e fun k =>
        (f k).bind fun a => (L.lookup done k).bind fun b => L.inter a b))
    (hm.congr fun k => (Lawful.overlay_none (by simp)).symm)
    fun done i rest c hl hc => by
      obtain ⟨c', run, hc'⟩ := addIntersectionOf_represents hc hx (hy.separated.1 i (by simp [hl]))
        (hy.fits i (by simp [hl]))
      refine ⟨c', run, hc'.congr fun k => ?_⟩
      have alone := lookup_done (L := L) (hl ▸ hy.separated) (k := k)
      rw [Lawful.overlay_overlay]
      · refine Lawful.overlay_congr ?_
        simp only [Lawful.meet, lookup_snoc]
        rcases alone with none | out
        · rw [none]
          split_ifs <;> simp
        · simp [out]
      · simp only [Lawful.meet]
        exact alone.imp (by simp +contextual) fun out => if_neg out
  exact ⟨c, run, hc.congr fun k => Lawful.overlay_congr (by simp only [hy.reads])⟩

/-- What the difference of `value` on `[start, limit)` and `g` adds at a key. -/
def Lawful.remain (L : Lawful M β) (start limit : K) (b : K → β) (g : K → Option β) (k : K) :
    Option β :=
  if start ≤ k ∧ k < limit then
    match g k with
    | none => some (b k)
    | some a => L.diff (b k) a
  else none

theorem addGap_represents {c : Changed K V} {s l : K} (hc : L.Represents c.map f)
    (fits : L.fits .add start limit value) (hs : start ≤ s) (hl : l ≤ limit) :
    ∃ c', addGap M c start limit value s l true = some c' ∧
      L.Represents c'.map (L.overlay .add f fun k =>
        if s ≤ k ∧ k < l then some (L.view start limit value k) else none) := by
  by_cases h : s < l
  · obtain ⟨c', run, hc'⟩ := changedChange_represents .add
      (s := ⟨s, l, M.slice start limit value s l⟩) hc h (L.slice_fits fits hs h hl)
    refine ⟨c', by simpa [addGap, h] using run, hc'.congr fun k => ?_⟩
    rw [Lawful.changed_overlay]
    refine Lawful.overlay_congr ?_
    split
    · next hk => rw [L.slice_view fits hs hl hk.1 hk.2]
    · rfl
  · refine ⟨c, by simp [addGap, h], hc.congr fun k => (Lawful.overlay_none ?_).symm⟩
    exact if_neg fun hk => h (hk.1.trans_lt hk.2)

theorem addDifferenceLoop_represents {c : Changed K V} {w : RangeMap K V} {prev : K}
    (hc : L.Represents c.map f) (hw : L.Denotes w g) (h : start < limit)
    (ahead : Ahead start limit prev w) (fits : L.fits .add start limit value) :
    ∃ c', addDifferenceLoop M start limit value true prev c w = some c' ∧
      L.Represents c'.map (L.overlay .add f (L.remain prev limit (L.view start limit value) g)) := by
  induction w generalizing prev c f g with
  | nil =>
    obtain ⟨c', run, hc'⟩ := addGap_represents hc fits ahead.since le_rfl
    refine ⟨c', run, hc'.congr fun k => Lawful.overlay_congr ?_⟩
    simp only [Lawful.remain, ← hw.reads, Lawful.lookup, lookup_nil]
  | cons i rest ih =>
    obtain ⟨hi, after, hr⟩ := separated_cons.mp hw.separated
    have first := ahead.first.imp_right fun f => f i (by simp)
    obtain ⟨hpi, hl⟩ := ahead.overlaps i (by simp)
    have since := ahead.since
    obtain ⟨c₁, run₁, hc₁⟩ := subtractEntry_represents hc h hi ⟨since.trans_lt hpi, hl⟩ fits
      (hw.fits i (by simp))
    obtain ⟨c₂, run₂, hc₂⟩ := addGap_represents (s := prev) (l := i.start) hc₁ fits since hl.le
    obtain ⟨c₃, run₃, hc₃⟩ := ih hc₂ ⟨hr, fun s hs => hw.fits s (by simp [hs]), fun _ => rfl⟩
      (ahead.next hw.separated)
    refine ⟨c₃, by simp [addDifferenceLoop, run₁, run₂, run₃], hc₃.congr fun k => ?_⟩
    have reads := hw.reads k
    rw [Lawful.lookup, lookup_cons] at reads
    -- before the entry the gap adds, at its keys the difference, after it the loop
    rcases lt_or_ge k i.start with early | late
    · have out : L.lookup rest k = none := lookup_after fun s hs =>
        early.trans (hi.trans_le (after s hs))
      rw [if_neg fun hk => absurd hk.1 (not_le.mpr early), ← Lawful.lookup, out] at reads
      simp only [Lawful.overlay, Lawful.remain, Lawful.shared, ← reads]
      grind
    · rcases lt_or_ge k i.limit with inside | past
      · rw [if_pos ⟨late, inside⟩] at reads
        have inRange : (start ≤ k ∧ k < limit) = (prev ≤ k ∧ k < limit) := by grind
        simp only [Lawful.overlay, Lawful.remain, Lawful.shared, ← reads, late, inside,
          not_lt.mpr late, not_le.mpr inside, and_true, and_false, false_and, if_false,
          inRange]
      · rw [if_neg fun hk => absurd hk.2 (not_lt.mpr past), ← Lawful.lookup] at reads
        have later : prev ≤ k := hpi.le.trans past
        simp only [Lawful.overlay, Lawful.remain, Lawful.shared, ← reads, late, past,
          not_lt.mpr late, not_lt.mpr past, later, and_false, true_and, if_false]

theorem addDifferenceOf_represents (value : V) {c : Changed K V} {y : RangeMap K V}
    (hc : L.Represents c.map f) (hy : L.Denotes y g) (h : start < limit)
    (fits : L.fits .add start limit value) :
    ∃ c', addDifferenceOf M c start limit value y true = some c' ∧
      L.Represents c'.map
        (L.overlay .add f (L.remain start limit (L.view start limit value) g)) := by
  obtain ⟨a, w, b, rfl, split, found⟩ := find_split hy.separated h
  obtain ⟨_, hwb, _⟩ := Lawful.denotes_append hy
  obtain ⟨hw, _⟩ := Lawful.denotes_append hwb
  obtain ⟨c', run, hc'⟩ := addDifferenceLoop_represents hc hw h ⟨le_rfl, split.within, .inl rfl⟩ fits
  refine ⟨c', by simp [addDifferenceOf, found, run], hc'.congr fun k => Lawful.overlay_congr ?_⟩
  simp only [Lawful.remain]
  split
  · next hk => rw [lookup_found hy split hk]
  · rfl

theorem addDifferenceOfMaps_represents {m x y : RangeMap K V} {e : K → Option β}
    (hm : L.Represents m e) (hx : L.Denotes x f) (hy : L.Denotes y g) :
    ∃ c, addDifferenceOfMaps M m x y true = some c ∧
      L.Represents c.map (L.overlay .add e fun k => (f k).bind fun a =>
        match g k with
        | none => some a
        | some b => L.diff a b) := by
  obtain ⟨c, run, hc⟩ := foldlM_run (l := x) (s := Changed.mk m false 0)
    (f := fun c i => addDifferenceOf M c i.start i.limit i.value y true)
    (P := fun done c => L.Represents (Changed.map c) (L.overlay .add e fun k =>
      (L.lookup done k).bind fun a =>
        match g k with
        | none => some a
        | some b => L.diff a b))
    (hm.congr fun k => (Lawful.overlay_none (by simp)).symm)
    fun done i rest c hl hc => by
      obtain ⟨c', run, hc'⟩ := addDifferenceOf_represents _ hc hy (hx.separated.1 i (by simp [hl]))
        (hx.fits i (by simp [hl]))
      refine ⟨c', run, hc'.congr fun k => ?_⟩
      have alone := lookup_done (L := L) (hl ▸ hx.separated) (k := k)
      rw [Lawful.overlay_overlay]
      · refine Lawful.overlay_congr ?_
        simp only [Lawful.remain, lookup_snoc]
        rcases alone with none | out
        · rw [none]
          split_ifs <;> simp
        · simp [out]
      · simp only [Lawful.remain]
        exact alone.imp (by simp +contextual) fun out => if_neg out
  exact ⟨c, run, hc.congr fun k => Lawful.overlay_congr (by simp only [hx.reads])⟩

end

end RangeMap

end Silifuzz
