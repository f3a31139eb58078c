import Silifuzz.Util.RangeMap.Lawful

/-!
# Change

`change` does to every key what `Lawful.changed` says, and nothing else:

* `changeEntry_denotes`: one entry of the loop, whatever part of it is covered;
* `changeLoop_denotes`: the loop over the overlapped entries and their gaps;
* `Piece`: where the records the loop leaves come from, for `Merge()`.
-/

namespace Silifuzz

open Segments

namespace RangeMap

variable {K V β : Type} [LinearOrder K] {M : Methods K V} {L : Lawful M β}

theorem changeRecord_denotes {mode : ChangeMode} {s l : K} {d v : V} {r : Bool}
    (h : s < l) (hd : L.fits .add s l d) (hv : L.fits mode s l v) :
    L.Denotes (changeRecord M mode s l d v r).map fun k =>
      if s ≤ k ∧ k < l then L.combine mode (some (L.view s l d k)) (L.view s l v k) else none := by
  cases mode with
  | add =>
    by_cases he : (M.addTo d v).empty = true
    · simp only [changeRecord, changeValue, he, if_true]
      refine Lawful.Denotes.nil.congr fun k => ?_
      split
      · next hk => simp [Lawful.combine, L.addTo_view hd hv hk.1 hk.2, he]
      · rfl
    · simp only [changeRecord, changeValue, he]
      refine (Lawful.Denotes.single h (L.addTo_fits hd hv (by simpa using he))).congr fun k => ?_
      split
      · next hk => simp [Lawful.combine, L.addTo_view hd hv hk.1 hk.2, he]
      · rfl
  | remove =>
    by_cases he : (M.removeFrom d v).empty = true
    · simp only [changeRecord, changeValue, he, if_true]
      refine Lawful.Denotes.nil.congr fun k => ?_
      split
      · next hk => simp [Lawful.combine, L.removeFrom_view hd hv hk.1 hk.2, he]
      · rfl
    · simp only [changeRecord, changeValue, he]
      refine (Lawful.Denotes.single h
        (L.removeFrom_fits hd hv (by simpa using he))).congr fun k => ?_
      split
      · next hk => simp [Lawful.combine, L.removeFrom_view hd hv hk.1 hk.2, he]
      · rfl

omit [LinearOrder K] in
theorem changeRecord_within {mode : ChangeMode} {s l : K} {d v : V} {r : Bool}
    {t : Segment K V} (ht : t ∈ (changeRecord M mode s l d v r).map) :
    t.start = s ∧ t.limit = l := by
  simp only [changeRecord] at ht
  split at ht <;> simp_all

theorem changeGap_denotes {mode : ChangeMode} {start limit : K} {value : V} {s l : K}
    {r : Bool} (fits : L.fits mode start limit value) (hs : start ≤ s) (hl : l ≤ limit) :
    L.Denotes (changeGap M mode start limit value s l r).map fun k =>
      if s ≤ k ∧ k < l then L.combine mode none (L.view start limit value k) else none := by
  by_cases h : s < l
  · cases mode with
    | add =>
      simp only [changeGap, h, if_true]
      refine (Lawful.Denotes.single h (L.slice_fits fits hs h hl)).congr fun k => ?_
      split
      · next hk => simp [Lawful.combine, L.slice_view fits hs hl hk.1 hk.2]
      · rfl
    | remove =>
      simp only [changeGap, h, if_true]
      exact Lawful.Denotes.nil.congr fun k => by simp [Lawful.combine]
  · simp only [changeGap, h, if_false]
    refine Lawful.Denotes.nil.congr fun k => (if_neg ?_).symm
    rintro ⟨_, _⟩
    exact h (by order)

theorem changeGap_within {mode : ChangeMode} {start limit : K} {value : V} {s l : K}
    {r : Bool} {t : Segment K V}
    (ht : t ∈ (changeGap M mode start limit value s l r).map) :
    s < l ∧ t.start = s ∧ t.limit = l := by
  simp only [changeGap] at ht
  split at ht
  · split at ht <;> simp_all
  · simp at ht

/-- Where a record left by `Change`'s loop comes from: it lies in the range, or it
is what an entry reaching over one end of the range has outside. -/
inductive Piece (M : Methods K V) (start limit : K) (w : RangeMap K V) : Segment K V → Prop where
  | inside {t} : start ≤ t.start → t.limit ≤ limit → Piece M start limit w t
  | before {i} : i ∈ w → i.start < start → start < i.limit →
      Piece M start limit w (sliceOf M i i.start start)
  | after {i} : i ∈ w → i.start < limit → limit < i.limit →
      Piece M start limit w (sliceOf M i limit i.limit)

theorem Piece.mono {start limit : K} {w w' : RangeMap K V} {t : Segment K V}
    (h : Piece M start limit w t) (sub : ∀ i ∈ w, i ∈ w') : Piece M start limit w' t := by
  cases h with
  | inside hs hl => exact .inside hs hl
  | before hi hs hl => exact .before (sub _ hi) hs hl
  | after hi hs hl => exact .after (sub _ hi) hs hl

section
variable {mode : ChangeMode} {start limit prevStart : K} {value : V} {r : Bool}
  {i : Segment K V}

theorem changeEntry_within {t : Segment K V} (hs : start ≤ prevStart)
    (hp : prevStart < i.limit) (hl : i.start < limit)
    (first : prevStart = start ∨ prevStart ≤ i.start)
    (ht : t ∈ (changeEntry M mode start limit value prevStart i r).map) :
    i.start ≤ t.start ∧ t.limit ≤ i.limit := by
  simp only [changeEntry] at ht
  split_ifs at ht with h₁ h₂ h₃
  · obtain ⟨_, _⟩ := changeRecord_within ht
    grind
  · simp only [List.mem_append, List.mem_singleton] at ht
    rcases ht with ht | rfl
    · obtain ⟨_, _⟩ := changeRecord_within ht
      grind
    · simp only [sliceOf]
      grind
  · simp only [List.mem_append, List.mem_singleton] at ht
    rcases ht with (rfl | ht) | rfl
    · simp only [sliceOf]
      grind
    · obtain ⟨_, _⟩ := changeRecord_within ht
      grind
    · simp only [sliceOf]
      grind
  · simp only [List.mem_append, List.mem_singleton] at ht
    rcases ht with rfl | ht
    · simp only [sliceOf]
      grind
    · obtain ⟨_, _⟩ := changeRecord_within ht
      grind

theorem changeEntry_piece {w : RangeMap K V} {t : Segment K V} (hi : i ∈ w)
    (hs : start ≤ prevStart) (h : start < limit) (hp : prevStart < i.limit) (hl : i.start < limit)
    (first : prevStart = start ∨ prevStart ≤ i.start)
    (ht : t ∈ (changeEntry M mode start limit value prevStart i r).map) :
    Piece M start limit w t := by
  simp only [changeEntry] at ht
  split_ifs at ht with h₁ h₂ h₃
  · obtain ⟨_, _⟩ := changeRecord_within ht
    exact .inside (by order) (by order)
  · simp only [List.mem_append, List.mem_singleton] at ht
    rcases ht with ht | rfl
    · obtain ⟨_, _⟩ := changeRecord_within ht
      exact .inside (by order) (by order)
    · exact .after hi hl h₂.2
  · obtain rfl := first.resolve_right (not_le.mpr h₃.1)
    simp only [List.mem_append, List.mem_singleton] at ht
    rcases ht with (rfl | ht) | rfl
    · exact .before hi h₃.1 hp
    · obtain ⟨_, _⟩ := changeRecord_within ht
      exact .inside (by order) (by order)
    · exact .after hi hl h₃.2
  · have late : i.start < prevStart := by grind
    obtain rfl := first.resolve_right (not_le.mpr late)
    simp only [List.mem_append, List.mem_singleton] at ht
    rcases ht with rfl | ht
    · exact .before hi late hp
    · obtain ⟨_, _⟩ := changeRecord_within ht
      exact .inside (by order) (by grind)

/-- The record left where the range and the entry share `[s, l)`. -/
theorem changeRecord_slice (fi : L.fits .add i.start i.limit i.value) {s l : K} {v : V}
    (hs : i.start ≤ s) (h : s < l) (hl : l ≤ i.limit) (hv : L.fits mode s l v)
    (view : ∀ k, s ≤ k → k < l → L.view s l v k = L.view start limit value k) :
    L.Denotes (changeRecord M mode s l (sliceOf M i s l).value v r).map fun k =>
      if s ≤ k ∧ k < l then
        L.combine mode (some (L.view i.start i.limit i.value k)) (L.view start limit value k)
      else none :=
  (changeRecord_denotes h (L.slice_fits fi hs h hl) hv).congr fun k => by
    by_cases hk : s ≤ k ∧ k < l
    · simp only [hk, and_self, if_true, L.slice_view fi hs hl hk.1 hk.2,
        view k hk.1 hk.2]
    · rw [if_neg hk, if_neg hk]

/-- On the keys of one entry, from `prev_start` up to `limit`, the value is combined. -/
theorem changeEntry_denotes (fits : L.fits mode start limit value)
    (fi : L.fits .add i.start i.limit i.value) (hi : i.start < i.limit) (h : start < limit)
    (hs : start ≤ prevStart) (hp : prevStart < i.limit) (hl : i.start < limit)
    (first : prevStart = start ∨ prevStart ≤ i.start) :
    L.Denotes (changeEntry M mode start limit value prevStart i r).map fun k =>
      if i.start ≤ k ∧ k < i.limit then
        L.changed mode prevStart limit (L.view start limit value)
          (fun k => some (L.view i.start i.limit i.value k)) k
      else none := by
  simp only [changeEntry]
  split_ifs with h₁ h₂ h₃
  · have hv := L.slice_fits fits (hs.trans h₁.1) hi h₁.2
    refine (changeRecord_denotes hi fi hv).congr fun k => ?_
    by_cases hk : i.start ≤ k ∧ k < i.limit
    · have inside : prevStart ≤ k ∧ k < limit := ⟨h₁.1.trans hk.1, hk.2.trans_le h₁.2⟩
      simp only [hk, if_pos, inside, Lawful.changed, and_self,
        L.slice_view fits (hs.trans h₁.1) h₁.2 hk.1 hk.2]
    · rw [if_neg hk, if_neg hk]
  · have hsi := hs.trans h₂.1
    have record := changeRecord_slice (r := r) fi le_rfl hl h₂.2.le
      (L.slice_fits fits hsi hl le_rfl) fun k => L.slice_view fits hsi le_rfl
    have rest := Lawful.Denotes.sliceOf (L := L) fi hl.le h₂.2 le_rfl
    refine (record.append rest ?_).congr fun k => ?_
    · intro s hs t ht
      obtain rfl := List.mem_singleton.mp ht
      exact (changeRecord_within hs).2.le
    · simp only [Lawful.changed]
      grind
  · obtain rfl := first.resolve_right (not_le.mpr h₃.1)
    have front := Lawful.Denotes.sliceOf (L := L) fi le_rfl h₃.1 hp.le
    have record := changeRecord_slice (r := r) fi h₃.1.le h h₃.2.le fits fun _ _ _ => rfl
    have rest := Lawful.Denotes.sliceOf (L := L) fi hl.le h₃.2 le_rfl
    refine ((front.append record ?_).append rest ?_).congr fun k => ?_
    · intro s hs t ht
      obtain rfl := List.mem_singleton.mp hs
      exact (changeRecord_within ht).1.ge
    · intro s hs t ht
      obtain rfl := List.mem_singleton.mp ht
      rcases List.mem_append.mp hs with hs | hs
      · obtain rfl := List.mem_singleton.mp hs
        exact h.le
      · exact (changeRecord_within hs).2.le
    · simp only [Lawful.changed]
      grind
  · have late : i.start < prevStart := by grind
    have inner : i.limit ≤ limit := by grind
    obtain rfl := first.resolve_right (not_le.mpr late)
    have front := Lawful.Denotes.sliceOf (L := L) fi le_rfl late hp.le
    have record := changeRecord_slice (r := r) fi late.le hp le_rfl
      (L.slice_fits fits le_rfl hp inner) fun k => L.slice_view fits le_rfl inner
    refine (front.append record ?_).congr fun k => ?_
    · intro s hs t ht
      obtain rfl := List.mem_singleton.mp hs
      exact (changeRecord_within ht).1.ge
    · simp only [Lawful.changed]
      grind

end

section
variable {mode : ChangeMode} {start limit : K} {value : V}

/-- What `Change`'s loop needs of the entries it has still to pass. -/
structure Ahead (start limit prevStart : K) (w : RangeMap K V) : Prop where
  since : start ≤ prevStart
  overlaps : ∀ i ∈ w, prevStart < i.limit ∧ i.start < limit
  first : prevStart = start ∨ ∀ i ∈ w, prevStart ≤ i.start

theorem Ahead.next {prevStart : K} {i : Segment K V} {rest : RangeMap K V}
    (h : Ahead start limit prevStart (i :: rest)) (sep : Separated (i :: rest)) :
    Ahead start limit i.limit rest := by
  obtain ⟨_, after, hr⟩ := separated_cons.mp sep
  refine ⟨h.since.trans (h.overlaps i (by simp)).1.le, fun j hj => ?_, .inr after⟩
  exact ⟨(after j hj).trans_lt (hr.1 j hj), (h.overlaps j (by simp [hj])).2⟩

theorem changeLoop_from {w : RangeMap K V} {prevStart lo : K} {r : Bool} {t : Segment K V}
    (ahead : Ahead start limit prevStart w) (sep : Separated w) (hp : lo ≤ prevStart)
    (hw : ∀ i ∈ w, lo ≤ i.start)
    (ht : t ∈ (changeLoop M mode start limit value prevStart r w).map) : lo ≤ t.start := by
  induction w generalizing prevStart r with
  | nil =>
    obtain ⟨_, hs, _⟩ := changeGap_within ht
    exact hs ▸ hp
  | cons i rest ih =>
    obtain ⟨hi, after, hr⟩ := separated_cons.mp sep
    have first := ahead.first.imp_right fun f => f i (by simp)
    obtain ⟨hpi, hl⟩ := ahead.overlaps i (by simp)
    simp only [changeLoop, List.mem_append] at ht
    rcases ht with (ht | ht) | ht
    · obtain ⟨_, hs, _⟩ := changeGap_within ht
      exact hs ▸ hp
    · exact (hw i (by simp)).trans (changeEntry_within ahead.since hpi hl first ht).1
    · exact ih (ahead.next sep) hr ((hw i (by simp)).trans hi.le)
        (fun j hj => hw j (by simp [hj])) ht

theorem changeLoop_piece {w : RangeMap K V} {prevStart : K} {r : Bool} {t : Segment K V}
    (h : start < limit) (ahead : Ahead start limit prevStart w) (sep : Separated w)
    (ht : t ∈ (changeLoop M mode start limit value prevStart r w).map) :
    Piece M start limit w t := by
  induction w generalizing prevStart r with
  | nil =>
    obtain ⟨_, hs, hl⟩ := changeGap_within ht
    exact .inside (hs ▸ ahead.since) hl.le
  | cons i rest ih =>
    obtain ⟨hi, after, hr⟩ := separated_cons.mp sep
    have first := ahead.first.imp_right fun f => f i (by simp)
    obtain ⟨hpi, hl⟩ := ahead.overlaps i (by simp)
    simp only [changeLoop, List.mem_append] at ht
    rcases ht with (ht | ht) | ht
    · obtain ⟨_, hs, hl'⟩ := changeGap_within ht
      exact .inside (hs ▸ ahead.since) (hl' ▸ hl.le)
    · exact changeEntry_piece (by simp) ahead.since h hpi hl first ht
    · exact (ih (ahead.next sep) hr ht).mono fun j hj => by simp [hj]

/-- The loop combines the value at every key from `prev_start` to `limit`, over the
entries and the gaps between them. -/
theorem changeLoop_denotes {w : RangeMap K V} {prevStart : K} {r : Bool} {f : K → Option β}
    (fits : L.fits mode start limit value) (h : start < limit)
    (ahead : Ahead start limit prevStart w) (hw : L.Denotes w f) :
    L.Denotes (changeLoop M mode start limit value prevStart r w).map
      (L.changed mode prevStart limit (L.view start limit value) f) := by
  induction w generalizing prevStart r f with
  | nil =>
    refine (changeGap_denotes fits ahead.since le_rfl).congr fun k => ?_
    simp only [Lawful.changed, ← hw.reads, Lawful.lookup, lookup_nil]
  | cons i rest ih =>
    obtain ⟨hi, after, hr⟩ := separated_cons.mp hw.separated
    have first := ahead.first.imp_right fun f => f i (by simp)
    obtain ⟨hpi, hl⟩ := ahead.overlaps i (by simp)
    have gap := changeGap_denotes (r := r) fits ahead.since hl.le
    have entry := fun r => changeEntry_denotes (r := r) fits (hw.fits i (by simp)) hi h
      ahead.since hpi hl first
    have next := fun r => ih (r := r) (ahead.next hw.separated)
      ⟨hr, fun s hs => hw.fits s (by simp [hs]), fun _ => rfl⟩
    refine ((gap.append (entry _) ?_).append (next _) ?_).congr fun k => ?_
    · intro s hs t ht
      exact (changeGap_within hs).2.2 ▸ (changeEntry_within ahead.since hpi hl first ht).1
    · intro s hs t ht
      have later := changeLoop_from (ahead.next hw.separated) hr le_rfl after ht
      rcases List.mem_append.mp hs with hs | hs
      · exact (changeGap_within hs).2.2 ▸ hi.le.trans later
      · exact (changeEntry_within ahead.since hpi hl first hs).2.trans later
    · have none_before : k < i.limit → L.lookup rest k = none := fun hk =>
        lookup_none fun s hs hsk => by have := after s hs; order
      have hk := hw.reads k
      rw [Lawful.lookup, lookup_cons] at hk
      simp only [Lawful.changed]
      grind

end

end RangeMap

end Silifuzz
