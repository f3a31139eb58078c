import Mathlib.Data.Option.Basic
import Silifuzz.Util.RangeMap.Change

/-!
# Merge

`Merge()` changes no key's value, and merging around a changed range makes the
whole map canonical again:

* `mergeLoop_spans`: a merged record behaves at both its ends like an old one;
* `merge_denotes`: the entry before and the entry after the range are reached too;
* `change_denotes`: `Change()` keeps the map canonical and does to every key what
  `Lawful.changed` says.
-/

namespace Silifuzz

open Segments

namespace RangeMap

variable {K V β : Type} [LinearOrder K] {M : Methods K V} {L : Lawful M β}

/-- The segment starts like one entry of `w` and ends like another. -/
def Spans (M : Methods K V) (w : RangeMap K V) (z : Segment K V) : Prop :=
  (∃ a ∈ w, a.start = z.start ∧ ∀ v, M.canMerge v z.value = M.canMerge v a.value) ∧
    ∃ b ∈ w, b.limit = z.limit ∧ ∀ v, M.canMerge z.value v = M.canMerge b.value v

omit [LinearOrder K] in
theorem spans_mem {w : RangeMap K V} {z : Segment K V} (hz : z ∈ w) : Spans M w z :=
  ⟨⟨z, hz, rfl, fun _ => rfl⟩, z, hz, rfl, fun _ => rfl⟩

theorem mergeLoop_spans (L : Lawful M β) {prev : Segment K V} {rest : RangeMap K V}
    {z : Segment K V} (hz : z ∈ (mergeLoop M prev rest).1) : Spans M (prev :: rest) z := by
  induction rest generalizing prev with
  | nil =>
    obtain rfl : z = prev := by simpa [mergeLoop] using hz
    exact spans_mem (by simp)
  | cons iter rest ih =>
    simp only [mergeLoop] at hz
    split at hz
    · next touch =>
      obtain ⟨⟨a, ha, hs, la⟩, b, hb, hl, ra⟩ := ih hz
      refine ⟨?_, ?_⟩
      · rcases List.mem_cons.mp ha with rfl | ha
        · exact ⟨prev, by simp, hs, fun v => (la v).trans (L.canMerge_merge_right v touch.2)⟩
        · exact ⟨a, by simp [ha], hs, la⟩
      · rcases List.mem_cons.mp hb with rfl | hb
        · exact ⟨iter, by simp, hl, fun v => (ra v).trans (L.canMerge_merge_left v touch.2)⟩
        · exact ⟨b, by simp [hb], hl, ra⟩
    · rcases List.mem_cons.mp hz with rfl | hz
      · exact spans_mem (by simp)
      · obtain ⟨⟨a, ha, la⟩, b, hb, ra⟩ := ih hz
        exact ⟨⟨a, List.mem_cons_of_mem _ ha, la⟩, b, List.mem_cons_of_mem _ hb, ra⟩

/-- One merge of two touching entries. -/
theorem merged_denotes {prev iter : Segment K V} {rest : RangeMap K V} {f : K → Option β}
    (h : L.Denotes (prev :: iter :: rest) f) (touch : prev.limit = iter.start)
    (can : M.canMerge prev.value iter.value = true) :
    L.Denotes (⟨prev.start, iter.limit, M.merge prev.value iter.value⟩ :: rest) f := by
  obtain ⟨hp, afterPrev, hi, after, hr⟩ :=
    (separated_cons.mp h.separated).imp_right (·.imp_right separated_cons.mp)
  have fp := h.fits prev (by simp)
  have fi := h.fits iter (by simp)
  rw [← touch] at fi hi
  refine ⟨separated_cons.mpr ⟨hp.trans hi, after, hr⟩, fun s hs => ?_, fun k => ?_⟩
  · rcases List.mem_cons.mp hs with rfl | hs
    · exact L.merge_fits hp hi fp fi can
    · exact h.fits s (by simp [hs])
  · have left := L.merge_left (k := k) fp fi can
    have right := L.merge_right (k := k) fp fi can
    rw [← h.reads k, Lawful.lookup, Lawful.lookup, lookup_cons, lookup_cons, lookup_cons]
    grind

theorem mergeLoop_denotes {prev : Segment K V} {rest : RangeMap K V} {f : K → Option β}
    (h : L.Denotes (prev :: rest) f) : L.Denotes (mergeLoop M prev rest).1 f := by
  induction rest generalizing prev f with
  | nil => exact h
  | cons iter rest ih =>
    simp only [mergeLoop]
    split
    · next touch => exact ih (merged_denotes h touch.1 touch.2)
    · obtain ⟨hp, hr, order, reads⟩ := Lawful.denotes_append (a := [prev]) h
      refine (hp.append (ih hr) fun s hs t ht => ?_).congr fun k => (reads k).symm
      obtain rfl := List.mem_singleton.mp hs
      obtain ⟨⟨a, ha, start, _⟩, _⟩ := mergeLoop_spans L ht
      exact start ▸ order s (by simp) a ha

theorem mergeLoop_canonical {prev : Segment K V} {rest : RangeMap K V} {f : K → Option β}
    (h : L.Denotes (prev :: rest) f) : Canonical M (mergeLoop M prev rest).1 := by
  induction rest generalizing prev f with
  | nil =>
    intro a ha b hb touch
    obtain rfl : a = prev := by simpa [mergeLoop] using ha
    obtain rfl : b = a := by simpa [mergeLoop] using hb
    exact absurd touch (h.separated.1 b (by simp)).ne'
  | cons iter rest ih =>
    have denotes := mergeLoop_denotes h
    simp only [mergeLoop] at denotes ⊢
    split at denotes
    · next touch =>
      rw [if_pos touch]
      exact ih (merged_denotes h touch.1 touch.2)
    · next apart =>
      rw [if_neg apart]
      obtain ⟨_, hr, order, _⟩ := Lawful.denotes_append (a := [prev]) h
      obtain ⟨_, after, _⟩ := separated_cons.mp hr.separated
      refine (canonical_append (a := [prev]) denotes.separated).mpr ⟨?_, ih hr, ?_⟩
      · intro a ha b hb touch
        obtain rfl := List.mem_singleton.mp ha
        obtain rfl := List.mem_singleton.mp hb
        exact absurd touch (h.separated.1 b (by simp)).ne'
      · intro s hs t ht touch
        obtain rfl := List.mem_singleton.mp hs
        obtain ⟨⟨a, ha, start, alike⟩, _⟩ := mergeLoop_spans L ht
        rw [alike]
        -- the only entry that `prev` can touch is the one right after it
        have next : a = iter := by
          refine (List.mem_cons.mp ha).resolve_right fun ha => ?_
          have := after a ha
          have := order s (by simp) iter (by simp)
          have := hr.separated.1 iter (by simp)
          order
        subst next
        rw [start, ← touch] at apart
        simpa using apart

/-- Merging a window of the map, when nothing outside it can be merged. -/
theorem mergeLoop_window {a b : RangeMap K V} {p : Segment K V} {rest : RangeMap K V}
    {f : K → Option β} (h : L.Denotes (a ++ ((p :: rest) ++ b)) f)
    (outside : ∀ s ∈ a ++ ((p :: rest) ++ b), ∀ t ∈ a ++ ((p :: rest) ++ b), s.limit = t.start →
      s ∈ a ∨ t ∈ b → M.canMerge s.value t.value = false) :
    L.Denotes (a ++ ((mergeLoop M p rest).1 ++ b)) f ∧
      Canonical M (a ++ ((mergeLoop M p rest).1 ++ b)) := by
  obtain ⟨ha, hwb, before, reads⟩ := Lawful.denotes_append h
  obtain ⟨hw, hb, after, reads'⟩ := Lawful.denotes_append hwb
  have window := mergeLoop_denotes hw
  have right := window.append hb fun s hs t ht => by
    obtain ⟨_, y, hy, limit, _⟩ := mergeLoop_spans L hs
    exact limit ▸ after y hy t ht
  have whole := ha.append right fun s hs t ht => by
    rcases List.mem_append.mp ht with ht | ht
    · obtain ⟨⟨x, hx, start, _⟩, _⟩ := mergeLoop_spans L ht
      exact start ▸ before s hs x (List.mem_append_left _ hx)
    · exact before s hs t (List.mem_append_right _ ht)
  refine ⟨whole.congr fun k => by rw [reads, ← reads'], ?_⟩
  refine (canonical_append whole.separated).mpr ⟨?_, (canonical_append right.separated).mpr
    ⟨mergeLoop_canonical hw, ?_, ?_⟩, ?_⟩
  · exact fun s hs t ht touch => outside s (by simp [hs]) t (by simp [ht]) touch (.inl hs)
  · exact fun s hs t ht touch => outside s (by simp [hs]) t (by simp [ht]) touch (.inr ht)
  · intro s hs t ht touch
    obtain ⟨_, y, hy, limit, alike⟩ := mergeLoop_spans L hs
    rw [alike]
    exact outside y (List.mem_append_right _ (List.mem_append_left _ hy)) t (by simp [ht]) (limit.trans touch) (.inr ht)
  · intro s hs t ht touch
    rcases List.mem_append.mp ht with ht | ht
    · obtain ⟨⟨x, hx, start, alike⟩, _⟩ := mergeLoop_spans L ht
      rw [alike]
      exact outside s (by simp [hs]) x (List.mem_append_right _ (List.mem_append_left _ hx)) (touch.trans start.symm)
        (.inl hs)
    · exact outside s (by simp [hs]) t (by simp [ht]) touch (.inl hs)

theorem merge_window (a b : RangeMap K V) (p : Segment K V) (rest : RangeMap K V) {r : Nat × Nat}
    (first : (if r.1 ≠ 0 then r.1 - 1 else 0) = a.length)
    (second : (if r.2 ≠ (a ++ ((p :: rest) ++ b)).length then r.2 + 1 else r.2) =
      a.length + (p :: rest).length) :
    (merge M (a ++ ((p :: rest) ++ b)) r).1 = a ++ ((mergeLoop M p rest).1 ++ b) := by
  simp only [merge, first, second, range_split]
  simp [List.drop_append]

/-- The entries `Merge()` visits for the range `w`: from the last before it to the
first after it. -/
structure Window (start limit : K) (a w b a' p b' : RangeMap K V) : Prop where
  same : a ++ (w ++ b) = a' ++ (p ++ b')
  first : (if a.length ≠ 0 then a.length - 1 else 0) = a'.length
  second : (if a.length + w.length ≠ (a' ++ (p ++ b')).length then a.length + w.length + 1
    else a.length + w.length) = a'.length + p.length
  early : ∀ s ∈ a', s.limit < start
  late : ∀ t ∈ b', limit < t.start
  empty : p = [] → a' = [] ∧ b' = []

theorem window_exists {a w b : RangeMap K V} {start limit : K} (sep : Separated (a ++ (w ++ b)))
    (split : Split start limit a w b) : ∃ a' p b', Window start limit a w b a' p b' := by
  obtain ⟨ha, hwb, _⟩ := separated_append.mp sep
  obtain ⟨_, hb, _⟩ := separated_append.mp hwb
  have early : ∀ x a₀, a = a₀ ++ [x] → ∀ s ∈ a₀, s.limit < start := by
    rintro x a₀ rfl s hs
    have := (separated_append.mp ha).2.2 s hs x (by simp)
    have := ha.1 x (by simp)
    have := split.before x (by simp)
    order
  have late : ∀ y b₀, b = y :: b₀ → ∀ t ∈ b₀, limit < t.start := by
    rintro y b₀ rfl t ht
    have := (separated_cons.mp hb).2.1 t ht
    have := hb.1 y (by simp)
    have := split.after y (by simp)
    order
  rcases List.eq_nil_or_concat a with rfl | ⟨a₀, x, hx⟩ <;> rcases b with _ | ⟨y, b₀⟩
  · exact ⟨[], w, [], by simp, rfl, by simp, by simp, by simp, by simp⟩
  · exact ⟨[], w ++ [y], b₀, by simp, rfl, by simp, by simp, late y b₀ rfl, by simp⟩
  · rw [List.concat_eq_append] at hx
    exact ⟨a₀, x :: w, [], by simp [hx], by simp [hx], by simp [hx]; split <;> omega,
      early x a₀ hx, by simp, by simp⟩
  · rw [List.concat_eq_append] at hx
    exact ⟨a₀, x :: (w ++ [y]), b₀, by simp [hx], by simp [hx], by simp [hx]; split <;> omega,
      early x a₀ hx, late y b₀ rfl, by simp⟩

/-- `Merge()` around a range: the entry before it and the entry after it are merged too. -/
theorem merge_denotes {a w b : RangeMap K V} {start limit : K} {f : K → Option β}
    (h : L.Denotes (a ++ (w ++ b)) f) (split : Split start limit a w b)
    (outside : ∀ s ∈ a ++ (w ++ b), ∀ t ∈ a ++ (w ++ b), s.limit = t.start →
      s.limit < start ∨ limit < s.limit → M.canMerge s.value t.value = false) :
    let merged := (merge M (a ++ (w ++ b)) (a.length, a.length + w.length)).1
    L.Denotes merged f ∧ Canonical M merged := by
  obtain ⟨a', p, b', window⟩ := window_exists h.separated split
  rw [window.same] at h outside ⊢
  cases p with
  | nil =>
    obtain ⟨rfl, rfl⟩ := window.empty rfl
    have unchanged : ∀ r, (merge M ([] ++ ([] ++ [])) r).1 = ([] : RangeMap K V) := by
      simp [merge, range]
    simp only [unchanged]
    exact ⟨h, by simp [Canonical]⟩
  | cons p rest =>
    rw [merge_window a' b' p rest window.first window.second]
    refine mergeLoop_window h fun s hs t ht touch side => outside s hs t ht touch ?_
    exact side.imp (window.early s) fun ht => touch ▸ window.late t ht

section
variable {mode : ChangeMode} {start limit : K} {value : V}

theorem piece_bounds {a w b : RangeMap K V} {t : Segment K V} (h : start < limit)
    (sep : Separated (a ++ (w ++ b))) (split : Split start limit a w b)
    (ht : Piece M start limit w t) :
    (∀ s ∈ a, s.limit ≤ t.start) ∧ ∀ s ∈ b, t.limit ≤ s.start := by
  obtain ⟨_, hwb, before⟩ := separated_append.mp sep
  obtain ⟨_, _, after⟩ := separated_append.mp hwb
  refine ⟨fun s hs => ?_, fun s hs => ?_⟩
  · cases ht with
    | inside hs' _ => exact (split.before s hs).trans hs'
    | @before i hi _ _ => exact before s hs i (List.mem_append_left _ hi)
    | after hi _ _ => exact (split.before s hs).trans h.le
  · cases ht with
    | inside _ hl => exact hl.trans (split.after s hs)
    | before _ _ _ => exact h.le.trans (split.after s hs)
    | @after i hi _ _ => exact after i hi s hs

/-- Outside the changed range no two entries became mergeable. -/
theorem change_outside (L : Lawful M β) {a w b c : RangeMap K V} (h : start < limit)
    (split : Split start limit a w b)
    (canonical : Canonical M (a ++ (w ++ b))) (sep' : Separated (a ++ (c ++ b)))
    (piece : ∀ t ∈ c, Piece M start limit w t) :
    ∀ s ∈ a ++ (c ++ b), ∀ t ∈ a ++ (c ++ b), s.limit = t.start →
      s.limit < start ∨ limit < s.limit → M.canMerge s.value t.value = false := by
  intro s hs t ht touch side
  have s_nonempty := sep'.1 s hs
  have t_nonempty := sep'.1 t ht
  simp only [List.mem_append] at hs ht
  rcases side with early | late
  · -- `s` ends before the range: it is an old entry, and `t` starts like one
    have hs : s ∈ a := by
      rcases hs with hs | hs | hs
      · exact hs
      · cases piece s hs with
        | inside => order
        | before => exact absurd early (lt_irrefl _)
        | after _ _ hl => exact absurd early (not_lt.mpr (h.trans hl).le)
      · have := split.after s hs
        order
    rcases ht with ht | ht | ht
    · exact canonical s (by simp [hs]) t (by simp [ht]) touch
    · cases piece t ht with
      | inside => order
      | before hi =>
        simp only [sliceOf] at touch ⊢
        rw [L.canMerge_slice_right]
        exact canonical s (by simp [hs]) _ (by simp [hi]) touch
      | after =>
        simp only [sliceOf] at touch
        order
    · have := split.after t ht
      order
  · have ht : t ∈ b := by
      rcases ht with ht | ht | ht
      · have := split.before t ht
        order
      · cases piece t ht with
        | inside => order
        | before _ hi =>
          simp only [sliceOf] at touch
          order
        | after =>
          simp only [sliceOf] at touch
          order
      · exact ht
    rcases hs with hs | hs | hs
    · have := split.before s hs
      order
    · cases piece s hs with
      | inside => order
      | before =>
        simp only [sliceOf] at late
        order
      | after hi =>
        simp only [sliceOf] at touch ⊢
        rw [L.canMerge_slice_left]
        exact canonical _ (by simp [hi]) t (by simp [ht]) touch
    · exact canonical s (by simp [hs]) t (by simp [ht]) touch

/-- **`Change()` is right.** It passes its checks, does to every key what
`Lawful.changed` says, and leaves a canonical map when it merges. -/
theorem change_denotes (mode : ChangeMode) (value : V) {m : RangeMap K V} {f : K → Option β}
    (hm : L.Denotes m f)
    (canonical : Canonical M m) (h : start < limit) (fits : L.fits mode start limit value) :
    ∃ c, change M m start limit value mode true = some c ∧
      L.Denotes c.map (L.changed mode start limit (L.view start limit value) f) ∧
      Canonical M c.map := by
  obtain ⟨a, w, b, rfl, split, found⟩ := find_split hm.separated h
  obtain ⟨ha, hwb, before, reads⟩ := Lawful.denotes_append hm
  obtain ⟨hw, hb, after, reads'⟩ := Lawful.denotes_append hwb
  have ahead : Ahead start limit start w := ⟨le_rfl, split.within, .inl rfl⟩
  obtain ⟨c, hc⟩ : ∃ c, c = changeLoop M mode start limit value start (mode = .remove) w :=
    ⟨_, rfl⟩
  have loop := changeLoop_denotes (r := mode = .remove) fits h ahead hw
  have piece : ∀ t ∈ c.map, Piece M start limit w t := fun t ht =>
    changeLoop_piece h ahead hw.separated (hc ▸ ht)
  rw [← hc] at loop
  have whole := ha.append (loop.append hb fun s hs t ht =>
    (piece_bounds h hm.separated split (piece s hs)).2 t ht) fun s hs t ht => by
      rcases List.mem_append.mp ht with ht | ht
      · exact (piece_bounds h hm.separated split (piece t ht)).1 s hs
      · exact before s hs t (by simp [ht])
  have whole := whole.congr (g := L.changed mode start limit (L.view start limit value) f) <| by
    intro k
    have none_before : start ≤ k → L.lookup a k = none := fun hk =>
      lookup_before fun s hs => (split.before s hs).trans hk
    have none_after : k < limit → L.lookup b k = none := fun hk =>
      lookup_after fun s hs => hk.trans_le (split.after s hs)
    simp only [Lawful.changed, reads, reads']
    grind
  have outside := change_outside L h split canonical whole.separated piece
  obtain ⟨a', w', b', same, split', found'⟩ := find_split whole.separated h
  rw [same] at whole outside
  rw [same] at found'
  have run : change M (a ++ (w ++ b)) start limit value mode true =
      some ⟨(merge M (a' ++ (w' ++ b')) (a'.length, a'.length + w'.length)).1, c.result,
        c.usage + (merge M (a' ++ (w' ++ b')) (a'.length, a'.length + w'.length)).2⟩ := by
    simp [change, h, found, ← hc, same, found']
  exact ⟨_, run, merge_denotes whole split' outside⟩

end

end RangeMap

end Silifuzz
