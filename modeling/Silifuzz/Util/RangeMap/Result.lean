import Silifuzz.Util.RangeMap.Unique

/-!
# What a change returns

`Change()` sets `*result` on its way through the entries and the gaps between
them. `told` is what the flag has to be after the keys passed so far:

* `changeEntry_told`: one entry, whatever part of it is covered;
* `changeLoop_told`: the loop, over the entries and the gaps;
* `change_told`: the flag that is returned, whether the map is merged or not.
-/

namespace Silifuzz

open Segments

namespace RangeMap

variable {K V β : Type} [LinearOrder K] {M : Methods K V}

namespace Lawful

/-- `AddTo` returns true when it changes what the value says, `RemoveFrom` always. -/
structure Telling (L : Lawful M β) : Prop where
  adds {s l : K} {d v : V} : s < l → L.fits .add s l d → L.fits .add s l v →
    ((M.addTo d v).ok = true ↔
      ∃ k, (s ≤ k ∧ k < l) ∧ L.plus (L.view s l d k) (L.view s l v k) ≠ some (L.view s l d k))
  removes (d v : V) : (M.removeFrom d v).ok = true

/-- What `*result` is once the keys in `p` are changed, if it was `r` before. -/
def told (L : Lawful M β) (mode : ChangeMode) (r : Bool) (p : K → Prop) (b : K → β)
    (f : K → Option β) : Prop :=
  match mode with
  | .add => r = true ∨ ∃ k, p k ∧ L.combine .add (f k) (b k) ≠ f k
  | .remove => r = true ∧ ∀ k, p k → (f k).isSome

variable {L : Lawful M β} {mode : ChangeMode} {r r' : Bool} {p q : K → Prop} {b c : K → β}
  {f g : K → Option β}

theorem told_congr (keys : ∀ k, p k ↔ q k) (values : ∀ k, p k → b k = c k)
    (reads : ∀ k, p k → f k = g k) : L.told mode r p b f ↔ L.told mode r q c g := by
  have keys : p = q := funext fun k => propext (keys k)
  subst keys
  cases mode with
  | add =>
    apply or_congr Iff.rfl
    constructor
    · rintro ⟨k, hk, changes⟩
      exact ⟨k, hk, by rwa [← values k hk, ← reads k hk]⟩
    · rintro ⟨k, hk, changes⟩
      exact ⟨k, hk, by rwa [values k hk, reads k hk]⟩
  | remove =>
    apply and_congr Iff.rfl
    constructor
    · intro all k hk
      rw [← reads k hk]
      exact all k hk
    · intro all k hk
      rw [reads k hk]
      exact all k hk

theorem told_none (none : ∀ k, ¬ p k) : L.told mode r p b f ↔ r = true := by
  cases mode with
  | add => simp [told, none]
  | remove => simp [told, none]

/-- Further keys are taken in one by one. -/
theorem told_or (before : r' = true ↔ L.told mode r p b f) :
    L.told mode r' q b f ↔ L.told mode r (fun k => p k ∨ q k) b f := by
  cases mode with
  | add =>
    simp only [told] at before ⊢
    rw [before, or_assoc]
    apply or_congr Iff.rfl
    constructor
    · rintro (⟨k, hk, changes⟩ | ⟨k, hk, changes⟩)
      · exact ⟨k, .inl hk, changes⟩
      · exact ⟨k, .inr hk, changes⟩
    · rintro ⟨k, hk | hk, changes⟩
      · exact .inl ⟨k, hk, changes⟩
      · exact .inr ⟨k, hk, changes⟩
  | remove =>
    simp only [told] at before ⊢
    rw [before, and_assoc]
    apply and_congr Iff.rfl
    constructor
    · rintro ⟨first, second⟩ k (hk | hk)
      · exact first k hk
      · exact second k hk
    · intro all
      exact ⟨fun k hk => all k (.inl hk), fun k hk => all k (.inr hk)⟩

end Lawful

variable {L : Lawful M β} {mode : ChangeMode} {start limit prevStart : K} {value : V} {r : Bool}
  {i : Segment K V}

theorem changeRecord_told (tells : L.Telling) {s l : K} {d v : V} (h : s < l)
    (hd : L.fits .add s l d) (hv : L.fits mode s l v) :
    (changeRecord M mode s l d v r).result = true ↔
      L.told mode r (fun k => s ≤ k ∧ k < l) (L.view s l v) fun k => some (L.view s l d k) := by
  have result : (changeRecord M mode s l d v r).result = (changeValue M mode d v r).2 := by
    simp only [changeRecord]
    split <;> simp_all
  rw [result]
  cases mode with
  | add =>
    have changes := tells.adds h hd hv
    simp only [changeValue, Lawful.told, Lawful.combine, ← changes]
    cases (M.addTo d v).ok <;> simp
  | remove => simp [changeValue, Lawful.told, tells.removes]

theorem changeGap_told {s l : K} :
    (changeGap M mode start limit value s l r).result = true ↔
      L.told mode r (fun k => s ≤ k ∧ k < l) (L.view start limit value) fun _ => none := by
  by_cases h : s < l
  · cases mode with
    | add => simpa [changeGap, h, Lawful.told, Lawful.combine] using .inr ⟨s, le_rfl, h⟩
    | remove => simpa [changeGap, h, Lawful.told] using fun _ => ⟨s, le_rfl, h⟩
  · rw [Lawful.told_none fun k hk => h (hk.1.trans_lt hk.2)]
    simp [changeGap, h]

/-- The record left where the range and the entry share `[s, l)`. -/
theorem changeRecord_slice_told (tells : L.Telling) (fi : L.fits .add i.start i.limit i.value)
    {s l : K} {v : V} (hs : i.start ≤ s) (h : s < l) (hl : l ≤ i.limit) (hv : L.fits mode s l v)
    (view : ∀ k, s ≤ k → k < l → L.view s l v k = L.view start limit value k) :
    (changeRecord M mode s l (sliceOf M i s l).value v r).result = true ↔
      L.told mode r (fun k => s ≤ k ∧ k < l) (L.view start limit value)
        fun k => some (L.view i.start i.limit i.value k) := by
  apply (changeRecord_told tells h (L.slice_fits fi hs h hl) hv).trans
  apply Lawful.told_congr (fun _ => Iff.rfl)
  · exact fun k hk => view k hk.1 hk.2
  · intro k hk
    exact congrArg some (L.slice_view fi hs hl hk.1 hk.2)

/-- On one entry the flag is about the keys of the entry that are in the range. -/
theorem changeEntry_told (tells : L.Telling) (fits : L.fits mode start limit value)
    (fi : L.fits .add i.start i.limit i.value) (hi : i.start < i.limit) (h : start < limit)
    (hs : start ≤ prevStart) (hp : prevStart < i.limit) (hl : i.start < limit)
    (first : prevStart = start ∨ prevStart ≤ i.start) :
    (changeEntry M mode start limit value prevStart i r).result = true ↔
      L.told mode r (fun k => (i.start ≤ k ∧ k < i.limit) ∧ prevStart ≤ k ∧ k < limit)
        (L.view start limit value) fun k => some (L.view i.start i.limit i.value k) := by
  simp only [changeEntry]
  split_ifs with h₁ h₂ h₃
  · have hsi := hs.trans h₁.1
    rw [changeRecord_told tells hi fi (L.slice_fits fits hsi hi h₁.2)]
    apply Lawful.told_congr
    · grind
    · exact fun k hk => L.slice_view fits hsi h₁.2 hk.1 hk.2
    · exact fun _ _ => rfl
  · have hsi := hs.trans h₂.1
    rw [changeRecord_slice_told tells fi le_rfl hl h₂.2.le (L.slice_fits fits hsi hl le_rfl)
      fun k => L.slice_view fits hsi le_rfl]
    exact Lawful.told_congr (by grind) (fun _ _ => rfl) fun _ _ => rfl
  · obtain rfl := first.resolve_right (not_le.mpr h₃.1)
    rw [changeRecord_slice_told tells fi h₃.1.le h h₃.2.le fits fun _ _ _ => rfl]
    exact Lawful.told_congr (by grind) (fun _ _ => rfl) fun _ _ => rfl
  · have late : i.start < prevStart := by grind
    have inner : i.limit ≤ limit := by grind
    obtain rfl := first.resolve_right (not_le.mpr late)
    rw [changeRecord_slice_told tells fi late.le hp le_rfl (L.slice_fits fits le_rfl hp inner)
      fun k => L.slice_view fits le_rfl inner]
    exact Lawful.told_congr (by grind) (fun _ _ => rfl) fun _ _ => rfl

/-- The flag after the loop is about all keys from `prev_start` to `limit`. -/
theorem changeLoop_told (tells : L.Telling) {w : RangeMap K V} {f : K → Option β}
    (fits : L.fits mode start limit value) (h : start < limit)
    (ahead : Ahead start limit prevStart w) (hw : L.Denotes w f) :
    (changeLoop M mode start limit value prevStart r w).result = true ↔
      L.told mode r (fun k => prevStart ≤ k ∧ k < limit) (L.view start limit value) f := by
  induction w generalizing prevStart r f with
  | nil =>
    rw [changeLoop, changeGap_told]
    exact Lawful.told_congr (fun _ => Iff.rfl) (fun _ _ => rfl) fun k _ => hw.reads k
  | cons i rest ih =>
    obtain ⟨hi, after, hr⟩ := separated_cons.mp hw.separated
    have first := ahead.first.imp_right fun f => f i (by simp)
    obtain ⟨hpi, hl⟩ := ahead.overlaps i (by simp)
    have reads : ∀ k, f k = if i.start ≤ k ∧ k < i.limit then
        some (L.view i.start i.limit i.value k) else L.lookup rest k := by
      intro k
      rw [← hw.reads, Lawful.lookup, lookup_cons]
    have none_before : ∀ k, k < i.limit → L.lookup rest k = none := fun k hk =>
      lookup_none fun s hs hsk => by have := after s hs; order
    have gap : (changeGap M mode start limit value prevStart i.start r).result = true ↔
        L.told mode r (fun k => prevStart ≤ k ∧ k < i.start) (L.view start limit value) f := by
      rw [changeGap_told]
      exact Lawful.told_congr (fun _ => Iff.rfl) (fun _ _ => rfl) (by grind)
    have entry : ∀ r, (changeEntry M mode start limit value prevStart i r).result = true ↔
        L.told mode r (fun k => (i.start ≤ k ∧ k < i.limit) ∧ prevStart ≤ k ∧ k < limit)
          (L.view start limit value) f := by
      intro r
      rw [changeEntry_told tells fits (hw.fits i (by simp)) hi h ahead.since hpi hl first]
      exact Lawful.told_congr (fun _ => Iff.rfl) (fun _ _ => rfl) (by grind)
    have next : ∀ r, (changeLoop M mode start limit value i.limit r rest).result = true ↔
        L.told mode r (fun k => i.limit ≤ k ∧ k < limit) (L.view start limit value) f := by
      intro r
      rw [ih (ahead.next hw.separated) ⟨hr, fun s hs => hw.fits s (by simp [hs]), fun _ => rfl⟩]
      exact Lawful.told_congr (fun _ => Iff.rfl) (fun _ _ => rfl) (by grind)
    simp only [changeLoop]
    rw [next, Lawful.told_or ((entry _).trans (Lawful.told_or gap))]
    exact Lawful.told_congr (by grind) (fun _ _ => rfl) fun _ _ => rfl

/-- **What `Change()` returns.** An addition tells whether some key of the range got a
new value, a removal whether the map had them all. Merging has no part in it. -/
theorem change_told (tells : L.Telling) {m : RangeMap K V} {f : K → Option β}
    (hm : L.Denotes m f) (h : start < limit) (fits : L.fits mode start limit value)
    {postMerge : Bool} {c : Changed K V}
    (run : change M m start limit value mode postMerge = some c) :
    c.result = true ↔ L.told mode (mode = .remove) (fun k => start ≤ k ∧ k < limit)
      (L.view start limit value) f := by
  obtain ⟨a, w, b, rfl, split, found⟩ := find_split hm.separated h
  have hw := (Lawful.denotes_append (Lawful.denotes_append hm).2.1).1
  have loop := changeLoop_told (r := mode = .remove) tells fits h
    ⟨le_rfl, split.within, .inl rfl⟩ hw
  have result : c.result =
      (changeLoop M mode start limit value start (mode = .remove) w).result := by
    cases postMerge with
    | false =>
      obtain rfl : _ = c := by simpa [change, h, found] using run
      rfl
    | true =>
      simp only [change, guard, h, found, if_true, Option.bind_eq_bind, Option.pure_def,
        Option.bind_some, range_split] at run
      obtain ⟨_, _, run⟩ := Option.bind_eq_some_iff.mp run
      obtain rfl := Option.some.inj run
      rfl
  rw [result, loop]
  exact Lawful.told_congr (fun _ => Iff.rfl) (fun _ _ => rfl) fun k hk =>
    (lookup_found hm split hk).symm

end RangeMap

end Silifuzz
