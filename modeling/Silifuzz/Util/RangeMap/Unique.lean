import Silifuzz.Util.RangeMap.Maps

/-!
# One map, one list

`operator==` compares the entries of two maps. It compares what the maps say
because a canonical list of entries is determined by that: with the same keys
the first entries start together, and the shorter one would touch a mergeable
neighbour.
-/

namespace Silifuzz

open Segments

namespace RangeMap

variable {K V β : Type} [LinearOrder K] {M : Methods K V}

/-- A value is determined by what it says at each key, and two parts of one value merge. -/
structure Lawful.Extensional (L : Lawful M β) : Prop where
  ext {s l : K} {v w : V} : s < l → L.fits .add s l v → L.fits .add s l w →
    (∀ k, s ≤ k → k < l → L.view s l v k = L.view s l w k) → v = w
  refl (v : V) : M.canMerge v v = true

variable {L : Lawful M β} {a b : RangeMap K V} {s t : Segment K V} {f : K → Option β}

theorem start_le (hs : L.Denotes (s :: a) f) (ht : L.Denotes (t :: b) f) : t.start ≤ s.start := by
  have here : s.start ≤ s.start ∧ s.start < s.limit :=
    ⟨le_rfl, hs.separated.1 s (by simp)⟩
  have found := (ht.reads s.start).trans (hs.reads s.start).symm
  rw [Lawful.lookup, Lawful.lookup, lookup_mem hs.separated (by simp) here] at found
  obtain ⟨u, hu, ⟨hk, _⟩, _⟩ := lookup_some found
  obtain ⟨_, after, _⟩ := separated_cons.mp ht.separated
  rcases List.mem_cons.mp hu with rfl | hu
  · exact hk
  · have := ht.separated.1 t (by simp)
    have := after u hu
    order

/-- Two entries that say the same on `[s, l)` have the same part there. -/
theorem slice_eq (ext : L.Extensional) {x y : Segment K V} (hx : L.Denotes a f)
    (hy : L.Denotes b f) (inX : x ∈ a) (inY : y ∈ b) {s l : K} (h : s < l)
    (hsx : x.start ≤ s) (hlx : l ≤ x.limit) (hsy : y.start ≤ s) (hly : l ≤ y.limit) :
    M.slice x.start x.limit x.value s l = M.slice y.start y.limit y.value s l := by
  have fx := hx.fits x inX
  have fy := hy.fits y inY
  refine ext.ext h (L.slice_fits fx hsx h hlx) (L.slice_fits fy hsy h hly) fun k hs hl => ?_
  rw [L.slice_view fx hsx hlx hs hl, L.slice_view fy hsy hly hs hl]
  have atX : lookup L.view a k = some (L.view x.start x.limit x.value k) :=
    lookup_mem hx.separated inX ⟨hsx.trans hs, hl.trans_le hlx⟩
  have atY : lookup L.view b k = some (L.view y.start y.limit y.value k) :=
    lookup_mem hy.separated inY ⟨hsy.trans hs, hl.trans_le hly⟩
  exact Option.some.inj (atX.symm.trans ((hx.reads k).trans ((hy.reads k).symm.trans atY)))

theorem limit_le (ext : L.Extensional) (hs : L.Denotes (s :: a) f) (ht : L.Denotes (t :: b) f)
    (canonical : Canonical M (s :: a)) (start : s.start = t.start) : t.limit ≤ s.limit := by
  by_contra short
  have short : s.limit < t.limit := not_le.mp short
  have hlt : s.start < s.limit := hs.separated.1 s (by simp)
  have found := (hs.reads s.limit).trans (ht.reads s.limit).symm
  rw [Lawful.lookup, Lawful.lookup, lookup_mem ht.separated (by simp)
    ⟨start ▸ hlt.le, short⟩] at found
  obtain ⟨u, hu, ⟨low, high⟩, _⟩ := lookup_some found
  obtain ⟨_, after, _⟩ := separated_cons.mp hs.separated
  rcases List.mem_cons.mp hu with rfl | inA
  · exact lt_irrefl _ high
  have touch : s.limit = u.start := le_antisymm (after u inA) low
  have apart := canonical s (by simp) u hu touch
  -- both neighbours are parts of `t`
  have first := slice_eq ext hs ht (x := s) (y := t) (by simp) (by simp) hlt le_rfl le_rfl
    start.ge short.le
  have second := slice_eq ext hs ht (x := u) (y := t) hu (by simp) (lt_min high short) low
    (min_le_left _ _) (start ▸ hlt.le) (min_le_right _ _)
  have merges : M.canMerge s.value u.value = true := by
    calc M.canMerge s.value u.value
        = M.canMerge (M.slice s.start s.limit s.value s.start s.limit)
            (M.slice u.start u.limit u.value s.limit (min u.limit t.limit)) := by
          rw [L.canMerge_slice_left, L.canMerge_slice_right]
      _ = M.canMerge (M.slice t.start t.limit t.value s.start s.limit)
            (M.slice t.start t.limit t.value s.limit (min u.limit t.limit)) := by
          rw [first, second]
      _ = M.canMerge t.value t.value := by rw [L.canMerge_slice_left, L.canMerge_slice_right]
      _ = true := ext.refl t.value
  rw [merges] at apart
  cases apart

theorem Lawful.Denotes.tail (h : L.Denotes (s :: a) f) :
    L.Denotes a fun k => if k < s.limit then none else f k := by
  obtain ⟨_, after, sep⟩ := separated_cons.mp h.separated
  refine ⟨sep, fun u hu => h.fits u (by simp [hu]), fun k => ?_⟩
  rw [← h.reads, Lawful.lookup, Lawful.lookup, lookup_cons]
  by_cases hk : k < s.limit
  · rw [if_pos hk]
    exact lookup_after fun u hu => hk.trans_le (after u hu)
  · rw [if_neg hk, if_neg fun both => hk both.2]

theorem denotes_cons_ne (h : L.Denotes (s :: a) f) : ∃ k, f k ≠ none := by
  refine ⟨s.start, ?_⟩
  rw [← h.reads, Lawful.lookup, lookup_mem h.separated (by simp)
    ⟨le_rfl, h.separated.1 s (by simp)⟩]
  simp

theorem denotes_unique (ext : L.Extensional) (ha : L.Denotes a f) (hb : L.Denotes b f)
    (canonicalA : Canonical M a) (canonicalB : Canonical M b) : a = b := by
  induction a generalizing b f with
  | nil =>
    cases b with
    | nil => rfl
    | cons t b =>
      obtain ⟨k, hk⟩ := denotes_cons_ne hb
      exact absurd (ha.reads k).symm hk
  | cons s a ih =>
    cases b with
    | nil =>
      obtain ⟨k, hk⟩ := denotes_cons_ne ha
      exact absurd (hb.reads k).symm hk
    | cons t b =>
      have start : s.start = t.start := le_antisymm (start_le hb ha) (start_le ha hb)
      have limit : s.limit = t.limit := le_antisymm (limit_le ext hb ha canonicalB start.symm)
        (limit_le ext ha hb canonicalA start)
      have hlt := ha.separated.1 s (by simp)
      have value : s.value = t.value := by
        have fs := ha.fits s (by simp)
        have ft := hb.fits t (by simp)
        rw [← start, ← limit] at ft
        refine ext.ext hlt fs ft fun k low high => ?_
        have atS : lookup L.view (s :: a) k = some (L.view s.start s.limit s.value k) :=
          lookup_mem ha.separated (by simp) ⟨low, high⟩
        have atT : lookup L.view (t :: b) k = some (L.view t.start t.limit t.value k) :=
          lookup_mem hb.separated (by simp) ⟨start ▸ low, limit ▸ high⟩
        rw [← start, ← limit] at atT
        exact Option.some.inj
          (atS.symm.trans ((ha.reads k).trans ((hb.reads k).symm.trans atT)))
      obtain rfl : s = t := by
        cases s
        cases t
        simp_all
      have sub {c : RangeMap K V} (h : Canonical M (s :: c)) : Canonical M c :=
        fun x hx y hy => h x (by simp [hx]) y (by simp [hy])
      rw [ih ha.tail hb.tail (sub canonicalA) (sub canonicalB)]

/-- **Two canonical maps are equal exactly when they say the same at every key.** -/
theorem Lawful.Represents.unique (ext : L.Extensional) (ha : L.Represents a f)
    (hb : L.Represents b f) : a = b :=
  denotes_unique ext ha.toDenotes hb.toDenotes ha.canonical hb.canonical

end RangeMap

end Silifuzz
