import Silifuzz.Util.RangeMap

/-!
# Searching a RangeMap

On a separated map the `std::map` searches by `(k, k)` cut the entries where the
comments of `LowerBound()`, `UpperBound()` and `Find()` say they do.
-/

namespace Silifuzz

open Segments

namespace RangeMap

variable {K V : Type} [LinearOrder K]

theorem upperBound_append {a b : RangeMap K V} {k : K} (hm : Separated (a ++ b))
    (ha : ∀ s ∈ a, s.start < k) (hb : ∀ s ∈ b, k ≤ s.start) : upperBound (a ++ b) k = a.length := by
  refine findIdx_append (fun s hs => ?_) (fun s hs => ?_)
  · have := ha s hs
    simp only [keyLess, Bool.or_eq_false_iff, Bool.and_eq_false_iff, decide_eq_false_iff_not,
      beq_eq_false_iff_ne]
    grind
  · have := hb s hs
    have := hm.1 s (List.mem_append_right _ hs)
    simp only [keyLess, Bool.or_eq_true, Bool.and_eq_true, decide_eq_true_eq, beq_iff_eq]
    grind

theorem keyLess_start {s : Segment K V} {k : K} (hs : s.start < s.limit) :
    (!keyLess (s.start, s.limit) (k, k)) = decide (k ≤ s.start) := by
  rw [Bool.eq_iff_iff]
  simp only [keyLess, Bool.not_eq_true', Bool.or_eq_false_iff, Bool.and_eq_false_iff,
    decide_eq_false_iff_not, beq_eq_false_iff_ne, decide_eq_true_eq]
  grind

theorem lowerBound_append {a b : RangeMap K V} {k : K} (hm : Separated (a ++ b))
    (ha : ∀ s ∈ a, s.limit ≤ k) (hb : ∀ s ∈ b, k < s.limit) : lowerBound (a ++ b) k = a.length := by
  have nonempty := hm.1
  have early : ∀ s ∈ a, (!keyLess (s.start, s.limit) (k, k)) = false := fun s hs => by
    have := ha s hs
    have lt := nonempty s (List.mem_append_left _ hs)
    rw [keyLess_start lt, decide_eq_false_iff_not]
    order
  -- no entry of `a` reaches past `k`, so from `a.length` there is no step back
  have stay : ∀ p, (a ++ b)[a.length - 1]? = some p → a.length ≠ 0 → ¬ p.limit > k := by
    intro p hp ne
    rw [List.getElem?_append_left (by omega)] at hp
    exact not_lt.mpr (ha p (List.mem_of_getElem? hp))
  simp only [lowerBound]
  rcases b with _ | ⟨r, b⟩
  · rw [findIdx_append early (by simp)]
    grind
  · by_cases hr : k ≤ r.start
    · rw [findIdx_append early]
      · grind
      · intro s hs
        rw [keyLess_start (nonempty s (List.mem_append_right _ hs)), decide_eq_true_eq]
        obtain ⟨_, after, _⟩ := separated_cons.mp (separated_append.mp hm).2.1
        rcases List.mem_cons.mp hs with rfl | hs
        · exact hr
        · have := after s hs
          have := nonempty r (by simp)
          order
    · obtain ⟨_, after, _⟩ := separated_cons.mp (separated_append.mp hm).2.1
      have hrl := hb r (by simp)
      rw [show a ++ r :: b = (a ++ [r]) ++ b by simp, findIdx_append]
      · simp [hrl]
      · intro s hs
        rcases List.mem_append.mp hs with hs | hs
        · exact early s hs
        · obtain rfl := List.mem_singleton.mp hs
          rw [keyLess_start (nonempty s (by simp)), decide_eq_false_iff_not]
          exact hr
      · intro s hs
        rw [keyLess_start (nonempty s (by simp [hs])), decide_eq_true_eq]
        exact hrl.le.trans (after s hs)

/-- `Find` returns the entries that overlap the range, between those that end by
its start and those that start from its limit on. -/
theorem find_split {m : RangeMap K V} (hm : Separated m) {start limit : K} (h : start < limit) :
    ∃ a w b, m = a ++ (w ++ b) ∧ Split start limit a w b ∧
      find m start limit = some (a.length, a.length + w.length) := by
  obtain ⟨a, w, b, rfl, split⟩ := hm.split start limit
  refine ⟨a, w, b, rfl, split, ?_⟩
  have low : lowerBound (a ++ (w ++ b)) start = a.length := by
    refine lowerBound_append hm split.before fun s hs => ?_
    rcases List.mem_append.mp hs with hs | hs
    · exact (split.within s hs).1
    · have := split.after s hs
      have := hm.1 s (by simp [hs])
      order
  have high : upperBound (a ++ (w ++ b)) limit = a.length + w.length := by
    rw [← List.append_assoc] at hm ⊢
    rw [upperBound_append hm _ split.after, List.length_append]
    intro s hs
    rcases List.mem_append.mp hs with hs | hs
    · have := split.before s hs
      have := hm.1 s (by simp [hs])
      order
    · exact (split.within s hs).2
  simp [find, h.le, h.ne, low, high]

omit [LinearOrder K] in
@[simp] theorem range_split (a w b : RangeMap K V) :
    range (a ++ (w ++ b)) (a.length, a.length + w.length) = w := by
  simp [range, List.take_append]

/-- `Find` fails its check exactly on a range that runs backwards. -/
theorem find_none {m : RangeMap K V} {start limit : K} :
    find m start limit = none ↔ limit < start := by
  simp only [find]
  split
  · split <;> simp_all
  · simp_all

/-- `FindAt` returns the entry that holds the key, and `end()` when none does. -/
theorem findAt_find {m : RangeMap K V} (hm : Separated m) (k : K) :
    findAt m k = m.find? (·.covers k) := by
  obtain ⟨a, b, rfl, ha, hb⟩ := exists_cut (m := m) (fun s => k ≤ s.start) <| by
    refine hm.2.imp_of_mem fun {x y} hx hy hxy hs => ?_
    have := hm.1 x hx
    order
  have cut := upperBound_append hm (fun s hs => not_le.mp (ha s hs)) hb
  simp only [upperBound] at cut
  obtain ⟨_, hmb, _⟩ := separated_append.mp hm
  -- the entry before the upper bound is the only one of `a` that can reach to `k`
  have prior : findAt.before (a ++ b) k a.length = a.find? (·.covers k) := by
    rcases List.eq_nil_or_concat a with rfl | ⟨a, p, rfl⟩
    · simp [findAt.before]
    · rw [List.concat_eq_append] at hm ha ⊢
      have early : a.find? (·.covers k) = none := by
        rw [List.find?_eq_none]
        intro s hs
        have := (separated_append.mp (separated_append.mp hm).1).2.2 s hs p (by simp)
        have := ha p (by simp)
        simp only [covers_iff]
        grind
      have := ha p (by simp)
      have get : (a ++ [p] ++ b)[a.length]? = some p := by simp
      rw [List.find?_append, early, Option.none_or]
      simp only [findAt.before, List.length_append, List.length_singleton, Nat.add_sub_cancel,
        get, Option.bind_some, List.find?_singleton, Segment.covers, Nat.succ_ne_zero, if_false]
      grind
  simp only [findAt, cut, List.find?_append, ← prior]
  rcases b with _ | ⟨r, b⟩
  · simp
  · obtain ⟨nonempty, after, _⟩ := separated_cons.mp hmb
    have late : b.find? (·.covers k) = none := by
      rw [List.find?_eq_none]
      intro s hs
      have := after s hs
      have := hb r (by simp)
      simp only [covers_iff]
      grind
    have := hb r (by simp)
    by_cases hk : r.start = k
    · have none_before : findAt.before (a ++ r :: b) k a.length = none := by
        rw [prior, List.find?_eq_none]
        intro s hs
        have := (separated_append.mp hm).2.2 s hs r (by simp)
        simp only [covers_iff]
        grind
      have : r.covers k = true := by simp [Segment.covers, ← hk, nonempty]
      simp [hk, none_before, this]
    · have : r.covers k = false := by
        simp only [Segment.covers, Bool.and_eq_false_iff, decide_eq_false_iff_not]
        grind
      simp [hk, this, late]

end RangeMap

end Silifuzz

/-!
## Lawful methods

What a `Methods` class has to satisfy for a `RangeMap` to be a map from keys:

* `Lawful`: a value of a range is read key by key (`view`), and each method does
  at every key what `plus`, `minus`, `inter` and `diff` do to single values;
* `Lawful.Denotes`: a well-formed map says `f` at every key;
* `Canonical`: no two touching entries can be merged.
-/

namespace Silifuzz

open Segments

namespace RangeMap

variable {K V β : Type} [LinearOrder K]

/-- The laws of a `Methods` class over single values in `β`. `fits mode s l v` says
that `v` may be given for `[s, l)`: to be stored there, or to be removed. -/
structure Lawful (M : Methods K V) (β : Type) where
  view : K → K → V → K → β
  fits : ChangeMode → K → K → V → Prop
  plus : β → β → Option β
  minus : β → β → Option β
  inter : β → β → Option β
  diff : β → β → Option β
  slice_fits {mode : ChangeMode} {s l s' l' : K} {v : V} : fits mode s l v → s ≤ s' → s' < l' →
    l' ≤ l → fits mode s' l' (M.slice s l v s' l')
  slice_view {mode : ChangeMode} {s l s' l' k : K} {v : V} : fits mode s l v → s ≤ s' → l' ≤ l →
    s' ≤ k → k < l' → view s' l' (M.slice s l v s' l') k = view s l v k
  addTo_fits {s l : K} {d v : V} : fits .add s l d → fits .add s l v →
    (M.addTo d v).empty = false → fits .add s l (M.addTo d v).dest
  addTo_view {s l k : K} {d v : V} : fits .add s l d → fits .add s l v → s ≤ k → k < l →
    plus (view s l d k) (view s l v k) =
      if (M.addTo d v).empty then none else some (view s l (M.addTo d v).dest k)
  removeFrom_fits {s l : K} {d v : V} : fits .add s l d → fits .remove s l v →
    (M.removeFrom d v).empty = false → fits .add s l (M.removeFrom d v).dest
  removeFrom_view {s l k : K} {d v : V} : fits .add s l d → fits .remove s l v → s ≤ k → k < l →
    minus (view s l d k) (view s l v k) =
      if (M.removeFrom d v).empty then none else some (view s l (M.removeFrom d v).dest k)
  merge_fits {s m l : K} {v w : V} : s < m → m < l → fits .add s m v → fits .add m l w →
    M.canMerge v w = true → fits .add s l (M.merge v w)
  merge_left {s m l k : K} {v w : V} : fits .add s m v → fits .add m l w → M.canMerge v w = true →
    s ≤ k → k < m → view s l (M.merge v w) k = view s m v k
  merge_right {s m l k : K} {v w : V} : fits .add s m v → fits .add m l w →
    M.canMerge v w = true → m ≤ k → k < l → view s l (M.merge v w) k = view m l w k
  intersection_fits {s l : K} {v w u : V} : fits .add s l v → fits .add s l w →
    M.makeIntersection v w = some u → fits .add s l u
  intersection_view {s l k : K} {v w : V} : fits .add s l v → fits .add s l w → s ≤ k → k < l →
    inter (view s l v k) (view s l w k) = (M.makeIntersection v w).map (view s l · k)
  difference_fits {s l : K} {v w u : V} : fits .add s l v → fits .add s l w →
    M.makeDifference v w = some u → fits .add s l u
  difference_view {s l k : K} {v w : V} : fits .add s l v → fits .add s l w → s ≤ k → k < l →
    diff (view s l v k) (view s l w k) = (M.makeDifference v w).map (view s l · k)
  canMerge_slice_left (s l s' l' : K) (v w : V) :
    M.canMerge (M.slice s l v s' l') w = M.canMerge v w
  canMerge_slice_right (s l s' l' : K) (v w : V) :
    M.canMerge w (M.slice s l v s' l') = M.canMerge w v
  canMerge_merge_left {v w : V} (u : V) : M.canMerge v w = true →
    M.canMerge (M.merge v w) u = M.canMerge w u
  canMerge_merge_right {v w : V} (u : V) : M.canMerge v w = true →
    M.canMerge u (M.merge v w) = M.canMerge u v

variable {M : Methods K V}

/-- No two touching entries of the map can be merged. -/
def Canonical (M : Methods K V) (m : RangeMap K V) : Prop :=
  ∀ a ∈ m, ∀ b ∈ m, a.limit = b.start → M.canMerge a.value b.value = false

theorem canonical_append {a b : RangeMap K V} (sep : Separated (a ++ b)) :
    Canonical M (a ++ b) ↔ Canonical M a ∧ Canonical M b ∧
      ∀ s ∈ a, ∀ t ∈ b, s.limit = t.start → M.canMerge s.value t.value = false := by
  obtain ⟨ha, hb, order⟩ := separated_append.mp sep
  constructor
  · intro h
    exact ⟨fun s hs t ht => h s (by simp [hs]) t (by simp [ht]),
      fun s hs t ht => h s (by simp [hs]) t (by simp [ht]),
      fun s hs t ht => h s (by simp [hs]) t (by simp [ht])⟩
  · rintro ⟨inA, inB, across⟩ s hs t ht touch
    rcases List.mem_append.mp hs with hs | hs <;> rcases List.mem_append.mp ht with ht | ht
    · exact inA s hs t ht touch
    · exact across s hs t ht touch
    · have := order t ht s hs
      have := ha.1 t ht
      have := hb.1 s hs
      order
    · exact inB s hs t ht touch

namespace Lawful

variable (L : Lawful M β)

/-- One key of `Change`: what the map says there, and the value given for it. -/
def combine (mode : ChangeMode) (old : Option β) (b : β) : Option β :=
  match mode, old with
  | .add, none => some b
  | .add, some a => L.plus a b
  | .remove, none => none
  | .remove, some a => L.minus a b

/-- `Change` at every key: inside the range the value is combined, outside nothing changes. -/
def changed (mode : ChangeMode) (start limit : K) (b : K → β) (f : K → Option β) (k : K) :
    Option β :=
  if start ≤ k ∧ k < limit then L.combine mode (f k) (b k) else f k

/-- A whole map `g` combined into `f`, at the keys it has. -/
def overlay (mode : ChangeMode) (f g : K → Option β) (k : K) : Option β :=
  match g k with
  | none => f k
  | some b => L.combine mode (f k) b

abbrev lookup (m : RangeMap K V) (k : K) : Option β := Segments.lookup L.view m k

/-- The map is well formed and says `f`. -/
structure Denotes (m : RangeMap K V) (f : K → Option β) : Prop where
  separated : Separated m
  fits : ∀ s ∈ m, L.fits .add s.start s.limit s.value
  reads : ∀ k, L.lookup m k = f k

variable {L}

theorem Denotes.nil : L.Denotes [] fun _ => none := ⟨.nil, by simp, fun _ => rfl⟩

theorem Denotes.congr {m : RangeMap K V} {f g : K → Option β} (h : L.Denotes m f)
    (e : ∀ k, f k = g k) : L.Denotes m g :=
  ⟨h.separated, h.fits, fun k => (h.reads k).trans (e k)⟩

theorem Denotes.append {a b : RangeMap K V} {f g : K → Option β} (ha : L.Denotes a f)
    (hb : L.Denotes b g) (h : ∀ s ∈ a, ∀ t ∈ b, s.limit ≤ t.start) :
    L.Denotes (a ++ b) fun k => (f k).or (g k) where
  separated := separated_append.mpr ⟨ha.separated, hb.separated, h⟩
  fits s hs := (List.mem_append.mp hs).elim (ha.fits s) (hb.fits s)
  reads k := by rw [← ha.reads, ← hb.reads, lookup, lookup_append]

theorem denotes_append {a b : RangeMap K V} {f : K → Option β} (h : L.Denotes (a ++ b) f) :
    L.Denotes a (L.lookup a) ∧ L.Denotes b (L.lookup b) ∧
      (∀ s ∈ a, ∀ t ∈ b, s.limit ≤ t.start) ∧ ∀ k, f k = (L.lookup a k).or (L.lookup b k) := by
  obtain ⟨ha, hb, sep⟩ := separated_append.mp h.separated
  refine ⟨⟨ha, fun s hs => h.fits s (by simp [hs]), fun _ => rfl⟩,
    ⟨hb, fun s hs => h.fits s (by simp [hs]), fun _ => rfl⟩, sep, fun k => ?_⟩
  rw [← h.reads, lookup, lookup_append]

theorem Denotes.single {s l : K} {v : V} (h : s < l) (fits : L.fits .add s l v) :
    L.Denotes [⟨s, l, v⟩] fun k => if s ≤ k ∧ k < l then some (L.view s l v k) else none where
  separated := separated_singleton.mpr h
  fits t ht := by obtain rfl := List.mem_singleton.mp ht; exact fits
  reads k := by rw [lookup, lookup_cons, lookup_nil]

/-- The part `[s, l)` of an entry says what the entry says there. -/
theorem Denotes.sliceOf {i : Segment K V} (fits : L.fits .add i.start i.limit i.value) {s l : K}
    (hs : i.start ≤ s) (h : s < l) (hl : l ≤ i.limit) :
    L.Denotes [RangeMap.sliceOf M i s l]
      fun k => if s ≤ k ∧ k < l then some (L.view i.start i.limit i.value k) else none :=
  (Denotes.single h (L.slice_fits fits hs h hl)).congr fun k => by
    by_cases hk : s ≤ k ∧ k < l
    · rw [if_pos hk, if_pos hk, L.slice_view fits hs hl hk.1 hk.2]
    · rw [if_neg hk, if_neg hk]

end Lawful

end RangeMap

end Silifuzz
