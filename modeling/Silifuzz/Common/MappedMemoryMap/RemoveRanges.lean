import Silifuzz.Common.MappedMemoryMap.PermsMap

/-!
# RemoveRangesOf

The loop of `RemoveRangesOf` changes the map it walks, so each turn finds its
place again by address:

* `removeEach_represents`: the ranges of `y` found for one entry;
* `Swept`: below the address reached the map is as it will be in the end;
* `removeRangesLoop_represents`: every turn takes the address further, so the
  loop ends.
-/

namespace Silifuzz

open Segments RangeMap Loops

namespace MappedMemoryMap

variable {m y : MappedMemoryMap} {f g : PermsMap} {p : MemoryPerms}

/-- The inner loop of `RemoveRangesOf`, over some ranges of `y`. -/
theorem removeEach_represents {w : List (Segment Address MemoryPerms)} (hm : m.Represents f)
    (hw : ∀ i ∈ w, i.start < i.limit) (p : MemoryPerms) :
    ∃ m', w.foldlM (fun m i => MappedMemoryMap.remove m i.start i.limit p) m = some m' ∧
      m'.Represents (f.removeRangesOf (memoryPerms.lookup w) p) := by
  refine foldlM_run (P := fun done m => MappedMemoryMap.Represents m
    (f.removeRangesOf (memoryPerms.lookup done) p)) (hm.congr fun k => ?_)
    fun done i rest m hl hm => ?_
  · simp [PermsMap.removeRangesOf, Lawful.lookup]
  · obtain ⟨m', run, hm'⟩ := hm.remove_represents (hw i (by simp [hl])) p
    refine ⟨m', run, hm'.congr fun k => ?_⟩
    have once : (f.removeRangesOf (memoryPerms.lookup done) p).remove i.start i.limit p k =
        (f.removeRangesOf (memoryPerms.lookup done) p).removeRangesOf
          (PermsMap.single i.start i.limit i.value) p k := by
      simp only [PermsMap.remove, PermsMap.removeRangesOf, PermsMap.single]
      split_ifs <;> simp_all
    rw [once, PermsMap.removeRangesOf_twice]
    simp only [PermsMap.removeRangesOf, lookup_snoc]
    rfl

/-- The loop has reached `bound`: from there on some addresses may already be cleared,
below it all are. -/
def Swept (f g : PermsMap) (p : MemoryPerms) (m : MappedMemoryMap) (bound : Address) : Prop :=
  ∃ f', m.Represents f' ∧ (∀ k, f' k = f k ∨ f' k = f.removeRangesOf g p k) ∧
    ∀ k < bound, f' k = f.removeRangesOf g p k

/-- The entries from `LowerBound(bound)` on are those that end after it. -/
theorem lowerBound_cut (hm : m.Represents f) (bound : Address) :
    ∃ a b, m.rep = a ++ b ∧ lowerBound m.rep bound = a.length ∧
      (∀ s ∈ a, s.limit ≤ bound) ∧ ∀ s ∈ b, bound < s.limit := by
  obtain ⟨a, b, eq, ha, hb⟩ := exists_cut (m := m.rep) (fun s => bound < s.limit) <| by
    refine hm.separated.2.imp_of_mem fun {x y} hx hy hxy hs => ?_
    have := hm.separated.1 y hy
    order
  have ha : ∀ s ∈ a, s.limit ≤ bound := fun s hs => not_lt.mp (ha s hs)
  exact ⟨a, b, eq, by rw [eq, lowerBound_append (eq ▸ hm.separated) ha hb], ha, hb⟩

/-- Between `bound` and the entry found for it the map says nothing. -/
theorem lookup_between {s : Segment Address MemoryPerms} {bound k : Address}
    (hm : m.Represents f) (hs : m.rep[lowerBound m.rep bound]? = some s) (low : bound ≤ k)
    (high : k < s.start) : f k = none := by
  obtain ⟨a, b, eq, at_a, ha, _⟩ := lowerBound_cut hm bound
  have sep := eq ▸ hm.separated
  rw [at_a, eq, List.getElem?_append_right (Nat.le_refl _), Nat.sub_self] at hs
  rw [← hm.reads, Lawful.lookup, eq]
  refine lookup_none fun t ht hk => ?_
  rcases List.mem_append.mp ht with ht | ht
  · have := ha t ht
    grind
  · cases b with
    | nil => simp at ht
    | cons u b =>
      obtain rfl : u = s := by simpa using hs
      have after := (separated_cons.mp (separated_append.mp sep).2.1).2.1
      have := (separated_append.mp sep).2.1.1 u (by simp)
      rcases List.mem_cons.mp ht with rfl | ht
      · grind
      · have := after t ht
        grind

/-- One turn: the ranges of `y` found for the entry at `LowerBound(bound)` are removed. -/
theorem removeRangesTurn (hy : y.Represents g) {s : Segment Address MemoryPerms}
    {bound : Address} (swept : Swept f g p m bound)
    (hs : m.rep[lowerBound m.rep bound]? = some s) :
    ∃ found m', find y.rep s.start s.limit = some found ∧
      (range y.rep found).foldlM (fun m i => MappedMemoryMap.remove m i.start i.limit p) m =
        some m' ∧ Swept f g p m' s.limit ∧ bound < s.limit ∧ (f (s.limit - 1)).isSome := by
  obtain ⟨f', hm, either, done⟩ := swept
  have hsm : s ∈ m.rep := List.mem_of_getElem? hs
  have nonempty := hm.separated.1 s hsm
  obtain ⟨a, w, b, hyw, split, found⟩ := find_split hy.separated nonempty
  obtain ⟨m', run, hm'⟩ := removeEach_represents hm
    (fun i hi => hy.separated.1 i (by simp [hyw, hi])) p (w := w)
  have inY : ∀ k, (memoryPerms.lookup w k).isSome → (g k).isSome := by
    intro k hk
    obtain ⟨v, hv⟩ := Option.isSome_iff_exists.mp hk
    obtain ⟨i, hi, hik, _⟩ := lookup_some hv
    exact (lookup_iff hy k).mp ⟨i, by simp [hyw, hi], hik⟩
  have outside : ∀ k, ¬ (g k).isSome → f.removeRangesOf g p k = f k := fun k hk => by
    simp [PermsMap.removeRangesOf, hk]
  -- where `y` has a range, removing it again changes nothing
  have cleared : ∀ k, (memoryPerms.lookup w k).isSome →
      f'.removeRangesOf (memoryPerms.lookup w) p k = f.removeRangesOf g p k := by
    intro k hk
    simp only [PermsMap.removeRangesOf, hk, if_true, inY k hk]
    rcases either k with h | h
    · rw [h]
    · rw [h, PermsMap.removeRangesOf, if_pos (inY k hk)]
      cases f k <;> simp [PermsMap.keep_keep]
  have kept : ∀ k, ¬ (memoryPerms.lookup w k).isSome →
      f'.removeRangesOf (memoryPerms.lookup w) p k = f' k := fun k hk => by
    simp [PermsMap.removeRangesOf, hk]
  refine ⟨_, m', found, by rw [hyw, range_split]; exact run, ⟨_, hm', fun k => ?_, fun k hk => ?_⟩,
    ?_, ?_⟩
  · by_cases hw : (memoryPerms.lookup w k).isSome
    · exact .inr (cleared k hw)
    · rw [kept k hw]
      exact either k
  · by_cases hw : (memoryPerms.lookup w k).isSome
    · exact cleared k hw
    · rw [kept k hw]
      by_cases low : k < bound
      · exact done k low
      · by_cases early : k < s.start
        · have := lookup_between hm hs (not_lt.mp low) early
          rcases either k with h | h
          · rw [this, PermsMap.removeRangesOf_none (h ▸ this)]
          · exact h
        · rw [← lookup_found (hyw ▸ hy.toDenotes) split ⟨not_lt.mp early, hk⟩] at hw
          rw [outside k hw]
          exact (either k).elim id (·.trans (outside k hw))
  · obtain ⟨a, b, eq, at_a, _, hb⟩ := lowerBound_cut hm bound
    refine hb s ?_
    rw [at_a, eq, List.getElem?_append_right (Nat.le_refl _)] at hs
    exact List.mem_of_getElem? hs
  · have last : (f' (s.limit - 1)).isSome := (lookup_iff hm _).mp ⟨s, hsm, by grind, by grind⟩
    by_contra none
    rw [Option.not_isSome_iff_eq_none] at none
    rcases either (s.limit - 1) with h | h
    · simp [h, none] at last
    · simp [h, PermsMap.removeRangesOf_none none] at last

/-- The loop ends, and clears `p` exactly where both maps have an address. -/
theorem removeRangesLoop_represents (hy : y.Represents g) {last bound fuel : Nat}
    (bounded : ∀ k, (f k).isSome → k < last) (low : bound ≤ last)
    (enough : last < fuel + bound) (swept : Swept f g p m bound) :
    ∃ m', removeRangesLoop y p fuel m (lowerBound m.rep bound) = some m' ∧
      m'.Represents (f.removeRangesOf g p) := by
  induction fuel generalizing m bound with
  | zero => exact absurd enough (by grind)
  | succ fuel ih =>
    simp only [removeRangesLoop]
    cases hs : m.rep[lowerBound m.rep bound]? with
    | none =>
      obtain ⟨f', hm, either, done⟩ := swept
      refine ⟨m, rfl, hm.congr fun k => ?_⟩
      by_cases low : k < bound
      · exact done k low
      · have : f' k = none := by
          obtain ⟨a, b, eq, at_a, ha, _⟩ := lowerBound_cut hm bound
          rw [at_a, eq, List.getElem?_append_right (Nat.le_refl _), Nat.sub_self] at hs
          obtain rfl : b = [] := by simpa using hs
          rw [← hm.reads, Lawful.lookup, eq, List.append_nil]
          exact lookup_before fun s hs => (ha s hs).trans (not_lt.mp low)
        rcases either k with h | h
        · rw [this, PermsMap.removeRangesOf_none (h ▸ this)]
        · exact h
    | some s =>
      obtain ⟨found, m', hfound, run, swept', further, inside⟩ := removeRangesTurn hy swept hs
      have := bounded _ inside
      obtain ⟨m'', run', hm''⟩ := ih (by grind) (by grind) swept'
      exact ⟨m'', by simp [hfound, run, run'], hm''⟩

theorem limit_le_last (hm : m.Represents f) {k : Address} (hk : (f k).isSome) :
    k < m.rep.getLast?.elim 0 Segment.limit := by
  obtain ⟨s, hs, _, hk⟩ := (lookup_iff hm k).mpr hk
  have sep := hm.separated
  rcases List.eq_nil_or_concat m.rep with h | ⟨a, t, h⟩
  · simp [h] at hs
  · rw [List.concat_eq_append] at h
    rw [h] at hs sep ⊢
    have nonempty := sep.1 t (by simp)
    simp only [List.getLast?_append_of_ne_nil, List.getLast?_singleton, ne_eq,
      List.cons_ne_nil, not_false_eq_true, Option.elim]
    rcases List.mem_append.mp hs with hs | hs
    · have := (separated_append.mp sep).2.2 s hs t (by simp)
      grind
    · obtain rfl := List.mem_singleton.mp hs
      exact hk

theorem Represents.removeRangesOf_represents (hm : m.Represents f) (hy : y.Represents g) (p : MemoryPerms) :
    ∃ m', m.removeRangesOf y p = some m' ∧ m'.Represents (f.removeRangesOf g p) := by
  have begin : lowerBound m.rep 0 = 0 := by
    obtain ⟨a, b, eq, at_a, ha, _⟩ := lowerBound_cut hm 0
    rw [at_a, List.length_eq_zero_iff, List.eq_nil_iff_forall_not_mem]
    intro s hs
    have := ha s hs
    have := hm.separated.1 s (by simp [eq, hs])
    grind
  obtain ⟨m', run, hm'⟩ := removeRangesLoop_represents hy (fun k => limit_le_last hm)
    (Nat.zero_le _) (Nat.lt_succ_self _) ⟨f, hm, fun _ => .inl rfl, by simp⟩
  exact ⟨m', by rw [removeRangesOf, ← run, begin], hm'⟩

end MappedMemoryMap

end Silifuzz
