import Silifuzz.Common.Snapshot.Normal

/-!
# Replaced memory bytes

`ReplaceMemoryBytes` of a snapshot and of an end state, where the new bytes are disjoint and
mapped; and where the elements of a normal list start and end when all that is mapped has
a byte.
-/

namespace Silifuzz

open Checked

namespace SnapshotMemory

/-- The memory with other bytes. -/
def withBytes (s : SnapshotMemory) (set : MemoryBytesSet) (l : List MemoryBytes) :
    SnapshotMemory := { s with writtenMemorySet := set, memoryBytes := l }

variable {s : SnapshotMemory} {f g : PermsMap} {w v : BytesMap} {l : List MemoryBytes}

theorem addBytesWhileOk_run (hs : s.Keeps f g w) (disjoint : l.Pairwise MemoryBytes.Disjoint)
    (mapped : ∀ b ∈ l, ∀ k, b.Covers k → (f k).isSome)
    (free : ∀ b ∈ l, ∀ k, b.Covers k → w k = none) :
    ∃ set, addWhileOk canAddMemoryBytes addMemoryBytes s l =
        some (.ok (s.withBytes set (s.memoryBytes ++ l))) ∧
      ∃ w', (s.withBytes set (s.memoryBytes ++ l)).Keeps f g w' := by
  induction l generalizing s w with
  | nil =>
    refine ⟨s.writtenMemorySet, ?_, w, ?_⟩
    · simp [addWhileOk, withBytes]
    · simpa [withBytes] using hs
  | cons b l ih =>
    obtain ⟨apart, disjoint⟩ := List.pairwise_cons.mp disjoint
    have ok := acceptedBytes_of hs (mapped b (by simp)) (free b (by simp))
    obtain ⟨s₁, added, bytes, hs₁⟩ := addMemoryBytes_keeps hs ok
    have next : ∀ c ∈ l, ∀ k, c.Covers k →
        (if b.Covers k then some (b.byteAt k) else w k) = none := by
      intro c hc k hk
      rw [if_neg fun hb => (apart c hc).covers hb hk]
      exact free c (by simp [hc]) k hk
    obtain ⟨set, run, w', kept⟩ := ih hs₁ disjoint (fun c hc => mapped c (by simp [hc])) next
    have same : s₁.withBytes set (s₁.memoryBytes ++ l) = s.withBytes set (s.memoryBytes ++ b :: l) := by
      obtain ⟨_, -, added⟩ := Option.bind_eq_some_iff.mp added
      obtain rfl := Option.some.inj added
      simp [withBytes]
    rw [same] at run kept
    exact ⟨set, by simp [addWhileOk, ok.can, added, run], w', kept⟩

/-- **Bytes that are disjoint and mapped can replace those of a snapshot.** -/
theorem replaceMemoryBytes_run (hs : s.Keeps f g w) (contents : Contents l v)
    (mapped : ∀ k, (v k).isSome → (f k).isSome) :
    ∃ set, s.replaceMemoryBytes l = some (.ok (s.withBytes set l)) ∧
      (s.withBytes set l).Keeps f g v := by
  have start : (s.withBytes .empty []).Keeps f g fun _ => none :=
    ⟨⟨hs.mapped, hs.mappings, hs.negativeMapped, hs.negativeMappings⟩, hs.aligned,
      hs.negativeAligned, .nil, by simp, MemoryBytesSet.empty_represents⟩
  obtain ⟨set, run, w', kept⟩ := addBytesWhileOk_run start contents.disjoint
    (fun b hb k hk => mapped k (contents.isSome_iff.mpr ⟨b, hb, hk⟩)) (by simp)
  have same : w' = v := by
    have bytes := kept.contents
    exact bytes.unique contents
  subst same
  exact ⟨set, run, kept⟩

/-- What was there before does not matter. -/
@[simp] theorem replaceMemoryBytes_withBytes (s : SnapshotMemory) (set : MemoryBytesSet)
    (l xs : List MemoryBytes) :
    (s.withBytes set l).replaceMemoryBytes xs = s.replaceMemoryBytes xs := rfl

variable {E : Address → Prop} {c d : MemoryBytes} {k : Address}

/-- Neighbouring bytes with the same permissions are in one element. -/
theorem Normal.together (h : Normal f l) (hc : c ∈ l) (hd : d ∈ l) (here : c.Covers k)
    (next : d.Covers (k + 1)) (same : f k = f (k + 1)) : c = d := by
  by_contra different
  have apart : l.Pairwise fun b c => (b.limitAddress = c.startAddress →
      chunkPerms f b.startAddress ≠ chunkPerms f c.startAddress) ∧
      (c.limitAddress = b.startAddress →
        chunkPerms f c.startAddress ≠ chunkPerms f b.startAddress) := by
    refine List.Pairwise.imp₂ (fun b c before changes => ⟨changes, fun touch => ?_⟩) h.ordered h.apart
    have := b.start_lt_limit
    have := c.start_lt_limit
    order
  have symm : Std.Symm fun b c : MemoryBytes => (b.limitAddress = c.startAddress →
      chunkPerms f b.startAddress ≠ chunkPerms f c.startAddress) ∧
      (c.limitAddress = b.startAddress →
        chunkPerms f c.startAddress ≠ chunkPerms f b.startAddress) := ⟨fun _ _ => And.symm⟩
  have disjoint : Std.Symm MemoryBytes.Disjoint := ⟨fun _ _ => MemoryBytes.Disjoint.symm⟩
  have touch : c.limitAddress = d.startAddress := by
    have clear := h.ordered.disjoint.forall hc hd different
    have inside := here
    have inside' := next
    unfold MemoryBytes.Covers at inside inside'
    rcases clear with clear | clear <;> lia
  apply (apart.forall hc hd different).1 touch
  rw [h.perms_eq hc c.covers_start here, h.perms_eq hd d.covers_start next, chunkPerms, chunkPerms,
    same]

/-- Where all that is mapped has a byte, the elements end where the map changes. -/
theorem Normal.ends (h : Normal f l) (contents : Contents l v)
    (filled : ∀ k, (v k).isSome = (f k).isSome) (paged : f.PagedMap E) (zero : E 0) :
    ∀ c ∈ l, E c.startAddress ∧ E c.limitAddress := by
  have known : ∀ k, (f k).isSome → ∃ d ∈ l, d.Covers k := fun k hk =>
    contents.isSome_iff.mp ((filled k).trans hk)
  have mapped : ∀ c ∈ l, ∀ k, c.Covers k → (f k).isSome := fun c hc k hk => by
    rw [← filled]
    exact contents.isSome_iff.mpr ⟨c, hc, hk⟩
  intro c hc
  constructor
  · rcases Nat.eq_zero_or_eq_succ_pred c.startAddress with first | prior
    · exact first ▸ zero
    · rw [prior]
      apply paged
      intro same
      have start : c.Covers (c.startAddress.pred + 1) := by
        rw [← Nat.succ_eq_add_one, ← prior]
        exact c.covers_start
      have before := mapped c hc _ start
      rw [← same] at before
      obtain ⟨d, hd, here⟩ := known _ before
      obtain rfl := h.together hd hc here start same
      have low := here.1
      lia
  · have nonempty := c.start_lt_limit
    have prior : (c.limitAddress - 1) + 1 = c.limitAddress := by lia
    rw [← prior]
    apply paged
    intro same
    have last : c.Covers (c.limitAddress - 1) := ⟨by lia, by lia⟩
    have after := mapped c hc _ last
    rw [same] at after
    obtain ⟨d, hd, next⟩ := known _ after
    obtain rfl := h.together hc hd last next same
    have high := next.2
    lia

end SnapshotMemory

namespace EndState

variable {e : EndState} {v : BytesMap} {l : List MemoryBytes}

/-- The end state with other bytes. -/
def withBytes (e : EndState) (set : MemoryBytesSet) (l : List MemoryBytes) : EndState :=
  { e with changedMemorySet := set, memoryBytes := l }

/-- Disjoint bytes can replace those of an end state. -/
theorem replaceMemoryBytes_run (e : EndState) (contents : Contents l v) :
    ∃ set, e.replaceMemoryBytes l = .ok (e.withBytes set l) := by
  obtain ⟨e', run, set, rfl, -⟩ := foldlM_ok (l := l)
    (f := fun x b => do EndState.canAddMemoryBytes x b; x.addMemoryBytes b)
    (a := e.withBytes .empty [])
    (fun done x => ∃ set, x = e.withBytes set done ∧
      set.Represents fun k => (bytesIn done k).isSome)
    ⟨.empty, rfl, MemoryBytesSet.empty_represents⟩ fun done b rest x hl ⟨set, eq, hset⟩ => by
      obtain ⟨disjoint, run, iff⟩ := hset.isDisjoint_eq b.start_lt_limit
      obtain ⟨added, add, hadded⟩ := hset.add_represents b.start_lt_limit
      have free : disjoint = true := by
        rw [iff]
        intro k low high
        have apart := (List.pairwise_append.mp (hl ▸ contents.disjoint)).2.2
        simp only [bytesIn, Option.isSome_map, Option.isSome_eq_false_iff, Option.isNone_iff_eq_none,
          List.find?_eq_none, decide_eq_true_eq]
        exact fun c hc hk => (apart c hc b (by simp)).covers hk ⟨low, high⟩
      subst eq
      have can : (e.withBytes set done).canAddMemoryBytes b = .ok () := by
        simp only [canAddMemoryBytes, withBytes, run, free]
        rfl
      refine ⟨e.withBytes added (done ++ [b]), ?_, added, rfl, hadded.congr fun k => ?_⟩
      · rw [can]
        simp only [addMemoryBytes, withBytes, add]
        rfl
      · rw [bytesIn_snoc]
        by_cases hk : b.Covers k
        · have both : b.startAddress ≤ k ∧ k < b.limitAddress := hk
          cases bytesIn done k <;> simp [hk, both]
        · have neither : ¬ (b.startAddress ≤ k ∧ k < b.limitAddress) := hk
          cases bytesIn done k <;> simp [hk, neither]
  exact ⟨set, run⟩

/-- What was there before does not matter. -/
@[simp] theorem replaceMemoryBytes_withBytes (e : EndState) (set : MemoryBytesSet)
    (l xs : List MemoryBytes) : (e.withBytes set l).replaceMemoryBytes xs = e.replaceMemoryBytes xs :=
  rfl

end EndState

end Silifuzz
