import Silifuzz.Library.Spans
import Silifuzz.ToolLibs.SnapGroup
import Mathlib.Data.List.Nodup

/-!
# The tasks of a partition

* `plan_spans`: without a group above its target, the chunks are consecutive and make up the
  list;
* `Working`: what holds between the atomic actions of one task, in terms of its chunk only;
* `turn_working`: an action of the task keeps it, and touches nothing outside its chunk.
-/

namespace Silifuzz

namespace SnapshotPartition

open SnapshotSummary SnapshotGroup Spans Checked

theorem sizeT_natCast {n : Nat} (h : n < 2 ^ 63) : sizeT n = n := by
  unfold sizeT
  omega

theorem ssizeT_sub {target size : Nat} (le : size ≤ target) (h : target - size < 2 ^ 63) :
    ssizeT (target - size) = ((target - size : Nat) : Int) := by
  rw [← Int.ofNat_sub le, ssizeT, Int.bmod_eq_of_le] <;> omega

/-- How many more summaries a group may take. -/
def room (p : Nat × SnapshotGroup) : Nat := p.1 - p.2.size

theorem scheduleTasks_spans {offset : Nat} {pairs : List (Nat × SnapshotGroup)}
    (atTarget : ∀ p ∈ pairs, p.2.size ≤ p.1) (fits : offset + (pairs.map room).sum < 2 ^ 63) :
    scheduleTasks offset pairs =
      (spans offset (pairs.map room)).map fun span => ⟨span.1, span.2, .checking⟩ := by
  induction pairs generalizing offset with
  | nil => rfl
  | cons p pairs ih =>
    obtain ⟨target, group⟩ := p
    have le : group.size ≤ target := atTarget (target, group) (by simp)
    simp only [List.map_cons, List.sum_cons, room] at fits
    have chunk : ssizeT (target - group.size) = ((target - group.size : Nat) : Int) :=
      ssizeT_sub le (by omega)
    have limit : sizeT (offset + ((target - group.size : Nat) : Int)) =
        offset + (target - group.size) := by
      rw [← Int.natCast_add, sizeT_natCast (by omega)]
    have rest := ih (fun p hp => atTarget p (by simp [hp]))
      (by omega : offset + (target - group.size) + (pairs.map room).sum < 2 ^ 63)
    simp only [scheduleTasks, chunk, limit, List.map_cons, spans, room, rest]

theorem sum_targets (q r k : Nat) :
    ((List.range k).map fun i => q + if i < r then 1 else 0).sum = k * q + min k r := by
  induction k with
  | zero => simp
  | succ k ih =>
    rw [List.range_succ, List.map_append, List.sum_append, ih, List.map_singleton,
      List.sum_singleton, Nat.succ_mul]
    split <;> omega

/-- The targets add up to the number of snapshots. -/
theorem sum_targetGroupSize {n numGroups : Nat} (some : 0 < numGroups) :
    (targetGroupSize n numGroups).sum = n := by
  have := Nat.mod_lt n some
  have := Nat.div_add_mod n numGroups
  rw [targetGroupSize, sum_targets]
  omega

theorem length_targetGroupSize (n numGroups : Nat) :
    (targetGroupSize n numGroups).length = numGroups := by
  rw [targetGroupSize, List.length_map, List.length_range]

theorem sum_room {pairs : List (Nat × SnapshotGroup)} (atTarget : ∀ p ∈ pairs, p.2.size ≤ p.1) :
    (pairs.map room).sum + (pairs.map fun p => p.2.size).sum = (pairs.map Prod.fst).sum := by
  induction pairs with
  | nil => rfl
  | cons p pairs ih =>
    have := atTarget p (by simp)
    have := ih fun p hp => atTarget p (by simp [hp])
    simp only [List.map_cons, List.sum_cons, room]
    omega

/-- What `PartitionSnapshots` counts on: there is a group, the snapshots can be counted, no
group is above its target, and no summary is in a group already. -/
structure Ready (groups : List SnapshotGroup) (summaries : List SnapshotSummary) : Prop where
  grouped : groups ≠ []
  counted : summaries.length + (groups.map size).sum < 2 ^ 63
  atTarget : ∀ p ∈ (targetGroupSize (numSnapshots groups summaries) groups.length).zip groups,
    p.2.size ≤ p.1
  fresh : ∀ x ∈ summaries, ∀ group ∈ groups, x.id ∉ group.idSet

/-- The chunks of the groups. -/
def chunks (groups : List SnapshotGroup) (summaries : List SnapshotSummary) : List (Nat × Nat) :=
  spans 0 (((targetGroupSize (numSnapshots groups summaries) groups.length).zip groups).map room)

variable {groups : List SnapshotGroup} {input summaries : List SnapshotSummary}

theorem Ready.numSnapshots_eq (ready : Ready groups summaries) :
    numSnapshots groups summaries = summaries.length + (groups.map size).sum := by
  rw [numSnapshots, ← Int.natCast_add, sizeT_natCast ready.counted]

/-- The chunks make up the list. -/
theorem Ready.sum_room_eq (ready : Ready groups summaries) :
    (((targetGroupSize (numSnapshots groups summaries) groups.length).zip groups).map room).sum =
      summaries.length := by
  have lengths := length_targetGroupSize (numSnapshots groups summaries) groups.length
  have sum := sum_room ready.atTarget
  have sizes : ((targetGroupSize (numSnapshots groups summaries) groups.length).zip groups).map
      (fun p => p.2.size) = groups.map size := by
    rw [← Function.comp_def (fun g : SnapshotGroup => g.size) Prod.snd, ← List.map_map,
      List.map_snd_zip lengths.ge]
  rw [sizes, List.map_fst_zip lengths.le,
    sum_targetGroupSize (List.length_pos_of_ne_nil ready.grouped)] at sum
  have := ready.numSnapshots_eq
  omega

theorem plan_spans (ready : Ready groups summaries) :
    plan groups summaries = some ⟨summaries, groups,
      (chunks groups summaries).map fun span => ⟨span.1, span.2, .checking⟩⟩ := by
  have counted := ready.counted
  have fits := ready.sum_room_eq
  rw [plan, if_neg ready.grouped, chunks, ← scheduleTasks_spans ready.atTarget (by omega)]

/-- The summaries that a task has put into its group, or looked at and left, end here. -/
def Task.reached (task : Task) : Nat := if task.phase = .nulling then task.j + 1 else task.j

/-- What holds between two actions of the task of one group: `input` is the list before,
`group₀` the group before with its `members`, and `span` the chunk. -/
structure Working (input members : List SnapshotSummary) (group₀ : SnapshotGroup)
    (span : Nat × Nat) (summaries : List SnapshotSummary) (group : SnapshotGroup) (task : Task) :
    Prop where
  limit : task.limit = span.2
  started : span.1 ≤ task.j
  within : task.reached ≤ span.2
  busy : task.phase ≠ .checking → task.j < span.2
  built : ∃ taken, (∀ x ∈ taken, x ∈ input) ∧ Built (taken ++ members) group
  agreed : task.phase = .adding → ∀ x, input[task.j]? = some x → group.canAddSnapshot x = .ok ()
  added : task.phase = .nulling → ∀ x, input[task.j]? = some x → x.id ∈ group.idSet
  ahead : ∀ k, task.j ≤ k → k < span.2 → summaries[k]? = input[k]?
  behind : ∀ k x, span.1 ≤ k → k < task.j → input[k]? = some x →
    summaries[k]? = some kNullSummary ∧ x.id ∈ group.idSet ∨
      summaries[k]? = some x ∧ x.id ∉ group.idSet
  source : ∀ id ∈ group.idSet, id ∈ group₀.idSet ∨
    ∃ k x, span.1 ≤ k ∧ k < task.reached ∧ input[k]? = some x ∧ x.id = id
  old : ∀ id ∈ group₀.idSet, id ∈ group.idSet
  size : group.size ≤ group₀.size + (task.reached - span.1)

variable {members : List SnapshotSummary} {group₀ group : SnapshotGroup} {span : Nat × Nat}
  {task : Task} {pool pool' : Pool} {new : List Event} {i : Nat}

/-- A new task. -/
theorem working_start (built : Built members group₀) (h : span.1 ≤ span.2) :
    Working input members group₀ span input group₀ ⟨span.1, span.2, .checking⟩ where
  limit := rfl
  started := le_rfl
  within := h
  busy := by simp
  built := ⟨[], by simp, built⟩
  agreed := by simp
  added := by simp
  ahead _ _ _ := rfl
  behind k x low high := absurd high (not_lt.mpr low)
  source id hid := .inl hid
  old _ h := h
  size := Nat.le_add_right _ _

/-- The task of a chunk depends on its chunk of the list only. -/
theorem Working.frame {other : List SnapshotSummary}
    (w : Working input members group₀ span summaries group task)
    (same : ∀ k, span.1 ≤ k → k < span.2 → other[k]? = summaries[k]?) :
    Working input members group₀ span other group task := by
  have reach := w.within
  have start := w.started
  have inside : task.j ≤ span.2 := by
    simp only [Task.reached] at reach
    split at reach <;> omega
  refine { w with ahead := fun k low high => ?_, behind := fun k x low high hx => ?_ }
  · rw [same k (by omega) high]
    exact w.ahead k low high
  · rw [same k low (by omega)]
    exact w.behind k x low high hx

theorem same_index (distinct : (input.map SnapshotSummary.id).Nodup) {k k' : Nat}
    {x y : SnapshotSummary} (hx : input[k]? = some x) (hy : input[k']? = some y)
    (same : x.id = y.id) : k = k' := by
  have bound : k < input.length := (List.getElem?_eq_some_iff.mp hx).1
  refine (List.getElem?_inj (by rwa [List.length_map]) distinct).mp ?_
  rw [List.getElem?_map, List.getElem?_map, hx, hy, Option.map_some, Option.map_some, same]

/-- What the task has not reached is not in its group. -/
theorem Working.absent (w : Working input members group₀ span summaries group task)
    (distinct : (input.map SnapshotSummary.id).Nodup)
    (fresh : ∀ x ∈ input, x.id ∉ group₀.idSet) {k : Nat} {x : SnapshotSummary}
    (hx : input[k]? = some x) (outside : k < span.1 ∨ task.reached ≤ k) :
    x.id ∉ group.idSet := by
  intro inside
  rcases w.source x.id inside with old | ⟨k', y, low, high, hy, same⟩
  · exact fresh x (List.mem_of_getElem? hx) old
  · have := same_index distinct hx hy same.symm
    omega

/-- How many actions the task has left, at most. -/
def Task.remaining (task : Task) : Nat :=
  3 * (task.limit - task.j) - match task.phase with
    | .checking => 0
    | .adding => 1
    | .nulling => 2

/-- What an action of the task `i` with the chunk `span` may change. -/
structure Turned (i : Nat) (span : Nat × Nat) (task : Task) (pool pool' : Pool) (task' : Task)
    (group' : SnapshotGroup) : Prop where
  tasks : pool'.tasks = pool.tasks.set i task'
  groups : pool'.groups = pool.groups.set i group'
  length : pool'.summaries.length = pool.summaries.length
  frame : ∀ k, ¬ (span.1 ≤ k ∧ k < span.2) → pool'.summaries[k]? = pool.summaries[k]?
  remaining : task'.remaining < task.remaining

/-- A summary that `CanAddSnapshot` does not agree to stays where it is. -/
theorem Working.rejected (w : Working input members group₀ span summaries group task)
    (distinct : (input.map SnapshotSummary.id).Nodup)
    (fresh : ∀ x ∈ input, x.id ∉ group₀.idSet) (checking : task.phase = .checking)
    (more : task.j < span.2) :
    Working input members group₀ span summaries group { task with j := task.j + 1 } := by
  have reached : task.reached = task.j := if_neg (by rw [checking]; decide)
  have later : Task.reached { task with j := task.j + 1 } = task.j + 1 :=
    if_neg (by rw [checking]; decide)
  have start := w.started
  have size := w.size
  refine { w with
    started := by dsimp only; omega
    within := by omega
    busy := by simp [checking]
    agreed := by simp [checking]
    added := by simp [checking]
    ahead := fun k low => w.ahead k (by dsimp only at low; omega)
    behind := ?_
    source := ?_
    size := by omega }
  · intro k x low high hx
    dsimp only at high
    rcases Nat.lt_succ_iff_lt_or_eq.mp high with before | rfl
    · exact w.behind k x low before hx
    · exact .inr ⟨(w.ahead _ le_rfl more).trans hx, w.absent distinct fresh hx (by omega)⟩
  · intro id hid
    rcases w.source id hid with old | ⟨k, x, low, high, found⟩
    · exact .inl old
    · exact .inr ⟨k, x, low, by omega, found⟩

/-- `CanAddSnapshot` agrees. -/
theorem Working.agrees (w : Working input members group₀ span summaries group task)
    (checking : task.phase = .checking) (more : task.j < span.2)
    (can : ∀ x, input[task.j]? = some x → group.canAddSnapshot x = .ok ()) :
    Working input members group₀ span summaries group { task with phase := .adding } := by
  have reached : task.reached = task.j := if_neg (by rw [checking]; decide)
  have later : Task.reached { task with phase := .adding } = task.reached := reached.symm
  refine { w with
    within := later ▸ w.within
    busy := fun _ => more
    agreed := fun _ => can
    added := by simp
    source := ?_
    size := later ▸ w.size }
  rw [later]
  exact w.source

/-- `AddSnapshot` has put the summary into the group. -/
theorem Working.adds (w : Working input members group₀ span summaries group task)
    (distinct : (input.map SnapshotSummary.id).Nodup)
    (adding : task.phase = .adding) {x : SnapshotSummary} (hx : input[task.j]? = some x) :
    ∃ group', group.addSnapshot x = some group' ∧
      Working input members group₀ span summaries group' { task with phase := .nulling } := by
  have reached : task.reached = task.j := if_neg (by rw [adding]; decide)
  have later : Task.reached { task with phase := .nulling } = task.j + 1 := if_pos rfl
  have more := w.busy (by rw [adding]; decide)
  have start := w.started
  obtain ⟨taken, fromInput, built⟩ := w.built
  obtain ⟨group', run, built', ids⟩ := built.added (w.agreed adding x hx)
  refine ⟨group', run, { w with
    within := by omega
    busy := fun _ => more
    built := ⟨x :: taken, ?_, built'⟩
    agreed := by simp
    added := ?_
    behind := ?_
    source := ?_
    old := fun id hid => by rw [ids]; exact .tail _ (w.old id hid)
    size := ?_ }⟩
  · exact List.forall_mem_cons.mpr ⟨List.mem_of_getElem? hx, fromInput⟩
  · intro _ y hy
    obtain rfl := Option.some.inj (hx.symm.trans hy)
    rw [ids]
    exact .head _
  · intro k y low high hy
    rcases w.behind k y low high hy with ⟨null, inside⟩ | ⟨same, outside⟩
    · exact .inl ⟨null, by rw [ids]; exact .tail _ inside⟩
    · refine .inr ⟨same, ?_⟩
      rw [ids, List.mem_cons, not_or]
      refine ⟨fun equal => ?_, outside⟩
      have := same_index distinct hy hx equal
      dsimp only at high
      omega
  · intro id hid
    rw [ids] at hid
    rcases List.mem_cons.mp hid with rfl | hid
    · exact .inr ⟨task.j, x, start, by omega, hx, rfl⟩
    · rcases w.source id hid with old | ⟨k, y, low, high, found⟩
      · exact .inl old
      · exact .inr ⟨k, y, low, by omega, found⟩
  · have := w.size
    rw [SnapshotGroup.size, ids, List.length_cons, later]
    rw [SnapshotGroup.size, reached] at this
    omega

/-- The null summary stands in for what was put into the group. -/
theorem Working.nulls (w : Working input members group₀ span summaries group task)
    (nulling : task.phase = .nulling) (inside : task.j < summaries.length) :
    Working input members group₀ span (summaries.set task.j kNullSummary) group
      { task with j := task.j + 1, phase := .checking } := by
  have reached : task.reached = task.j + 1 := if_pos nulling
  have later : Task.reached { task with j := task.j + 1, phase := .checking } = task.reached :=
    reached.symm
  have start := w.started
  refine { w with
    started := by dsimp only; omega
    within := later ▸ w.within
    busy := by simp
    agreed := by simp
    added := by simp
    ahead := fun k low high => ?_
    behind := ?_
    source := ?_
    size := later ▸ w.size }
  · dsimp only at low
    rw [List.getElem?_set_ne (by omega)]
    exact w.ahead k (by omega) high
  · intro k x low high hx
    dsimp only at high
    rcases Nat.lt_succ_iff_lt_or_eq.mp high with before | rfl
    · rw [List.getElem?_set_ne (by omega)]
      exact w.behind k x low before hx
    · exact .inl ⟨List.getElem?_set_self inside, w.added nulling x hx⟩
  · rw [later]
    exact w.source

end SnapshotPartition

end Silifuzz
