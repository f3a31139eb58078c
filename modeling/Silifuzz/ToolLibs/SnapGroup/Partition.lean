import Silifuzz.ToolLibs.SnapGroup.Tasks

/-!
# PartitionSnapshots

* `Working.turns`, `Working.goes_on`: what one action of a task does, and that there is one
  until the task is done;
* `Running`: all tasks at work, each on its own chunk;
* `partitionSnapshots_ready`: the partition that any schedule of the tasks ends in.
-/

namespace Silifuzz

namespace SnapshotPartition

open SnapshotSummary SnapshotGroup Spans Checked

variable {groups : List SnapshotGroup} {input summaries members : List SnapshotSummary}
  {group₀ group : SnapshotGroup} {span : Nat × Nat} {task : Task} {pool pool' : Pool}
  {new : List Event} {i : Nat}

theorem set_same {α : Type} {l : List α} {a : α} (h : l[i]? = some a) : l.set i a = l := by
  obtain ⟨bound, rfl⟩ := List.getElem?_eq_some_iff.mp h
  exact List.set_getElem_self bound

/-- The task of the chunk `span` as its next action finds it. -/
theorem Working.current (w : Working input members group₀ span summaries group task)
    (bound : span.2 ≤ input.length) (more : task.j < span.2) :
    ∃ x, input[task.j]? = some x ∧ summaries[task.j]? = some x := by
  have inside : task.j < input.length := by omega
  exact ⟨input[task.j], List.getElem?_eq_getElem inside,
    (w.ahead _ le_rfl more).trans (List.getElem?_eq_getElem inside)⟩

/-- An action of a task: it reads an element of its chunk, and keeps to it. -/
theorem Working.turns (w : Working input members group₀ span pool.summaries group task)
    (distinct : (input.map SnapshotSummary.id).Nodup)
    (fresh : ∀ x ∈ input, x.id ∉ group₀.idSet) (bound : span.2 ≤ input.length)
    (groupAt : pool.groups[i]? = some group)
    (run : turn pool i task group = some (pool', new)) :
    new = [.accessed i task.j] ∧ span.1 ≤ task.j ∧ task.j < span.2 ∧
      ∃ task' group', Turned i span task pool pool' task' group' ∧
        Working input members group₀ span pool'.summaries group' task' := by
  have start := w.started
  have limit := w.limit
  cases phase : task.phase with
  | checking =>
    simp only [turn, phase] at run
    split at run
    swap
    · cases run
    have more : task.j < span.2 := by omega
    obtain ⟨x, inInput, here⟩ := w.current bound more
    obtain ⟨taken, -, built⟩ := w.built
    simp only [here] at run
    rcases built.can x with ⟨can, -⟩ | ⟨message, refused⟩
    · simp only [can, isOk, Option.some.injEq, Prod.mk.injEq] at run
      obtain ⟨rfl, rfl⟩ := run
      refine ⟨rfl, start, more, _, group, ⟨rfl, (set_same groupAt).symm, rfl, fun _ _ => rfl, ?_⟩,
        w.agrees phase more fun y hy => ?_⟩
      · simp only [Task.remaining, phase]
        omega
      · obtain rfl := Option.some.inj (inInput.symm.trans hy)
        exact can
    · simp only [refused, isOk, Option.some.injEq, Prod.mk.injEq] at run
      obtain ⟨rfl, rfl⟩ := run
      have w' := w.rejected distinct fresh phase more
      rw [phase] at w'
      refine ⟨rfl, start, more, _, group, ⟨rfl, (set_same groupAt).symm, rfl, fun _ _ => rfl, ?_⟩,
        w'⟩
      simp only [Task.remaining, phase]
      omega
  | adding =>
    have more := w.busy (by rw [phase]; decide)
    obtain ⟨x, inInput, here⟩ := w.current bound more
    obtain ⟨group', added, w'⟩ := w.adds distinct phase inInput
    simp only [turn, phase, here, added, Option.bind_eq_bind, Option.bind_some, Option.some.injEq,
      Prod.mk.injEq] at run
    obtain ⟨rfl, rfl⟩ := run
    refine ⟨rfl, start, more, _, group', ⟨rfl, rfl, rfl, fun _ _ => rfl, ?_⟩, w'⟩
    simp only [Task.remaining, phase]
    omega
  | nulling =>
    have more := w.busy (by rw [phase]; decide)
    obtain ⟨x, -, here⟩ := w.current bound more
    simp only [turn, phase, Option.some.injEq, Prod.mk.injEq] at run
    obtain ⟨rfl, rfl⟩ := run
    refine ⟨rfl, start, more, _, group, ⟨rfl, (set_same groupAt).symm, List.length_set,
      fun k outside => List.getElem?_set_ne (by omega), ?_⟩,
      w.nulls phase (List.getElem?_eq_some_iff.mp here).1⟩
    simp only [Task.remaining, phase]
    omega

/-- A task that is not done has an action. -/
theorem Working.goes_on (w : Working input members group₀ span pool.summaries group task)
    (bound : span.2 ≤ input.length) (busy : ¬ (task.phase = .checking ∧ task.limit ≤ task.j)) :
    (turn pool i task group).isSome := by
  have limit := w.limit
  cases phase : task.phase with
  | checking =>
    have more : task.j < task.limit := by
      by_contra done
      exact busy ⟨phase, by omega⟩
    simp only [turn, phase, if_pos more]
    split
    · rfl
    · split <;> rfl
  | adding =>
    obtain ⟨x, -, here⟩ := w.current bound (w.busy (by rw [phase]; decide))
    simp only [turn, phase, here, Option.bind_eq_bind, Option.bind_some]
    split <;> rfl
  | nulling =>
    simp only [turn, phase]
    rfl

/-- All tasks are at work on their chunks, after the events `trace`. -/
structure Running (input : List SnapshotSummary) (members : Nat → List SnapshotSummary)
    (groups : List SnapshotGroup) (pool : Pool) (trace : List Event) : Prop where
  numTasks : pool.tasks.length = groups.length
  numGroups : pool.groups.length = groups.length
  numSummaries : pool.summaries.length = input.length
  working : ∀ i span task group group₀, (chunks groups input)[i]? = some span →
    pool.tasks[i]? = some task → pool.groups[i]? = some group → groups[i]? = some group₀ →
    Working input (members i) group₀ span pool.summaries group task
  accesses : ∀ event ∈ trace, ∃ i k span, event = .accessed i k ∧
    (chunks groups input)[i]? = some span ∧ span.1 ≤ k ∧ k < span.2
  work : (pool.tasks.map Task.remaining).sum + trace.length ≤ 3 * input.length

/-- What `PartitionSnapshots` promises of the groups and the list that it leaves. -/
structure Partitioned (members : Nat → List SnapshotSummary) (groups : List SnapshotGroup)
    (input : List SnapshotSummary) (last : Pool) : Prop where
  placed : ∀ x ∈ input,
    (x ∈ last.leftovers ∧ ∀ group ∈ last.groups, x.id ∉ group.idSet) ∨
      x ∉ last.leftovers ∧ ∃! i : Nat, ∃ group : SnapshotGroup,
        last.groups[i]? = some group ∧ x.id ∈ group.idSet
  order : last.leftovers.Sublist input
  compatible : ∀ i group, last.groups[i]? = some group → ∃ taken, (∀ x ∈ taken, x ∈ input) ∧
    Built (taken ++ members i) group ∧ (taken ++ members i).Pairwise SnapshotSummary.Compatible
  bounded : ∀ (i : Nat) (group : SnapshotGroup) (target : Nat), last.groups[i]? = some group →
    (targetGroupSize (numSnapshots groups input) groups.length)[i]? = some target →
    group.size ≤ target

theorem length_chunks (groups : List SnapshotGroup) (input : List SnapshotSummary) :
    (chunks groups input).length = groups.length := by
  rw [chunks, length_spans, List.length_map, List.length_zip, length_targetGroupSize, Nat.min_self]

theorem Ready.chunk_bound (ready : Ready groups input)
    (h : (chunks groups input)[i]? = some span) : span.1 ≤ span.2 ∧ span.2 ≤ input.length := by
  have bounds := spans_bounds (List.mem_of_getElem? h)
  rw [ready.sum_room_eq] at bounds
  omega

/-- A group has room for its chunk. -/
theorem Ready.chunk_room (ready : Ready groups input) {target : Nat}
    (h : (chunks groups input)[i]? = some span) (groupAt : groups[i]? = some group)
    (targetAt : (targetGroupSize (numSnapshots groups input) groups.length)[i]? = some target) :
    group.size + (span.2 - span.1) = target := by
  have pair : ((targetGroupSize (numSnapshots groups input) groups.length).zip groups)[i]? =
      some (target, group) := by
    rw [List.getElem?_zip_eq_some]
    exact ⟨targetAt, groupAt⟩
  have length := spans_length h
  rw [List.getElem?_map, pair, Option.map_some, Option.some.injEq] at length
  have := ready.atTarget _ (List.mem_of_getElem? pair)
  simp only [room] at length this
  omega

theorem sum_set_lt {l : List Nat} {a b : Nat} (h : l[i]? = some b) (lt : a < b) :
    (l.set i a).sum < l.sum := by
  induction l generalizing i with
  | nil => cases h
  | cons x l ih =>
    cases i with
    | zero =>
      obtain rfl := Option.some.inj h
      simpa using lt
    | succ i =>
      have := ih (i := i) h
      simp only [List.set_cons_succ, List.sum_cons]
      omega

variable {trace : List Event} {members : Nat → List SnapshotSummary}

/-- The pool that the threads start from. -/
theorem running_start (ready : Ready groups input)
    (built : ∀ i group, groups[i]? = some group → Built (members i) group) :
    Running input members groups ⟨input, groups,
      (chunks groups input).map fun span => ⟨span.1, span.2, .checking⟩⟩ [] where
  numTasks := by rw [List.length_map, length_chunks]
  numGroups := rfl
  numSummaries := rfl
  working := by
    intro i span task group group₀ spanAt taskAt groupAt groupAt₀
    rw [List.getElem?_map, spanAt, Option.map_some] at taskAt
    obtain rfl := Option.some.inj taskAt
    obtain rfl := Option.some.inj (groupAt.symm.trans groupAt₀)
    exact working_start (built i group groupAt) (ready.chunk_bound spanAt).1
  accesses := by simp
  work := by
    have total : ∀ l : List Nat, ∀ offset, (((spans offset l).map fun span =>
        (⟨span.1, span.2, .checking⟩ : Task)).map Task.remaining).sum = 3 * l.sum := by
      intro l
      induction l with
      | nil => exact fun _ => rfl
      | cons length l ih =>
        intro offset
        have := ih (offset + length)
        simp only [spans, List.map_cons, List.sum_cons, this, Task.remaining]
        omega
    rw [chunks, total, ready.sum_room_eq]
    exact le_rfl

/-- Any action of any task keeps them all running. -/
theorem running_step (ready : Ready groups input)
    (distinct : (input.map SnapshotSummary.id).Nodup)
    (running : Running input members groups pool trace)
    (run : step pool i = some (pool', new)) :
    Running input members groups pool' (trace ++ new) := by
  obtain ⟨task, taskAt, run⟩ := Option.bind_eq_some_iff.mp run
  obtain ⟨group, groupAt, run⟩ := Option.bind_eq_some_iff.mp run
  have inTasks := (List.getElem?_eq_some_iff.mp taskAt).1
  have tasks := running.numTasks
  have inChunks : i < (chunks groups input).length := by
    rw [length_chunks]
    omega
  have inGroups : i < groups.length := by omega
  have spanAt := List.getElem?_eq_getElem inChunks
  have groupAt₀ := List.getElem?_eq_getElem inGroups
  have w := running.working i _ _ _ _ spanAt taskAt groupAt groupAt₀
  obtain ⟨rfl, low, high, task', group', turned, w'⟩ := w.turns distinct
    (fun x hx => ready.fresh x hx _ (List.getElem_mem inGroups)) (ready.chunk_bound spanAt).2
    groupAt run
  refine ⟨?_, ?_, turned.length.trans running.numSummaries, ?_, ?_, ?_⟩
  · rw [turned.tasks, List.length_set, running.numTasks]
  · rw [turned.groups, List.length_set, running.numGroups]
  · intro i' span task'' group'' group₀ spanAt' taskAt' groupAt' groupAt₀'
    rw [turned.tasks] at taskAt'
    rw [turned.groups] at groupAt'
    by_cases own : i' = i
    · subst own
      rw [List.getElem?_set_self inTasks] at taskAt'
      rw [List.getElem?_set_self (List.getElem?_eq_some_iff.mp groupAt).1] at groupAt'
      obtain rfl := Option.some.inj taskAt'
      obtain rfl := Option.some.inj groupAt'
      obtain rfl := Option.some.inj (spanAt.symm.trans spanAt')
      obtain rfl := Option.some.inj (groupAt₀.symm.trans groupAt₀')
      exact w'
    · rw [List.getElem?_set_ne (Ne.symm own)] at taskAt' groupAt'
      refine (running.working i' _ _ _ _ spanAt' taskAt' groupAt' groupAt₀').frame
        fun k low' high' => turned.frame k fun inside => own ?_
      exact spans_apart spanAt' spanAt ⟨low', high'⟩ inside
  · intro event he
    rcases List.mem_append.mp he with before | now
    · exact running.accesses event before
    · obtain rfl := List.mem_singleton.mp now
      exact ⟨i, task.j, _, rfl, spanAt, low, high⟩
  · have less : ((pool.tasks.map Task.remaining).set i task'.remaining).sum <
        (pool.tasks.map Task.remaining).sum :=
      sum_set_lt (by rw [List.getElem?_map, taskAt]; rfl) turned.remaining
    have work := running.work
    rw [turned.tasks, List.map_set, List.length_append, List.length_singleton]
    omega

/-- The list and the groups once all tasks are done. -/
theorem Running.joined (ready : Ready groups input)
    (distinct : (input.map SnapshotSummary.id).Nodup)
    (running : Running input members groups pool trace) (joined : pool.Joined)
    (spanAt : (chunks groups input)[i]? = some span) :
    ∃ group, pool.groups[i]? = some group ∧
      (∀ k x, input[k]? = some x → ¬ (span.1 ≤ k ∧ k < span.2) → x.id ∉ group.idSet) ∧
      (∀ k x, input[k]? = some x → span.1 ≤ k → k < span.2 →
        pool.summaries[k]? = some kNullSummary ∧ x.id ∈ group.idSet ∨
          pool.summaries[k]? = some x ∧ x.id ∉ group.idSet) ∧
      (∃ taken, (∀ x ∈ taken, x ∈ input) ∧ Built (taken ++ members i) group) ∧
      ∀ group₀, groups[i]? = some group₀ → group.size ≤ group₀.size + (span.2 - span.1) := by
  have inChunks := (List.getElem?_eq_some_iff.mp spanAt).1
  rw [length_chunks] at inChunks
  have inTasks : i < pool.tasks.length := by rw [running.numTasks]; exact inChunks
  have inGroups : i < pool.groups.length := by rw [running.numGroups]; exact inChunks
  have w := running.working i span pool.tasks[i] pool.groups[i] groups[i] spanAt
    (List.getElem?_eq_getElem inTasks) (List.getElem?_eq_getElem inGroups)
    (List.getElem?_eq_getElem inChunks)
  obtain ⟨checking, done⟩ := joined _ (List.getElem_mem inTasks)
  have reached : pool.tasks[i].reached = pool.tasks[i].j := if_neg (by rw [checking]; decide)
  have limit := w.limit
  have within := w.within
  have fresh := fun x hx => ready.fresh x hx groups[i] (List.getElem_mem inChunks)
  refine ⟨_, List.getElem?_eq_getElem inGroups, fun k x hx outside => ?_, fun k x hx low high => ?_,
    w.built, fun group₀ at₀ => ?_⟩
  · exact w.absent distinct fresh hx (by omega)
  · exact w.behind k x low (by omega) hx
  · obtain rfl := Option.some.inj ((List.getElem?_eq_getElem inChunks).symm.trans at₀)
    have := w.size
    omega

theorem equals_kNullSummary {x : SnapshotSummary} (named : x.id ≠ "") :
    x.equals kNullSummary = false := by
  simp [SnapshotSummary.equals, kNullSummary, named]

/-- What is filtered from a list that differs from another only in what is dropped. -/
theorem filter_sublist {α : Type} {p : α → Bool} {l l' : List α}
    (length : l.length = l'.length)
    (each : ∀ (k : Nat) (a b : α), l[k]? = some a → l'[k]? = some b → a = b ∨ p a = false) :
    (l.filter p).Sublist l' := by
  induction l generalizing l' with
  | nil => exact List.nil_sublist _
  | cons a l ih =>
    cases l' with
    | nil => cases length
    | cons b l' =>
      have rest := ih (Nat.succ.inj length) fun k a b ha hb => each (k + 1) a b ha hb
      rcases each 0 a b rfl rfl with rfl | dropped
      · rw [List.filter_cons]
        split
        · exact rest.cons_cons a
        · exact rest.cons a
      · rw [List.filter_cons_of_neg (by simp [dropped])]
        exact rest.cons b

/-- When the threads have joined, the partition is what `PartitionSnapshots` promises. -/
theorem Running.partitioned (ready : Ready groups input)
    (distinct : (input.map SnapshotSummary.id).Nodup) (named : ∀ x ∈ input, x.id ≠ "")
    (running : Running input members groups pool trace) (joined : pool.Joined) :
    Partitioned members groups input pool := by
  have own : ∀ (k : Nat) (x : SnapshotSummary), input[k]? = some x →
      ∃ (i : Nat) (span : Nat × Nat), (chunks groups input)[i]? = some span ∧
      span.1 ≤ k ∧ k < span.2 := by
    intro k x hx
    have bound := (List.getElem?_eq_some_iff.mp hx).1
    exact spans_cover (Nat.zero_le k) (by rw [ready.sum_room_eq]; omega)
  have pointwise : ∀ (k : Nat) (x : SnapshotSummary), input[k]? = some x →
      pool.summaries[k]? = some kNullSummary ∨ pool.summaries[k]? = some x := by
    intro k x hx
    obtain ⟨i, span, spanAt, low, high⟩ := own k x hx
    obtain ⟨group, -, -, inside, -⟩ := running.joined ready distinct joined spanAt
    exact (inside k x hx low high).imp And.left And.left
  have left : ∀ (k : Nat) (x : SnapshotSummary), input[k]? = some x →
      (x ∈ pool.leftovers ↔ pool.summaries[k]? = some x) := by
    intro k x hx
    rw [Pool.leftovers, List.mem_filter,
      equals_kNullSummary (named x (List.mem_of_getElem? hx)), Bool.not_false]
    refine ⟨fun ⟨there, _⟩ => ?_, fun here => ⟨List.mem_of_getElem? here, rfl⟩⟩
    obtain ⟨k', at_k'⟩ := List.mem_iff_getElem?.mp there
    have bound := (List.getElem?_eq_some_iff.mp at_k').1
    rw [running.numSummaries] at bound
    rcases pointwise k' _ (List.getElem?_eq_getElem bound) with null | same
    · obtain rfl := Option.some.inj (at_k'.symm.trans null)
      exact absurd rfl (named _ (List.mem_of_getElem? hx))
    · have equal := Option.some.inj (at_k'.symm.trans same)
      have := same_index distinct hx (List.getElem?_eq_getElem bound) (by rw [equal])
      rw [this]
      exact at_k'
  refine ⟨fun x hx => ?_, ?_, fun i group groupAt => ?_, fun i group target groupAt targetAt => ?_⟩
  · obtain ⟨k, at_k⟩ := List.mem_iff_getElem?.mp hx
    obtain ⟨i, span, spanAt, low, high⟩ := own k x at_k
    obtain ⟨group, groupAt, -, inside, -⟩ := running.joined ready distinct joined spanAt
    -- the group of another chunk has not got it
    have others : ∀ (i' : Nat) (group' : SnapshotGroup), pool.groups[i']? = some group' →
        x.id ∈ group'.idSet → i' = i := by
      intro i' group' groupAt' there
      have bound := (List.getElem?_eq_some_iff.mp groupAt').1
      rw [running.numGroups, ← length_chunks groups input] at bound
      have spanAt' := List.getElem?_eq_getElem bound
      obtain ⟨group'', at'', outside', -⟩ := running.joined ready distinct joined spanAt'
      obtain rfl := Option.some.inj (groupAt'.symm.trans at'')
      by_contra different
      exact outside' k x at_k (fun inside' => different
        (spans_apart spanAt' spanAt inside' ⟨low, high⟩)) there
    rcases inside k x at_k low high with ⟨null, taken⟩ | ⟨same, free⟩
    · refine .inr ⟨fun there => ?_, i, ⟨group, groupAt, taken⟩, ?_⟩
      · have here := (left k x at_k).mp there
        obtain rfl := Option.some.inj (here.symm.trans null)
        exact named _ hx rfl
      · rintro i' ⟨group', groupAt', there⟩
        exact others i' group' groupAt' there
    · refine .inl ⟨(left k x at_k).mpr same, fun group' inGroups there => ?_⟩
      obtain ⟨i', groupAt'⟩ := List.mem_iff_getElem?.mp inGroups
      obtain rfl := others i' group' groupAt' there
      obtain rfl := Option.some.inj (groupAt.symm.trans groupAt')
      exact free there
  · refine filter_sublist running.numSummaries fun k a x ha hx => ?_
    rcases pointwise k x hx with null | same
    · obtain rfl := Option.some.inj (ha.symm.trans null)
      exact .inr (by decide)
    · exact .inl (Option.some.inj (ha.symm.trans same))
  · have bound := (List.getElem?_eq_some_iff.mp groupAt).1
    rw [running.numGroups, ← length_chunks groups input] at bound
    obtain ⟨group', at', -, -, ⟨taken, inInput, built⟩, -⟩ :=
      running.joined ready distinct joined (List.getElem?_eq_getElem bound)
    obtain rfl := Option.some.inj (groupAt.symm.trans at')
    exact ⟨taken, inInput, built, built.compatible⟩
  · have bound := (List.getElem?_eq_some_iff.mp groupAt).1
    rw [running.numGroups] at bound
    have inChunks : i < (chunks groups input).length := by rwa [length_chunks]
    obtain ⟨group', at', -, -, -, size⟩ :=
      running.joined ready distinct joined (List.getElem?_eq_getElem inChunks)
    obtain rfl := Option.some.inj (groupAt.symm.trans at')
    have := size _ (List.getElem?_eq_getElem bound)
    have := ready.chunk_room (List.getElem?_eq_getElem inChunks) (List.getElem?_eq_getElem bound)
      targetAt
    omega

/-- A task that is not done can always act. -/
theorem Running.goes_on (ready : Ready groups input)
    (running : Running input members groups pool trace) (busy : ¬ pool.Joined) :
    ∃ i, (step pool i).isSome := by
  unfold Pool.Joined at busy
  push Not at busy
  obtain ⟨task, inTasks, more⟩ := busy
  obtain ⟨i, bound, rfl⟩ := List.getElem_of_mem inTasks
  have inGroups₀ : i < groups.length := by rw [← running.numTasks]; exact bound
  have inGroups : i < pool.groups.length := by rw [running.numGroups]; exact inGroups₀
  have inChunks : i < (chunks groups input).length := by rwa [length_chunks]
  have w := running.working i _ pool.tasks[i] pool.groups[i] groups[i]
    (List.getElem?_eq_getElem inChunks) (List.getElem?_eq_getElem bound)
    (List.getElem?_eq_getElem inGroups) (List.getElem?_eq_getElem inGroups₀)
  refine ⟨i, ?_⟩
  simp only [step, List.getElem?_eq_getElem bound, List.getElem?_eq_getElem inGroups,
    Option.bind_eq_bind, Option.bind_some]
  refine w.goes_on (ready.chunk_bound (List.getElem?_eq_getElem inChunks)).2 fun done => ?_
  exact absurd done.2 (not_le.mpr (more done.1))

theorem step_shows {next : Pool × List Event} (run : step pool i = some next) : next.2 ≠ [] := by
  obtain ⟨task, -, run⟩ := Option.bind_eq_some_iff.mp run
  obtain ⟨group, -, run⟩ := Option.bind_eq_some_iff.mp run
  cases phase : task.phase with
  | checking =>
    simp only [turn, phase] at run
    split at run
    · split at run
      · obtain rfl := Option.some.inj run
        simp
      · split at run <;> obtain rfl := Option.some.inj run <;> simp
    · cases run
  | adding =>
    simp only [turn, phase] at run
    obtain ⟨x, -, run⟩ := Option.bind_eq_some_iff.mp run
    split at run <;> obtain rfl := Option.some.inj run <;> simp
  | nulling =>
    simp only [turn, phase] at run
    obtain rfl := Option.some.inj run
    simp

/-- What `PartitionSnapshots` promises of every schedule of its tasks from `start`: they read
within the list, no two of them the same element, they come to an end, and what they leave is
a partition. -/
def Promised (members : Nat → List SnapshotSummary) (groups : List SnapshotGroup)
    (input : List SnapshotSummary) (start : Pool) : Prop :=
  ∀ schedule last trace, Schedules.run step start schedule = some (last, trace) →
    (∀ event ∈ trace, ∃ i k, event = .accessed i k ∧ k < input.length) ∧
      (∀ i i' k, .accessed i k ∈ trace → .accessed i' k ∈ trace → i = i') ∧
      schedule.length ≤ 3 * input.length ∧ (¬ last.Joined → ∃ i, (step last i).isSome) ∧
      (last.Joined → Partitioned members groups input last)

/-- **From groups at or below their targets, any schedule of the threads partitions the
list.** -/
theorem partitionSnapshots_ready
    (built : ∀ i group, groups[i]? = some group → Built (members i) group)
    (distinct : (input.map SnapshotSummary.id).Nodup) (named : ∀ x ∈ input, x.id ≠ "")
    (ready : Ready groups input) :
    ∃ start, plan groups input = some start ∧ Promised members groups input start := by
  refine ⟨_, plan_spans ready, fun schedule last trace run => ?_⟩
  have running : Running input members groups last trace :=
    Schedules.run_after (running_start ready built)
      (fun _ _ _ _ _ before next => running_step ready distinct before next) run
  refine ⟨fun event he => ?_, fun i i' k first second => ?_, ?_, running.goes_on ready,
    running.partitioned ready distinct named⟩
  · obtain ⟨i, k, span, rfl, spanAt, -, high⟩ := running.accesses event he
    exact ⟨i, k, rfl, high.trans_le (ready.chunk_bound spanAt).2⟩
  · obtain ⟨_, _, span, equal, spanAt, inside⟩ := running.accesses _ first
    obtain ⟨_, _, span', equal', spanAt', inside'⟩ := running.accesses _ second
    obtain ⟨rfl, rfl⟩ := Event.accessed.inj equal
    obtain ⟨rfl, rfl⟩ := Event.accessed.inj equal'
    exact spans_apart spanAt spanAt' inside inside'
  · have shown : schedule.length ≤ trace.length :=
      Schedules.length_le (fun _ _ _ => step_shows) run
    have := running.work
    omega

/-- A mapped page that no snapshot owns, two groups, and three snapshots: the last one is in
the way of that page. -/
def nullPage : MappedMemoryMap := ⟨[⟨0x1000, 0x2000, .of .kMapped⟩]⟩

def twoGroups : List SnapshotGroup :=
  [.create .kNoConflictAllowed nullPage, .create .kNoConflictAllowed nullPage]

def onePage (id : String) (start : Address) (bounded : start + 0x1000 ≤ kMaxAddress) :
    SnapshotSummary where
  id := id
  memoryMappings := [⟨start, 0x1000, .rw, MemoryMapping.page_nonempty, bounded, MemoryPerms.proper_rw,
    MemoryPerms.unmapped_rw⟩]
  sortKey := 0
  apart := List.pairwise_singleton _ _

def threeSummaries : List SnapshotSummary :=
  [onePage "a" 0x3000 (by decide), onePage "b" 0x5000 (by decide), onePage "c" 0x1000 (by decide)]

theorem nullPage_represents :
    nullPage.Represents (PermsMap.empty.add 0x1000 0x2000 (.of .kMapped)) := by
  obtain ⟨m, run, represents⟩ := MappedMemoryMap.empty_represents.add_represents
    (by decide : (0x1000 : Address) < 0x2000) (.of .kMapped)
  obtain rfl : nullPage = m := Option.some.inj (Eq.trans (by decide) run)
  exact represents

def heldSummary : SnapshotSummary := onePage "h" 0x7000 (by decide)

/-- A group that has a snapshot already. -/
def heldGroup : SnapshotGroup :=
  ((SnapshotGroup.create .kNoConflictAllowed nullPage).addSnapshot heldSummary).getD
    (.create .kNoConflictAllowed nullPage)

theorem heldGroup_built : Built [heldSummary] heldGroup :=
  .add (.create .kNoConflictAllowed nullPage_represents) (by decide) (by decide)

/-- Three more, when one of the groups has a snapshot. -/
theorem partitionSnapshots_ready_three :
    let groups := [heldGroup, .create .kNoConflictAllowed nullPage]
    ∃ start, plan groups threeSummaries = some start ∧
      Promised (fun i => if i = 0 then [heldSummary] else []) groups threeSummaries start := by
  refine partitionSnapshots_ready (fun i group at_i => ?_) (by decide) (by decide)
    ⟨by decide, by decide, by decide, by decide⟩
  match i, at_i with
  | 0, at_i =>
    obtain rfl := Option.some.inj at_i
    exact heldGroup_built
  | 1, at_i =>
    obtain rfl := Option.some.inj at_i
    exact .create _ nullPage_represents

/-- The events of a call with nothing to add, after one that has added two summaries to one
group and none to the other. -/
def shrunkCall : Option (List Event) := do
  let first ← plan twoGroups threeSummaries
  let last ← Schedules.run step first [0, 0, 0, 0, 0, 0, 1]
  if last.1.Joined then
    let start ← plan last.1.groups []
    let next ← Schedules.run step start [0]
    return next.2
  else none

/-- A first call leaves groups of two and none; the next one, with nothing to add, reads
element 0 of the empty list. -/
theorem partitionSnapshots_shrunk :
    ∃ first last trace, plan twoGroups threeSummaries = some first ∧
      Schedules.run step first [0, 0, 0, 0, 0, 0, 1] = some (last, trace) ∧ last.Joined ∧
      ∃ start last' trace', plan last.groups [] = some start ∧
        Schedules.run step start [0] = some (last', trace') ∧
        ¬ ∀ event ∈ trace', ∃ i k, event = .accessed i k ∧
          k < ([] : List SnapshotSummary).length := by
  have call : shrunkCall = some [.accessed 0 0] := by decide +kernel
  unfold shrunkCall at call
  obtain ⟨first, planned, call⟩ := Option.bind_eq_some_iff.mp call
  obtain ⟨last, ran, call⟩ := Option.bind_eq_some_iff.mp call
  split at call
  · next joined =>
    obtain ⟨start, planned', call⟩ := Option.bind_eq_some_iff.mp call
    obtain ⟨last', ran', call⟩ := Option.bind_eq_some_iff.mp call
    refine ⟨first, last.1, last.2, planned, ran, joined, start, last'.1, last'.2, planned',
      ran', ?_⟩
    rw [Option.some.inj call]
    intro inside
    obtain ⟨_, _, _, low⟩ := inside _ (.head _)
    exact absurd low (Nat.not_lt_zero _)
  · cases call

end SnapshotPartition

end Silifuzz
