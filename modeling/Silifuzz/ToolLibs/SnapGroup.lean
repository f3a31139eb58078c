import Silifuzz.Common.MemoryMapping
import Silifuzz.Library.Schedules
import Silifuzz.Util.Checks
import Silifuzz.Common.MappedMemoryMap.Queries

/-!
# Snapshot groups

`SnapshotGroup` and `SnapshotPartition` of `tool_libs/snap_group.cc`. `PartitionSnapshots`
runs one task per group on a thread pool:

* `plan`: the targets, the chunks and the tasks, in `size_t` and `ssize_t` arithmetic;
* `step`: what a task does with one summary, in three atomic actions (the check, the
  insertion, the null summary), so that a schedule of tasks is an interleaving of threads;
* `leftovers`: what is left of the list when all tasks are done.
-/

namespace Silifuzz

/-- A `Snapshot`'s mappings do not overlap, and those of its summary are the same. -/
structure SnapshotSummary where
  id : String
  memoryMappings : List MemoryMapping
  sortKey : Int
  apart : memoryMappings.Pairwise MemoryMapping.Disjoint
  deriving DecidableEq

namespace SnapshotSummary

def kNullSummary : SnapshotSummary := ⟨"", [], 0, .nil⟩

/-- `operator==` -/
def equals (lhs rhs : SnapshotSummary) : Bool := lhs.sortKey == rhs.sortKey && lhs.id == rhs.id

end SnapshotSummary

open SnapshotSummary

inductive ConflictResolution where
  | kNoConflictAllowed
  | kAllowWriteConflictsWithSamePerm
  deriving DecidableEq, Repr

structure SnapshotGroup where
  conflictResolution : ConflictResolution
  idSet : List String
  mappedMemoryMap : MappedMemoryMap
  deriving DecidableEq

namespace SnapshotGroup

def create (conflictResolution : ConflictResolution) (mappedMemoryMap : MappedMemoryMap) :
    SnapshotGroup := ⟨conflictResolution, [], mappedMemoryMap⟩

def size (group : SnapshotGroup) : Nat := group.idSet.length

def alreadyExistsError {α : Type} (message : String) : Checked α := .error (.status message)

/-- One turn of the loop of `CanAddSnapshot`. -/
def checkMapping (group : SnapshotGroup) (mapping : MemoryMapping) : Checked Unit :=
  if group.conflictResolution = .kAllowWriteConflictsWithSamePerm ∧
      mapping.perms.has .kWritable then do
    let mappedPerms := mapping.perms.plus (.of .kMapped)
    let existing ← .orAbort
      (group.mappedMemoryMap.iterate mapping.startAddress mapping.limitAddress)
    if existing.all (·.value = mappedPerms) then .ok ()
    else alreadyExistsError "writable mapping conflict"
  else do
    let overlaps ← .orAbort
      (group.mappedMemoryMap.overlaps mapping.startAddress mapping.limitAddress)
    if overlaps then alreadyExistsError "mapping conflict" else .ok ()

def canAddSnapshot (group : SnapshotGroup) (summary : SnapshotSummary) : Checked Unit :=
  if summary.id ∈ group.idSet then alreadyExistsError "Id already exists"
  else summary.memoryMappings.forM group.checkMapping

/-- `mapped_memory_map_.Add` of one mapping. -/
def addMapping (map : MappedMemoryMap) (mapping : MemoryMapping) : Option MappedMemoryMap :=
  map.add mapping.startAddress mapping.limitAddress (mapping.perms.plus (.of .kMapped))

def addSnapshot (group : SnapshotGroup) (summary : SnapshotSummary) : Option SnapshotGroup := do
  let map ← summary.memoryMappings.foldlM addMapping group.mappedMemoryMap
  return { group with mappedMemoryMap := map, idSet := group.idSet.insert summary.id }

end SnapshotGroup

namespace SnapshotPartition

/-- A value as a `size_t`, and as an `ssize_t`. -/
def sizeT (x : Int) : Nat := (x % 2 ^ 64).toNat

def ssizeT (x : Int) : Int := Int.bmod x (2 ^ 64)

/-- What a task is at in its turn for the summary `j`. -/
inductive Phase where
  | checking
  | adding
  | nulling
  deriving DecidableEq, Repr

structure Task where
  j : Nat
  limit : Nat
  phase : Phase
  deriving DecidableEq, Repr

/-- The list that the tasks share, the groups, and the task of each group. -/
structure Pool where
  summaries : List SnapshotSummary
  groups : List SnapshotGroup
  tasks : List Task
  deriving DecidableEq

inductive Event where
  | accessed (task index : Nat)
  | aborted
  deriving DecidableEq, Repr

def numSnapshots (groups : List SnapshotGroup) (summaries : List SnapshotSummary) : Nat :=
  sizeT (summaries.length + (groups.map SnapshotGroup.size).sum)

def targetGroupSize (numSnapshots numGroups : Nat) : List Nat :=
  (List.range numGroups).map fun i =>
    numSnapshots / numGroups + if i < numSnapshots % numGroups then 1 else 0

/-- The tasks from `offset` on, for groups with these targets. A chunk of 0 makes a task with
nothing to do instead of none. -/
def scheduleTasks : Nat → List (Nat × SnapshotGroup) → List Task
  | _, [] => []
  | offset, (target, group) :: rest =>
    let chunkSize := ssizeT (target - group.size)
    let limit := sizeT (offset + chunkSize)
    ⟨offset, limit, .checking⟩ :: scheduleTasks limit rest

/-- `PartitionSnapshots` up to the threads. Without groups it divides by zero. -/
def plan (groups : List SnapshotGroup) (summaries : List SnapshotSummary) : Option Pool :=
  if groups = [] then none
  else
    let targets := targetGroupSize (numSnapshots groups summaries) groups.length
    some ⟨summaries, groups, scheduleTasks 0 (targets.zip groups)⟩

/-- The next atomic action of the task `i`, which fills `group`. Past the end of the list
there is nothing to read. -/
def turn (pool : Pool) (i : Nat) (task : Task) (group : SnapshotGroup) :
    Option (Pool × List Event) :=
  match task.phase with
  | .checking =>
    if task.j < task.limit then
      match pool.summaries[task.j]? with
      | none => some (pool, [.accessed i task.j])
      | some summary =>
        match (group.canAddSnapshot summary).isOk with
        | .error _ => some (pool, [.accessed i task.j, .aborted])
        | .ok true =>
          some ({ pool with tasks := pool.tasks.set i { task with phase := .adding } },
            [.accessed i task.j])
        | .ok false =>
          some ({ pool with tasks := pool.tasks.set i { task with j := task.j + 1 } },
            [.accessed i task.j])
    else none
  | .adding => do
    let summary ← pool.summaries[task.j]?
    match group.addSnapshot summary with
    | none => some (pool, [.accessed i task.j, .aborted])
    | some group =>
      some ({ pool with groups := pool.groups.set i group
                        tasks := pool.tasks.set i { task with phase := .nulling } },
        [.accessed i task.j])
  | .nulling =>
    some ({ pool with summaries := pool.summaries.set task.j kNullSummary
                      tasks := pool.tasks.set i { task with j := task.j + 1, phase := .checking } },
      [.accessed i task.j])

def step (pool : Pool) (i : Nat) : Option (Pool × List Event) := do
  turn pool i (← pool.tasks[i]?) (← pool.groups[i]?)

/-- All threads have joined. -/
def Pool.Joined (pool : Pool) : Prop :=
  ∀ task ∈ pool.tasks, task.phase = .checking ∧ task.limit ≤ task.j

instance (pool : Pool) : Decidable pool.Joined := by
  unfold Pool.Joined
  infer_instance

/-- The list after `std::remove` and `erase`. -/
def Pool.leftovers (pool : Pool) : List SnapshotSummary :=
  pool.summaries.filter fun summary => !summary.equals kNullSummary

end SnapshotPartition

end Silifuzz

/-!
## The members of a group

A group that `AddSnapshot` has only been called on as its comment requires:

* `Built`: such a group, with the summaries that were added;
* `Holds`: what its map and its ids say about them, so that no two of them overlap except
  where both are writable with the same permissions.
-/

namespace Silifuzz

open Checked MappedMemoryMap

/-- The mappings share addresses only if both are writable with identical permissions. -/
def MemoryMapping.Compatible (m n : MemoryMapping) : Prop :=
  ∀ k, m.Covers k → n.Covers k →
    m.perms.has .kWritable = true ∧ n.perms.has .kWritable = true ∧ m.perms = n.perms

def SnapshotSummary.Compatible (x y : SnapshotSummary) : Prop :=
  ∀ m ∈ x.memoryMappings, ∀ n ∈ y.memoryMappings, m.Compatible n

namespace SnapshotGroup

/-- A group with the summaries that were added to it, the last one first. -/
inductive Built : List SnapshotSummary → SnapshotGroup → Prop where
  | create {map : MappedMemoryMap} {f : PermsMap} (resolution : ConflictResolution)
    (represents : map.Represents f) : Built [] (.create resolution map)
  | add {members : List SnapshotSummary} {group group' : SnapshotGroup}
    {summary : SnapshotSummary} (built : Built members group)
    (can : group.canAddSnapshot summary = .ok ()) (added : group.addSnapshot summary = some group') :
    Built (summary :: members) group'

/-- Where the map says something about the mapping's addresses, it says the same. -/
def Fits (f : PermsMap) (m : MemoryMapping) : Prop :=
  ∀ k, m.Covers k →
    f k = none ∨ m.perms.has .kWritable = true ∧ f k = some (m.perms.plus (.of .kMapped))

structure Holds (members : List SnapshotSummary) (group : SnapshotGroup) (f : PermsMap) :
    Prop where
  represents : group.mappedMemoryMap.Represents f
  mapped : ∀ x ∈ members, ∀ m ∈ x.memoryMappings, ∀ k, m.Covers k →
    f k = some (m.perms.plus (.of .kMapped))
  compatible : members.Pairwise SnapshotSummary.Compatible
  ids : group.idSet = members.map SnapshotSummary.id

theorem plus_kMapped_inj {m n : MemoryMapping}
    (h : m.perms.plus (.of .kMapped) = n.perms.plus (.of .kMapped)) : m.perms = n.perms := by
  have cleared := congrArg (·.clear (.of .kMapped)) h
  simpa only [MemoryPerms.plus_clear m.unmapped, MemoryPerms.plus_clear n.unmapped] using cleared

variable {group group' : SnapshotGroup} {members : List SnapshotSummary} {f : PermsMap}
  {summary : SnapshotSummary} {m : MemoryMapping}

theorem checkMapping_settles (represents : group.mappedMemoryMap.Represents f) :
    Settles (group.checkMapping m) fun _ => Fits f m := by
  unfold checkMapping
  split
  · next writable =>
    obtain ⟨seen, run, values⟩ := iterate_values represents m.start_lt_limit
    refine settles_bind (settles_orAbort run rfl) ?_
    rintro _ rfl
    split
    · next same =>
      refine settles_ok fun k covers => ?_
      have all := (values (m.perms.plus (.of .kMapped))).mp
        (fun i hi => by simpa using List.all_eq_true.mp same i hi) k covers.1 covers.2
      cases said : f k with
      | none => exact .inl rfl
      | some p => exact .inr ⟨writable.2, by rw [all p said]⟩
    · exact settles_status _ _
  · obtain ⟨b, run, some⟩ := overlaps_eq represents m.start_lt_limit
    refine settles_bind (settles_orAbort run rfl) ?_
    rintro _ rfl
    cases b with
    | true => exact settles_status _ _
    | false =>
      refine settles_ok fun k covers => .inl ?_
      by_contra mapped
      have := some.mpr ⟨k, covers.1, covers.2, Option.isSome_iff_ne_none.mpr mapped⟩
      cases this

theorem settles_forM {α : Type} {l : List α} {check : α → Checked Unit} {P : α → Prop}
    (each : ∀ a ∈ l, Settles (check a) fun _ => P a) :
    Settles (l.forM check) fun _ => ∀ a ∈ l, P a := by
  induction l with
  | nil => exact settles_ok (by simp)
  | cons a l ih =>
    change Settles (check a >>= fun _ => l.forM check) _
    refine settles_bind (each a (by simp)) fun _ first => ?_
    refine settles_post (ih fun b hb => each b (by simp [hb])) fun _ rest => ?_
    exact List.forall_mem_cons.mpr ⟨first, rest⟩

/-- `CanAddSnapshot` never aborts, and what it agrees to is new and fits. -/
theorem canAddSnapshot_settles (represents : group.mappedMemoryMap.Represents f) :
    Settles (group.canAddSnapshot summary) fun _ =>
      summary.id ∉ group.idSet ∧ ∀ m ∈ summary.memoryMappings, Fits f m := by
  unfold canAddSnapshot
  split
  · exact settles_status _ _
  · next new =>
    exact settles_post (settles_forM fun m _ => checkMapping_settles represents)
      fun _ fits => ⟨new, fits⟩

/-- The map after `Add` of a mapping that fits. -/
theorem addMapping_run {map : MappedMemoryMap} (represents : map.Represents f) (fits : Fits f m) :
    ∃ map' f', addMapping map m = some map' ∧ map'.Represents f' ∧
      (∀ k, m.Covers k → f' k = some (m.perms.plus (.of .kMapped))) ∧
      ∀ k, ¬ m.Covers k → f' k = f k := by
  obtain ⟨map', run, represents'⟩ :=
    represents.add_represents m.start_lt_limit (m.perms.plus (.of .kMapped))
  refine ⟨map', _, run, represents', fun k covers => ?_, fun k outside => PermsMap.add_outside outside⟩
  rw [PermsMap.add_inside covers]
  rcases fits k covers with new | ⟨-, same⟩
  · simp [new]
  · simp [same]

/-- The map after `Add` of mappings that fit and do not overlap. -/
theorem addMappings_run {map : MappedMemoryMap} {mappings : List MemoryMapping}
    (represents : map.Represents f) (apart : mappings.Pairwise MemoryMapping.Disjoint)
    (fits : ∀ m ∈ mappings, Fits f m) :
    ∃ map' f', mappings.foldlM addMapping map = some map' ∧ map'.Represents f' ∧
      (∀ m ∈ mappings, ∀ k, m.Covers k → f' k = some (m.perms.plus (.of .kMapped))) ∧
      ∀ k, (∀ m ∈ mappings, ¬ m.Covers k) → f' k = f k := by
  induction mappings generalizing map f with
  | nil => exact ⟨map, f, rfl, represents, by simp, fun _ _ => rfl⟩
  | cons m mappings ih =>
    obtain ⟨first, apart⟩ := List.pairwise_cons.mp apart
    obtain ⟨map₁, f₁, run₁, represents₁, inside₁, outside₁⟩ :=
      addMapping_run represents (fits m (by simp))
    have fits₁ : ∀ n ∈ mappings, Fits f₁ n := by
      intro n hn k covers
      rw [outside₁ k ((first n hn).symm.covers covers)]
      exact fits n (by simp [hn]) k covers
    obtain ⟨map', f', run', represents', inside', outside'⟩ := ih represents₁ apart fits₁
    refine ⟨map', f', by simp [run₁, run'], represents', fun n hn k covers => ?_, fun k none => ?_⟩
    · rcases List.mem_cons.mp hn with rfl | hn
      · rw [outside' k fun x hx => (first x hx).covers covers]
        exact inside₁ k covers
      · exact inside' n hn k covers
    · rw [outside' k fun x hx => none x (by simp [hx]), outside₁ k (none m (by simp))]

/-- `AddSnapshot` after `CanAddSnapshot` has agreed. -/
theorem addSnapshot_run (holds : Holds members group f)
    (can : group.canAddSnapshot summary = .ok ()) :
    ∃ group' f', group.addSnapshot summary = some group' ∧
      Holds (summary :: members) group' f' := by
  obtain ⟨new, fits⟩ := (settles_iff.mp (canAddSnapshot_settles holds.represents)).2 () can
  obtain ⟨map, f', run, represents, inside, outside⟩ :=
    addMappings_run holds.represents summary.apart fits
  refine ⟨_, f', by rw [addSnapshot, run]; rfl, represents, ?_, ?_, ?_⟩
  · intro x hx m hm k covers
    rcases List.mem_cons.mp hx with rfl | hx
    · exact inside m hm k covers
    · have said := holds.mapped x hx m hm k covers
      by_cases shared : ∃ n ∈ summary.memoryMappings, n.Covers k
      · obtain ⟨n, hn, coversN⟩ := shared
        rcases fits n hn k coversN with free | ⟨-, same⟩
        · rw [free] at said
          cases said
        · rw [inside n hn k coversN, ← same, said]
      · push Not at shared
        rw [outside k shared, said]
  · refine .cons (fun y hy m hm n hn k coversM coversN => ?_) holds.compatible
    have said := holds.mapped y hy n hn k coversN
    rcases fits m hm k coversM with free | ⟨writable, same⟩
    · rw [free] at said
      cases said
    · have identical : m.perms = n.perms :=
        plus_kMapped_inj (Option.some.inj (same.symm.trans said))
      exact ⟨writable, identical ▸ writable, identical⟩
  · rw [List.map_cons, ← holds.ids]
    exact List.insert_of_not_mem new

/-- **A group holds what was added to it, and its members are compatible.** -/
theorem Built.holds (built : Built members group) : ∃ f, Holds members group f := by
  induction built with
  | @create map f resolution represents => exact ⟨f, represents, by simp, .nil, rfl⟩
  | add _ can added ih =>
    obtain ⟨f, holds⟩ := ih
    obtain ⟨group', f', run, holds'⟩ := addSnapshot_run holds can
    obtain rfl := Option.some.inj (run.symm.trans added)
    exact ⟨f', holds'⟩

theorem Built.compatible (built : Built members group) :
    members.Pairwise SnapshotSummary.Compatible := by
  obtain ⟨f, holds⟩ := built.holds
  exact holds.compatible

/-- `CanAddSnapshot` answers. -/
theorem Built.can (built : Built members group) (summary : SnapshotSummary) :
    group.canAddSnapshot summary = .ok () ∧ summary.id ∉ group.idSet ∨
      ∃ message, group.canAddSnapshot summary = .error (.status message) := by
  obtain ⟨f, holds⟩ := built.holds
  obtain ⟨noAbort, agreed⟩ := settles_iff.mp
    (@canAddSnapshot_settles group f summary holds.represents)
  match answer : group.canAddSnapshot summary with
  | .ok () => exact .inl ⟨rfl, (agreed () answer).1⟩
  | .error (.status message) => exact .inr ⟨message, rfl⟩
  | .error .abort => exact absurd answer noAbort

/-- `AddSnapshot` after `CanAddSnapshot` runs through, and adds the id. -/
theorem Built.added (built : Built members group)
    (can : group.canAddSnapshot summary = .ok ()) :
    ∃ group', group.addSnapshot summary = some group' ∧ Built (summary :: members) group' ∧
      group'.idSet = summary.id :: group.idSet := by
  obtain ⟨f, holds⟩ := built.holds
  obtain ⟨group', f', run, holds'⟩ := addSnapshot_run holds can
  exact ⟨group', run, .add built can run, by rw [holds'.ids, holds.ids, List.map_cons]⟩

end SnapshotGroup

end Silifuzz
