import Silifuzz.Common.MemoryState.Holds

/-!
# Lists of mapping commands

Commands on disjoint ranges may run in any order: each address is changed by at
most one of them.

* `effect`: what a list of commands makes of an address, if anything;
* `Effects`: the commands are disjoint and their effect is `e`;
* `Effects.run`: executing them from any state changes what is mapped by `e`;
* `ranges_effects`: the commands made for the entries of a map.
-/

namespace Silifuzz

open Segments RangeMap Loops

/-- What the command makes of the addresses of its range. -/
def MemoryMappingCmd.result (cmd : MemoryMappingCmd) : Option MemoryPerms :=
  match cmd.action with
  | .kMap | .kProtect => some (cmd.mapping.perms.plus (.of .kMapped))
  | .kUnmap => none

/-- What the commands make of `k`, with `none` where they leave it alone. -/
def effect (cmds : List MemoryMappingCmd) (k : Address) : Option (Option MemoryPerms) :=
  (cmds.find? (·.mapping.Covers k)).map (·.result)

/-- The commands are disjoint, and what they make of each address is `e`. -/
structure Effects (cmds : List MemoryMappingCmd) (e : Address → Option (Option MemoryPerms)) :
    Prop where
  disjoint : cmds.Pairwise fun a b => a.mapping.Disjoint b.mapping
  reads : ∀ k, effect cmds k = e k

section
variable {a b : List MemoryMappingCmd} {c : MemoryMappingCmd} {k : Address}

theorem effect_append : effect (a ++ b) k = (effect a k).or (effect b k) := by
  simp only [effect, List.find?_append]
  cases a.find? (·.mapping.Covers k) <;> rfl

theorem effect_singleton : effect [c] k = if c.mapping.Covers k then some c.result else none := by
  by_cases h : c.mapping.Covers k <;> simp [effect, h]

theorem effect_none : effect a k = none ↔ ∀ c ∈ a, ¬ c.mapping.Covers k := by
  simp [effect]

end

namespace Effects

variable {a b : List MemoryMappingCmd} {c : MemoryMappingCmd}
  {e e' : Address → Option (Option MemoryPerms)}

theorem nil : Effects [] fun _ => none := ⟨.nil, fun _ => rfl⟩

theorem single : Effects [c] fun k => if c.mapping.Covers k then some c.result else none :=
  ⟨List.pairwise_singleton _ _, fun _ => effect_singleton⟩

theorem congr (h : Effects a e) (eq : ∀ k, e k = e' k) : Effects a e' :=
  ⟨h.disjoint, fun k => (h.reads k).trans (eq k)⟩

/-- Commands for different addresses, one list after the other. -/
theorem append (ha : Effects a e) (hb : Effects b e') (apart : ∀ k, e k = none ∨ e' k = none) :
    Effects (a ++ b) fun k => (e k).or (e' k) := by
  refine ⟨List.pairwise_append.mpr ⟨ha.disjoint, hb.disjoint, fun x hx y hy => ?_⟩,
    fun k => by rw [effect_append, ha.reads, hb.reads]⟩
  refine MemoryMapping.disjoint_of fun k hk hk' => ?_
  rcases apart k with none | none
  · exact effect_none.mp ((ha.reads k).trans none) x hx hk
  · exact effect_none.mp ((hb.reads k).trans none) y hy hk'

end Effects

variable {s : MemoryState} {f : PermsMap}

/-- One command sets or unmaps its range. -/
theorem MemoryState.execute_holds (hs : s.Holds f) (c : MemoryMappingCmd) :
    ∃ s', s.execute c = some s' ∧ s'.Holds fun k => (effect [c] k).getD (f k) := by
  have mapped : c.result = some (c.mapping.perms.plus (.of .kMapped)) →
      (fun k => (effect [c] k).getD (f k)) = f.set c.mapping.startAddress
        c.mapping.limitAddress (c.mapping.perms.plus (.of .kMapped)) := fun h => by
    funext k
    rw [effect_singleton, h, PermsMap.set]
    split <;> simp_all [MemoryMapping.Covers]
  have unmapped : c.result = none → (fun k => (effect [c] k).getD (f k)) =
      f.remove c.mapping.startAddress c.mapping.limitAddress .allPlusMapped := fun h => by
    funext k
    rw [effect_singleton, h, hs.ofProcess.proper.remove_all]
    split <;> simp_all [MemoryMapping.Covers]
  cases h : c.action with
  | kUnmap =>
    rw [unmapped (by simp [MemoryMappingCmd.result, h])]
    obtain ⟨s', run, hs'⟩ := removeMemoryMapping_holds hs c.mapping.start_lt_limit
    exact ⟨s', by simp [execute, h, run], hs'⟩
  | _ =>
    rw [mapped (by simp [MemoryMappingCmd.result, h])]
    obtain ⟨s', run, hs'⟩ := setMemoryMapping_holds hs c.mapping
    exact ⟨s', by simp [execute, h, run], hs'⟩

/-- Disjoint commands change each address once, whatever the state. -/
theorem Effects.run {cmds : List MemoryMappingCmd} {e : Address → Option (Option MemoryPerms)}
    (hs : s.Holds f) (hc : Effects cmds e) :
    ∃ s', cmds.foldlM MemoryState.execute s = some s' ∧ s'.Holds fun k => (e k).getD (f k) := by
  simp only [← hc.reads]
  refine foldlM_run (P := fun done s => MemoryState.Holds s fun k => (effect done k).getD (f k))
    hs fun done c rest s hl hs => ?_
  obtain ⟨s', run, hs'⟩ := MemoryState.execute_holds hs c
  refine ⟨s', run, ?_⟩
  have once : ∀ k, (effect [c] k).getD ((effect done k).getD (f k)) =
      (effect (done ++ [c]) k).getD (f k) := fun k => by
    rw [effect_append]
    by_cases hk : c.mapping.Covers k
    · -- no earlier command covers what `c` covers
      have free : effect done k = none := effect_none.mpr fun d hd => by
        have apart := hc.disjoint
        rw [hl, List.pairwise_append] at apart
        exact (apart.2.2 d hd c (by simp)).symm.covers hk
      simp [free]
    · simp [effect_singleton, hk]
  simpa only [once] using hs'

/-- The commands for an entry: none, or one for its whole range. -/
inductive Emits (i : Segment Address MemoryPerms) :
    List MemoryMappingCmd → Option (Option MemoryPerms) → Prop where
  | nothing : Emits i [] none
  | command {c : MemoryMappingCmd} : c.mapping.startAddress = i.start →
      c.mapping.limitAddress = i.limit → Emits i [c] (some c.result)

theorem Emits.effects {i : Segment Address MemoryPerms} {cmds : List MemoryMappingCmd}
    {o : Option (Option MemoryPerms)} (h : Emits i cmds o) :
    Effects cmds fun k => if i.covers k then o else none := by
  cases h with
  | nothing => exact Effects.nil.congr fun k => by simp
  | command start limit =>
    refine Effects.single.congr fun k => ?_
    simp [MemoryMapping.Covers, start, limit]

/-- The commands for the entries of a map, with `h` for what an entry becomes. -/
theorem ranges_effects (emit : Segment Address MemoryPerms → Option (List MemoryMappingCmd))
    (h : Segment Address MemoryPerms → Option (Option MemoryPerms))
    {rep : RangeMap Address MemoryPerms} (sep : Separated rep)
    (each : ∀ i ∈ rep, ∃ cmds, emit i = some cmds ∧ Emits i cmds (h i)) :
    ∃ lists, rep.mapM emit = some lists ∧
      Effects lists.flatten fun k => (rep.find? (·.covers k)).bind h := by
  induction rep with
  | nil => exact ⟨[], rfl, Effects.nil⟩
  | cons i rest ih =>
    obtain ⟨_, after, sep⟩ := separated_cons.mp sep
    obtain ⟨cmds, run, emits⟩ := each i (by simp)
    obtain ⟨lists, runs, effects⟩ := ih sep fun j hj => each j (by simp [hj])
    have apart : ∀ k, i.covers k = true → rest.find? (·.covers k) = none := fun k hk => by
      rw [List.find?_eq_none]
      intro j hj
      have := after j hj
      simp only [covers_iff] at hk ⊢
      grind
    refine ⟨cmds :: lists, by simp [run, runs], ?_⟩
    rw [List.flatten_cons]
    refine (emits.effects.append effects fun k => ?_).congr fun k => ?_
    · by_cases hk : i.covers k
      · exact .inr (by simp [apart k hk])
      · exact .inl (by simp [hk])
    · rw [List.find?_cons]
      by_cases hk : i.covers k
      · simp [hk, apart k hk]
      · simp [hk]

/-- The same with one command for each entry. -/
theorem each_effects (emit : Segment Address MemoryPerms → Option MemoryMappingCmd)
    (h : Segment Address MemoryPerms → Option MemoryPerms)
    {rep : RangeMap Address MemoryPerms} (sep : Separated rep)
    (each : ∀ i ∈ rep, ∃ c, emit i = some c ∧ c.mapping.startAddress = i.start ∧
      c.mapping.limitAddress = i.limit ∧ c.result = h i) :
    ∃ cmds, rep.mapM emit = some cmds ∧
      Effects cmds fun k => (rep.find? (·.covers k)).map h := by
  obtain ⟨lists, runs, effects⟩ := ranges_effects (fun i => (emit i).map ([·]))
    (fun i => some (h i)) sep fun i hi => by
      obtain ⟨c, run, start, limit, result⟩ := each i hi
      exact ⟨[c], by simp [run], result ▸ .command start limit⟩
  rw [mapM_singleton, Option.map_eq_some_iff] at runs
  obtain ⟨cmds, run, rfl⟩ := runs
  refine ⟨cmds, run, ?_⟩
  rw [← List.flatMap_def, List.flatMap_singleton'] at effects
  exact effects.congr fun k => by simp [Option.map_eq_bind]

end Silifuzz
