import Silifuzz.Tools.SdcPipeline.Filters
import Silifuzz.Tools.SdcPipeline.Mutators
import Mathlib.Data.List.Nodup

/-!
# The pipeline's feedback

`Pipeline` of `tools/sdc_pipeline/pipeline.py`, and when the mutator scores that it hands to
`policy.observe` are those of the children that each mutator has produced. `ρ` is all that the
parts of a pipeline share and change: the random generator, their own fields. `S` is the type
of scores, `N` that of metrics, and `J` that of detection results.
-/

namespace Silifuzz.SdcPipeline

open Dicts

variable {ρ E N J S : Type}

/-- What a method does to the parts, or what it raises. -/
abbrev Part (ρ E : Type) := StateT ρ (Except E)

structure Mutator (ρ E : Type) where
  name : String
  mutate : Candidate → Part ρ E (List Candidate)

structure Evaluator (ρ E N : Type) where
  name : String
  evaluate : Candidate → Part ρ E (Dict String N)

/-- `select` and `score` of a filter. -/
structure Filt (ρ E N J S : Type) where
  select : Rows Candidate N J → Int → Part ρ E (List Candidate)
  score : Assessment N J → Except E S

structure Policy (ρ E S : Type) where
  chooseMutators : Part ρ E (List String)
  observe : Nat → Dict String S → S → Part ρ E Unit

/-- `register_golden` says whether there is one. `detection` joins the results of the modes. -/
structure Validator (ρ E J : Type) where
  registerGolden : Candidate → Part ρ E Bool
  validateDetection : Candidate → Int → String → Nat → Part ρ E J
  detection : J → J → J

structure Pipeline (ρ E N J S : Type) where
  seeds : List Candidate
  mutators : List (Mutator ρ E)
  evaluators : List (Evaluator ρ E N)
  filt : Filt ρ E N J S
  policy : Policy ρ E S
  validator : Option (Validator ρ E J)
  /-- `self.rng.choice` -/
  choice : List Candidate → Part ρ E Candidate
  /-- `self.rng.randrange` -/
  randrange : Nat → Part ρ E Nat
  /-- The exceptions of Python itself, by name. -/
  raise : String → E

/-- The arguments of `run`. -/
structure RunArgs where
  generations : Nat
  perGenMutations : Nat
  topK : Int
  validateTopK : Int
  injectRuns : Int

/-- The mutators that were chosen, each with the children that it has produced. -/
abbrev Groups (ρ E N J : Type) := List (Mutator ρ E × Rows Candidate N J)

/-- What `policy.observe` is called with, and the children that it is about. -/
structure Generation (ρ E N J S : Type) where
  number : Nat
  groups : Groups ρ E N J
  scores : Dict String S
  baseline : S

structure GenerationReport (S : Type) where
  generation : Nat
  produced : Nat
  metricsMean : Dict String S
  mutatorScores : Dict String S

structure PipelineReport (N S : Type) where
  generations : List (GenerationReport S)
  finalTop : List (String × N)

/-- The variables that the generations share. -/
structure PipelineState (N J : Type) where
  pool : List Candidate
  vault : Vault N J

/-- `sum(l) / len(l)` -/
def mean [Zero S] [Add S] [Div S] [NatCast S] (l : List S) : S :=
  l.foldl (· + ·) 0 / (l.length : S)

namespace Pipeline

variable [Zero S] [Add S] [Div S] [NatCast S] (pipeline : Pipeline ρ E N J S)

/-- `__init__` -/
def start (vault : Vault N J) : PipelineState N J :=
  ⟨pipeline.seeds, pipeline.seeds.foldl Vault.putCandidate vault⟩

def assess (cand : Candidate) : Part ρ E (Assessment N J) := do
  let metrics ← pipeline.evaluators.foldlM (fun metrics ev => do
    return (← ev.evaluate cand).foldl (fun metrics item => set metrics item.1 item.2) metrics) []
  let names := pipeline.evaluators.map (·.name)
  return ⟨cand.ident, metrics, String.intercalate "+" names, none⟩

/-- The children of a mutator: the first of what each mutation gives. -/
def produce (args : RunArgs) (pool : List Candidate) (m : Mutator ρ E) :
    Part ρ E (List Candidate) :=
  (List.range args.perGenMutations).foldlM (fun children _ => do
    let parent ← pipeline.choice pool
    let kids ← m.mutate parent
    return children ++ kids.take 1) []

/-- The children of the chosen mutators with their assessments, and the vault with all of
them. -/
def breed (args : RunArgs) (state : PipelineState N J) :
    Part ρ E (Groups ρ E N J × PipelineState N J) := do
  let chosen ← pipeline.policy.chooseMutators
  let mutators := pipeline.mutators.filter fun m => decide (m.name ∈ chosen)
  let children ← mutators.mapM fun m => do
    return (m, ← pipeline.produce args state.pool m)
  let vault := (children.flatMap (·.2)).foldl Vault.putCandidate state.vault
  let groups ← children.mapM fun group => do
    return (group.1, ← group.2.mapM fun c => do return (c, ← pipeline.assess c))
  let vault := (groups.flatMap (·.2)).foldl (fun vault row => vault.putAssessment row.2) vault
  return (groups, { state with vault := vault })

/-- The next pool, and the detection results of its first candidates. -/
def filterPool (args : RunArgs) (assessed : Rows Candidate N J) (state : PipelineState N J) :
    Part ρ E (PipelineState N J) := do
  if assessed = [] then return state
  let pool ← pipeline.filt.select assessed args.topK
  match pipeline.validator with
  | none => return { state with pool := pool }
  | some validator =>
    if args.validateTopK ≤ 0 then return { state with pool := pool }
    let vault ← (Vault.firstRows pool args.validateTopK).foldlM (fun vault c => do
      if ← validator.registerGolden c then
        let seed ← pipeline.randrange (2 ^ 30)
        let bit ← validator.validateDetection c args.injectRuns "bit" seed
        let seed ← pipeline.randrange (2 ^ 30)
        let struct ← validator.validateDetection c (max 1 (args.injectRuns / 2)) "struct" seed
        return vault.writeBack c.ident (validator.detection bit struct)
      else return vault) state.vault
    return ⟨pool, vault⟩

/-- `kids_of_m` -/
def kidsOf (assessed : Rows Candidate N J) (name : String) : Rows Candidate N J :=
  assessed.filter fun row => row.1.origin = s!"mutate:{name}"

def scoresOf (filt : Filt ρ E N J S) (rows : Rows Candidate N J) : Except E (List S) :=
  rows.mapM fun row => filt.score row.2

/-- The loop that fills `mut_scores`. -/
def mutScores (filt : Filt ρ E N J S) (assessed : Rows Candidate N J)
    (mutators : List (Mutator ρ E)) : Except E (Dict String S) :=
  mutators.foldlM (fun scores m => do
    if kidsOf assessed m.name = [] then return scores
    return set scores m.name (mean (← scoresOf filt (kidsOf assessed m.name)))) []

/-- What `policy.observe` is given. -/
def feedback (number : Nat) (groups : Groups ρ E N J) :
    Except E (Generation ρ E N J S) := do
  let assessed := groups.flatMap (·.2)
  let all ← scoresOf pipeline.filt assessed
  let baseline := if all = [] then 0 else mean all
  let scores ← mutScores pipeline.filt assessed (groups.map (·.1))
  return ⟨number, groups, scores, baseline⟩

/-- A turn of the loop of `run`, up to `policy.observe`. -/
def generation (args : RunArgs) (number : Nat) (state : PipelineState N J) :
    Part ρ E (Generation ρ E N J S × PipelineState N J) := do
  let (groups, state) ← pipeline.breed args state
  let state ← pipeline.filterPool args (groups.flatMap (·.2)) state
  let g ← (pipeline.feedback number groups : Except E (Generation ρ E N J S))
  return (g, state)

/-- The values of each metric that are numbers; `number` is `isinstance(mv, (int, float))`. -/
def metricLists (number : N → Option S) (assessed : Rows Candidate N J) : Dict String (List S) :=
  (assessed.flatMap (·.2.metrics)).foldl (fun lists item =>
    match number item.2 with
    | some v => set lists item.1 ((get? lists item.1).getD [] ++ [v])
    | none => lists) []

def report (number : N → Option S) (g : Generation ρ E N J S) : GenerationReport S where
  generation := g.number
  produced := (g.groups.flatMap (·.2)).length
  metricsMean := (metricLists number (g.groups.flatMap (·.2))).map fun item =>
    (item.1, mean item.2)
  mutatorScores := g.scores

/-- The loop of `run`: the generations that `policy.observe` has been called for, and what
the loop gives. -/
def loop (number : N → Option S) (args : RunArgs) : Nat → Nat → PipelineState N J → ρ →
    List (Generation ρ E N J S) ×
      Except E (List (GenerationReport S) × PipelineState N J × ρ)
  | 0, _, state, r => ([], .ok ([], state, r))
  | n + 1, gen, state, r =>
    match (pipeline.generation args gen state).run r with
    | .error e => ([], .error e)
    | .ok ((g, state), r) =>
      match (pipeline.policy.observe g.number g.scores g.baseline).run r with
      | .error e => ([g], .error e)
      | .ok ((), r) =>
        let (later, out) := loop number args n (gen + 1) state r
        (g :: later, out.map fun (reports, rest) => (report number g :: reports, rest))

/-- The loop over the candidates of the vault, until there are five. -/
def finalLoop (vault : Vault N J) : List (String × N) → List (String × N) →
    Except E (List (String × N))
  | [], final => .ok final
  | (ident, score) :: candidates, final =>
    match vault.get ident with
    | none => .error (pipeline.raise "ValueError")
    | some none => finalLoop vault candidates final
    | some (some cand) =>
      if NegativeControlFilter.Refuted cand then finalLoop vault candidates final
      else if 5 ≤ final.length + 1 then .ok (final ++ [(ident, score)])
      else finalLoop vault candidates (final ++ [(ident, score)])

def finalTop [LE N] [DecidableLE N] (state : PipelineState N J) :
    Part ρ E (List (String × N)) := do
  let metric ← match state.pool with
    | [] => pure "ace_proxy"
    | cand :: _ =>
      match pipeline.evaluators with
      | [] => throw (pipeline.raise "IndexError")
      | ev :: _ =>
        match ← ev.evaluate cand with
        | [] => throw (pipeline.raise "StopIteration")
        | item :: _ => pure item.1
  pipeline.finalLoop state.vault (state.vault.topBy metric 20) []

/-- The generations that `policy.observe` has been called for, and the report. -/
def run [LE N] [DecidableLE N] (number : N → Option S) (args : RunArgs) (vault : Vault N J)
    (r : ρ) : List (Generation ρ E N J S) × Except E (PipelineReport N S × ρ) :=
  let (generations, out) := pipeline.loop number args args.generations 1 (pipeline.start vault) r
  (generations, do
    let (reports, state, r) ← out
    let (final, r) ← (pipeline.finalTop state).run r
    return (⟨reports, final⟩, r))

/-! ## What the scores should be -/

/-- The scores have the mean of each mutator that has produced something, and no more. -/
structure Informed (filt : Filt ρ E N J S) (g : Generation ρ E N J S) : Prop where
  each : ∀ group ∈ g.groups, group.2 ≠ [] → ∃ scores, scoresOf filt group.2 = .ok scores ∧
    get? g.scores group.1.name = some (mean scores)
  only : ∀ name ∈ g.scores.map (·.1), ∃ group ∈ g.groups, group.2 ≠ [] ∧ group.1.name = name

/-- Each child has the name of its mutator for its origin, and no two mutators that have
produced something have one name. -/
structure Attributed (groups : Groups ρ E N J) : Prop where
  origin : ∀ group ∈ groups, ∀ row ∈ group.2, row.1.origin = s!"mutate:{group.1.name}"
  names : ((groups.filter fun group => group.2 ≠ []).map (·.1.name)).Nodup

/-! ## One generation -/

variable {pipeline} {filt : Filt ρ E N J S}

/-- The scores are those of the mutators' names that some child has. -/
theorem mutScores_spec {assessed : Rows Candidate N J} {mutators : List (Mutator ρ E)}
    {start scores : Dict String S}
    (run : mutators.foldlM (fun scores m => do
      if kidsOf assessed m.name = [] then return scores
      return set scores m.name (mean (← scoresOf filt (kidsOf assessed m.name)))) start =
        .ok scores) :
    (∀ m ∈ mutators, kidsOf assessed m.name ≠ [] →
      ∃ vs, scoresOf filt (kidsOf assessed m.name) = .ok vs ∧
        get? scores m.name = some (mean vs)) ∧
    (∀ name, (∀ m ∈ mutators, m.name ≠ name) → get? scores name = get? start name) ∧
    ∀ name ∈ scores.map (·.1), name ∈ start.map (·.1) ∨
      ∃ m ∈ mutators, m.name = name ∧ kidsOf assessed m.name ≠ [] := by
  induction mutators generalizing start with
  | nil =>
    cases run
    exact ⟨fun m mem => (nomatch mem), fun _ _ => rfl, fun _ mem => .inl mem⟩
  | cons m mutators ih =>
    rw [List.foldlM_cons] at run
    by_cases none : kidsOf assessed m.name = []
    · rw [if_pos none] at run
      obtain ⟨each, other, keys⟩ := ih run
      refine ⟨?_, ?_, ?_⟩
      · intro n mem some
        cases mem with
        | head => exact absurd none some
        | tail _ mem => exact each n mem some
      · intro name apart
        exact other name fun n mem => apart n (List.mem_cons_of_mem _ mem)
      · intro name mem
        refine (keys name mem).imp_right ?_
        rintro ⟨n, inside, found⟩
        exact ⟨n, List.mem_cons_of_mem _ inside, found⟩
    · rw [if_neg none] at run
      cases values : scoresOf filt (kidsOf assessed m.name) with
      | error e => rw [values] at run; cases run
      | ok vs =>
        rw [values] at run
        obtain ⟨each, other, keys⟩ := @ih (set start m.name (mean vs)) run
        refine ⟨?_, ?_, ?_⟩
        · intro n mem some
          by_cases later : ∃ n' ∈ mutators, n'.name = n.name
          · obtain ⟨n', inside, name⟩ := later
            rw [← name] at some ⊢
            exact each n' inside some
          · have here : n.name = m.name := by
              cases mem with
              | head => rfl
              | tail _ mem => exact absurd ⟨n, mem, rfl⟩ later
            rw [here]
            refine ⟨vs, values, ?_⟩
            rw [other m.name, get?_set, if_pos rfl]
            intro n' inside name
            exact later ⟨n', inside, name.trans here.symm⟩
        · intro name apart
          rw [other name fun n mem => apart n (List.mem_cons_of_mem _ mem), get?_set,
            if_neg (apart m List.mem_cons_self)]
        · intro name mem
          rcases keys name mem with before | ⟨n, inside, found⟩
          · rcases mem_keys_set.mp before with here | before
            · exact .inr ⟨m, List.mem_cons_self, here.symm, none⟩
            · exact .inl before
          · exact .inr ⟨n, List.mem_cons_of_mem _ inside, found⟩

omit [Zero S] [Add S] [Div S] [NatCast S] in
theorem kidsOf_flatMap {groups : Groups ρ E N J}
    (origin : ∀ group ∈ groups, ∀ row ∈ group.2, row.1.origin = s!"mutate:{group.1.name}")
    (name : String) : kidsOf (groups.flatMap (·.2)) name =
      (groups.filter fun group => group.1.name = name).flatMap (·.2) := by
  induction groups with
  | nil => rfl
  | cons group groups ih =>
    have rest := ih fun g mem => origin g (List.mem_cons_of_mem _ mem)
    have first : kidsOf group.2 name = if group.1.name = name then group.2 else [] := by
      split
      · next same =>
        apply List.filter_eq_self.mpr
        intro row mem
        rw [decide_eq_true_eq, origin group List.mem_cons_self row mem, same]
      · next other =>
        apply List.filter_eq_nil_iff.mpr
        intro row mem same
        rw [decide_eq_true_eq, origin group List.mem_cons_self row mem] at same
        exact other ((String.append_right_inj _).mp same)
    rw [List.flatMap_cons, kidsOf, List.filter_append]
    rw [kidsOf] at first rest
    rw [first, rest, List.filter_cons]
    split
    · next same => rw [if_pos (by simpa using same), List.flatMap_cons]
    · next other => rw [if_neg (by simpa using other), List.nil_append]

omit [Zero S] [Add S] [Div S] [NatCast S] in
/-- The children of a mutator that has produced something are those with its name. -/
theorem kidsOf_group {groups : Groups ρ E N J} (attributed : Attributed groups)
    {group : Mutator ρ E × Rows Candidate N J} (mem : group ∈ groups) (some : group.2 ≠ []) :
    kidsOf (groups.flatMap (·.2)) group.1.name = group.2 := by
  have names := attributed.names
  rw [kidsOf_flatMap attributed.origin]
  clear attributed
  induction groups with
  | nil => cases mem
  | cons g groups ih =>
    rw [List.filter_cons] at names ⊢
    have alone (l : Groups ρ E N J)
        (apart : ∀ g ∈ l.filter fun g => g.2 ≠ [], g.1.name ≠ group.1.name) :
        (l.filter fun g => g.1.name = group.1.name).flatMap (·.2) = [] := by
      apply List.flatMap_eq_nil_iff.mpr
      intro g' inside
      by_contra full
      obtain ⟨there, same⟩ := List.mem_filter.mp inside
      exact apart g' (List.mem_filter.mpr ⟨there, by simpa using full⟩) (by simpa using same)
    cases mem with
    | head =>
      rw [if_pos (by simpa using some), List.map_cons, List.nodup_cons] at names
      have rest := alone groups fun g' inside same =>
        names.1 (List.mem_map.mpr ⟨g', inside, same⟩)
      rw [if_pos (by simp), List.flatMap_cons, rest, List.append_nil]
    | tail _ mem =>
      by_cases empty : g.2 = []
      · rw [if_neg (by simpa using empty)] at names
        have later := ih mem names
        split
        · rw [List.flatMap_cons, empty, List.nil_append, later]
        · exact later
      · rw [if_pos (by simpa using empty), List.map_cons, List.nodup_cons] at names
        have other : g.1.name ≠ group.1.name := by
          intro same
          apply names.1
          rw [same]
          exact List.mem_map.mpr ⟨group, List.mem_filter.mpr ⟨mem, by simpa using some⟩, rfl⟩
        rw [if_neg (by simpa using other)]
        exact ih mem names.2

/-- Where the children have their mutators' names, the scores are what they should be. -/
theorem informed_of_attributed {number : Nat} {groups : Groups ρ E N J}
    {g : Generation ρ E N J S} (made : pipeline.feedback number groups = .ok g)
    (attributed : Attributed g.groups) : Informed pipeline.filt g := by
  unfold feedback at made
  cases all : scoresOf pipeline.filt (groups.flatMap (·.2)) with
  | error e => simp only [all, bind, Except.bind] at made; cases made
  | ok vs =>
    cases scores : mutScores pipeline.filt (groups.flatMap (·.2)) (groups.map (·.1)) with
    | error e => simp only [all, scores, bind, Except.bind] at made; cases made
    | ok d =>
      simp only [all, scores, bind, Except.bind] at made
      cases made
      obtain ⟨each, _, keys⟩ := mutScores_spec scores
      constructor
      · intro group mem some
        have kids := kidsOf_group attributed mem some
        have found := each group.1 (List.mem_map_of_mem mem) (by rw [kids]; exact some)
        rw [kids] at found
        exact found
      · intro name mem
        rcases keys name mem with none | ⟨m, _, same, full⟩
        · cases none
        · rw [kidsOf_flatMap attributed.origin] at full
          obtain ⟨row, inside⟩ := List.exists_mem_of_ne_nil _ full
          obtain ⟨group, there, inGroup⟩ := List.mem_flatMap.mp inside
          obtain ⟨here, name'⟩ := List.mem_filter.mp there
          exact ⟨group, here, List.ne_nil_of_mem inGroup,
            (by simpa using name' : group.1.name = m.name).trans same⟩

/-! ## All generations -/

theorem generation_feedback {args : RunArgs} {number : Nat} {state state' : PipelineState N J}
    {r r' : ρ} {g : Generation ρ E N J S}
    (run : (pipeline.generation args number state).run r = .ok ((g, state'), r')) :
    ∃ groups, pipeline.feedback number groups = .ok g := by
  unfold generation at run
  cases bred : (pipeline.breed args state).run r with
  | error e => rw [StateT.run_bind, bred] at run; cases run
  | ok born =>
    obtain ⟨⟨groups, next⟩, r₁⟩ := born
    rw [StateT.run_bind, bred] at run
    change (pipeline.filterPool args (groups.flatMap (·.2)) next >>= fun state => do
      let g ← (pipeline.feedback number groups : Except E (Generation ρ E N J S))
      return (g, state)).run r₁ = _ at run
    cases filtered : (pipeline.filterPool args (groups.flatMap (·.2)) next).run r₁ with
    | error e => rw [StateT.run_bind, filtered] at run; cases run
    | ok kept =>
      rw [StateT.run_bind, filtered] at run
      cases made : pipeline.feedback number groups with
      | error e => rw [made] at run; cases run
      | ok g' =>
        rw [made] at run
        cases run
        exact ⟨groups, made⟩

theorem loop_informed {number : N → Option S} {args : RunArgs} (n gen : Nat)
    (state : PipelineState N J) (r : ρ) :
    ∀ g ∈ (pipeline.loop number args n gen state r).1, Attributed g.groups →
      Informed pipeline.filt g := by
  induction n generalizing gen state r with
  | zero => exact fun g mem => nomatch mem
  | succ n ih =>
    intro g mem attributed
    unfold loop at mem
    split at mem
    · cases mem
    · next made =>
      obtain ⟨groups, fed⟩ := generation_feedback made
      split at mem
      · rw [List.mem_singleton.mp mem] at attributed ⊢
        exact informed_of_attributed fed attributed
      · cases mem with
        | head => exact informed_of_attributed fed attributed
        | tail _ mem => exact ih _ _ _ g mem attributed

/-- **Each generation of a run in which the children have their mutators' names, and these
differ, gives the policy the scores that it should have.** -/
theorem run_informed [LE N] [DecidableLE N] (pipeline : Pipeline ρ E N J S)
    (number : N → Option S) (args : RunArgs) (vault : Vault N J) (r : ρ) :
    ∀ g ∈ (pipeline.run number args vault r).1, Attributed g.groups →
      Informed pipeline.filt g :=
  loop_informed args.generations 1 (pipeline.start vault) r

/-! ## The repository's mutators -/

def ofOperand {W : Type} [Zero W] [Add W] [Mul W] [LT W] [DecidableLT W] (name : String)
    (m : OperandMutator W) (tools : Toolchain E) (rng : Rng W ρ) :
    Mutator ρ (MutateError E) where
  name := name
  mutate := m.mutate tools rng

def ofDict {W : Type} (nChildren : Nat) (readsetAware : Bool) (tools : Toolchain E)
    (rng : Rng W ρ) : Mutator ρ (MutateError E) where
  name := "operand_dict"
  mutate := OperandDictMutator.mutate nChildren readsetAware tools rng

/-- A random generator that counts. -/
def turningRng : Rng Nat Nat where
  randrange n r := (r % n, r + 1)
  random r := (0, r)
  coin r := (false, r)
  randrange_lt _ r pos := Nat.mod_lt r pos

/-- The sum of the operands. -/
def operandSum : Evaluator Nat (MutateError Unit) Nat where
  name := "operands"
  evaluate cand := pure [("operands", (cand.regsInit.map (·.2.toNat)).sum)]

def smallSeed : Candidate := { oneRegister.toCandidate with sourceAsm := "_start:\n" }

/-- One generation with two mutations of each mutator. The score is the sum of the operands. -/
def small (mutators : List (Mutator Nat (MutateError Unit))) :
    Pipeline Nat (MutateError Unit) Nat Unit Nat where
  seeds := [smallSeed]
  mutators := mutators
  evaluators := [operandSum]
  filt :=
    ⟨fun rows k => pure (Vault.firstRows (rows.map (·.1)) k),
      fun assessment => match get? assessment.metrics "operands" with
        | some n => .ok n
        | none => .error (.key "operands")⟩
  policy := ⟨pure (mutators.map (·.name)), fun _ _ _ => pure ()⟩
  validator := none
  choice pool := match pool with | [] => throw .index | c :: _ => pure c
  randrange _ := pure 0
  raise := .key

def smallArgs : RunArgs := ⟨1, 2, 1, 0, 0⟩

def smallRun (mutators : List (Mutator Nat (MutateError Unit))) :
    List (Generation Nat (MutateError Unit) Nat Unit Nat) :=
  ((small mutators).run some smallArgs (Vault.load ⟨[], []⟩) 0).1

def smallDict : Mutator Nat (MutateError Unit) := ofDict 1 false quietTools turningRng

/-- Puts an instruction behind the label. -/
def smallSeq : Mutator Nat (MutateError Unit) where
  name := "insn_seq"
  mutate cand r := do
    let (insn, r) ← turningRng.choice ["    mul     x9, x9, x9\n", "    add     x9, x9, x9\n"] r
    let kid ← makeChild quietTools "insn_seq" cand (cand.sourceAsm ++ insn) cand.regsInit ""
    return ([kid], r)

def smallOperand : Mutator Nat (MutateError Unit) :=
  ofOperand "operand" { fourBits with readsetAware := false } quietTools turningRng

def smallKid (origin sourceAsm : String) (v : Int) :
    Candidate × Assessment Nat Unit :=
  (⟨"0123456789ab", sourceAsm, [], [(0, v)], ["0123456789ab"], origin, []⟩,
    ⟨"0123456789ab", [("operands", v.toNat)], "operands", none⟩)

def smallGroups : Groups Nat (MutateError Unit) Nat Unit :=
  [(smallDict, [smallKid "mutate:operand_dict" "_start:\n" 0x5555555555555555,
      smallKid "mutate:operand_dict" "_start:\n" 0x00000000FFFFFFFF]),
    (smallSeq, [smallKid "mutate:insn_seq" "_start:\n    mul     x9, x9, x9\n" 5,
      smallKid "mutate:insn_seq" "_start:\n    add     x9, x9, x9\n" 5])]

def smallGeneration : Generation Nat (MutateError Unit) Nat Unit Nat where
  number := 1
  groups := smallGroups
  scores := [("operand_dict", 0x2AAAAAAB2AAAAAAA), ("insn_seq", 5)]
  baseline := 0x1555555595555557

def operandGeneration : Generation Nat (MutateError Unit) Nat Unit Nat where
  number := 1
  groups := [(smallOperand, [smallKid "mutate:operand:bitflip" "_start:\n" 9,
    smallKid "mutate:operand:bitflip" "_start:\n" 197])]
  scores := []
  baseline := 103

theorem smallRun_two : smallRun [smallDict, smallSeq] = [smallGeneration] := rfl

theorem smallRun_operand : smallRun [smallOperand] = [operandGeneration] := rfl

theorem run_informed_two : Informed (small [smallDict, smallSeq]).filt smallGeneration := by
  have mem : smallGeneration ∈ smallRun [smallDict, smallSeq] := by
    rw [smallRun_two]
    exact List.mem_singleton_self _
  apply run_informed (small [smallDict, smallSeq]) some smallArgs (Vault.load ⟨[], []⟩) 0
    smallGeneration mem
  constructor
  · have origins : ∀ group ∈ smallGroups, ∀ row ∈ group.2,
        row.1.origin = s!"mutate:{group.1.name}" := by decide
    exact origins
  · decide

/-- The children's origin is `mutate:operand:bitflip`, and their scores go nowhere. -/
theorem run_informed_not :
    ∃ g ∈ smallRun [smallOperand], ¬ Informed (small [smallOperand]).filt g := by
  refine ⟨operandGeneration, ?_, ?_⟩
  · rw [smallRun_operand]
    exact List.mem_singleton_self _
  · intro informed
    obtain ⟨_, _, none⟩ := informed.each _ List.mem_cons_self (List.cons_ne_nil _ _)
    cases none

end Pipeline

end Silifuzz.SdcPipeline
