import Silifuzz.Tools.Minimizer.Engine

/-!
# Attempts

Each part of a run only adds to the log: the tools run commands, an attempt ends with
what came of it, and the active snapshot changes only in an attempt that is accepted.
-/

open Effects

namespace Silifuzz.Minimizer

/-- The commands among the events made the snapshot from a candidate, and were then seen to
run as expected on the good CPU and not so on the bad one. -/
def Reproduced (engine : DifferentialEngine) (events : List Event) (snapshot : Proto.Snapshot) :
    Prop :=
  ∃ modifiedPb platformId made generated good bad goodResult badResult remadePb,
    [Event.ran (.snapTool engine.goodCpu (.make modifiedPb)) (.ok made),
      .ran (.snapTool engine.goodCpu (.generateCorpus platformId made.output)) (.ok generated),
      .ran (.runner engine.goodCpu engine.maxGoodIterations generated.output) (.ok good),
      .ran (.runner engine.badCpu engine.maxBadIterations generated.output) (.ok bad)].Sublist
      events ∧
    made.returncode = 0 ∧ generated.returncode = 0 ∧
    engine.runResult engine.goodCpu good = .ok goodResult ∧ goodResult.asExpected = true ∧
    engine.runResult engine.badCpu bad = .ok badResult ∧ badResult.asExpected = false ∧
    made.output = some remadePb ∧ engine.env.fromString remadePb = some snapshot

theorem Reproduced.mono {engine : DifferentialEngine} {events more : List Event}
    {snapshot : Proto.Snapshot} (h : Reproduced engine events snapshot)
    (sub : events.Sublist more) : Reproduced engine more snapshot := by
  obtain ⟨modifiedPb, platformId, made, generated, good, bad, goodResult, badResult, remadePb,
    commands, rest⟩ := h
  exact ⟨modifiedPb, platformId, made, generated, good, bad, goodResult, badResult, remadePb,
    commands.trans sub, rest⟩

/-- A modification was accepted. -/
def Accepted (events : List Event) : Prop := ∃ before after, Event.tried true before after ∈ events

@[simp] theorem accepted_nil : ¬ Accepted [] := by
  simp [Accepted]

@[simp] theorem accepted_append (new later : List Event) :
    Accepted (new ++ later) ↔ Accepted new ∨ Accepted later := by
  simp only [Accepted, List.mem_append]
  constructor
  · rintro ⟨before, after, h | h⟩
    · exact .inl ⟨before, after, h⟩
    · exact .inr ⟨before, after, h⟩
  · rintro (⟨before, after, h⟩ | ⟨before, after, h⟩)
    · exact ⟨before, after, .inl h⟩
    · exact ⟨before, after, .inr h⟩

/-- The events are commands only. -/
def CommandsOnly (events : List Event) : Prop :=
  ∀ e ∈ events, ∃ command outcome, e = Event.ran command outcome

theorem CommandsOnly.append {new later : List Event} (h : CommandsOnly new)
    (h' : CommandsOnly later) : CommandsOnly (new ++ later) := by
  intro e mem
  rcases List.mem_append.mp mem with mem | mem
  · exact h e mem
  · exact h' e mem

theorem CommandsOnly.not_tried {events : List Event} (h : CommandsOnly events) (accepted : Bool)
    (before after : Proto.Snapshot) : Event.tried accepted before after ∉ events := by
  intro mem
  obtain ⟨command, outcome, eq⟩ := h _ mem
  cases eq

/-! ## The tools -/

/-- The tools have run the commands `new`. -/
structure Ran (t : Tools) (new : List Event) (t' : Tools) : Prop where
  log : t'.log = t.log ++ new
  commands : CommandsOnly new

theorem ran_history : Effects.History Ran where
  refl _ := ⟨by simp, by simp [CommandsOnly]⟩
  trans _ _ _ _ _ h h' :=
    ⟨by rw [h'.log, h.log, List.append_assoc], h.commands.append h'.commands⟩

theorem grows_exceptRuntimeError {σ κ α : Type} {E : σ → List κ → σ → Prop}
    (history : Effects.History E) {x : ExceptT PyException (StateM σ) α}
    {P : α → List κ → Prop} (h : Grows E x P) :
    Grows E (exceptRuntimeError x) fun o new => ∀ a, o = some a → P a new := by
  apply grows_tryCatch history
  · exact grows_map history h fun a new ha b hb => Option.some.inj hb ▸ ha
  · intro e new
    split
    · exact grows_pure history fun a ha => nomatch ha
    · exact grows_throw history

section
variable {engine : DifferentialEngine}

theorem subprocessRun_run (command : Command) (t : Tools) :
    runFrom (engine.subprocessRun command) t = (engine.env.subprocess t.log command,
      { t with log := t.log ++ [.ran command (engine.env.subprocess t.log command)] }) := by
  unfold DifferentialEngine.subprocessRun
  rw [runFrom_bind]
  change runFrom (raiseError (engine.env.subprocess t.log command)) _ = _
  cases engine.env.subprocess t.log command <;> rfl

theorem subprocessRun_ran (command : Command) :
    Grows Ran (engine.subprocessRun command) fun result new =>
      new = [.ran command (.ok result)] := by
  intro t
  rw [subprocessRun_run]
  refine ⟨[.ran command (engine.env.subprocess t.log command)], ⟨rfl, ?_⟩, ?_⟩
  · intro e mem
    exact ⟨_, _, List.mem_singleton.mp mem⟩
  · intro result value
    have value : engine.env.subprocess t.log command = .ok result := value
    rw [value]

theorem runSnapTool_ran (cpuId : Int) (command : SnapTool) :
    Grows Ran (engine.runSnapTool cpuId command) fun result new =>
      new = [.ran (.snapTool cpuId command) (.ok result)] ∧ result.returncode = 0 := by
  apply grows_bind ran_history (subprocessRun_ran _)
  rintro result new rfl
  split
  · exact grows_throw ran_history
  · next code => exact grows_pure ran_history ⟨by simp, not_not.mp code⟩

theorem executeRunner_ran (cpuId : Int) (corpus : Option ByteData) (maxIterations : Int) :
    Grows Ran (engine.executeRunner cpuId corpus maxIterations) fun runResult new =>
      ∃ result, new = [.ran (.runner cpuId maxIterations corpus) (.ok result)] ∧
        engine.runResult cpuId result = .ok runResult := by
  apply grows_bind ran_history (subprocessRun_ran _)
  rintro result new rfl
  cases run : engine.runResult cpuId result with
  | error e => exact grows_throw ran_history
  | ok runResult => exact grows_pure ran_history ⟨result, by simp, run⟩

theorem getPlatformId_ran : Grows Ran engine.getPlatformId fun _ _ => True := by
  apply grows_bind ran_history (P := fun _ _ => True) (grows_get ran_history fun _ => trivial)
  intro tools new _
  split
  · exact grows_pure ran_history trivial
  · have tool : Grows Ran engine.runPlatformIdTool fun _ _ => True := by
      apply grows_bind ran_history (subprocessRun_ran _)
      intro result new _
      split
      · exact grows_throw ran_history
      · exact grows_pure ran_history trivial
    apply grows_bind ran_history tool
    intro platformId new _
    have cached : Grows Ran
        (modify fun tools => { tools with platformId := some platformId } : ToolM PUnit)
        fun _ _ => True := by
      intro t
      rw [runFrom_modify]
      exact ⟨[], ⟨by simp, by simp [CommandsOnly]⟩, fun _ _ => trivial⟩
    apply grows_bind ran_history cached
    intro _ new _
    exact grows_pure ran_history trivial

/-- A snapshot was remade, and a corpus generated from it. -/
def Generated (engine : DifferentialEngine) (files : Option ByteData × Option ByteData)
    (events : List Event) : Prop :=
  ∃ modifiedPb platformId made generated, files = (made.output, generated.output) ∧
    made.returncode = 0 ∧ generated.returncode = 0 ∧
    [Event.ran (.snapTool engine.goodCpu (.make modifiedPb)) (.ok made),
      .ran (.snapTool engine.goodCpu (.generateCorpus platformId made.output))
        (.ok generated)].Sublist events

theorem generateCorpus_ran (candidate : Proto.Snapshot) :
    Grows Ran (engine.generateCorpus candidate) (Generated engine) := by
  apply grows_bind ran_history (runSnapTool_ran _ _)
  rintro made _ ⟨rfl, madeCode⟩
  apply grows_bind ran_history getPlatformId_ran
  intro platformId queried _
  apply grows_bind ran_history (runSnapTool_ran _ _)
  rintro generated _ ⟨rfl, generatedCode⟩
  apply grows_pure ran_history
  refine ⟨engine.env.serializeToString candidate, platformId, made, generated, rfl, madeCode,
    generatedCode, ?_⟩
  simp only [List.append_nil, List.singleton_append]
  exact (List.sublist_append_right queried _).cons_cons _

/-- The corpus was run on the good CPU and then on the bad one. -/
def Played (engine : DifferentialEngine) (corpus : Option ByteData)
    (results : RunResult × RunResult) (events : List Event) : Prop :=
  ∃ good bad,
    events = [Event.ran (.runner engine.goodCpu engine.maxGoodIterations corpus) (.ok good),
      .ran (.runner engine.badCpu engine.maxBadIterations corpus) (.ok bad)] ∧
    engine.runResult engine.goodCpu good = .ok results.1 ∧
    engine.runResult engine.badCpu bad = .ok results.2

theorem runCorpus_ran (corpus : Option ByteData) :
    Grows Ran (engine.runCorpus corpus) (Played engine corpus) := by
  apply grows_bind ran_history (executeRunner_ran _ _ _)
  rintro goodResult _ ⟨good, rfl, goodRun⟩
  apply grows_bind ran_history (executeRunner_ran _ _ _)
  rintro badResult _ ⟨bad, rfl, badRun⟩
  exact grows_pure ran_history ⟨good, bad, rfl, goodRun, badRun⟩

/-- What the tools do to a candidate: a remake that they return is reproduced. -/
theorem reproduce_ran (candidate : Proto.Snapshot) :
    Grows Ran (engine.reproduce candidate) fun remade new =>
      ∀ snapshot, remade = some snapshot → Reproduced engine new snapshot := by
  have rejected : ∀ {before : List Event}, Grows Ran (pure none : ToolM (Option Proto.Snapshot))
      fun remade new => ∀ snapshot, remade = some snapshot →
        Reproduced engine (before ++ new) snapshot :=
    grows_pure ran_history fun _ none => nomatch none
  apply grows_bind ran_history
    (grows_exceptRuntimeError ran_history (generateCorpus_ran candidate))
  intro generated new made_new
  cases generated with
  | none => exact rejected
  | some files =>
    obtain ⟨modifiedPb, platformId, made, generated, rfl, madeCode, generatedCode, commands⟩ :=
      made_new _ rfl
    apply grows_bind ran_history
      (grows_exceptRuntimeError ran_history (runCorpus_ran generated.output))
    intro results played played_new
    simp only [← List.append_assoc]
    cases results with
    | none => exact rejected
    | some results =>
      obtain ⟨good, bad, rfl, goodRun, badRun⟩ := played_new _ rfl
      dsimp only
      split
      · exact rejected
      split
      · exact rejected
      next expected unexpected =>
      split
      · exact grows_throw ran_history
      next pb output =>
      split
      · exact grows_throw ran_history
      next snapshot parsed =>
      apply grows_pure ran_history
      rintro _ ⟨⟩
      refine ⟨modifiedPb, platformId, made, generated, good, bad, _, _, pb, ?_, madeCode,
        generatedCode, goodRun, by simpa using expected, badRun, by simpa using unexpected, output,
        parsed⟩
      simp only [List.append_nil]
      exact commands.append (List.Sublist.refl _)

end

/-! ## The engine -/

/-- The engine has run the commands `new`, and has the same active snapshot. -/
structure Quiet (s : Session) (new : List Event) (s' : Session) : Prop where
  tools : Ran s.tools new s'.tools
  active : s'.activeSnapshot = s.activeSnapshot

theorem quiet_history : Effects.History Quiet where
  refl s := ⟨ran_history.refl s.tools, rfl⟩
  trans _ _ _ _ _ h h' :=
    ⟨ran_history.trans _ _ _ _ _ h.tools h'.tools, h'.active.trans h.active⟩

theorem runFrom_ofTools {α : Type} (x : ToolM α) (s : Session) :
    runFrom (EngineM.ofTools x) s =
      ((runFrom x s.tools).1, { s with tools := (runFrom x s.tools).2 }) := rfl

theorem runFrom_logged (attempt : EngineM Bool) (s : Session) :
    runFrom (logged attempt) s = ((runFrom attempt s).1,
      { (runFrom attempt s).2 with tools.log := (runFrom attempt s).2.tools.log ++
        [.tried (reported (runFrom attempt s).1) s.activeSnapshot
          (runFrom attempt s).2.activeSnapshot] }) := rfl

theorem ofTools_quiet {α : Type} {x : ToolM α} {P : α → List Event → Prop} (h : Grows Ran x P) :
    Grows Quiet (EngineM.ofTools x) P := by
  intro s
  obtain ⟨new, ran, value⟩ := h s.tools
  exact ⟨new, ⟨ran, rfl⟩, value⟩

/-- The events `new` of a part of a run. -/
structure Extends (engine : DifferentialEngine) (s : Session) (new : List Event) (s' : Session) :
    Prop where
  log : s'.tools.log = s.tools.log ++ new
  active : s'.activeSnapshot = s.activeSnapshot ∨ Reproduced engine new s'.activeSnapshot
  unaccepted : ¬ Accepted new → s'.activeSnapshot = s.activeSnapshot
  rejected : ∀ before after, .tried false before after ∈ new → after = before

theorem extends_history (engine : DifferentialEngine) : Effects.History (Extends engine) where
  refl s := ⟨by simp, .inl rfl, fun _ => rfl, by simp⟩
  trans s t u new later h h' := by
    constructor
    · rw [h'.log, h.log, List.append_assoc]
    · rcases h'.active with same | reproduced
      · rw [same]
        apply h.active.imp_right
        intro reproduced
        exact reproduced.mono (List.sublist_append_left new later)
      · exact .inr (reproduced.mono (List.sublist_append_right new later))
    · intro none
      rw [accepted_append, not_or] at none
      rw [h'.unaccepted none.2, h.unaccepted none.1]
    · intro before after mem
      rcases List.mem_append.mp mem with mem | mem
      · exact h.rejected before after mem
      · exact h'.rejected before after mem

theorem Quiet.extends {engine : DifferentialEngine} {s s' : Session} {new : List Event}
    (h : Quiet s new s') : Extends engine s new s' ∧ ¬ Accepted new := by
  constructor
  · exact ⟨h.tools.log, .inl h.active, fun _ => h.active,
      fun _ _ mem => absurd mem (h.tools.commands.not_tried _ _ _)⟩
  · rintro ⟨before, after, mem⟩
    exact h.tools.commands.not_tried _ _ _ mem

/-- A pass, or a part of one, that reports whether a modification was accepted. -/
def Reports (engine : DifferentialEngine) (pass : EngineM Bool) : Prop :=
  Grows (Extends engine) pass fun success new => success = true ↔ Accepted new

section
variable {engine : DifferentialEngine}

theorem quiet_extends {α : Type} {x : EngineM α} {P : α → List Event → Prop}
    (h : Grows Quiet x P) : Grows (Extends engine) x fun a new => P a new ∧ ¬ Accepted new :=
  grows_mono h fun _ _ _ step => step.extends

theorem reports_false : Reports engine (return false) :=
  grows_pure (extends_history engine) (by simp)

/-- What reads the engine first reports as what comes then. -/
theorem reports_after {α : Type} {x : EngineM α} {f : α → EngineM Bool}
    (hx : Grows Quiet x fun _ _ => True) (hf : ∀ a, Reports engine (f a)) :
    Reports engine (x >>= f) := by
  apply grows_bind (extends_history engine) (quiet_extends hx)
  intro a new quiet
  apply grows_post (hf a)
  intro success later reports
  rw [accepted_append, or_iff_right quiet.2]
  exact reports

theorem exportSnapshot_quiet : Grows Quiet exportSnapshot fun _ _ => True := by
  apply grows_bind quiet_history (P := fun _ _ => True) (grows_get quiet_history fun _ => trivial)
  intro session new _
  exact grows_pure quiet_history trivial

theorem traceInsns_quiet : Grows Quiet engine.traceInsns fun _ _ => True := by
  have trace : Grows Quiet engine.trace fun _ _ => True := by
    apply grows_bind quiet_history exportSnapshot_quiet
    intro snapshot _ _
    apply grows_bind quiet_history
      (grows_exceptRuntimeError quiet_history (ofTools_quiet (runSnapTool_ran _ _)))
    intro result _ _
    split
    · exact grows_throw quiet_history
    · exact grows_pure quiet_history trivial
  apply grows_bind quiet_history trace
  intro lines _ _
  apply grows_bind quiet_history exportSnapshot_quiet
  intro snapshot _ _
  split
  · exact grows_throw quiet_history
  split
  · exact grows_throw quiet_history
  · exact grows_pure quiet_history trivial

/-- A callback of `try_modify` that runs nothing but tools. -/
def RunsTools (mutationFn : MutationFn) : Prop :=
  ∀ candidate, Grows Ran (mutationFn candidate) fun _ _ => True

theorem remake_ran {mutationFn : MutationFn} (runs : RunsTools mutationFn)
    (candidate : Proto.Snapshot) :
    Grows Ran (engine.remake mutationFn candidate) fun remade new =>
      ∀ snapshot, remade = some snapshot → Reproduced engine new snapshot := by
  apply grows_bind ran_history (runs candidate)
  rintro ⟨modified, mutated⟩ new _
  dsimp only
  split
  · apply grows_post (reproduce_ran mutated)
    intro remade later reproduced snapshot eq
    exact (reproduced snapshot eq).mono (List.sublist_append_right new later)
  · exact grows_pure ran_history fun _ none => nomatch none

/-- The active snapshot changes in the last step of an attempt only. -/
theorem attempt_run (mutationFn : MutationFn) (s : Session) :
    runFrom (engine.attempt mutationFn) s =
      match runFrom (engine.remake mutationFn s.activeSnapshot) s.tools with
      | (.error e, tools) => (.error e, { s with tools := tools })
      | (.ok none, tools) => (.ok false, { s with tools := tools })
      | (.ok (some remade), tools) => (.ok true, ⟨remade, tools⟩) := by
  have first : runFrom (engine.attempt mutationFn) s =
      runFrom (EngineM.ofTools (engine.remake mutationFn s.activeSnapshot) >>= _) s := rfl
  rw [first, runFrom_bind, runFrom_ofTools]
  rcases runFrom (engine.remake mutationFn s.activeSnapshot) s.tools with
    ⟨_ | _ | remade, tools⟩ <;> rfl

/-- The log of an attempt that ends with the active snapshot `after`. -/
def logOf (tools : Tools) (accepted : Bool) (before after : Proto.Snapshot) : Session :=
  ⟨after, { tools with log := tools.log ++ [.tried accepted before after] }⟩

theorem rejected_extends {s : Session} {new : List Event} {tools : Tools}
    (ran : Ran s.tools new tools) :
    Extends engine s (new ++ [.tried false s.activeSnapshot s.activeSnapshot])
      (logOf tools false s.activeSnapshot s.activeSnapshot) := by
  constructor
  · simp [logOf, ran.log]
  · exact .inl rfl
  · exact fun _ => rfl
  · intro before after mem
    rcases List.mem_append.mp mem with mem | mem
    · exact absurd mem (ran.commands.not_tried _ _ _)
    · cases List.mem_singleton.mp mem
      rfl

theorem accepted_extends {s : Session} {new : List Event} {tools : Tools} {remade : Proto.Snapshot}
    (ran : Ran s.tools new tools) (reproduced : Reproduced engine new remade) :
    Extends engine s (new ++ [.tried true s.activeSnapshot remade])
      (logOf tools true s.activeSnapshot remade) := by
  constructor
  · simp [logOf, ran.log]
  · exact .inr (reproduced.mono (List.sublist_append_left _ _))
  · intro none
    exact absurd ⟨_, _, List.mem_append_right _ (List.mem_singleton.mpr rfl)⟩ none
  · intro before after mem
    rcases List.mem_append.mp mem with mem | mem
    · exact absurd mem (ran.commands.not_tried _ _ _)
    · cases List.mem_singleton.mp mem

theorem accepted_logged {new : List Event} (commands : CommandsOnly new) (accepted : Bool)
    (before after : Proto.Snapshot) :
    accepted = true ↔ Accepted (new ++ [.tried accepted before after]) := by
  constructor
  · rintro rfl
    exact ⟨before, after, List.mem_append_right _ (List.mem_singleton.mpr rfl)⟩
  · rintro ⟨b, a, mem⟩
    rcases List.mem_append.mp mem with mem | mem
    · exact absurd mem (commands.not_tried _ _ _)
    · cases List.mem_singleton.mp mem
      rfl

/-- An attempt reports what the log has of it. -/
theorem tryModify_reports {mutationFn : MutationFn} (runs : RunsTools mutationFn) :
    Reports engine (engine.tryModify mutationFn) := by
  intro s
  obtain ⟨new, ran, value⟩ := @remake_ran engine _ runs s.activeSnapshot s.tools
  have run := @attempt_run engine mutationFn s
  unfold DifferentialEngine.tryModify
  rw [runFrom_logged, run]
  revert ran value
  rcases runFrom (engine.remake mutationFn s.activeSnapshot) s.tools with
    ⟨_ | _ | remade, tools⟩ <;> intro ran value
  · exact ⟨_, rejected_extends ran, fun _ value => nomatch value⟩
  · refine ⟨_, rejected_extends ran, fun success eq => ?_⟩
    obtain rfl := Except.ok.inj eq
    exact accepted_logged ran.commands false _ _
  · refine ⟨_, accepted_extends ran (value _ rfl remade rfl), fun success eq => ?_⟩
    obtain rfl := Except.ok.inj eq
    exact accepted_logged ran.commands true _ _

end

end Silifuzz.Minimizer
