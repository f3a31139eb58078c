import Silifuzz.Tools.SdcExperiment.Feedback
import Mathlib.Tactic.Common

/-!
# What the replay gate lets through

A hit is confirmed by the words in its replays' output. That is the silent corruption that
`parse_log` counts as long as no output has the words for another reason, and there are
replays at all.
-/

namespace Silifuzz.SdcExperiment

/-- What the runner does in the loop of `replay_confirm`, up to the run that breaks it off. -/
def replays (runner : Nat → Option String) : Nat → Nat → List (Option String)
  | 0, _ => []
  | left + 1, k =>
    match runner k with
    | none => [none]
    | some out => some out :: replays runner left (k + 1)

/-- All `n` replays give an output that names a failure. -/
def Reproduces (runner : Nat → Option String) (n : Int) : Prop :=
  0 ≤ n ∧ ∀ k < n.toNat, ∃ out, runner k = some out ∧ namesFailure out = true

section
variable {runner : Nat → Option String} {left k repro : Nat}

theorem replayLoop_le : replayLoop runner left k repro ≤ repro + left := by
  induction left generalizing k repro with
  | zero => exact Nat.le_refl _
  | succ left ih =>
    unfold replayLoop
    split
    · omega
    · next out _ =>
      have rest := @ih (k + 1) (if namesFailure out then repro + 1 else repro)
      have once : (if namesFailure out then repro + 1 else repro) ≤ repro + 1 := by
        split <;> omega
      omega

/-- The count reaches the number of replays only if every one of them adds to it. -/
theorem replayLoop_all : replayLoop runner left k repro = repro + left ↔
    ∀ j < left, ∃ out, runner (k + j) = some out ∧ namesFailure out = true := by
  induction left generalizing k repro with
  | zero => simp [replayLoop]
  | succ left ih =>
    unfold replayLoop
    cases first : runner k with
    | none =>
      constructor
      · intro full
        dsimp only at full
        omega
      · intro all
        obtain ⟨out, ran, -⟩ := all 0 (by omega)
        rw [Nat.add_zero, first] at ran
        contradiction
    | some out =>
      dsimp only
      cases names : namesFailure out with
      | true =>
        have rest := @ih (k + 1) (repro + 1)
        rw [if_pos rfl, show repro + (left + 1) = repro + 1 + left by omega, rest]
        constructor
        · intro all j small
          cases j with
          | zero => exact ⟨out, first, names⟩
          | succ j =>
            rw [show k + (j + 1) = k + 1 + j by omega]
            exact all j (by omega)
        · intro all j small
          rw [show k + 1 + j = k + (j + 1) by omega]
          exact all (j + 1) (by omega)
      | false =>
        rw [if_neg (by simp)]
        constructor
        · intro full
          have few := @replayLoop_le runner left (k + 1) repro
          omega
        · intro all
          obtain ⟨out', ran, names'⟩ := all 0 (by omega)
          rw [Nat.add_zero, first] at ran
          obtain rfl := Option.some.inj ran
          rw [names] at names'
          contradiction

/-- Replays that all ran are the runner's first ones. -/
theorem mem_replays (all : ∀ j < left, ∃ out, runner (k + j) = some out) {r : Option String} :
    r ∈ replays runner left k ↔ ∃ j < left, r = runner (k + j) := by
  induction left generalizing k with
  | zero => simp [replays]
  | succ left ih =>
    obtain ⟨out, first⟩ := all 0 (by omega)
    rw [Nat.add_zero] at first
    have rest := @ih (k + 1) fun j small => by
      have := all (j + 1) (by omega)
      rwa [show k + (j + 1) = k + 1 + j by omega] at this
    unfold replays
    simp only [first, List.mem_cons, rest]
    constructor
    · rintro (rfl | ⟨j, small, rfl⟩)
      · exact ⟨0, by omega, first.symm⟩
      · exact ⟨j + 1, by omega, by rw [show k + (j + 1) = k + 1 + j by omega]⟩
    · rintro ⟨j, small, rfl⟩
      cases j with
      | zero => exact Or.inl first
      | succ j => exact Or.inr ⟨j, by omega, by rw [show k + (j + 1) = k + 1 + j by omega]⟩

end

variable {env : Environment} {n : Int} {number : Nat} {item : Item} {noReseed : Bool}

/-- The items before the gate. -/
def report (env : Environment) : List Item := buildFeedbackReport env (extractHits env)

/-- The replays of a hit that the gate runs. -/
def replaysOf (env : Environment) (n : Int) (number : Nat) : List (Option String) :=
  match (report env)[number]?.bind (·.pb) with
  | none => []
  | some pb =>
    match env.generateCorpus number pb with
    | none => []
    | some _ => replays (env.runner number) n.toNat 0

/-- An outcome 2, 3 or 4 by the definition of `parse_log`. -/
def reportsSilentCorruption (env : Environment) (replay : Option String) : Prop :=
  ∃ out, replay = some out ∧ 0 < (parseLog env.decimal out).sdcHits

/-- The gate lets a hit through for silent corruption only. -/
def OnlySilentCorruption (env : Environment) (n : Int) (noReseed : Bool) : Prop :=
  ∀ number item, (feedback env n noReseed).1[number]? = some item →
    (noReseed = false → item.seedFile.isSome = true →
      replaysOf env n number ≠ [] ∧
        ∀ replay ∈ replaysOf env n number, reportsSilentCorruption env replay) ∧
    (item.confirmed = true →
      ∀ replay ∈ replaysOf env n number, reportsSilentCorruption env replay)

theorem feedback_items (env : Environment) (n : Int) (noReseed : Bool) :
    (feedback env n noReseed).1 = replayGate env (report env) n := by
  unfold feedback report
  cases extractHits env with
  | nil => rfl
  | cons hit hits => rfl

theorem report_item (h : (report env)[number]? = some item) :
    item.confirmed = false ∧ (item.action = .replayConfirm ↔ item.pb.isSome = true) := by
  simp only [report, buildFeedbackReport, List.getElem?_mapIdx, Option.map_eq_some_iff] at h
  obtain ⟨⟨hit, pair⟩, -, rfl⟩ := h
  refine ⟨rfl, ?_⟩
  simp only [buildItem]
  split
  · next found => simp [found]
  · next none => simp [none]

/-- A hit is confirmed exactly if its snapshot is found and packaged, and all replays name a
failure. -/
theorem gateItem_confirmed (h : (report env)[number]? = some item) :
    (gateItem env n number item).confirmed = true ↔
      ∃ pb corpus, item.pb = some pb ∧ env.generateCorpus number pb = some corpus ∧
        Reproduces (env.runner number) n := by
  obtain ⟨fresh, action⟩ := report_item h
  unfold gateItem
  cases found : item.pb with
  | none =>
    have skipped : item.action ≠ .replayConfirm := fun same => by
      rw [action, found] at same
      contradiction
    rw [if_pos skipped, fresh]
    simp
  | some pb =>
    rw [if_neg (by simp [action, found])]
    dsimp only
    cases packaged : env.generateCorpus number pb with
    | none => simp [packaged]
    | some corpus =>
      have count : (replayLoop (env.runner number) n.toNat 0 0 : Int) = n ↔
          Reproduces (env.runner number) n := by
        have all := @replayLoop_all (env.runner number) n.toNat 0 0
        simp only [Nat.zero_add] at all
        rw [Reproduces, ← all]
        omega
      simp only [replayConfirm, decide_eq_true_eq, count, Option.some.injEq]
      constructor
      · intro reproduces
        exact ⟨pb, corpus, rfl, packaged, reproduces⟩
      · rintro ⟨-, -, -, -, reproduces⟩
        exact reproduces

/-- The gate keeps what a seed file is made of. -/
theorem gateItem_seedFile (h : (gateItem env n number item).confirmed = true) :
    (gateItem env n number item).seedFile = { item with confirmed := true }.seedFile := by
  have kept : (gateItem env n number item).hash = item.hash ∧
      (gateItem env n number item).instructions = item.instructions := by
    unfold gateItem
    split
    · exact ⟨rfl, rfl⟩
    split
    · exact ⟨rfl, rfl⟩
    split
    · exact ⟨rfl, rfl⟩
    · exact ⟨rfl, rfl⟩
  unfold Item.seedFile
  rw [kept.1, kept.2, h]

theorem seedFile_confirmed (h : item.seedFile.isSome = true) : item.confirmed = true := by
  unfold Item.seedFile at h
  split at h
  · assumption
  · contradiction

/-- The replays of a hit that reproduces. -/
theorem replaysOf_reproduces {pb corpus : String} (h : (report env)[number]? = some item)
    (found : item.pb = some pb) (packaged : env.generateCorpus number pb = some corpus)
    (reproduces : Reproduces (env.runner number) n) {replay : Option String} :
    replay ∈ replaysOf env n number ↔ ∃ k < n.toNat, replay = env.runner number k := by
  have ran : ∀ j < n.toNat, ∃ out, env.runner number (0 + j) = some out := fun j small => by
    obtain ⟨out, run, -⟩ := reproduces.2 j small
    exact ⟨out, by rw [Nat.zero_add, run]⟩
  simp only [replaysOf, h, Option.bind_some, found, packaged, mem_replays ran, Nat.zero_add]

/--
**A seed is silent corruption, if the words in the replays are.**

In every experiment and with every replay count: the gate confirms and reseeds hits for
silent corruption only, exactly if this holds of every hit whose snapshot is found and
packaged and whose replays all name a failure: the output of each has an outcome 2, 3 or 4,
and if the count is 0, nothing is reseeded or the hit has no instructions.
-/
theorem feedback_onlySilentCorruption (env : Environment) (n : Int) (noReseed : Bool) :
    OnlySilentCorruption env n noReseed ↔
      ∀ number item pb corpus, (report env)[number]? = some item → item.pb = some pb →
        env.generateCorpus number pb = some corpus → Reproduces (env.runner number) n →
        (∀ k < n.toNat, reportsSilentCorruption env (env.runner number k)) ∧
        (n = 0 → noReseed = true ∨ { item with confirmed := true }.seedFile = none) := by
  have gated : ∀ number item, (report env)[number]? = some item →
      (feedback env n noReseed).1[number]? = some (gateItem env n number item) := by
    intro number item h
    rw [feedback_items, replayGate, List.getElem?_mapIdx, h]
    rfl
  constructor
  · intro only number item pb corpus h found packaged reproduces
    have confirmed := (gateItem_confirmed h).mpr ⟨pb, corpus, found, packaged, reproduces⟩
    obtain ⟨seeds, marks⟩ := only number _ (gated number item h)
    constructor
    · intro k small
      exact marks confirmed _ ((replaysOf_reproduces h found packaged reproduces).mpr
        ⟨k, small, rfl⟩)
    · intro none
      by_contra reseeds
      obtain ⟨on, file⟩ := not_or.mp reseeds
      obtain ⟨replayed, -⟩ := seeds (by simpa using on) (by
        rw [gateItem_seedFile confirmed]
        exact Option.isSome_iff_ne_none.mpr file)
      apply replayed
      apply List.eq_nil_iff_forall_not_mem.mpr
      intro replay mem
      obtain ⟨k, small, -⟩ := (replaysOf_reproduces h found packaged reproduces).mp mem
      omega
  · intro holds number item here
    rw [feedback_items, replayGate, List.getElem?_mapIdx] at here
    obtain ⟨before, h, rfl⟩ := Option.map_eq_some_iff.mp here
    have marks : (gateItem env n number before).confirmed = true →
        ∀ replay ∈ replaysOf env n number, reportsSilentCorruption env replay := by
      intro confirmed replay mem
      obtain ⟨pb, corpus, found, packaged, reproduces⟩ := (gateItem_confirmed h).mp confirmed
      obtain ⟨k, small, rfl⟩ := (replaysOf_reproduces h found packaged reproduces).mp mem
      exact (holds number before pb corpus h found packaged reproduces).1 k small
    refine ⟨fun on file => ?_, marks⟩
    have confirmed := seedFile_confirmed file
    refine ⟨?_, marks confirmed⟩
    obtain ⟨pb, corpus, found, packaged, reproduces⟩ := (gateItem_confirmed h).mp confirmed
    rw [gateItem_seedFile confirmed] at file
    intro empty
    have zero : n = 0 := by
      by_contra some
      have positive : 0 < n.toNat := by
        have := reproduces.1
        omega
      have first := (replaysOf_reproduces h found packaged reproduces).mpr ⟨0, positive, rfl⟩
      rw [empty] at first
      contradiction
    rcases (holds number before pb corpus h found packaged reproduces).2 zero with off | none
    · rw [on] at off
      contradiction
    · rw [none] at file
      contradiction

/-- A hit of a healthy device whose three replays are stopped as runaways. -/
def runawayReplays : Environment where
  hwFiles := [("hw_0.json", .scan 1 ["Snapshot [ab] failed, outcome = 2"] none)]
  pbFiles := ["pb/ab.pb"]
  decimal := asciiDecimal
  print _ := some "  Id: ab\n"
  getInstructions _ _ := some [0x1f, 0x20, 0x03, 0xd5]
  generateCorpus _ _ := some "ab.corpus"
  runner _ _ := some "Snapshot [ab] failed, outcome = 5"

/-- The hit is reseeded although no replay reports silent corruption. -/
theorem feedback_reseeds_runaway :
    (feedback runawayReplays 3 false).2 = [("seeds/evolved/ab.bin", [0x1f, 0x20, 0x03, 0xd5])] ∧
      ¬ OnlySilentCorruption runawayReplays 3 false := by
  refine ⟨by decide +kernel, fun only => ?_⟩
  have marks : ∃ item, (feedback runawayReplays 3 false).1[0]? = some item ∧
      item.confirmed = true := by
    refine ⟨_, rfl, ?_⟩
    decide +kernel
  obtain ⟨item, here, confirmed⟩ := marks
  have first : some "Snapshot [ab] failed, outcome = 5" ∈ replaysOf runawayReplays 3 0 := by
    decide +kernel
  obtain ⟨out, ran, hits⟩ := (only 0 item here).2 confirmed _ first
  obtain rfl := Option.some.inj ran
  revert hits
  decide +kernel

end Silifuzz.SdcExperiment
