import Silifuzz.Library.Dicts
import Mathlib.Data.List.Induction
import Mathlib.Data.Nat.Basic
import Mathlib.Order.Lattice

/-!
# Vault

`Vault` of `tools/sdc_pipeline/vault.py`, and the validation results that `Pipeline.run` of
`pipeline.py` writes to its assessments. A file is the list of the records that
`json.loads` gives for its lines; a metric's value is an `N`, a validation result a `J`.
-/

namespace Silifuzz.SdcPipeline

open Dicts

structure Candidate where
  ident : String
  sourceAsm : String
  codeBytes : List UInt8
  regsInit : Dict Int Int
  parents : List String
  origin : String
  structureTags : List String
  deriving DecidableEq, Repr

/-- A line of `candidates.jsonl`. -/
structure CandidateRecord where
  ident : String
  sourceAsm : String
  regsInit : Dict String Int
  parents : List String
  origin : String
  structureTags : List String
  deriving DecidableEq, Repr

/-- `Assessment`, which is also a line of `assessments.jsonl`. -/
structure Assessment (N J : Type) where
  ident : String
  metrics : Dict String N
  evaluator : String
  validated : Option J
  deriving DecidableEq, Repr

/-- The two files of the directory. -/
structure Files (N J : Type) where
  candidates : List CandidateRecord
  assessments : List (Assessment N J)
  deriving DecidableEq, Repr

structure Vault (N J : Type) where
  files : Files N J
  cands : Dict String CandidateRecord
  assess : Dict (String × String) (Assessment N J)
  children : Dict String (List String)
  deriving DecidableEq, Repr

namespace Vault

variable {N J : Type}

/-- `__init__` and `_load`. -/
def load (files : Files N J) : Vault N J where
  files := files
  cands := files.candidates.foldl (fun cands rec => set cands rec.ident rec) []
  assess := files.assessments.foldl (fun assess rec =>
    set assess (rec.ident, rec.evaluator) rec) []
  children := []

/-- `_children.setdefault(p, []).append(ident)` for each parent. -/
def addChildren (children : Dict String (List String)) (ident : String) (parents : List String) :
    Dict String (List String) :=
  parents.foldl (fun children p => set children p ((get? children p).getD [] ++ [ident])) children

def candidateRecord (c : Candidate) : CandidateRecord where
  ident := c.ident
  sourceAsm := c.sourceAsm
  regsInit := c.regsInit.map fun (k, v) => (toString k, v)
  parents := c.parents
  origin := c.origin
  structureTags := c.structureTags

def putCandidate (vault : Vault N J) (c : Candidate) : Vault N J :=
  if contains vault.cands c.ident then vault
  else
    let rec_ := candidateRecord c
    { vault with cands := set vault.cands c.ident rec_
                 children := addChildren vault.children c.ident c.parents
                 files.candidates := vault.files.candidates ++ [rec_] }

/-- `get()`, which raises on a register that is no number. -/
def get (vault : Vault N J) (ident : String) : Option (Option Candidate) :=
  match get? vault.cands ident with
  | none => some none
  | some rec_ => do
    let regsInit ← rec_.regsInit.mapM fun (k, v) => k.toInt?.map (·, v)
    return some ⟨rec_.ident, rec_.sourceAsm, [], regsInit, rec_.parents, rec_.origin,
      rec_.structureTags⟩

def countCandidates (vault : Vault N J) : Nat := vault.cands.length

def childrenOf (vault : Vault N J) (ident : String) : List String :=
  (get? vault.children ident).getD []

/-- `lineage()`'s loop. Each turn adds a candidate to `seen`, so there are no more turns than
candidates. -/
def lineageLoop (vault : Vault N J) (seen : List String) : Nat → Option String → List String
  | fuel + 1, some cur =>
    if cur = "" ∨ cur ∈ seen then []
    else
      match get? vault.cands cur with
      | none => []
      | some rec_ => cur :: lineageLoop vault (cur :: seen) fuel rec_.parents.head?
  | _, _ => []

def lineage (vault : Vault N J) (ident : String) : List String :=
  vault.lineageLoop [] vault.cands.length (some ident)

def putAssessment (vault : Vault N J) (a : Assessment N J) : Vault N J :=
  if contains vault.assess (a.ident, a.evaluator) then vault
  else
    { vault with assess := set vault.assess (a.ident, a.evaluator) a
                 files.assessments := vault.files.assessments ++ [a] }

def countAssessments (vault : Vault N J) : Nat := vault.assess.length

/-- `rows[:k]`. -/
def firstRows {α : Type} (rows : List α) (k : Int) : List α :=
  rows.take (if 0 ≤ k then k.toNat else (rows.length + k).toNat)

def topBy [LE N] [DecidableLE N] (vault : Vault N J) (metric : String) (k : Int) :
    List (String × N) :=
  let rows := vault.assess.filterMap fun (key, rec) => (get? rec.metrics metric).map (key.1, ·)
  firstRows (rows.mergeSort fun x y => decide (y.2 ≤ x.2)) k

/-- The validation results of the assessments. -/
def validated (vault : Vault N J) : Dict (String × String) (Option J) :=
  vault.assess.map fun (key, rec) => (key, rec.validated)

/-- The write-back of `Pipeline.run`: `rec["validated"] = ...` for the records of `ident`. -/
def writeBack (vault : Vault N J) (ident : String) (result : J) : Vault N J :=
  { vault with assess := vault.assess.map fun (key, rec) =>
      (key, if rec.ident = ident then { rec with validated := some result } else rec) }

end Vault

inductive Operation (N J : Type) where
  | putCandidate (c : Candidate)
  | putAssessment (a : Assessment N J)
  | writeBack (ident : String) (result : J)

variable {N J : Type}

def Operation.apply (vault : Vault N J) : Operation N J → Vault N J
  | .putCandidate c => vault.putCandidate c
  | .putAssessment a => vault.putAssessment a
  | .writeBack ident result => vault.writeBack ident result

def runOperations (vault : Vault N J) (ops : List (Operation N J)) : Vault N J :=
  ops.foldl Operation.apply vault

/-- A `Vault` on the same directory. -/
def Vault.reopen (vault : Vault N J) : Vault N J := load vault.files

/-- Two vaults answer every query in the same way. -/
structure SameAnswers [LE N] [DecidableLE N] (v w : Vault N J) : Prop where
  get : ∀ ident, v.get ident = w.get ident
  countCandidates : v.countCandidates = w.countCandidates
  children : ∀ ident, v.childrenOf ident = w.childrenOf ident
  lineage : ∀ ident, v.lineage ident = w.lineage ident
  countAssessments : v.countAssessments = w.countAssessments
  topBy : ∀ metric k, v.topBy metric k = w.topBy metric k
  validated : v.validated = w.validated

/-- What the files can keep of an operation: no parent of a new candidate, and no validation
result but one that the assessments have. -/
def Kept (vault : Vault N J) : Operation N J → Prop
  | .putCandidate c => contains vault.cands c.ident = true ∨ c.parents = []
  | .putAssessment _ => True
  | .writeBack ident result =>
    ∀ key rec, (key, rec) ∈ vault.assess → rec.ident = ident → rec.validated = some result

section
variable {vault : Vault N J} {op : Operation N J} {c : Candidate}

theorem addChildren_grows {children : Dict String (List String)} {ident p : String}
    {parents : List String} (h : (get? children p).getD [] ≠ []) :
    (get? (Vault.addChildren children ident parents) p).getD [] ≠ [] := by
  induction parents generalizing children with
  | nil => exact h
  | cons q parents ih =>
    have next : (get? (set children q ((get? children q).getD [] ++ [ident])) p).getD [] ≠ [] := by
      rw [get?_set]
      split
      · simp
      · exact h
    exact ih next

/-- A parent of a candidate that goes in has a child from then on. -/
theorem addChildren_parent {children : Dict String (List String)} {ident p : String}
    {parents : List String} :
    (get? (Vault.addChildren children ident (p :: parents)) p).getD [] ≠ [] := by
  have first : (get? (set children p ((get? children p).getD [] ++ [ident])) p).getD [] ≠ [] := by
    rw [get?_set, if_pos rfl]
    simp
  exact @addChildren_grows _ ident p parents first

/-- A step that the files can keep leaves a vault that they give back. -/
theorem apply_kept (same : vault.reopen = vault) (kept : Kept vault op) :
    (op.apply vault).reopen = op.apply vault := by
  have cands : (Vault.load vault.files).cands = vault.cands := congrArg Vault.cands same
  have assess : (Vault.load vault.files).assess = vault.assess := congrArg Vault.assess same
  have children : [] = vault.children := congrArg Vault.children same
  cases op with
  | putCandidate c =>
    simp only [Operation.apply, Vault.putCandidate]
    split
    · exact same
    · next new =>
      have alone : c.parents = [] := kept.resolve_left (by simpa using new)
      simp only [Vault.load] at cands assess
      simp only [Vault.reopen, Vault.load, List.foldl_append, cands, assess, alone,
        Vault.addChildren, ← children]
      rfl
  | putAssessment a =>
    simp only [Operation.apply, Vault.putAssessment]
    split
    · exact same
    · simp only [Vault.load] at cands assess
      simp only [Vault.reopen, Vault.load, List.foldl_append, cands, assess, ← children]
      rfl
  | writeBack ident result =>
    have unchanged : vault.writeBack ident result = vault := by
      have each : ∀ item ∈ vault.assess, (fun (item : (String × String) × Assessment N J) =>
          (item.1, if item.2.ident = ident then { item.2 with validated := some result }
            else item.2)) item = item := by
        rintro ⟨key, rec_⟩ mem
        dsimp only
        split
        · next here => rw [← kept key rec_ mem here]
        · rfl
      simp only [Vault.writeBack, List.map_congr_left each, List.map_id']
    rw [Operation.apply, unchanged]
    exact same

/-- The first step that the files cannot keep shows. -/
theorem kept_of_same [LE N] [DecidableLE N] (same : vault.reopen = vault)
    (answers : SameAnswers (op.apply vault).reopen (op.apply vault)) : Kept vault op := by
  have assess : (Vault.load vault.files).assess = vault.assess := congrArg Vault.assess same
  cases op with
  | putCandidate c =>
    by_contra lost
    obtain ⟨new, parents⟩ := not_or.mp lost
    obtain ⟨p, others, eq⟩ := List.exists_cons_of_ne_nil parents
    have child := answers.children p
    simp only [Operation.apply, Vault.putCandidate, if_neg new, eq] at child
    exact addChildren_parent child.symm
  | putAssessment a => trivial
  | writeBack ident result =>
    have results := answers.validated
    simp only [Operation.apply, Vault.writeBack, Vault.reopen, Vault.validated, assess,
      List.map_map, List.map_inj_left] at results
    intro key rec_ mem here
    have result' := (Prod.mk.inj (results (key, rec_) mem)).2
    simpa [here] using result'

end

theorem run_kept {files : Files N J} {ops : List (Operation N J)}
    (kept : ∀ n op, ops[n]? = some op →
      Kept (runOperations (.load files) (ops.take n)) op) :
    (runOperations (.load files) ops).reopen = runOperations (.load files) ops := by
  induction ops using List.reverseRecOn with
  | nil => rfl
  | append_singleton ops op ih =>
    have before := ih fun n op' here => by
      obtain ⟨inside, -⟩ := List.getElem?_eq_some_iff.mp here
      have at_n := kept n op' (by rw [List.getElem?_append_left inside, here])
      rwa [List.take_append_of_le_length inside.le] at at_n
    have last := kept ops.length op (by simp)
    rw [List.take_append_of_le_length (le_refl _), List.take_length] at last
    simp only [runOperations, List.foldl_append] at before last ⊢
    exact apply_kept before last

/--
**A vault outlives its process exactly as far as its files go.**

From any directory: a vault reopened after any part of a sequence of operations answers
every query as the original object does, exactly if no operation of the sequence puts a new
candidate that has parents, or writes a validation result to an assessment that does not
have it already.
-/
theorem reopen_answers [LE N] [DecidableLE N] (files : Files N J) (ops : List (Operation N J)) :
    (∀ n, SameAnswers (runOperations (.load files) (ops.take n)).reopen
      (runOperations (.load files) (ops.take n))) ↔
    ∀ n op, ops[n]? = some op → Kept (runOperations (.load files) (ops.take n)) op := by
  constructor
  · intro answers n
    induction n using Nat.strong_induction_on with
    | h n ih =>
      intro op here
      obtain ⟨inside, rfl⟩ := List.getElem?_eq_some_iff.mp here
      have before : (runOperations (.load files) (ops.take n)).reopen =
          runOperations (.load files) (ops.take n) := by
        apply run_kept
        intro m op' at_m
        have early : m < n := by
          have := (List.getElem?_eq_some_iff.mp at_m).1
          rw [List.length_take] at this
          omega
        rw [List.getElem?_take_of_lt early] at at_m
        rw [List.take_take, min_eq_left early.le]
        exact ih m early op' at_m
      have after := answers (n + 1)
      rw [List.take_add_one, List.getElem?_eq_getElem inside] at after
      simp only [runOperations, Option.toList_some, List.foldl_append, List.foldl_cons,
        List.foldl_nil] at after
      exact kept_of_same before after
  · intro kept n
    have same : (runOperations (.load files) (ops.take n)).reopen =
        runOperations (.load files) (ops.take n) := by
      apply run_kept
      intro m op at_m
      have early : m < n := by
        have := (List.getElem?_eq_some_iff.mp at_m).1
        rw [List.length_take] at this
        omega
      rw [List.getElem?_take_of_lt early] at at_m
      rw [List.take_take, min_eq_left early.le]
      exact kept m op at_m
    rw [same]
    exact ⟨fun _ => rfl, rfl, fun _ => rfl, fun _ => rfl, rfl, fun _ _ => rfl, rfl⟩

def seed : Candidate := ⟨"seed001", "nop", [], [(0, 1)], [], "seed:t", []⟩

def child : Candidate := ⟨"child01", "nop", [], [(0, 1)], ["seed001"], "mutate:m", []⟩

def familyOps : List (Operation Int Unit) := [.putCandidate seed, .putCandidate child]

/-- The reopened vault does not know the child of the seed. -/
theorem reopen_childless : ¬ SameAnswers (runOperations (.load ⟨[], []⟩) familyOps).reopen
    (runOperations (.load ⟨[], []⟩) familyOps) := by
  intro answers
  have childless := answers.children "seed001"
  revert childless
  decide +kernel

end Silifuzz.SdcPipeline
