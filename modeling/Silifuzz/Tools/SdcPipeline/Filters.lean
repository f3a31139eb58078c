import Silifuzz.Library.Scans
import Silifuzz.Tools.SdcPipeline.Vault

/-!
# Filters

`ParetoFilter` and `NegativeControlFilter` of `tools/sdc_pipeline/filters.py`, which choose
the candidates that the next generation starts from, and when they choose what they are
written for. `rows` is a list of a candidate with its assessment each.
-/

namespace Silifuzz.SdcPipeline

open Dicts Scans

inductive TypeError where
  | unsupported
  deriving DecidableEq, Repr

/-- The values of metrics, under Python's `>=` and `>`. A NaN is neither. -/
class Comparable (N : Type) where
  zero : N
  ge : N → N → Bool
  gt : N → N → Bool
  gt_irrefl : ∀ x, gt x x = false
  ge_trans : ∀ x y z, ge x y = true → ge y z = true → ge x z = true
  gt_of_gt_of_ge : ∀ x y z, gt x y = true → ge y z = true → gt x z = true

open Comparable

/-- `C` is the type of the references to candidates: two are equal where `is` holds. -/
abbrev Rows (C N J : Type) := List (C × Assessment N J)

/-! ## ParetoFilter -/

structure ParetoFilter where
  maximize : List String

variable {C N J : Type} [DecidableEq C] [Comparable N]

/-- A comparison of `metrics.get(name)`: `None` compares with nothing. -/
def compareMetric (op : N → N → Bool) (a b : Assessment N J) (m : String) :
    Except TypeError Bool :=
  match get? a.metrics m, get? b.metrics m with
  | some x, some y => .ok (op x y)
  | _, _ => .error .unsupported

namespace ParetoFilter

/-- `_dominates` -/
def dominates (filt : ParetoFilter) (a b : Assessment N J) : Except TypeError Bool := do
  let ge ← filt.maximize.allM (compareMetric ge a b)
  let gt ← filt.maximize.anyM (compareMetric gt a b)
  return ge && gt

/-- `any(self._dominates(r[1], a) for r in rows if r[0] is not c)` -/
def isDominated (filt : ParetoFilter) (rows : Rows C N J) (row : C × Assessment N J) :
    Except TypeError Bool :=
  (rows.filter fun r => r.1 ≠ row.1).anyM fun r => filt.dominates r.2 row.2

def select (filt : ParetoFilter) (rows : Rows C N J) (k : Int) : Except TypeError (List C) := do
  let fronts ← rows.foldlM (fun fronts row => do
    if ← filt.isDominated rows row then return fronts else return fronts ++ [row.1]) []
  return Vault.firstRows fronts k

/-! ### What it is to select -/

/-- A metric that is missing counts as 0. -/
def value (a : Assessment N J) (m : String) : N := (get? a.metrics m).getD zero

def Dominates (filt : ParetoFilter) (a b : Assessment N J) : Bool :=
  filt.maximize.all (fun m => ge (value a m) (value b m)) &&
    filt.maximize.any fun m => gt (value a m) (value b m)

/-- The rows that no other row dominates; no row dominates itself. -/
def front (filt : ParetoFilter) (rows : Rows C N J) : Rows C N J :=
  rows.filter fun row => !rows.any fun r => filt.Dominates r.2 row.2

/-- What `select` gives for each `k`: the first ones of the front, which is not empty and
dominates every other row. -/
structure Selects (filt : ParetoFilter) (rows : Rows C N J)
    (selected : Int → Except TypeError (List C)) : Prop where
  first (k : Int) : selected k = .ok (Vault.firstRows ((filt.front rows).map Prod.fst) k)
  nonempty : rows ≠ [] → filt.front rows ≠ []
  covers : ∀ row ∈ rows, row ∉ filt.front rows →
    ∃ r ∈ filt.front rows, filt.Dominates r.2 row.2 = true

/-! ### When it selects that -/

def Lacks (a b : Assessment N J) (m : String) : Prop :=
  get? a.metrics m = none ∨ get? b.metrics m = none

/-- In front of each metric that one of the two lacks there is one in which `a` is not as good
as `b`, and one in which it is better. -/
def Decides (filt : ParetoFilter) (a b : Assessment N J) : Prop :=
  Shielded (fun m => !ge (value a m) (value b m)) (Lacks a b) filt.maximize ∧
    Shielded (fun m => gt (value a m) (value b m)) (Lacks a b) filt.maximize

/-- For each row: every comparison with a row of another candidate is decided, up to the
first such row that dominates it; and if a row dominates it, one of another candidate does. -/
def Decided (filt : ParetoFilter) (rows : Rows C N J) : Prop :=
  ∀ row ∈ rows,
    Shielded (fun r => filt.Dominates r.2 row.2) (fun r => ¬filt.Decides r.2 row.2)
      (rows.filter fun r => r.1 ≠ row.1) ∧
    ((∃ r ∈ rows, filt.Dominates r.2 row.2 = true) →
      ∃ r ∈ rows, r.1 ≠ row.1 ∧ filt.Dominates r.2 row.2 = true)

variable {filt : ParetoFilter} {rows : Rows C N J}

theorem compareMetric_of_has (op : N → N → Bool) {a b : Assessment N J} {m : String}
    (has : ¬Lacks a b m) : compareMetric op a b m = .ok (op (value a m) (value b m)) := by
  obtain ⟨hasA, hasB⟩ := not_or.mp has
  obtain ⟨x, hx⟩ := Option.ne_none_iff_exists'.mp hasA
  obtain ⟨y, hy⟩ := Option.ne_none_iff_exists'.mp hasB
  simp only [compareMetric, value, hx, hy, Option.getD_some]

omit [Comparable N] in
theorem compareMetric_of_lacks (op : N → N → Bool) {a b : Assessment N J} {m : String}
    (missing : Lacks a b m) : compareMetric op a b m = .error .unsupported := by
  unfold compareMetric
  split
  · rename_i x y hx hy
    rcases missing with none | none
    · rw [hx] at none
      cases none
    · rw [hy] at none
      cases none
  · rfl

theorem dominates_of_decides {a b : Assessment N J} (decides : filt.Decides a b) :
    filt.dominates a b = .ok (filt.Dominates a b) := by
  have all := allM_of_shielded (f := compareMetric ge a b)
    (fun m has => by rw [compareMetric_of_has _ has, Bool.not_not]) decides.1
  have any := anyM_of_shielded (f := compareMetric gt a b)
    (fun m has => compareMetric_of_has _ has) decides.2
  simp only [Bool.not_not] at all
  rw [dominates, all, any]
  rfl

theorem dominates_of_not_decides {a b : Assessment N J} (open' : ¬filt.Decides a b) :
    filt.dominates a b = .error .unsupported := by
  rw [dominates]
  by_cases first : Shielded (fun m => !ge (value a m) (value b m)) (Lacks a b) filt.maximize
  · have all := allM_of_shielded (f := compareMetric ge a b)
      (fun m has => by rw [compareMetric_of_has _ has, Bool.not_not]) first
    have any := anyM_of_not_shielded (f := compareMetric gt a b)
      (fun m has => compareMetric_of_has _ has) (fun m => compareMetric_of_lacks _)
      fun second => open' ⟨first, second⟩
    rw [all, any]
    rfl
  · have all := allM_of_not_shielded (f := compareMetric ge a b)
      (fun m has => by rw [compareMetric_of_has _ has, Bool.not_not])
      (fun m => compareMetric_of_lacks _) first
    rw [all]
    rfl

/-- The scan of a row is what the row's comparisons say, where they say something. -/
theorem isDominated_of_shielded {row : C × Assessment N J}
    (shielded : Shielded (fun r => filt.Dominates r.2 row.2)
      (fun r => ¬filt.Decides r.2 row.2)
      (rows.filter fun r => r.1 ≠ row.1)) :
    filt.isDominated rows row
      = .ok ((rows.filter fun r => r.1 ≠ row.1).any fun r => filt.Dominates r.2 row.2) := by
  refine anyM_of_shielded ?_ shielded
  intro r decides
  exact dominates_of_decides (not_not.mp decides)

theorem isDominated_of_not_shielded {row : C × Assessment N J}
    (bare : ¬Shielded (fun r => filt.Dominates r.2 row.2)
      (fun r => ¬filt.Decides r.2 row.2)
      (rows.filter fun r => r.1 ≠ row.1)) :
    filt.isDominated rows row = .error .unsupported := by
  refine anyM_of_not_shielded ?_ ?_ bare
  · intro r decides
    exact dominates_of_decides (not_not.mp decides)
  · intro r open'
    exact dominates_of_not_decides open'

omit [DecidableEq C] [Comparable N] in
/-- The loop of `select`, when no row's scan raises, and when one does. -/
theorem loop_ok {test : C × Assessment N J → Except TypeError Bool}
    {dominated : C × Assessment N J → Bool} {l : Rows C N J} (acc : List C)
    (looks : ∀ row ∈ l, test row = .ok (dominated row)) :
    l.foldlM (fun fronts row => do
      if ← test row then return fronts else return fronts ++ [row.1]) acc
      = .ok (acc ++ (l.filter fun row => !dominated row).map Prod.fst) := by
  induction l generalizing acc with
  | nil => exact congrArg Except.ok (List.append_nil acc).symm
  | cons row l ih =>
    have rest (acc : List C) := ih acc fun r inside => looks r (List.mem_cons_of_mem row inside)
    rw [List.foldlM_cons, looks row List.mem_cons_self]
    cases out : dominated row with
    | true =>
      rw [List.filter_cons_of_neg (by simp [out])]
      exact rest acc
    | false =>
      have joined := rest (acc ++ [row.1])
      rw [List.append_assoc] at joined
      rw [List.filter_cons_of_pos (by simp [out]), List.map_cons]
      exact joined

omit [DecidableEq C] [Comparable N] in
theorem loop_error {test : C × Assessment N J → Except TypeError Bool} {l : Rows C N J}
    (acc : List C) (raises : ∃ row ∈ l, test row = .error .unsupported) :
    l.foldlM (fun fronts row => do
      if ← test row then return fronts else return fronts ++ [row.1]) acc
      = .error .unsupported := by
  induction l generalizing acc with
  | nil =>
    obtain ⟨row, inside, -⟩ := raises
    cases inside
  | cons row l ih =>
    rw [List.foldlM_cons]
    cases first : test row with
    | error e => cases e; rfl
    | ok dominated =>
      obtain ⟨r, inside, raised⟩ := raises
      have behind : r ∈ l := by
        rcases List.mem_cons.mp inside with rfl | behind
        · rw [first] at raised
          cases raised
        · exact behind
      cases dominated with
      | true => exact ih acc ⟨r, behind, raised⟩
      | false => exact ih (acc ++ [row.1]) ⟨r, behind, raised⟩

theorem select_of_shielded
    (shielded : ∀ row ∈ rows, Shielded (fun r => filt.Dominates r.2 row.2)
      (fun r => ¬filt.Decides r.2 row.2)
      (rows.filter fun r => r.1 ≠ row.1)) (k : Int) :
    filt.select rows k = .ok (Vault.firstRows ((rows.filter fun row =>
      !(rows.filter fun r => r.1 ≠ row.1).any fun r => filt.Dominates r.2 row.2).map Prod.fst)
        k) := by
  rw [select, loop_ok [] fun row inside => isDominated_of_shielded (shielded row inside)]
  rfl

/-! ### The front -/

theorem not_dominates_self (a : Assessment N J) : ¬filt.Dominates a a = true := by
  intro both
  obtain ⟨m, -, greater⟩ := List.any_eq_true.mp (Bool.and_eq_true_iff.mp both).2
  rw [gt_irrefl] at greater
  cases greater

theorem dominates_trans (a b c : Assessment N J) (ab : filt.Dominates a b = true)
    (bc : filt.Dominates b c = true) : filt.Dominates a c = true := by
  obtain ⟨abAll, abAny⟩ := Bool.and_eq_true_iff.mp ab
  have bcAll := List.all_eq_true.mp (Bool.and_eq_true_iff.mp bc).1
  obtain ⟨m, inside, greater⟩ := List.any_eq_true.mp abAny
  rw [Dominates, Bool.and_eq_true]
  constructor
  · apply List.all_eq_true.mpr
    intro m inside
    exact ge_trans _ _ _ (List.all_eq_true.mp abAll m inside) (bcAll m inside)
  · exact List.any_eq_true.mpr ⟨m, inside, gt_of_gt_of_ge _ _ _ greater (bcAll m inside)⟩

omit [DecidableEq C] in
theorem mem_front {row : C × Assessment N J} :
    row ∈ filt.front rows ↔ row ∈ rows ∧ ∀ r ∈ rows, ¬filt.Dominates r.2 row.2 = true := by
  rw [front, List.mem_filter, Bool.not_eq_true', List.any_eq_false]

omit [DecidableEq C] in
/-- Above each row there is one of the front. -/
theorem exists_front {row : C × Assessment N J} (inside : row ∈ rows) :
    ∃ r ∈ filt.front rows, r = row ∨ filt.Dominates r.2 row.2 = true := by
  obtain ⟨r, inRows, above, unbeaten⟩ := @exists_unbeaten _
    (fun x y : C × Assessment N J => filt.Dominates x.2 y.2 = true)
    (fun x => not_dominates_self x.2) (fun x y z => dominates_trans x.2 y.2 z.2) _ _ inside
  exact ⟨r, mem_front.mpr ⟨inRows, unbeaten⟩, above⟩

omit [DecidableEq C] in
theorem front_nonempty (some : rows ≠ []) : filt.front rows ≠ [] := by
  obtain ⟨row, inside⟩ := List.exists_mem_of_ne_nil rows some
  have covered : ∃ r ∈ filt.front rows, r = row ∨ filt.Dominates r.2 row.2 = true :=
    exists_front inside
  obtain ⟨r, inFront, -⟩ := covered
  exact List.ne_nil_of_mem inFront

omit [DecidableEq C] in
theorem front_covers {row : C × Assessment N J} (inside : row ∈ rows)
    (excluded : row ∉ filt.front rows) :
    ∃ r ∈ filt.front rows, filt.Dominates r.2 row.2 = true := by
  have covered : ∃ r ∈ filt.front rows, r = row ∨ filt.Dominates r.2 row.2 = true :=
    exists_front inside
  obtain ⟨r, inFront, rfl | above⟩ := covered
  · exact absurd inFront excluded
  · exact ⟨r, inFront, above⟩

/-- A row that `select` keeps, where no comparison raises. -/
def kept (filt : ParetoFilter) (rows : Rows C N J) (row : C × Assessment N J) : Bool :=
  !(rows.filter fun r => r.1 ≠ row.1).any fun r => filt.Dominates r.2 row.2

theorem kept_eq_true {row : C × Assessment N J} : filt.kept rows row = true ↔
    ∀ r ∈ rows, r.1 ≠ row.1 → ¬filt.Dominates r.2 row.2 = true := by
  simp only [kept, Bool.not_eq_true', List.any_eq_false, List.mem_filter, decide_eq_true_eq]
  exact ⟨fun none r inside other => none r ⟨inside, other⟩, fun none r both => none r both.1 both.2⟩

/-- The front is what is kept if each dominated row has another candidate above it. -/
theorem filter_kept_eq_front :
    (rows.filter (filt.kept rows)).map Prod.fst = (filt.front rows).map Prod.fst ↔
      ∀ row ∈ rows, (∃ r ∈ rows, filt.Dominates r.2 row.2 = true) →
        ∃ r ∈ rows, r.1 ≠ row.1 ∧ filt.Dominates r.2 row.2 = true := by
  have fewer : List.Sublist (filt.front rows) (rows.filter (filt.kept rows)) := by
    apply List.monotone_filter_right
    intro row inFront
    rw [Bool.not_eq_true', List.any_eq_false] at inFront
    exact kept_eq_true.mpr fun r inside _ => inFront r inside
  constructor
  · intro same row inside dominated
    by_contra alone
    have keeps : row ∈ rows.filter (filt.kept rows) := by
      rw [List.mem_filter, kept_eq_true]
      exact ⟨inside, fun r inRows other above => alone ⟨r, inRows, other, above⟩⟩
    have length := congrArg List.length same
    rw [List.length_map, List.length_map] at length
    rw [← fewer.eq_of_length length.symm, mem_front] at keeps
    obtain ⟨r, inRows, above⟩ := dominated
    exact keeps.2 r inRows above
  · intro others
    apply congrArg (List.map Prod.fst)
    apply List.filter_congr
    intro row inside
    rw [Bool.eq_iff_iff, kept_eq_true, Bool.not_eq_true', List.any_eq_false]
    constructor
    · intro keeps r inRows above
      obtain ⟨r', inRows', other, above'⟩ := others row inside ⟨r, inRows, above⟩
      exact keeps r' inRows' other above'
    · exact fun unbeaten r inRows _ => unbeaten r inRows

omit [DecidableEq C] in
theorem firstRows_all (l : List C) (n : Nat) (fits : l.length ≤ n) : Vault.firstRows l n = l := by
  rw [Vault.firstRows, if_pos (Int.natCast_nonneg n)]
  exact List.take_of_length_le fits

/-- **`ParetoFilter.select` gives the first ones of the front, for every `k`, exactly where
each comparison that is reached is decided by the metrics in front of the first missing one,
and no row is dominated by rows of its own candidate only.** -/
theorem selects_iff_decided (filt : ParetoFilter) (rows : Rows C N J) :
    filt.Selects rows (filt.select rows) ↔ filt.Decided rows := by
  constructor
  · intro selects
    have shielded : ∀ row ∈ rows, Shielded (fun r => filt.Dominates r.2 row.2)
        (fun r => ¬filt.Decides r.2 row.2) (rows.filter fun r => r.1 ≠ row.1) := by
      intro row inside
      by_contra bare
      have raises := loop_error [] ⟨row, inside, isDominated_of_not_shielded bare⟩
      have first := selects.first 0
      rw [select, raises] at first
      cases first
    have first := selects.first rows.length
    rw [select_of_shielded shielded] at first
    have lists := Except.ok.inj first
    rw [firstRows_all _ _ (by rw [List.length_map]; exact List.length_filter_le _ _),
      firstRows_all _ _ (by rw [List.length_map]; exact List.length_filter_le _ _)] at lists
    have others := filter_kept_eq_front.mp lists
    exact fun row inside => ⟨shielded row inside, others row inside⟩
  · intro decided
    constructor
    · intro k
      rw [select_of_shielded fun row inside => (decided row inside).1]
      have lists := filter_kept_eq_front.mpr fun row inside => (decided row inside).2
      exact congrArg (fun l => Except.ok (Vault.firstRows l k)) lists
    · exact front_nonempty
    · exact fun row => front_covers

/-- Whole numbers, as metrics. -/
instance : Comparable Int where
  zero := 0
  ge x y := decide (y ≤ x)
  gt x y := decide (y < x)
  gt_irrefl x := by simp
  ge_trans x y z := by simpa using fun xy yz => Int.le_trans yz xy
  gt_of_gt_of_ge x y z := by simpa using fun xy yz => Int.lt_of_le_of_lt yz xy

/-- Of two candidates one lacks the metric: it is to count as 0, and the comparison raises. -/
theorem select_raises :
    let filt : ParetoFilter := ⟨["ibr"]⟩
    let rows : Rows Nat Int Unit := [(1, ⟨"a", [("ibr", 1)], "", none⟩), (2, ⟨"b", [], "", none⟩)]
    ¬filt.Selects rows (filt.select rows) ∧ filt.select rows 1 = .error .unsupported := by
  have raises : (⟨["ibr"]⟩ : ParetoFilter).select
      ([(1, ⟨"a", [("ibr", 1)], "", none⟩), (2, ⟨"b", [], "", none⟩)] : Rows Nat Int Unit) 1
      = .error .unsupported := by decide
  refine ⟨fun selects => ?_, raises⟩
  have first := selects.first 1
  rw [raises] at first
  cases first

end ParetoFilter

/-! ## NegativeControlFilter -/

/-- What stands in a list of rows: a tuple, a candidate, or an object with a field `cand`. -/
inductive Row (N J : Type) where
  | tuple (cand : Candidate) (assessment : Assessment N J)
  | candidate (cand : Candidate)
  | holder (cand : Candidate)

namespace Row

/-- `getattr(r, "cand", r)` -/
def cand : Row N J → Row N J
  | holder c => candidate c
  | r => r

/-- `getattr(cand, "source_asm", "")` -/
def sourceAsm : Row N J → String
  | candidate c => c.sourceAsm
  | _ => ""

/-- `getattr(cand, "structure_tags", [])` -/
def structureTags : Row N J → List String
  | candidate c => c.structureTags
  | _ => []

/-- `r[0]`, which only a tuple has. -/
def first : Row N J → Except TypeError Candidate
  | tuple c _ => .ok c
  | _ => .error .unsupported

end Row

/-- `part in text` -/
def isIn (part text : String) : Bool := decide (part.toList <:+: text.toList)

/-- A filter inside another one: it chooses among the candidates of its rows. -/
structure InnerFilter (N J : Type) where
  select : List (Row N J) → Int → Except TypeError (List Candidate)
  chooses : ∀ rows k cs, select rows k = .ok cs → ∀ c ∈ cs, ∃ r ∈ rows, r.first = .ok c

namespace NegativeControlFilter

/-- `_reject`, of the text and the tags that it finds. -/
def rejects (asm : String) (tags : List String) : Bool :=
  let hasLoad := isIn "ldr" asm || isIn "ldp" asm
  !hasLoad && tags.any (isIn "fs001")

def reject (cand : Row N J) : Bool := rejects cand.sourceAsm cand.structureTags

/-- What the inner filter makes of the rows; without one, the first of them. -/
def selectInner (inner : Option (InnerFilter N J)) (kept : List (Row N J)) (k : Int) :
    Except TypeError (List Candidate) :=
  match inner with
  | some inner => inner.select kept k
  | none => (Vault.firstRows kept k).mapM Row.first

def select (inner : Option (InnerFilter N J)) (rows : List (Row N J)) (k : Int) :
    Except TypeError (List Candidate) :=
  selectInner inner (rows.filter fun r => !reject r.cand) k

/-- The rows that `Pipeline.run` passes. -/
def pipelineRows (assessed : List (Candidate × Assessment N J)) : List (Row N J) :=
  assessed.map fun (c, a) => .tuple c a

/-- A candidate of no use: it has the tag, and no load. -/
def Refuted (c : Candidate) : Bool := rejects c.sourceAsm c.structureTags

/-- No refuted candidate, and what the inner filter makes of the others. -/
structure Selects (inner : Option (InnerFilter N J)) (assessed : List (Candidate × Assessment N J))
    (k : Int) (selected : Except TypeError (List Candidate)) : Prop where
  clean : ∀ cs, selected = .ok cs → ∀ c ∈ cs, Refuted c = false
  others : selected
    = selectInner inner (pipelineRows (assessed.filter fun row => !Refuted row.1)) k

omit [Comparable N] in
/-- A tuple is neither a candidate nor has it one to be found. -/
theorem reject_tuple (c : Candidate) (a : Assessment N J) :
    reject (Row.tuple c a).cand = false := by
  have none : rejects "" [] = false := by decide
  exact none

omit [Comparable N] in
/-- Of the pipeline's rows none is ever left out. -/
theorem select_pipelineRows (inner : Option (InnerFilter N J))
    (assessed : List (Candidate × Assessment N J)) (k : Int) :
    select inner (pipelineRows assessed) k = selectInner inner (pipelineRows assessed) k := by
  have all : (pipelineRows assessed).filter (fun r => !reject r.cand) = pipelineRows assessed := by
    apply List.filter_eq_self.mpr
    intro r inside
    obtain ⟨⟨c, a⟩, -, rfl⟩ := List.mem_map.mp inside
    rw [reject_tuple]
    rfl
  rw [select, all]

omit [Comparable N] in
theorem mapM_first (assessed : List (Candidate × Assessment N J)) :
    (pipelineRows assessed).mapM Row.first = .ok (assessed.map Prod.fst) := by
  induction assessed with
  | nil => rfl
  | cons row assessed ih =>
    change (Row.tuple row.1 row.2 :: pipelineRows assessed).mapM Row.first = _
    rw [List.mapM_cons, ih]
    rfl

omit [Comparable N] in
/-- Without an inner filter the first candidates come back. -/
theorem selectInner_none (assessed : List (Candidate × Assessment N J)) (k : Int) :
    selectInner none (pipelineRows assessed) k
      = .ok ((Vault.firstRows assessed k).map Prod.fst) := by
  have first : Vault.firstRows (pipelineRows assessed) k
      = pipelineRows (Vault.firstRows assessed k) := by
    simp only [Vault.firstRows, pipelineRows, List.map_take, List.length_map]
  rw [selectInner, first, mapM_first]

omit [Comparable N] in
/-- What is chosen of the pipeline's rows are candidates of theirs. -/
theorem selectInner_chooses {inner : Option (InnerFilter N J)}
    {assessed : List (Candidate × Assessment N J)} {k : Int} {cs : List Candidate}
    (chosen : selectInner inner (pipelineRows assessed) k = .ok cs) {c : Candidate}
    (inside : c ∈ cs) : ∃ row ∈ assessed, row.1 = c := by
  cases inner with
  | some inner =>
    obtain ⟨r, inRows, first⟩ := inner.chooses _ k cs chosen c inside
    obtain ⟨row, inAssessed, rfl⟩ := List.mem_map.mp inRows
    exact ⟨row, inAssessed, Except.ok.inj first⟩
  | none =>
    rw [selectInner_none] at chosen
    obtain rfl := Except.ok.inj chosen
    obtain ⟨row, inFirst, rfl⟩ := List.mem_map.mp inside
    exact ⟨row, List.mem_of_mem_take inFirst, rfl⟩

omit [Comparable N] in
/-- **On the rows of the pipeline the filter does what it is for, with each inner filter and
each `k`, exactly where there is no candidate that it would have to leave out.** -/
theorem selects_iff_clean (assessed : List (Candidate × Assessment N J)) :
    (∀ inner k, Selects inner assessed k (select inner (pipelineRows assessed) k)) ↔
      ∀ row ∈ assessed, Refuted row.1 = false := by
  constructor
  · intro selects row inside
    obtain ⟨clean, -⟩ := selects none assessed.length
    rw [select_pipelineRows, selectInner_none, ParetoFilter.firstRows_all _ _ le_rfl] at clean
    exact clean _ rfl row.1 (List.mem_map_of_mem inside)
  · intro good inner k
    have all : assessed.filter (fun row => !Refuted row.1) = assessed := by
      apply List.filter_eq_self.mpr
      intro row inside
      rw [good row inside]
      rfl
    constructor
    · intro cs chosen c inside
      rw [select_pipelineRows] at chosen
      obtain ⟨row, inAssessed, rfl⟩ := selectInner_chooses chosen inside
      exact good row inAssessed
    · rw [select_pipelineRows, all]

/-- A chain of additions with the tag, which is to be left out, is selected. -/
theorem select_passes_refuted :
    let chain : Candidate := ⟨"a", "add x9, x9, x9", [], [], [], "mutate:insn_seq", ["fs001_loadpath"]⟩
    let assessed : List (Candidate × Assessment Int Unit) := [(chain, ⟨"a", [], "", none⟩)]
    Refuted chain = true ∧ select none (pipelineRows assessed) 1 = .ok [chain] ∧
      ¬Selects none assessed 1 (select none (pipelineRows assessed) 1) := by
  intro chain assessed
  have refuted : Refuted chain = true := by decide
  have passed : select none (pipelineRows assessed) 1 = .ok [chain] := by
    rw [select_pipelineRows, selectInner_none]
    rfl
  refine ⟨refuted, passed, fun selects => ?_⟩
  have clean := selects.clean _ passed chain List.mem_cons_self
  rw [refuted] at clean
  cases clean

end NegativeControlFilter

end Silifuzz.SdcPipeline
