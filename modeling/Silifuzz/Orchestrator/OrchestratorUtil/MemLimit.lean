import Mathlib.Data.List.MinMax
import Mathlib.Tactic.Positivity
import Silifuzz.Orchestrator.OrchestratorUtil

/-!
# The memory limit

When `CapResourcesToMemLimit` leaves resources that fit the limit, or an error with the
resources as they were. It does not where less than a runner fits beside a shard, where the
largest file is empty, and where its numbers outgrow their types.
-/

namespace Silifuzz.OrchestratorUtil

open Absl

/-! ## What it is to do -/

/-- `after` fits the limit, with no more of anything than `before`. -/
structure Capped (estimate : Nat) (limit : Int) (before after : OrchestratorResources) :
    Prop where
  runner : 1 ≤ after.numConcurrentRunners.toNat
  shard : 1 ≤ after.shards.length
  runners : after.numConcurrentRunners.toNat ≤ before.numConcurrentRunners.toNat
  shards : after.shards.length ≤ before.shards.length
  fits : (estimate * after.shards.length + 512 * after.numConcurrentRunners.toNat : Int) ≤ limit

theorem Capped.limit_nonneg {estimate : Nat} {limit : Int} {before after : OrchestratorResources}
    (capped : Capped estimate limit before after) : 0 ≤ limit :=
  Int.le_trans (by positivity) capped.fits

/-- No fault, resources that fit, and an error only with the resources as they were. -/
def Meets (estimate : Nat) (limit : Int) (before : OrchestratorResources) :
    Except Fault (Except Status Unit × OrchestratorResources) → Prop
  | .error _ => False
  | .ok (.error _, after) => after = before
  | .ok (.ok (), after) => Capped estimate limit before after

/-! ## When it does it -/

/-- Megabytes, rounded up. -/
def megabytes (size : Nat) : Nat := (size + 2 ^ 20 - 1) / 2 ^ 20

/-- The first of the largest files. -/
def largestShard (shards : List String) (sizes : List Int) : Option String :=
  letI : Preorder Int := Int.instLinearOrder.toPreorder
  ((shards.zip sizes).argmax Prod.snd).map Prod.fst

/-- The numbers of megabytes, runners and shards that the code deals with. There is no runner
to ask for, or the budget beside one shard is no less than an `int64_t`; then there is no
budget, or it is enough for a runner, the shard is not empty, and as many shards as fit are
a positive `int`, when that is what their number is narrowed to. -/
def Manageable (limit : Int) (runners estimate : Nat) : Prop :=
  runners = 0 ∨
  -2 ^ 63 ≤ limit - estimate ∧
    (limit - estimate ≤ 0 ∨
      512 ≤ limit - estimate ∧ estimate ≠ 0 ∧
        0 < ((limit - 512 * min (runners : Int) ((limit - estimate) / 512)) / estimate).bmod (2 ^ 32))

/-- A file that is looked at cannot be, or the file that is loaded cannot be; or the files are
fewer than an `int` counts, the largest can be rounded up, and the numbers are manageable. -/
def Handles (files : Files) (limit : Int) (resources : OrchestratorResources) : Prop :=
  match (resources.shards.take (2 ^ 31)).mapM files.getFileSize with
  | .error _ => True
  | .ok sizes =>
    resources.shards.length < 2 ^ 31 ∧
      ∃ path, largestShard resources.shards sizes = some path ∧
        match loadCorpus files path with
        | .error _ => True
        | .ok size => size.toNat + 2 ^ 20 ≤ 2 ^ 64 ∧
          Manageable limit resources.numConcurrentRunners.toNat (megabytes size.toNat)

/-! ## The estimate -/

theorem argmax_foldl {α β : Type} [Preorder β] [DecidableLT β] (f : α → β) (a : α) (l : List α) :
    (a :: l).argmax f = some (l.foldl (fun best x => if f best < f x then x else best) a) := by
  have loop (l : List α) (a : α) : l.foldl (List.argAux fun b c => f c < f b) (some a)
      = some (l.foldl (fun best x => if f best < f x then x else best) a) := by
    induction l generalizing a with
    | nil => rfl
    | cons x l ih =>
      rw [List.foldl_cons, List.foldl_cons, ← ih]
      simp only [List.argAux]
      split <;> rfl
  exact loop l a

section

variable {α β : Type} {x : StatusOr α} {f : α → StatusOr β}

theorem run_bind_ok {a : α} (h : x.run = .ok (.ok a)) : (x >>= f).run = (f a).run := by
  rw [ExceptT.run_bind, h]
  rfl

theorem run_bind_status {status : Status} (h : x.run = .ok (.error status)) :
    (x >>= f).run = .ok (.error status) := by
  rw [ExceptT.run_bind, h]
  rfl

theorem run_bind_fault {e : Fault} (h : x.run = .error e) : (x >>= f).run = .error e := by
  rw [ExceptT.run_bind, h]
  rfl

end

variable {files : Files}

/-- The loop stops at a file it cannot look at, or at an `i` that overflows, or with the
first of the largest files. -/
theorem largestFrom_run {i : Nat} (bound : i < 2 ^ 31) (largestPath : String)
    (largestSize : Int) (paths : List String) :
    (largestFrom files i largestPath largestSize paths).run =
      match (paths.take (2 ^ 31 - i)).mapM files.getFileSize with
      | .error status => .ok (.error status)
      | .ok sizes =>
        if 2 ^ 31 ≤ i + paths.length then .error .signedOverflow
        else .ok (.ok ((paths.zip sizes).foldl
          (fun best x => if best.2 < x.2 then x else best) (largestPath, largestSize)).1) := by
  induction paths generalizing i largestPath largestSize with
  | nil =>
    rw [List.take_nil, List.mapM_nil]
    change _ = if 2 ^ 31 ≤ i + 0 then _ else _
    rw [if_neg (by omega)]
    rfl
  | cons path paths ih =>
    obtain ⟨n, left⟩ : ∃ n, 2 ^ 31 - i = n + 1 := ⟨2 ^ 31 - i - 1, by omega⟩
    rw [left, List.take_succ_cons, List.mapM_cons]
    cases looked : files.getFileSize path with
    | error status =>
      simp only [largestFrom, looked]
      rfl
    | ok size =>
      by_cases last : i = INT_MAX
      · have none : n = 0 := by
          rw [last, INT_MAX] at left
          omega
        subst none
        rw [List.take_zero, List.mapM_nil]
        simp only [largestFrom, looked, last]
        change _ = if 2 ^ 31 ≤ INT_MAX + (paths.length + 1) then _ else _
        rw [if_pos (by rw [INT_MAX]; omega)]
        rfl
      · have next : 2 ^ 31 - (i + 1) = n := by omega
        have rest := ih (i := i + 1) (by rw [INT_MAX] at last; omega)
          (if size > largestSize then path else largestPath)
          (if size > largestSize then size else largestSize)
        rw [next] at rest
        have step : (largestFrom files i largestPath largestSize (path :: paths)).run
            = (largestFrom files (i + 1) (if size > largestSize then path else largestPath)
              (if size > largestSize then size else largestSize) paths).run := by
          simp only [largestFrom, looked, last, if_false]
          rfl
        rw [step, rest]
        cases (paths.take n).mapM files.getFileSize with
        | error status => rfl
        | ok sizes =>
          change (if _ then _ else _) = if 2 ^ 31 ≤ i + (paths.length + 1) then _ else _
          simp only [Nat.add_assoc, Nat.add_comm 1, List.zip_cons_cons, List.foldl_cons]
          by_cases larger : size > largestSize
          · simp only [larger, if_true]
          · simp only [larger, if_false]

/-- Bits above a mask of 20 bits, as a quotient. -/
theorem masked_div (x : BitVec 64) : ((x &&& ~~~(kMb - 1)) / kMb).toNat = x.toNat / 2 ^ 20 := by
  have shifted : (x &&& ~~~(kMb - 1)) >>> 20 = x >>> 20 := by
    have mask : kMb - 1 = (BitVec.allOnes 20).setWidth 64 := by decide
    rw [mask]
    ext i below
    simp only [BitVec.getElem_ushiftRight, BitVec.getLsbD_and, BitVec.getLsbD_not,
      BitVec.getLsbD_setWidth, BitVec.getLsbD_allOnes]
    by_cases inside : 20 + i < 64
    · simp [inside]
    · simp [BitVec.getLsbD_of_ge x (20 + i) (by omega)]
  have divided := congrArg BitVec.toNat shifted
  rw [BitVec.toNat_ushiftRight, BitVec.toNat_ushiftRight, Nat.shiftRight_eq_div_pow,
    Nat.shiftRight_eq_div_pow] at divided
  exact divided

theorem uaddOverflow_kMb (size : BitVec 64) :
    size.uaddOverflow (kMb - 1) = true ↔ ¬size.toNat + 2 ^ 20 ≤ 2 ^ 64 := by
  have number : (kMb - 1).toNat = 2 ^ 20 - 1 := by decide
  rw [BitVec.uaddOverflow, number, decide_eq_true_eq]
  omega

theorem roundUpToPowerOfTwo_some {size : BitVec 64} (small : size.toNat + 2 ^ 20 ≤ 2 ^ 64) :
    roundUpToPowerOfTwo size kMb = some ((size + (kMb - 1)) &&& ~~~(kMb - 1)) := by
  have positive : ¬¬0 < kMb := by decide
  have power : ¬kMb &&& (kMb - 1) ≠ 0 := by decide
  have fits : ¬size.uaddOverflow (kMb - 1) = true :=
    fun overflow => (uaddOverflow_kMb size).mp overflow small
  rw [roundUpToPowerOfTwo, if_neg positive, if_neg power, if_neg fits]

theorem roundUpToPowerOfTwo_none {size : BitVec 64} (large : ¬size.toNat + 2 ^ 20 ≤ 2 ^ 64) :
    roundUpToPowerOfTwo size kMb = none := by
  have positive : ¬¬0 < kMb := by decide
  have power : ¬kMb &&& (kMb - 1) ≠ 0 := by decide
  have overflow := (uaddOverflow_kMb size).mpr large
  rw [roundUpToPowerOfTwo, if_neg positive, if_neg power, if_pos overflow]

/-- The estimate is the number of megabytes of the largest file, if all goes well. -/
theorem estimateLargestCorpusSizeMb_run {shards : List String} (nonempty : shards ≠ []) :
    (estimateLargestCorpusSizeMb files shards).run =
      match (shards.take (2 ^ 31)).mapM files.getFileSize with
      | .error status => .ok (.error status)
      | .ok sizes =>
        if 2 ^ 31 ≤ shards.length then .error .signedOverflow
        else
          match (largestShard shards sizes).map (loadCorpus files) with
          | none => .error .check
          | some (.error status) => .ok (.error status)
          | some (.ok size) => (roundedMb size).run := by
  cases shards with
  | nil => exact absurd rfl nonempty
  | cons path paths =>
    obtain ⟨n, bound⟩ : ∃ n : Nat, 2 ^ 31 = n + 1 := ⟨2 ^ 31 - 1, by omega⟩
    rw [bound, List.take_succ_cons, List.mapM_cons, estimateLargestCorpusSizeMb]
    cases looked : files.getFileSize path with
    | error status => rfl
    | ok size =>
      have loop := @largestFrom_run files 1 (by decide) path size paths
      rw [bound, Nat.add_sub_cancel] at loop
      rw [run_bind_ok (x := ExceptT.mk (.ok (.ok size))) rfl]
      cases rest : (paths.take n).mapM files.getFileSize with
      | error status =>
        rw [rest] at loop
        rw [run_bind_status loop]
        rfl
      | ok sizes =>
        have chosen : largestShard (path :: paths) (size :: sizes)
            = some ((paths.zip sizes).foldl
              (fun best x => if best.2 < x.2 then x else best) (path, size)).1 := by
          rw [largestShard, List.zip_cons_cons, argmax_foldl]
          rfl
        rw [rest] at loop
        change _ = if n + 1 ≤ paths.length + 1 then _ else
          match (largestShard (path :: paths) (size :: sizes)).map (loadCorpus files) with
          | none => _
          | some (.error status) => _
          | some (.ok size) => _
        by_cases many : n + 1 ≤ paths.length + 1
        · rw [if_pos many]
          exact run_bind_fault (loop.trans (if_pos (Nat.add_comm _ 1 ▸ many)))
        · rw [if_neg many, chosen, Option.map_some,
            run_bind_ok (loop.trans (if_neg (Nat.add_comm _ 1 ▸ many)))]
          cases loadCorpus files ((paths.zip sizes).foldl
            (fun best x => if best.2 < x.2 then x else best) (path, size)).1 with
          | error status => exact run_bind_status rfl
          | ok size => exact run_bind_ok rfl

/-! ## The numbers -/

theorem toNat_minUint64 (a b : BitVec 64) : (minUint64 a b).toNat = min a.toNat b.toNat := by
  rw [minUint64]
  split <;> (rename_i less; rw [BitVec.lt_def] at less; omega)

theorem toInt_minInt {n : Nat} (few : n < 2 ^ 31) (q : BitVec 64) :
    (minInt (BitVec.ofNat 64 n) q).toInt = min (n : Int) ((q.toNat : Int).bmod (2 ^ 32)) := by
  have count : (BitVec.setWidth 32 (BitVec.ofNat 64 n)).toInt = n := by
    have fits : n < 2 ^ 64 := by omega
    rw [BitVec.toInt_setWidth, BitVec.toNat_ofNat, Nat.mod_eq_of_lt fits]
    exact Int.bmod_eq_of_le (by omega) (by omega)
  have quotient : (q.setWidth 32).toInt = (q.toNat : Int).bmod (2 ^ 32) := BitVec.toInt_setWidth q
  simp only [minInt, BitVec.slt, count, quotient, decide_eq_true_eq]
  generalize (q.toNat : Int).bmod (2 ^ 32) = narrowed at *
  split
  · rw [quotient]
    omega
  · rw [count]
    omega

theorem min_nonpos {n : Nat} (some : 0 < n) (b : Int) : min (n : Int) b ≤ 0 ↔ ¬0 < b := by omega

/-- A positive `int` is its number. -/
theorem toNat_of_pos {n : BitVec 32} (positive : ¬n.toInt ≤ 0) : (n.toNat : Int) = n.toInt := by
  have cond := BitVec.toInt_eq_toNat_cond n
  have below := n.isLt
  split at cond <;> omega

theorem length_resize {shards : List String} {n : Nat} (fits : n ≤ shards.length) :
    (resize shards n).length = n := by
  rw [resize, Nat.sub_eq_zero_of_le fits, List.replicate_zero, List.append_nil,
    List.length_take_of_le fits]

/-- The budget beside one shard, and when it wraps. -/
theorem toInt_budget (limit : BitVec 64) {estimate : BitVec 64}
    (small : estimate.toNat ≤ 2 ^ 44) :
    (limit - estimate).toInt = if -2 ^ 63 ≤ limit.toInt - estimate.toNat then
      limit.toInt - estimate.toNat else limit.toInt - estimate.toNat + 2 ^ 64 := by
  have lower := BitVec.le_toInt limit
  have upper := BitVec.toInt_lt (x := limit)
  have number : estimate.toInt = estimate.toNat := BitVec.toInt_eq_toNat_of_lt (by omega)
  rw [BitVec.toInt_sub, number, Int.bmod]
  split <;> omega

theorem sle_zero {w : Nat} (x : BitVec w) : x.sle 0 = true ↔ x.toInt ≤ 0 := by
  rw [BitVec.sle, decide_eq_true_eq]
  change x.toInt ≤ (0#w).toInt ↔ _
  rw [BitVec.toInt_zero]

variable {shuffle : Shuffle} {limit estimate : BitVec 64} {resources : OrchestratorResources}

/-- With a budget, the outcome is that of its quotients. -/
theorem capToEstimate_budget {budget : Nat} (positive : 0 < budget)
    (number : (limit - estimate).toInt = budget) :
    capToEstimate shuffle limit resources estimate =
      let runners := minUint64 resources.numConcurrentRunners ((limit - estimate) / 512)
      let left := (limit - estimate - 512 * runners + estimate) / estimate
      let maxShards := minInt (BitVec.ofNat 64 resources.shards.length) left
      if runners = 0 then
        .ok (.error (resourceExhaustedError <|
          s!"Not enough memory to run {runners.toNat} runners " ++
            s!"with the given budget of {limit.toInt}MB"),
          { resources with numConcurrentRunners := runners })
      else if estimate = 0 then .error .divisionByZero
      else if maxShards.toInt ≤ 0 then .error .check
      else .ok (.ok (), {
        numConcurrentRunners := runners
        shards := resize (shuffle.shuffled resources.shards) maxShards.toNat }) := by
  have some : ¬(limit - estimate).toInt ≤ 0 := by omega
  simp only [capToEstimate, sle_zero, some, if_false, kSingleRunnerMemoryUsageMb]

theorem capToEstimate_none (none : (limit - estimate).toInt ≤ 0) :
    Meets estimate.toNat limit.toInt resources (capToEstimate shuffle limit resources estimate) := by
  simp only [capToEstimate, sle_zero, none, if_true]
  rfl

/-- An error leaves the resources as they were if it leaves the number of runners. -/
theorem meets_error {estimate : Nat} {limit : Int} {status : Status} {runners : BitVec 64} :
    Meets estimate limit resources
      (.ok (.error status, { resources with numConcurrentRunners := runners })) ↔
      runners.toNat = resources.numConcurrentRunners.toNat := by
  constructor
  · intro kept
    exact congrArg (fun r => r.numConcurrentRunners.toNat) kept
  · intro same
    exact congrArg (OrchestratorResources.mk · resources.shards) (BitVec.eq_of_toNat_eq same)

theorem toNat_megabytes : (512 : BitVec 64).toNat = 512 := by decide

/-- The memory for runners is taken from the budget, and that for the shard is put back. -/
theorem toNat_left {budget estimate runners : BitVec 64} (small : estimate.toNat ≤ 2 ^ 44)
    (int64 : budget.toNat < 2 ^ 63) (fit : 512 * runners.toNat ≤ budget.toNat) :
    (budget - 512 * runners + estimate).toNat
      = budget.toNat - 512 * runners.toNat + estimate.toNat := by
  have memory : (512 * runners).toNat = 512 * runners.toNat := by
    rw [BitVec.toNat_mul, toNat_megabytes]
    exact Nat.mod_eq_of_lt (Nat.lt_of_le_of_lt fit budget.isLt)
  have rest : (budget - 512 * runners).toNat = budget.toNat - 512 * runners.toNat := by
    rw [BitVec.toNat_sub_of_le (BitVec.le_def.mpr (memory ▸ fit)), memory]
  rw [BitVec.toNat_add, rest]
  exact Nat.mod_eq_of_lt (by omega)

/-- A number that is narrowed is not made larger. -/
theorem bmod_le (q : Nat) : (q : Int).bmod (2 ^ 32) ≤ q := by
  rw [Int.bmod]
  split <;> omega

theorem toNat_runners (runners budget : BitVec 64) :
    (minUint64 runners (budget / 512)).toNat = min runners.toNat (budget.toNat / 512) := by
  rw [toNat_minUint64, BitVec.toNat_udiv, toNat_megabytes]

/-- What is manageable, when there is a budget. -/
theorem manageable_budget {limit : Int} {runners estimate budget : Nat}
    (same : limit - estimate = budget) (positive : 0 < budget) :
    Manageable limit runners estimate ↔ runners = 0 ∨ 512 ≤ budget ∧ estimate ≠ 0 ∧
      0 < (((budget - 512 * min runners (budget / 512) + estimate) / estimate : Nat) : Int).bmod
        (2 ^ 32) := by
  have quotient : (limit - 512 * min (runners : Int) ((limit - estimate) / 512)) / estimate
      = ((budget - 512 * min runners (budget / 512) + estimate) / estimate : Nat) := by
    have left : limit - 512 * min (runners : Int) ((limit - estimate) / 512)
        = (budget - 512 * min runners (budget / 512) + estimate : Nat) := by
      rw [same]
      omega
    rw [left, Int.natCast_ediv]
  rw [Manageable, quotient, same]
  constructor
  · rintro (none | ⟨-, nothing | ⟨enough, shard, narrowed⟩⟩)
    · exact .inl none
    · omega
    · exact .inr ⟨by omega, shard, narrowed⟩
  · rintro (none | ⟨enough, shard, narrowed⟩)
    · exact .inl none
    · exact .inr ⟨by omega, .inr ⟨by omega, shard, narrowed⟩⟩

/-- A runner that is left has memory in the budget. -/
theorem enough_of_runner {runners asked budget : Nat} (count : runners = min asked (budget / 512))
    (some : runners ≠ 0) : 512 ≤ budget := by omega

/-- What is not for runners is left for shards. -/
theorem budget_total {limit : Int} {estimate runners asked budget : Nat}
    (same : limit - estimate = budget) (count : runners = min asked (budget / 512)) :
    ((budget - 512 * runners + estimate : Nat) + 512 * runners : Int) = limit := by omega

/-- A quotient of shards, narrowed to a positive number, is a number of shards that fits. -/
theorem capped_of_quotient {estimate budget : Nat} {limit : Int} {before : OrchestratorResources}
    {runners : BitVec 64} {shards : List String}
    (some : runners.toNat ≠ 0) (fewer : runners.toNat ≤ before.numConcurrentRunners.toNat)
    (left : (budget + 512 * runners.toNat : Int) = limit)
    (shard : 1 ≤ shards.length) (less : shards.length ≤ before.shards.length)
    (fits : shards.length ≤ budget / estimate) :
    Capped estimate limit before ⟨runners, shards⟩ where
  runner := Nat.pos_of_ne_zero some
  shard := shard
  runners := fewer
  shards := less
  fits := by
    have product : estimate * shards.length ≤ budget :=
      Nat.le_trans (Nat.mul_le_mul_left estimate fits) (Nat.mul_div_le budget estimate)
    rw [← left]
    exact Int.add_le_add_right (by exact_mod_cast product) _

/-- Below the type's bound the memory limit is kept where it is manageable, and only there. -/
theorem capToEstimate_meets_fits (small : estimate.toNat ≤ 2 ^ 44)
    (nonempty : 0 < resources.shards.length) (few : resources.shards.length < 2 ^ 31)
    (fits : -2 ^ 63 ≤ limit.toInt - estimate.toNat) :
    Meets estimate.toNat limit.toInt resources (capToEstimate shuffle limit resources estimate) ↔
      Manageable limit.toInt resources.numConcurrentRunners.toNat estimate.toNat := by
  have number := toInt_budget limit small
  rw [if_pos fits] at number
  rcases le_or_gt (limit.toInt - estimate.toNat) 0 with none | some
  · exact iff_of_true (capToEstimate_none (number ▸ none)) (.inr ⟨fits, .inl none⟩)
  · obtain ⟨budget, same⟩ := Int.eq_ofNat_of_zero_le (Int.le_of_lt some)
    have positive : 0 < budget := by omega
    have upper := BitVec.toInt_lt (x := limit - estimate)
    have natural : (limit - estimate).toNat = budget := by
      have cond := BitVec.toInt_eq_toNat_cond (limit - estimate)
      rw [number, same] at cond
      split at cond <;> omega
    rw [capToEstimate_budget positive (number.trans same), manageable_budget same positive]
    simp only
    generalize counted : minUint64 resources.numConcurrentRunners ((limit - estimate) / 512)
      = runners
    have count : runners.toNat = min resources.numConcurrentRunners.toNat (budget / 512) := by
      rw [← counted, toNat_runners, natural]
    have left := @toNat_left (limit - estimate) estimate runners small (by omega) (by omega)
    rw [natural] at left
    rw [← count]
    by_cases zero : runners = 0
    · have none : runners.toNat = 0 := by rw [zero]; rfl
      rw [if_pos zero, meets_error, none]
      constructor
      · intro same
        exact .inl same.symm
      · intro manageable
        omega
    · have some : runners.toNat ≠ 0 := fun none => zero (BitVec.eq_of_toNat_eq none)
      rw [if_neg zero]
      by_cases empty : estimate = 0
      · have none : estimate.toNat = 0 := by rw [empty]; rfl
        rw [if_pos empty]
        exact iff_of_false id (by omega)
      · have shard : estimate.toNat ≠ 0 := fun none => empty (BitVec.eq_of_toNat_eq none)
        rw [if_neg empty]
        have quotient : ((limit - estimate - 512 * runners + estimate) / estimate).toNat
            = (budget - 512 * runners.toNat + estimate.toNat) / estimate.toNat := by
          rw [BitVec.toNat_udiv, left]
        have narrowed := toInt_minInt few ((limit - estimate - 512 * runners + estimate) / estimate)
        rw [quotient] at narrowed
        generalize minInt (BitVec.ofNat 64 resources.shards.length)
          ((limit - estimate - 512 * runners + estimate) / estimate) = maxShards at narrowed ⊢
        have none : maxShards.toInt ≤ 0 ↔ _ := narrowed ▸ min_nonpos nonempty _
        by_cases fails : maxShards.toInt ≤ 0
        · rw [if_pos fails]
          have negative := none.mp fails
          refine iff_of_false id ?_
          rintro (zero | ⟨-, -, positive⟩)
          · exact some (by rw [count, zero, Nat.zero_min])
          · exact negative positive
        · rw [if_neg fails]
          have positive := not_not.mp (none.not.mp fails)
          refine iff_of_true ?_ (.inr ⟨?_, shard, positive⟩)
          · have number := toNat_of_pos fails
            have fewer : (maxShards.toNat : Int) ≤ resources.shards.length :=
              number ▸ narrowed ▸ Int.min_le_left _ _
            have fitting : (maxShards.toNat : Int) ≤ _ :=
              number ▸ narrowed ▸ Int.le_trans (Int.min_le_right _ _) (bmod_le _)
            have kept : maxShards.toNat ≤ (shuffle.shuffled resources.shards).length := by
              rw [(shuffle.perm resources.shards).length_eq]
              exact_mod_cast fewer
            have length := length_resize kept
            apply capped_of_quotient some (count ▸ Nat.min_le_left _ _) (budget_total same count)
            · rw [length]
              exact Int.natCast_pos.mp (number ▸ not_le.mp fails)
            · rw [length]
              exact_mod_cast fewer
            · rw [length]
              exact_mod_cast fitting
          · exact enough_of_runner count some

/-- Where the budget wraps, the memory limit is kept only without a runner to ask for. -/
theorem capToEstimate_meets_wraps (small : estimate.toNat ≤ 2 ^ 44)
    (wraps : ¬-2 ^ 63 ≤ limit.toInt - estimate.toNat) :
    Meets estimate.toNat limit.toInt resources (capToEstimate shuffle limit resources estimate) ↔
      Manageable limit.toInt resources.numConcurrentRunners.toNat estimate.toNat := by
  have number := toInt_budget limit small
  rw [if_neg wraps] at number
  have lower := BitVec.le_toInt limit
  obtain ⟨budget, same⟩ := Int.eq_ofNat_of_zero_le
    (a := limit.toInt - estimate.toNat + 2 ^ 64) (by omega)
  have large : 512 ≤ budget := by omega
  have natural : (limit - estimate).toNat = budget := by
    have cond := BitVec.toInt_eq_toNat_cond (limit - estimate)
    rw [number, same] at cond
    split at cond <;> omega
  have manageable : Manageable limit.toInt resources.numConcurrentRunners.toNat estimate.toNat ↔
      resources.numConcurrentRunners.toNat = 0 := by
    constructor
    · rintro (none | ⟨fits, -⟩)
      · exact none
      · exact absurd fits wraps
    · exact .inl
  have negative : limit.toInt < 0 := by omega
  rw [capToEstimate_budget (by omega) (number.trans same), manageable]
  simp only
  generalize counted : minUint64 resources.numConcurrentRunners ((limit - estimate) / 512)
    = runners
  have count : runners.toNat = min resources.numConcurrentRunners.toNat (budget / 512) := by
    rw [← counted, toNat_runners, natural]
  by_cases zero : runners = 0
  · have none : runners.toNat = 0 := by rw [zero]; rfl
    rw [if_pos zero, meets_error, none]
    exact eq_comm
  · have asked : resources.numConcurrentRunners.toNat ≠ 0 := by
      intro none
      exact zero (BitVec.eq_of_toNat_eq (count.trans (by rw [none, Nat.zero_min]; rfl)))
    rw [if_neg zero]
    refine iff_of_false ?_ asked
    intro meets
    split at meets
    · exact meets
    · split at meets
      · exact meets
      · exact absurd (Capped.limit_nonneg meets) (not_le.mpr negative)

/-- With the estimate at hand, the memory limit is kept where it is manageable, and only
there. -/
theorem capToEstimate_meets (shuffle : Shuffle) (limit : BitVec 64)
    (small : estimate.toNat ≤ 2 ^ 44)
    (nonempty : 0 < resources.shards.length) (few : resources.shards.length < 2 ^ 31) :
    Meets estimate.toNat limit.toInt resources (capToEstimate shuffle limit resources estimate) ↔
      Manageable limit.toInt resources.numConcurrentRunners.toNat estimate.toNat := by
  by_cases fits : -2 ^ 63 ≤ limit.toInt - estimate.toNat
  · exact capToEstimate_meets_fits small nonempty few fits
  · exact capToEstimate_meets_wraps small fits

/-! ## The whole call -/

/-- The estimate that the outcome is measured with. -/
def estimateOf (files : Files) (shards : List String) : Nat :=
  match (estimateLargestCorpusSizeMb files shards).run with
  | .ok (.ok estimate) => estimate.toNat
  | _ => 0

theorem toNat_rounded {size : BitVec 64} (small : size.toNat + 2 ^ 20 ≤ 2 ^ 64) :
    (((size + (kMb - 1)) &&& ~~~(kMb - 1)) / kMb).toNat = megabytes size.toNat := by
  have number : (kMb - 1).toNat = 2 ^ 20 - 1 := by decide
  rw [masked_div, BitVec.toNat_add, number, Nat.mod_eq_of_lt (by omega), megabytes]
  omega

theorem megabytes_le {size : BitVec 64} : megabytes size.toNat ≤ 2 ^ 44 := by
  have bound := size.isLt
  rw [megabytes]
  omega

/-- **`CapResourcesToMemLimit` leaves resources that fit the limit, or an error with the
resources as they were, exactly where it handles its files and numbers.** -/
theorem capResourcesToMemLimit_exact (files : Files) (shuffle : Shuffle) (limit : BitVec 64)
    (resources : OrchestratorResources) (nonempty : resources.shards ≠ []) :
    Meets (estimateOf files resources.shards) limit.toInt resources
        (capResourcesToMemLimit files shuffle limit resources) ↔
      Handles files limit.toInt resources := by
  have run := @estimateLargestCorpusSizeMb_run files _ nonempty
  rw [capResourcesToMemLimit, estimateOf, Handles]
  cases looked : (resources.shards.take (2 ^ 31)).mapM files.getFileSize with
  | error status =>
    rw [looked] at run
    rw [run]
    exact iff_of_true rfl trivial
  | ok sizes =>
    rw [looked] at run
    dsimp only at run ⊢
    by_cases many : 2 ^ 31 ≤ resources.shards.length
    · rw [if_pos many] at run
      rw [run]
      exact iff_of_false id fun handles => absurd handles.1 (not_lt.mpr many)
    · rw [if_neg many] at run
      cases chosen : largestShard resources.shards sizes with
      | none =>
        rw [chosen] at run
        have fails : (estimateLargestCorpusSizeMb files resources.shards).run = .error .check := run
        rw [fails]
        refine iff_of_false id ?_
        rintro ⟨-, path, same, -⟩
        cases same
      | some path =>
        rw [chosen, Option.map_some] at run
        have only (P : String → Prop) : (resources.shards.length < 2 ^ 31 ∧
            ∃ p, some path = some p ∧ P p) ↔ P path := by
          constructor
          · rintro ⟨-, p, same, holds⟩
            exact Option.some.inj same ▸ holds
          · exact fun holds => ⟨not_le.mp many, path, rfl, holds⟩
        rw [only]
        cases loaded : loadCorpus files path with
        | error status =>
          rw [loaded] at run
          have fails : (estimateLargestCorpusSizeMb files resources.shards).run
              = .ok (.error status) := run
          rw [fails]
          exact iff_of_true rfl trivial
        | ok size =>
          rw [loaded] at run
          have rounded : (estimateLargestCorpusSizeMb files resources.shards).run
              = (roundedMb size).run := run
          rw [rounded, roundedMb]
          by_cases small : size.toNat + 2 ^ 20 ≤ 2 ^ 64
          · rw [roundUpToPowerOfTwo_some small]
            have number := toNat_rounded small
            have estimated : (inMb (some ((size + (kMb - 1)) &&& ~~~(kMb - 1)))).run
                = .ok (.ok (((size + (kMb - 1)) &&& ~~~(kMb - 1)) / kMb)) := rfl
            rw [estimated]
            generalize ((size + (kMb - 1)) &&& ~~~(kMb - 1)) / kMb = estimate at number
            have bound : estimate.toNat ≤ 2 ^ 44 := number ▸ megabytes_le
            have meets := capToEstimate_meets shuffle limit bound
              (List.length_pos_iff.mpr nonempty) (not_le.mp many)
            refine meets.trans ?_
            rw [number]
            exact ⟨fun manageable => ⟨small, manageable⟩, And.right⟩
          · rw [roundUpToPowerOfTwo_none small]
            exact iff_of_false id fun handles => small handles.1

/-- Files of one size, all of which can be read. -/
def filesOf (size : BitVec 64) : Files where
  getFileSize _ := .ok size.toNat
  readXzipFile _ := .ok size
  readCord _ := .ok size
  writeSharedMemoryFile _ := .ok ()

/-- Nothing is moved. -/
def still : Shuffle := ⟨id, fun _ => .refl _⟩

theorem loadCorpus_filesOf (size : BitVec 64) (path : String) :
    loadCorpus (filesOf size) path = .ok size := by
  simp only [loadCorpus]
  split <;> rfl

theorem estimate_filesOf {size estimate : BitVec 64} {path : String}
    (rounded : (roundedMb size).run = .ok (.ok estimate)) :
    (estimateLargestCorpusSizeMb (filesOf size) [path]).run = .ok (.ok estimate) := by
  rw [estimateLargestCorpusSizeMb]
  refine (run_bind_ok (a := (size.toNat : Int)) rfl).trans ?_
  refine (run_bind_ok (a := path) rfl).trans ?_
  exact (run_bind_ok (congrArg Except.ok (loadCorpus_filesOf size path))).trans rounded

/-- With one byte in the only shard and a limit below a runner's memory, the error leaves no
runner; without a byte the number of shards is divided by zero. -/
theorem capResourcesToMemLimit_wrong :
    ¬Meets (estimateOf (filesOf 1) ["shard"]) (100 : BitVec 64).toInt ⟨1, ["shard"]⟩
      (capResourcesToMemLimit (filesOf 1) still 100 ⟨1, ["shard"]⟩) ∧
    capResourcesToMemLimit (filesOf 0) still 1024 ⟨1, ["shard"]⟩ = .error .divisionByZero := by
  have small := @estimate_filesOf 1 1 "shard" rfl
  have empty := @estimate_filesOf 0 0 "shard" rfl
  constructor
  · have left : capResourcesToMemLimit (filesOf 1) still 100 ⟨1, ["shard"]⟩
        = .ok (.error ⟨.resourceExhausted,
          "Not enough memory to run 0 runners with the given budget of 100MB"⟩,
          ⟨0, ["shard"]⟩) := by
      rw [capResourcesToMemLimit, small]
      rfl
    rw [left]
    intro kept
    cases kept
  · rw [capResourcesToMemLimit, empty]
    rfl

/-- A limit of a shard and a runner. -/
theorem capResourcesToMemLimit_exact_one :
    Meets (estimateOf (filesOf 1) ["shard"]) (513 : BitVec 64).toInt ⟨1, ["shard"]⟩
        (capResourcesToMemLimit (filesOf 1) still 513 ⟨1, ["shard"]⟩) ↔
      Handles (filesOf 1) (513 : BitVec 64).toInt ⟨1, ["shard"]⟩ :=
  capResourcesToMemLimit_exact (filesOf 1) still 513 ⟨1, ["shard"]⟩ (List.cons_ne_nil _ _)

end Silifuzz.OrchestratorUtil
