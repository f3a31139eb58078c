import Silifuzz.Runner.RunnerFlags
import Silifuzz.Library.Loops

/-!
# RunnerMain

`Main` of `runner/runner_main.cc`, which copies the flags into the options that a runner gets,
and the command lines whose flags all take effect there. An option that is left out, and
variables of other types than the options, keep some from doing so.
-/

namespace Silifuzz

namespace RunnerMain

open Atoi RunnerFlags

/-- What `Main` looks at of a corpus. -/
structure SnapCorpus where
  snapsSize : BitVec 64
  architectureId : BitVec 8

structure RunnerMainOptions where
  corpus : SnapCorpus
  numIterations : BitVec 64 := 1000000
  runTimeBudgetMs : BitVec 64 := -1
  seed : BitVec 64 := 0
  cpu : BitVec 32 := -1
  snapId : Option CString := none
  corpusName : CString
  enableTracer : Bool := false
  pid : BitVec 32 := -1
  batchSize : BitVec 64 := 10
  scheduleSize : BitVec 64 := 100
  sequentialMode : Bool := false
  corpusFd : BitVec 32 := -1
  skipEndStateCheck : Bool := false
  strict : Bool
  maxPagesToAdd : BitVec 32 := 0

/-- The system: the corpora that can be loaded from a file, with or without a verification, the
process and the time, and the architecture of the host. -/
structure Environment where
  loadCorpusFromFile : CString → Bool → Option (SnapCorpus × BitVec 32)
  pid : BitVec 32
  tvSec : BitVec 64
  hostArchitectureId : BitVec 8

/-- `LoadCorpus` of `runner/loading_snap_corpus.cc`: the corpus and its file's descriptor. -/
def loadCorpus (env : Environment) (filename : Option CString) (verify : Bool) :
    Option (SnapCorpus × BitVec 32) :=
  match filename with
  | none => none
  | some filename => env.loadCorpusFromFile filename verify

/-- The loop of `RemoveLeadingDirectory`, with `str_begin` and `str_end`. -/
def strBegin (begin strEnd : Nat) : List Char8 → Nat
  | [] => begin
  | c :: rest =>
    if c = 0x2f ∧ rest ≠ [] then strBegin (strEnd + 1) (strEnd + 1) rest
    else strBegin begin (strEnd + 1) rest

def removeLeadingDirectory (fileName : CString) : CString :=
  fileName.drop (strBegin 0 0 fileName.chars)

/-- The seed if none is given; an `int` takes the remainder. -/
def pidTimeSeed (env : Environment) : BitVec 64 :=
  let seed := ((env.tvSec * 181 * ((env.pid - 83) * 359).signExtend 64).srem 104729).setWidth 32
  if seed.toInt > 0 then seed.signExtend 64 else (-seed).signExtend 64

/-- The function that `Main` ends with. -/
inductive Mode where
  | makerMain
  | runnerMainSequential
  | runnerMain
  deriving DecidableEq

inductive MainEnd where
  | exitFailure (error : Message)
  | exitSuccess
  | fatal (error : Message)
  | runs (mode : Mode) (options : RunnerMainOptions)

/-- The options from the flags. -/
def mainOptions (env : Environment) (flags : Flags) (corpus : SnapCorpus) (corpusFd : BitVec 32)
    (corpusName : CString) : RunnerMainOptions where
  strict := flags.strict
  corpus := corpus
  corpusFd := corpusFd
  corpusName := corpusName
  cpu := flags.cpu
  snapId := flags.snapId
  numIterations := flags.numIterations.signExtend 64
  enableTracer := flags.enableTracer
  runTimeBudgetMs := flags.runTimeBudgetMs.signExtend 64
  pid := env.pid
  seed := if flags.seed = 0 then pidTimeSeed env else flags.seed
  batchSize := flags.batchSize
  scheduleSize := flags.scheduleSize
  sequentialMode := flags.sequentialMode
  maxPagesToAdd := if flags.make then flags.maxPagesToAdd.setWidth 32 else 0

def builtinName : CString where
  chars := ascii ['<', 'b', 'u', 'i', 'l', 't', 'i', 'n', '>']
  nonzero := CString.nonzero_of_all (by decide)

/-- `Main`, on the arguments after the program's name. -/
def main (env : Environment) (args : List CString) : MainEnd :=
  match parseRunnerFlags args with
  | .error message => .exitFailure message
  | .ok (flags, rest) =>
    if flags.help then .exitSuccess
    else
      match rest.head?.filter fun option => option.chars.head? = some 0x2d with
      | some option => .exitFailure (ascii "Unknown flag ".toList ++ option.chars)
      | none =>
        match loadCorpus env rest.head? flags.strict with
        | none => .exitFailure (ascii "No corpus file name was specified".toList)
        | some (corpus, corpusFd) =>
          let corpusName :=
            match flags.corpusName, rest.head? with
            | some name, _ => name
            | none, some fileName => removeLeadingDirectory fileName
            | none, none => builtinName
          match rest[1]? with
          | some option =>
            .exitFailure (ascii "Flags must come before corpus ".toList ++ option.chars)
          | none =>
            if corpus.snapsSize = 0 then .exitSuccess
            else if corpus.architectureId ≠ env.hostArchitectureId then
              .exitFailure (ascii "Corpus has architecture ".toList ++
                ascii (Nat.toDigits 10 corpus.architectureId.toNat) ++
                ascii " but expected ".toList ++
                ascii (Nat.toDigits 10 env.hostArchitectureId.toNat))
            else if flags.make && flags.sequentialMode then
              .fatal (ascii "Cannot set both make and sequential mode".toList)
            else
              .runs
                (if flags.make then .makerMain
                else if flags.sequentialMode then .runnerMainSequential
                else .runnerMain)
                (mainOptions env flags corpus corpusFd corpusName)

/-! ## What is to take effect -/

/-- The numbers given for an option are among those that fit it, and the last is the one that
is held. -/
structure Holds (numbers : List (Option Nat)) (Fits held : Nat → Prop) : Prop where
  fits : ∀ number ∈ numbers, ∃ n, number = some n ∧ Fits n
  last : ∀ n, numbers.getLast? = some (some n) → held n

/-- Each flag that is given takes effect. -/
structure Effective (line : CommandLine) (mode : Mode) (options : RunnerMainOptions) : Prop where
  cpu : Holds (line.numbers .cpu) (· < 2 ^ 31) fun n => options.cpu.toInt = n
  numIterations : Holds (line.numbers .numIterations) (· < 2 ^ 64)
    fun n => options.numIterations.toNat = n
  batchSize : Holds (line.numbers .batchSize) (fun n => 0 < n ∧ n ≤ 100)
    fun n => options.batchSize.toNat = n
  scheduleSize : Holds (line.numbers .scheduleSize) (fun n => 0 < n ∧ n < 2 ^ 64)
    fun n => options.scheduleSize.toNat = n
  seed : Holds (line.numbers .seed) (· < 2 ^ 64) fun n => n ≠ 0 → options.seed.toNat = n
  snapId : ∀ item, (line.given .snapId).getLast? = some item → options.snapId = some item.text
  maxPagesToAdd : mode = .makerMain → Holds (line.numbers .maxPagesToAdd) (· < 2 ^ 31)
    fun n => options.maxPagesToAdd.toInt = n
  enableTracer : Holds (line.numbers .enableTracer) (· ≤ 1) fun n => options.enableTracer.toNat = n
  sequentialMode : Holds (line.numbers .sequentialMode) (· ≤ 1)
    fun n => options.sequentialMode.toNat = n
  strict : Holds (line.numbers .strict) (· ≤ 1) fun n => options.strict.toNat = n
  skipEndStateCheck : Holds (line.numbers .skipEndStateCheck) (· ≤ 1)
    fun n => options.skipEndStateCheck.toNat = n

/-- A flag without an argument is given as 0 or 1, in the end as `last`. -/
def Switched (line : CommandLine) (last : Nat) (flag : Flag) : Prop :=
  (∀ number ∈ line.numbers flag, number = some 0 ∨ number = some 1) ∧
    ∀ number ∈ (line.numbers flag).getLast?, number = some last

/-- The numbers for `--cpu`, and in make mode those for `--max_pages_to_add`, are below 2^31;
the last for `--num_iterations` is, or is a sign-extended `int`. No flag without an argument is
given another number than 0 and 1, nor last as 0, but `--skip_end_state_check`, which is not
given last as 1. -/
structure CarriedOver (line : CommandLine) (mode : Mode) : Prop where
  cpu : ∀ n, some n ∈ line.numbers .cpu → n < 2 ^ 31
  numIterations : ∀ n, (line.numbers .numIterations).getLast? = some (some n) →
    n < 2 ^ 31 ∨ 2 ^ 64 - 2 ^ 31 ≤ n
  maxPagesToAdd : mode = .makerMain → ∀ n, some n ∈ line.numbers .maxPagesToAdd → n < 2 ^ 31
  switches : ∀ flag ∈ [Flag.enableTracer, .sequentialMode, .strict], Switched line 1 flag
  skipEndStateCheck : Switched line 0 .skipEndStateCheck

/-! ## What the flags are -/

section

variable {line : CommandLine} {flag : Flag}

def flagsOf (line : CommandLine) : Flags :=
  line.items.foldl (fun flags item => item.store flags) {}

/-- A variable that one flag sets has what it is set to last. -/
theorem flagsOf_last {β : Type} {g : Flags → β} {e : Item → β}
    (turn : ∀ flags item, g (Item.store item flags) =
      if item.flag = flag then e item else g flags) :
    g (flagsOf line) = ((line.given flag).getLast?.map e).getD (g {}) := by
  have write (flags : Flags) (item : Item) : g (item.store flags) =
      (if item.flag = flag then some (e item) else none).getD (g flags) := by
    rw [turn]
    split <;> rfl
  have given (items : List Item) :
      items.filterMap (fun item => if item.flag = flag then some (e item) else none) =
        (items.filter fun item => item.flag = flag).map e := by
    induction items with
    | nil => rfl
    | cons item items ih => by_cases same : item.flag = flag <;> simp [same, ih]
  have last := @Loops.foldl_last Item Flags β (fun flags item => item.store flags) g
    (fun item => if item.flag = flag then some (e item) else none) write line.items {}
  rw [flagsOf, last, given, List.getLast?_map]
  rfl

theorem last_given {n : Option Nat} (h : (line.numbers flag).getLast? = some n) :
    ∃ item, (line.given flag).getLast? = some item ∧ item.number = n := by
  rw [CommandLine.numbers, List.getLast?_map] at h
  exact Option.map_eq_some_iff.mp h

theorem flagsOf_number {β : Type} {g : Flags → β} {e : BitVec 64 → β} {n : Nat}
    (turn : ∀ flags item, g (Item.store item flags) =
      if item.flag = flag then e item.value else g flags)
    (h : (line.numbers flag).getLast? = some (some n)) :
    g (flagsOf line) = e (BitVec.ofNat 64 n) ∧ n < 2 ^ 64 := by
  obtain ⟨item, last, number⟩ := last_given h
  rw [flagsOf_last turn, last, Option.map_some, Option.getD_some, Item.value, number]
  exact ⟨rfl, Item.number_lt number⟩

/-- What the parser accepts of a flag is in the numbers that are given for it. -/
theorem numbers_of_valid {P : Nat → Prop} (valid : ∀ item ∈ line.items, item.Valid)
    (gives : ∀ item : Item, item.flag = flag → item.Valid → ∃ n, item.number = some n ∧ P n) :
    ∀ number ∈ line.numbers flag, ∃ n, number = some n ∧ P n := by
  intro number mem
  obtain ⟨item, given, rfl⟩ := List.mem_map.mp mem
  obtain ⟨listed, same⟩ := List.mem_filter.mp given
  exact gives item (of_decide_eq_true same) (valid item listed)

/-- A flag that is parsed as a number is a 64-bit number. -/
theorem number_gives {item : Item} (h : ∃ n, item.number = some n) :
    ∃ n, item.number = some n ∧ n < 2 ^ 64 := by
  obtain ⟨n, number⟩ := h
  exact ⟨n, number, Item.number_lt number⟩

/-! ## Which flags take effect -/

theorem toInt_small {n : Nat} (small : n < 2 ^ 31) :
    ((BitVec.ofNat 64 n).setWidth 32).toInt = n := by
  have value : ((BitVec.ofNat 64 n).setWidth 32).toNat = n := by
    rw [BitVec.toNat_setWidth, BitVec.toNat_ofNat]
    omega
  rw [BitVec.toInt_eq_toNat_of_lt (by omega), value]

/-- A number that is kept in an `int` on its way. -/
theorem signExtend_toNat_iff {n : Nat} (bound : n < 2 ^ 64) :
    (((BitVec.ofNat 64 n).setWidth 32).signExtend 64).toNat = n ↔
      n < 2 ^ 31 ∨ 2 ^ 64 - 2 ^ 31 ≤ n := by
  have value : ((BitVec.ofNat 64 n).setWidth 32).toNat = n % 2 ^ 32 := by
    rw [BitVec.toNat_setWidth, BitVec.toNat_ofNat]
    omega
  rw [BitVec.toNat_signExtend, BitVec.toNat_setWidth, BitVec.msb_eq_decide, value]
  simp only [decide_eq_true_eq]
  split <;> omega

/-- An `int` option holds what fits it. -/
theorem holds_int_iff {numbers : List (Option Nat)} {held : Nat → Prop}
    (numeric : ∀ number ∈ numbers, ∃ n, number = some n ∧ n < 2 ^ 64)
    (holds : ∀ n, numbers.getLast? = some (some n) → n < 2 ^ 31 → held n) :
    Holds numbers (· < 2 ^ 31) held ↔ ∀ n, some n ∈ numbers → n < 2 ^ 31 := by
  constructor
  · intro all n mem
    obtain ⟨m, same, fits⟩ := all.fits _ mem
    cases same
    exact fits
  · intro small
    constructor
    · intro number mem
      obtain ⟨n, rfl, -⟩ := numeric number mem
      exact ⟨n, rfl, small n mem⟩
    · intro n last
      exact holds n last (small n (List.mem_of_getLast? last))

/-- A flag without an argument that makes `option` the number `last`. -/
theorem holds_switched_iff {option : Bool} {last : Nat}
    (held : ∀ item, (line.given flag).getLast? = some item → option.toNat = last) :
    Holds (line.numbers flag) (· ≤ 1) (fun n => option.toNat = n) ↔ Switched line last flag := by
  have bit (number : Option Nat) :
      (∃ n, number = some n ∧ n ≤ 1) ↔ number = some 0 ∨ number = some 1 := by
    cases number with
    | none => simp
    | some n => simp; omega
  constructor
  · intro holds
    refine ⟨fun number mem => (bit number).mp (holds.fits number mem), ?_⟩
    intro number final
    obtain ⟨n, rfl, -⟩ := holds.fits number (List.mem_of_getLast? final)
    obtain ⟨item, given, -⟩ := last_given final
    rw [← held item given, holds.last n final]
  · rintro ⟨bits, final⟩
    refine ⟨fun number mem => (bit number).mpr (bits number mem), ?_⟩
    intro n is
    obtain ⟨item, given, -⟩ := last_given is
    rw [held item given, Option.some.inj (final (some n) is)]

variable {env : Environment} {mode : Mode} {corpus : SnapCorpus} {corpusFd : BitVec 32}
  {corpusName : CString}

theorem numbers_numeric (valid : ∀ item ∈ line.items, item.Valid)
    (parsed : ∀ item : Item, item.flag = flag → item.Valid → ∃ n, item.number = some n) :
    ∀ number ∈ line.numbers flag, ∃ n, number = some n ∧ n < 2 ^ 64 :=
  numbers_of_valid valid fun item same ok => number_gives (parsed item same ok)

/-- A 64-bit variable keeps the last number. -/
theorem last_toNat {g : Flags → BitVec 64} {n : Nat} (turn : ∀ flags item,
      g (Item.store item flags) = if item.flag = flag then item.value else g flags)
    (last : (line.numbers flag).getLast? = some (some n)) : (g (flagsOf line)).toNat = n := by
  obtain ⟨value, bound⟩ := flagsOf_number (e := id) turn last
  rw [value, id, BitVec.toNat_ofNat, Nat.mod_eq_of_lt bound]

theorem cpu_holds_iff (valid : ∀ item ∈ line.items, item.Valid) :
    Holds (line.numbers .cpu) (· < 2 ^ 31) (fun n => (flagsOf line).cpu.toInt = n) ↔
      ∀ n, some n ∈ line.numbers .cpu → n < 2 ^ 31 := by
  apply holds_int_iff
  · exact numbers_numeric valid fun item same ok => by rwa [Item.Valid, same] at ok
  · intro n last small
    rw [(flagsOf_number (g := Flags.cpu) (e := BitVec.setWidth 32) Item.store_cpu last).1]
    exact toInt_small small

theorem maxPagesToAdd_holds_iff (valid : ∀ item ∈ line.items, item.Valid) :
    Holds (line.numbers .maxPagesToAdd) (· < 2 ^ 31)
        (fun n => ((flagsOf line).maxPagesToAdd.setWidth 32).toInt = n) ↔
      ∀ n, some n ∈ line.numbers .maxPagesToAdd → n < 2 ^ 31 := by
  apply holds_int_iff
  · exact numbers_numeric valid fun item same ok => by rwa [Item.Valid, same] at ok
  · intro n last small
    rw [(flagsOf_number (g := Flags.maxPagesToAdd) (e := id) Item.store_maxPagesToAdd last).1]
    exact toInt_small small

theorem numIterations_last_iff {n : Nat}
    (last : (line.numbers .numIterations).getLast? = some (some n)) :
    ((flagsOf line).numIterations.signExtend 64).toNat = n ↔
      n < 2 ^ 31 ∨ 2 ^ 64 - 2 ^ 31 ≤ n := by
  obtain ⟨value, bound⟩ := flagsOf_number (g := Flags.numIterations) (e := BitVec.setWidth 32)
    Item.store_numIterations last
  rw [value]
  exact signExtend_toNat_iff bound

/-- A variable that its flag sets to true. -/
theorem switch_holds_iff {g : Flags → Bool} (turn : ∀ flags item,
      g (Item.store item flags) = if item.flag = flag then true else g flags) :
    Holds (line.numbers flag) (· ≤ 1) (fun n => (g (flagsOf line)).toNat = n) ↔
      Switched line 1 flag := by
  apply holds_switched_iff
  intro item last
  rw [flagsOf_last (e := fun _ => true) turn, last]
  rfl

/-- What the options hold for the flags of a line, whose values were accepted. -/
theorem effective_iff (valid : ∀ item ∈ line.items, item.Valid)
    (makes : mode = .makerMain → (flagsOf line).make = true) :
    Effective line mode (mainOptions env (flagsOf line) corpus corpusFd corpusName) ↔
      CarriedOver line mode := by
  have skips : Holds (line.numbers .skipEndStateCheck) (· ≤ 1) (fun n => false.toNat = n) ↔
      Switched line 0 .skipEndStateCheck := holds_switched_iff fun _ _ => rfl
  have maxPages (maker : mode = .makerMain) :
      (mainOptions env (flagsOf line) corpus corpusFd corpusName).maxPagesToAdd =
        (flagsOf line).maxPagesToAdd.setWidth 32 := if_pos (makes maker)
  constructor
  · intro effective
    constructor
    · exact (cpu_holds_iff valid).mp effective.cpu
    · intro n last
      exact (numIterations_last_iff last).mp (effective.numIterations.last n last)
    · intro maker
      have holds := effective.maxPagesToAdd maker
      rw [maxPages maker] at holds
      exact (maxPagesToAdd_holds_iff valid).mp holds
    · simp only [List.forall_mem_cons, List.not_mem_nil, false_imp_iff, implies_true, and_true]
      exact ⟨(switch_holds_iff Item.store_enableTracer).mp effective.enableTracer,
        (switch_holds_iff Item.store_sequentialMode).mp effective.sequentialMode,
        (switch_holds_iff Item.store_strict).mp effective.strict⟩
    · exact skips.mp effective.skipEndStateCheck
  · intro carried
    have switches := carried.switches
    constructor
    · exact (cpu_holds_iff valid).mpr carried.cpu
    · refine ⟨numbers_numeric valid fun item same ok => ?_, fun n last =>
        (numIterations_last_iff last).mpr (carried.numIterations n last)⟩
      rw [Item.Valid, same] at ok
      exact ok.imp fun n given => given.1
    · refine ⟨numbers_of_valid valid fun item same ok => ?_, fun n =>
        last_toNat Item.store_batchSize⟩
      rw [Item.Valid, same] at ok
      exact ok.imp fun n given => ⟨given.1, Nat.pos_of_ne_zero given.2.1, given.2.2⟩
    · refine ⟨numbers_of_valid valid fun item same ok => ?_, fun n =>
        last_toNat Item.store_scheduleSize⟩
      rw [Item.Valid, same] at ok
      exact ok.imp fun n given =>
        ⟨given.1, Nat.pos_of_ne_zero given.2, Item.number_lt given.1⟩
    · refine ⟨numbers_numeric valid fun item same ok => by rwa [Item.Valid, same] at ok,
        fun n last nonzero => ?_⟩
      have seed := last_toNat Item.store_seed last
      have given : (flagsOf line).seed ≠ 0 := by
        intro zero
        rw [zero] at seed
        exact nonzero seed.symm
      change (if (flagsOf line).seed = 0 then _ else _ : BitVec 64).toNat = n
      rw [if_neg given, seed]
    · intro item last
      change (flagsOf line).snapId = some item.text
      rw [flagsOf_last Item.store_snapId, last]
      rfl
    · intro maker
      rw [maxPages maker]
      exact (maxPagesToAdd_holds_iff valid).mpr (carried.maxPagesToAdd maker)
    · exact (switch_holds_iff Item.store_enableTracer).mpr (switches _ (by simp))
    · exact (switch_holds_iff Item.store_sequentialMode).mpr (switches _ (by simp))
    · exact (switch_holds_iff Item.store_strict).mpr (switches _ (by simp))
    · exact skips.mpr carried.skipEndStateCheck

end

/-! ## Main -/

/-- The end of `Main` that runs snaps. -/
theorem main_runs {env : Environment} {args : List CString} {mode : Mode}
    {options : RunnerMainOptions} (runs : main env args = .runs mode options) :
    ∃ (flags : Flags) (rest : List CString) (corpus : SnapCorpus) (corpusFd : BitVec 32)
      (corpusName : CString), parseRunnerFlags args = .ok (flags, rest) ∧
        rest.head?.filter (fun option => option.chars.head? = some 0x2d) = none ∧
        rest[1]? = none ∧ (mode = .makerMain → flags.make = true) ∧
        options = mainOptions env flags corpus corpusFd corpusName := by
  unfold main at runs
  split at runs
  · cases runs
  · next flags rest parsed =>
    split at runs
    · cases runs
    · split at runs
      · cases runs
      · next plain =>
        split at runs
        · cases runs
        · next corpus corpusFd loaded =>
          dsimp only at runs
          generalize (match flags.corpusName, rest.head? with
            | some name, _ => name
            | none, some fileName => removeLeadingDirectory fileName
            | none, none => builtinName) = corpusName at runs
          split at runs
          · cases runs
          · next single =>
            split at runs
            · cases runs
            · split at runs
              · cases runs
              · split at runs
                · cases runs
                · cases runs
                  refine ⟨flags, rest, corpus, corpusFd, corpusName, parsed, plain, single, ?_, rfl⟩
                  intro maker
                  by_contra other
                  rw [if_neg other] at maker
                  split at maker <;> cases maker

/-- A command line on which `Main` runs snaps. -/
theorem main_line {env : Environment} {args : List CString} {mode : Mode}
    {options : RunnerMainOptions} (runs : main env args = .runs mode options) :
    ∃ line : CommandLine, line.args = args ∧ (∀ item ∈ line.items, item.Valid) ∧
      (mode = .makerMain → (flagsOf line).make = true) ∧
      ∃ corpus corpusFd corpusName,
        options = mainOptions env (flagsOf line) corpus corpusFd corpusName := by
  obtain ⟨flags, rest, corpus, corpusFd, corpusName, parsed, plain, single, maker, rfl⟩ :=
    main_runs runs
  obtain ⟨items, given, valid, rfl⟩ := parseFlags_ok parsed
  have last : rest = rest.head?.toList := by
    match rest, single with
    | [], _ => rfl
    | [_], _ => rfl
  have notFlag (name : CString) (is : name ∈ rest.head?) : name.chars.head? ≠ some 0x2d := by
    intro dash
    rw [is, Option.filter_some, if_pos (by simpa using dash)] at plain
    cases plain
  refine ⟨⟨items, rest.head?, notFlag⟩, ?_, valid, maker, corpus, corpusFd, corpusName, rfl⟩
  rw [CommandLine.args, given, ← last]

/-- **The flags take effect exactly if they pass the variables and options between**: the
numbers for `--cpu`, and in make mode for `--max_pages_to_add`, are below 2^31, the last for
`--num_iterations` is, or is a negative `int`, and no flag without an argument is given another
number than 1, nor `--skip_end_state_check` in the end other than as 0. -/
theorem main_effective_iff {env : Environment} {args : List CString} {mode : Mode}
    {options : RunnerMainOptions} (runs : main env args = .runs mode options) :
    (∃ line : CommandLine, line.args = args) ∧
      ∀ line : CommandLine, line.args = args →
        (Effective line mode options ↔ CarriedOver line mode) := by
  obtain ⟨line, given, valid, maker, _, _, _, rfl⟩ := main_line runs
  refine ⟨⟨line, given⟩, ?_⟩
  intro line' given'
  obtain rfl := CommandLine.args_injective (given'.trans given.symm)
  exact effective_iff valid maker

/-- A corpus of one snap, in every file. -/
def oneSnap : Environment where
  loadCorpusFromFile _ _ := some (⟨1, 1⟩, 3)
  pid := 100
  tvSec := 1
  hostArchitectureId := 1

def corpusFile : CString where
  chars := ascii ['c']
  nonzero := CString.nonzero_of_all (by decide)

/-- `--strict --skip_end_state_check=0 c` -/
def strictLine : CommandLine where
  items := [⟨.strict, .bare⟩, ⟨.skipEndStateCheck, .ignored Atoi.zero⟩]
  corpus := some corpusFile
  notFlag := by decide

def strictFlags : Flags := { strict := true, skipEndStateCheck := true }

theorem main_effective_strict : (∃ line : CommandLine, line.args = strictLine.args) ∧
    ∀ line : CommandLine, line.args = strictLine.args →
      (Effective line .runnerMain (mainOptions oneSnap strictFlags ⟨1, 1⟩ 3 corpusFile) ↔
        CarriedOver line .runnerMain) :=
  @main_effective_iff oneSnap strictLine.args _ _ rfl

/-- `--skip_end_state_check c` -/
def skipLine : CommandLine where
  items := [⟨.skipEndStateCheck, .bare⟩]
  corpus := some corpusFile
  notFlag := by decide

theorem main_skips_not : ¬ ∀ (env : Environment) (args : List CString) (mode : Mode)
    (options : RunnerMainOptions), main env args = .runs mode options →
      ∀ line : CommandLine, line.args = args → Effective line mode options := by
  intro all
  have effective := all oneSnap skipLine.args .runnerMain
    (mainOptions oneSnap { skipEndStateCheck := true } ⟨1, 1⟩ 3 corpusFile) rfl skipLine rfl
  have one := effective.skipEndStateCheck.last 1 (by decide)
  cases one

end RunnerMain

end Silifuzz
