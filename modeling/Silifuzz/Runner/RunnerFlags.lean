import Mathlib.Data.List.TakeWhile
import Silifuzz.Util.FlagMatcher

/-!
# RunnerFlags

The flags of `runner/runner_flags.cc`, and `ParseRunnerFlags`, which sets them from the
arguments that begin a command line.
-/

namespace Silifuzz

namespace RunnerFlags

open Atoi FlagMatcher

/-- The flags, in the order in which they are tried. -/
inductive Flag where
  | cpu
  | help
  | v
  | seed
  | corpusName
  | snapId
  | runTimeBudgetMs
  | numIterations
  | make
  | enableTracer
  | batchSize
  | scheduleSize
  | sequentialMode
  | skipEndStateCheck
  | strict
  | maxPagesToAdd
  deriving DecidableEq

namespace Flag

def all : List Flag :=
  [cpu, help, v, seed, corpusName, snapId, runTimeBudgetMs, numIterations, make, enableTracer,
    batchSize, scheduleSize, sequentialMode, skipEndStateCheck, strict, maxPagesToAdd]

def text : Flag → List Char
  | cpu => ['c', 'p', 'u']
  | help => ['h', 'e', 'l', 'p']
  | v => ['v']
  | seed => ['s', 'e', 'e', 'd']
  | corpusName => ['c', 'o', 'r', 'p', 'u', 's', '_', 'n', 'a', 'm', 'e']
  | snapId => ['s', 'n', 'a', 'p', '_', 'i', 'd']
  | runTimeBudgetMs => ['r', 'u', 'n', '_', 't', 'i', 'm', 'e', '_', 'b', 'u', 'd', 'g', 'e',
      't', '_', 'm', 's']
  | numIterations => ['n', 'u', 'm', '_', 'i', 't', 'e', 'r', 'a', 't', 'i', 'o', 'n', 's']
  | make => ['m', 'a', 'k', 'e']
  | enableTracer => ['e', 'n', 'a', 'b', 'l', 'e', '_', 't', 'r', 'a', 'c', 'e', 'r']
  | batchSize => ['b', 'a', 't', 'c', 'h', '_', 's', 'i', 'z', 'e']
  | scheduleSize => ['s', 'c', 'h', 'e', 'd', 'u', 'l', 'e', '_', 's', 'i', 'z', 'e']
  | sequentialMode => ['s', 'e', 'q', 'u', 'e', 'n', 't', 'i', 'a', 'l', '_', 'm', 'o', 'd',
      'e']
  | skipEndStateCheck => ['s', 'k', 'i', 'p', '_', 'e', 'n', 'd', '_', 's', 't', 'a', 't', 'e',
      '_', 'c', 'h', 'e', 'c', 'k']
  | strict => ['s', 't', 'r', 'i', 'c', 't']
  | maxPagesToAdd => ['m', 'a', 'x', '_', 'p', 'a', 'g', 'e', 's', '_', 't', 'o', '_', 'a',
      'd', 'd']

def name (flag : Flag) : CString where
  chars := ascii flag.text
  nonzero := CString.nonzero_of_all (by cases flag <;> decide)

def kind : Flag → ArgumentKind
  | help | make | enableTracer | sequentialMode | skipEndStateCheck | strict => .kNoArgument
  | cpu | v | seed | corpusName | snapId | runTimeBudgetMs | numIterations | batchSize
  | scheduleSize | maxPagesToAdd => .kRequiredArgument

end Flag

/-- The variables `FLAGS_*`, and the level that `SetVLogLevel` sets. -/
structure Flags where
  cpu : BitVec 32 := -1
  corpusName : Option CString := none
  snapId : Option CString := none
  runTimeBudgetMs : BitVec 32 := -1
  numIterations : BitVec 32 := 1000000
  seed : BitVec 64 := 0
  help : Bool := false
  make : Bool := false
  enableTracer : Bool := false
  batchSize : BitVec 64 := 10
  scheduleSize : BitVec 64 := 100
  sequentialMode : Bool := false
  skipEndStateCheck : Bool := false
  strict : Bool := false
  maxPagesToAdd : BitVec 64 := 0
  vLogLevel : BitVec 32 := 0

abbrev Message := List Char8

def kMaxBatchSize : BitVec 64 := 100

/-- `DecToU64` of the argument, without a length, and the test of the value. -/
def decimal (flag : Flag) (optarg : CString) (valid : BitVec 64 → Bool) :
    Except Message (BitVec 64) :=
  let (read, result) := decToU64 optarg (-1) 0
  if read && valid (BitVec.ofNat 64 result) then .ok (BitVec.ofNat 64 result)
  else .error (ascii "Invalid ".toList ++ flag.name.chars ++ ascii [' '] ++ optarg.chars)

/-- What is done with a flag that matches. -/
def Flag.set : (flag : Flag) → flag.kind.Optarg → Flags → Except Message Flags
  | .cpu, optarg, flags => do
    let cpu ← decimal .cpu optarg fun _ => true
    return { flags with cpu := cpu.setWidth 32 }
  | .help, _, flags => return { flags with help := true }
  | .v, optarg, flags => do
    let v ← decimal .v optarg fun _ => true
    return { flags with vLogLevel := v.setWidth 32 }
  | .seed, optarg, flags => do
    let seed ← decimal .seed optarg fun _ => true
    return { flags with seed := seed }
  | .corpusName, optarg, flags => return { flags with corpusName := some optarg }
  | .snapId, optarg, flags => return { flags with snapId := some optarg }
  | .runTimeBudgetMs, optarg, flags => do
    let runTimeBudgetMs ← decimal .runTimeBudgetMs optarg fun value => value != 0
    return { flags with runTimeBudgetMs := runTimeBudgetMs.setWidth 32 }
  | .numIterations, optarg, flags => do
    let numIterations ← decimal .numIterations optarg fun value => value != 0
    return { flags with numIterations := numIterations.setWidth 32 }
  | .make, _, flags => return { flags with make := true }
  | .enableTracer, _, flags => return { flags with enableTracer := true }
  | .batchSize, optarg, flags => do
    let batchSize ← decimal .batchSize optarg fun value => value != 0 && !(value > kMaxBatchSize)
    return { flags with batchSize := batchSize }
  | .scheduleSize, optarg, flags => do
    let scheduleSize ← decimal .scheduleSize optarg fun value => value != 0
    return { flags with scheduleSize := scheduleSize }
  | .sequentialMode, _, flags => return { flags with sequentialMode := true }
  | .skipEndStateCheck, _, flags => return { flags with skipEndStateCheck := true }
  | .strict, _, flags => return { flags with strict := true }
  | .maxPagesToAdd, optarg, flags => do
    let maxPagesToAdd ← decimal .maxPagesToAdd optarg fun _ => true
    return { flags with maxPagesToAdd := maxPagesToAdd }

/-- A turn of the loop: the first flag that matches is set. -/
def parseFlag (args : List CString) (flags : Flags) :
    Option (Except Message (Flags × List CString)) :=
  Flag.all.findSome? fun flag =>
    (matchFlag flag.name flag.kind args).map fun (optarg, rest) =>
      (flag.set optarg flags).map (·, rest)

/-- The loop. Each turn consumes an argument, so it takes no more turns than there are. -/
def parseFlags : Nat → List CString → Flags → Except Message (Flags × List CString)
  | _, [], flags => .ok (flags, [])
  | 0, args, flags => .ok (flags, args)
  | turns + 1, args, flags =>
    match parseFlag args flags with
    | some (.ok (flags, rest)) => parseFlags turns rest flags
    | some (.error message) => .error message
    | none => .ok (flags, args)

/-- `ParseRunnerFlags`, on the arguments after the program's name: the flags, and the arguments
that are not consumed. -/
def parseRunnerFlags (args : List CString) : Except Message (Flags × List CString) :=
  parseFlags args.length args {}

/-! ## What the arguments give -/

/-- A flag that is given. -/
structure Item where
  flag : Flag
  form : Form flag.kind

namespace Item

def args (item : Item) : List CString := item.form.args item.flag.name

def text (item : Item) : CString := item.form.text

/-- The 64-bit number that the text is. A string has no more characters than a `size_t`
counts. -/
def number (item : Item) : Option Nat := denoted 10 (item.text.chars.take (2 ^ 64 - 1))

def value (item : Item) : BitVec 64 := BitVec.ofNat 64 (item.number.getD 0)

/-- The flag takes the value that is given. -/
def Valid (item : Item) : Prop :=
  match item.flag with
  | .cpu | .v | .seed | .maxPagesToAdd => ∃ n, item.number = some n
  | .runTimeBudgetMs | .numIterations | .scheduleSize => ∃ n, item.number = some n ∧ n ≠ 0
  | .batchSize => ∃ n, item.number = some n ∧ n ≠ 0 ∧ n ≤ 100
  | _ => True

/-- The flags with the one that is given set. -/
def store (item : Item) (flags : Flags) : Flags :=
  match item.flag with
  | .cpu => { flags with cpu := item.value.setWidth 32 }
  | .help => { flags with help := true }
  | .v => { flags with vLogLevel := item.value.setWidth 32 }
  | .seed => { flags with seed := item.value }
  | .corpusName => { flags with corpusName := some item.text }
  | .snapId => { flags with snapId := some item.text }
  | .runTimeBudgetMs => { flags with runTimeBudgetMs := item.value.setWidth 32 }
  | .numIterations => { flags with numIterations := item.value.setWidth 32 }
  | .make => { flags with make := true }
  | .enableTracer => { flags with enableTracer := true }
  | .batchSize => { flags with batchSize := item.value }
  | .scheduleSize => { flags with scheduleSize := item.value }
  | .sequentialMode => { flags with sequentialMode := true }
  | .skipEndStateCheck => { flags with skipEndStateCheck := true }
  | .strict => { flags with strict := true }
  | .maxPagesToAdd => { flags with maxPagesToAdd := item.value }

theorem store_cpu (flags : Flags) (item : Item) : (item.store flags).cpu =
    if item.flag = .cpu then item.value.setWidth 32 else flags.cpu := by
  unfold store
  cases item.flag <;> rfl

theorem store_numIterations (flags : Flags) (item : Item) : (item.store flags).numIterations =
    if item.flag = .numIterations then item.value.setWidth 32 else flags.numIterations := by
  unfold store
  cases item.flag <;> rfl

theorem store_seed (flags : Flags) (item : Item) : (item.store flags).seed =
    if item.flag = .seed then item.value else flags.seed := by
  unfold store
  cases item.flag <;> rfl

theorem store_snapId (flags : Flags) (item : Item) : (item.store flags).snapId =
    if item.flag = .snapId then some item.text else flags.snapId := by
  unfold store
  cases item.flag <;> rfl

theorem store_enableTracer (flags : Flags) (item : Item) : (item.store flags).enableTracer =
    if item.flag = .enableTracer then true else flags.enableTracer := by
  unfold store
  cases item.flag <;> rfl

theorem store_batchSize (flags : Flags) (item : Item) : (item.store flags).batchSize =
    if item.flag = .batchSize then item.value else flags.batchSize := by
  unfold store
  cases item.flag <;> rfl

theorem store_scheduleSize (flags : Flags) (item : Item) : (item.store flags).scheduleSize =
    if item.flag = .scheduleSize then item.value else flags.scheduleSize := by
  unfold store
  cases item.flag <;> rfl

theorem store_sequentialMode (flags : Flags) (item : Item) : (item.store flags).sequentialMode =
    if item.flag = .sequentialMode then true else flags.sequentialMode := by
  unfold store
  cases item.flag <;> rfl

theorem store_strict (flags : Flags) (item : Item) : (item.store flags).strict =
    if item.flag = .strict then true else flags.strict := by
  unfold store
  cases item.flag <;> rfl

theorem store_maxPagesToAdd (flags : Flags) (item : Item) : (item.store flags).maxPagesToAdd =
    if item.flag = .maxPagesToAdd then item.value else flags.maxPagesToAdd := by
  unfold store
  cases item.flag <;> rfl

end Item

/-! ## A run of the parser -/

theorem Item.number_lt {item : Item} {n : Nat} (h : item.number = some n) : n < 2 ^ 64 := by
  unfold Item.number denoted at h
  split at h
  · cases h
  · simpa using (Option.filter_eq_some_iff.mp h).2

/-- `decimal` reads the number of the text, if the number passes the test. -/
theorem decimal_eq_ok {flag : Flag} {optarg : CString} {valid : BitVec 64 → Bool}
    {value : BitVec 64} (h : decimal flag optarg valid = .ok value) :
    denoted 10 (optarg.chars.take (2 ^ 64 - 1)) = some value.toNat ∧ valid value = true := by
  have reads : decToU64 optarg (-1) 0 = outcome (denoted 10 (optarg.chars.take (2 ^ 64 - 1))) 0 :=
    strToU64_eq (by decide) optarg.chars (by decide) 0
  unfold decimal at h
  rw [reads] at h
  cases number : denoted 10 (optarg.chars.take (2 ^ 64 - 1)) with
  | none =>
    rw [number] at h
    cases h
  | some n =>
    have fits : n < 2 ^ 64 := by
      unfold denoted at number
      split at number
      · cases number
      · simpa using (Option.filter_eq_some_iff.mp number).2
    rw [number] at h
    simp only [outcome, Bool.true_and] at h
    split at h
    · next passes =>
      cases h
      rw [BitVec.toNat_ofNat, Nat.mod_eq_of_lt fits]
      exact ⟨rfl, passes⟩
    · cases h

theorem text_required (form : Form .kRequiredArgument) : form.text = form.optarg := by
  cases form <;> rfl

/-- A flag with an argument that is a number. -/
theorem decimal_item {i : Item} {flag : Flag} {optarg : CString} {valid : BitVec 64 → Bool}
    {value : BitVec 64} (text : i.text = optarg) (h : decimal flag optarg valid = .ok value) :
    i.number = some value.toNat ∧ i.value = value ∧ valid value = true := by
  subst text
  obtain ⟨number, passes⟩ := decimal_eq_ok h
  have same : i.number = some value.toNat := number
  refine ⟨same, ?_, passes⟩
  rw [Item.value, same]
  exact BitVec.eq_of_toNat_eq (by simp)

theorem bind_ok {α β : Type} {x : Except Message α} {f : α → Except Message β} {b : β}
    (h : (x >>= f) = .ok b) : ∃ a, x = .ok a ∧ f a = .ok b := by
  cases x with
  | error message => cases h
  | ok a => exact ⟨a, rfl, h⟩

theorem toNat_ne_zero {value : BitVec 64} (h : (value != 0) = true) : value.toNat ≠ 0 := by
  intro zero
  exact bne_iff_ne.mp h (BitVec.eq_of_toNat_eq zero)

theorem set_eq_ok {item : Item} {flags flags' : Flags}
    (h : item.flag.set item.form.optarg flags = .ok flags') :
    item.Valid ∧ flags' = item.store flags := by
  obtain ⟨flag, form⟩ := item
  cases flag with
  | help | make | enableTracer | sequentialMode | skipEndStateCheck | strict =>
    cases h
    exact ⟨trivial, rfl⟩
  | corpusName | snapId =>
    cases h
    cases form <;> exact ⟨trivial, rfl⟩
  | cpu | v | seed | maxPagesToAdd =>
    obtain ⟨value, read, stored⟩ := bind_ok h
    obtain ⟨number, same, -⟩ := decimal_item (i := ⟨_, form⟩) (text_required form) read
    cases stored
    exact ⟨⟨_, number⟩, by rw [Item.store, same]⟩
  | runTimeBudgetMs | numIterations | scheduleSize =>
    obtain ⟨value, read, stored⟩ := bind_ok h
    obtain ⟨number, same, passes⟩ := decimal_item (i := ⟨_, form⟩) (text_required form) read
    cases stored
    exact ⟨⟨_, number, toNat_ne_zero passes⟩, by rw [Item.store, same]⟩
  | batchSize =>
    obtain ⟨value, read, stored⟩ := bind_ok h
    obtain ⟨number, same, passes⟩ := decimal_item (i := ⟨_, form⟩) (text_required form) read
    obtain ⟨nonzero, small⟩ := (Bool.and_eq_true _ _).mp passes
    cases stored
    refine ⟨⟨_, number, toNat_ne_zero nonzero, ?_⟩, by rw [Item.store, same]⟩
    have most : ¬kMaxBatchSize < value := by simpa using small
    exact Nat.le_of_not_lt most

theorem parseFlag_ok {args rest : List CString} {flags flags' : Flags}
    (h : parseFlag args flags = some (.ok (flags', rest))) :
    ∃ item : Item, args = item.args ++ rest ∧ item.Valid ∧ flags' = item.store flags := by
  obtain ⟨flag, -, found⟩ := List.exists_of_findSome?_eq_some h
  obtain ⟨⟨optarg, left⟩, matched, result⟩ := Option.map_eq_some_iff.mp found
  obtain ⟨form, rfl, rfl⟩ := matchFlag_form matched
  dsimp only at result
  cases stored : flag.set form.optarg flags with
  | error message =>
    rw [stored] at result
    cases result
  | ok flags'' =>
    rw [stored] at result
    cases result
    obtain ⟨valid, same⟩ := @set_eq_ok ⟨flag, form⟩ _ _ stored
    exact ⟨⟨flag, form⟩, rfl, valid, same⟩

/-- **The parser consumes flags that take their values**, and sets them in order. -/
theorem parseFlags_ok {turns : Nat} {args rest : List CString} {flags flags' : Flags}
    (h : parseFlags turns args flags = .ok (flags', rest)) :
    ∃ items : List Item, args = items.flatMap Item.args ++ rest ∧ (∀ item ∈ items, item.Valid) ∧
      flags' = items.foldl (fun flags item => item.store flags) flags := by
  induction turns generalizing args flags with
  | zero =>
    cases args <;> cases h <;> exact ⟨[], rfl, nofun, rfl⟩
  | succ turns ih =>
    cases args with
    | nil =>
      cases h
      exact ⟨[], rfl, nofun, rfl⟩
    | cons option args =>
      simp only [parseFlags] at h
      split at h
      · next flags'' left turn =>
        obtain ⟨item, given, valid, rfl⟩ := parseFlag_ok turn
        obtain ⟨items, consumed, all, rfl⟩ := ih h
        refine ⟨item :: items, ?_, List.forall_mem_cons.mpr ⟨valid, all⟩, rfl⟩
        rw [given, consumed, List.flatMap_cons, List.append_assoc]
      · cases h
      · cases h
        exact ⟨[], rfl, nofun, rfl⟩

/-! ## A command line -/

/-- Flags, and a corpus that is not taken for one. -/
structure CommandLine where
  items : List Item
  corpus : Option CString
  notFlag : ∀ name ∈ corpus, name.chars.head? ≠ some 0x2d

namespace CommandLine

def args (line : CommandLine) : List CString :=
  line.items.flatMap Item.args ++ line.corpus.toList

/-- Where a flag is given. -/
def given (line : CommandLine) (flag : Flag) : List Item :=
  line.items.filter fun item => item.flag = flag

/-- The numbers that are given for a flag, none where the text is not one. -/
def numbers (line : CommandLine) (flag : Flag) : List (Option Nat) :=
  (line.given flag).map Item.number

end CommandLine

theorem name_noEquals (flag : Flag) : 0x3d ∉ flag.name.chars := by cases flag <;> decide

theorem name_injective {a b : Flag} (same : a.name = b.name) : a = b := by
  have chars : ascii a.text = ascii b.text := congrArg CString.chars same
  have all : ∀ a ∈ Flag.all, ∀ b ∈ Flag.all, ascii a.text = ascii b.text → a = b := by decide
  exact all a (by cases a <;> decide) b (by cases b <;> decide) chars

/-- The first argument of a flag shows its name. -/
theorem Item.args_cons (item : Item) : ∃ option more, item.args = option :: more ∧
    option.chars.head? = some 0x2d ∧
      (option.chars.drop 2).takeWhile (· != 0x3d) = item.flag.name.chars := by
  have plain (c : Char8) (hc : c ∈ item.flag.name.chars) : (c != 0x3d) = true := by
    rw [bne_iff_ne]
    rintro rfl
    exact name_noEquals item.flag hc
  obtain ⟨flag, form⟩ := item
  unfold Item.args
  dsimp only at plain ⊢
  generalize flag.kind = kind at form
  cases form with
  | bare | next value =>
    refine ⟨_, _, rfl, rfl, ?_⟩
    change flag.name.chars.takeWhile _ = _
    exact List.takeWhile_eq_self_iff.mpr plain
  | ignored value | equals value =>
    refine ⟨_, _, rfl, rfl, ?_⟩
    change (flag.name.chars ++ 0x3d :: value.chars).takeWhile _ = _
    rw [List.takeWhile_append_of_pos plain]
    simp

theorem Form.args_inj {kind : ArgumentKind} {a b : Form kind} {flag : CString}
    {rest rest' : List CString} (same : a.args flag ++ rest = b.args flag ++ rest') :
    a = b ∧ rest = rest' := by
  have values {v w : CString} (h : Form.assigned flag v = Form.assigned flag w) : v = w := by
    apply CString.ext
    have chars := congrArg CString.chars h
    exact List.append_cancel_left (List.append_cancel_left chars)
  have longer {v : CString} (h : Form.dashed flag = Form.assigned flag v) : False := by
    have length := congrArg (fun str => str.chars.length) h
    simp [Form.assigned, CString.append] at length
  cases a <;> cases b <;> simp only [Form.args, List.cons_append, List.nil_append,
    List.cons.injEq] at same
  case bare.bare => exact ⟨rfl, same.2⟩
  case bare.ignored => exact (longer same.1).elim
  case ignored.bare => exact (longer same.1.symm).elim
  case ignored.ignored => exact ⟨congrArg _ (values same.1), same.2⟩
  case equals.equals => exact ⟨congrArg _ (values same.1), same.2⟩
  case equals.next => exact (longer same.1.symm).elim
  case next.equals => exact (longer same.1).elim
  case next.next => exact ⟨congrArg _ same.2.1, same.2.2⟩

theorem Item.args_inj {a b : Item} {rest rest' : List CString}
    (same : a.args ++ rest = b.args ++ rest') : a = b ∧ rest = rest' := by
  obtain ⟨option, more, ha, -, name⟩ := a.args_cons
  obtain ⟨option', more', hb, -, name'⟩ := b.args_cons
  have first : option = option' := by
    rw [ha, hb] at same
    exact (List.cons.inj same).1
  have flags : a.flag = b.flag := by
    subst first
    exact name_injective (CString.ext (name.symm.trans name'))
  obtain ⟨flag, form⟩ := a
  obtain ⟨flag', form'⟩ := b
  cases flags
  obtain ⟨rfl, rest⟩ := Form.args_inj same
  exact ⟨rfl, rest⟩

/-- **The arguments show what is given.** -/
theorem CommandLine.args_injective {a b : CommandLine} (same : a.args = b.args) : a = b := by
  obtain ⟨items, corpus, notFlag⟩ := a
  obtain ⟨items', corpus', notFlag'⟩ := b
  change items.flatMap Item.args ++ corpus.toList =
    items'.flatMap Item.args ++ corpus'.toList at same
  -- a flag is no corpus
  have apart {item : Item} {rest : List CString} {name : Option CString}
      (plain : ∀ n ∈ name, n.chars.head? ≠ some 0x2d)
      (h : name.toList = item.args ++ rest) : False := by
    obtain ⟨option, more, args, dash, -⟩ := item.args_cons
    rw [args] at h
    cases name with
    | none => cases h
    | some n =>
      obtain ⟨rfl, -⟩ := List.cons.inj h
      exact plain n rfl dash
  suffices both : items = items' ∧ corpus = corpus' by
    obtain ⟨rfl, rfl⟩ := both
    rfl
  induction items generalizing items' with
  | nil =>
    cases items' with
    | nil => cases corpus <;> cases corpus' <;> simp_all
    | cons item items' =>
      rw [List.flatMap_cons, List.append_assoc] at same
      exact (apart notFlag same).elim
  | cons item items ih =>
    cases items' with
    | nil =>
      rw [List.flatMap_cons, List.append_assoc] at same
      exact (apart notFlag' same.symm).elim
    | cons item' items' =>
      rw [List.flatMap_cons, List.flatMap_cons, List.append_assoc, List.append_assoc] at same
      obtain ⟨rfl, rest⟩ := Item.args_inj same
      obtain ⟨rfl, rfl⟩ := ih _ rest
      exact ⟨rfl, rfl⟩

end RunnerFlags

end Silifuzz
