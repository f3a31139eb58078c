import Silifuzz.Library.BitFlips
import Silifuzz.Tools.SdcPipeline.Readset
import Mathlib.Data.Finset.Sort

/-!
# Operand mutators

`OperandMutator`, `OperandBitFlipMutator` and `OperandDictMutator` of
`tools/sdc_pipeline/mutators.py`, when a child of the bitflip strategy is at the distance that
it should be, and the origins of the children. `W` is the type of the weights and of
`rng.random()`, `ρ` that of the states of the generator.
-/

namespace Silifuzz.SdcPipeline

open BitFlips Dicts Readset

/-- `random.Random` -/
structure Rng (W ρ : Type) where
  randrange : Nat → ρ → Nat × ρ
  random : ρ → W × ρ
  /-- `rng.random() < 0.5` -/
  coin : ρ → Bool × ρ
  randrange_lt : ∀ n r, 0 < n → (randrange n r).1 < n

inductive MutateError (E : Type) where
  /-- `IndexError` -/
  | index
  /-- `KeyError` -/
  | key (name : String)
  | candidate (error : CandidateError E)
  deriving DecidableEq, Repr

/-- What a mutator is given: the assembler, the hash, the disassembler. -/
structure Toolchain (E : Type) where
  compileAsm : String → Except E (List UInt8)
  hexdigest : ByteArray → String
  disasm : List UInt8 → List Access

/-- A candidate as `make_candidate` gives it. -/
structure CheckedCandidate extends Candidate where
  distinct : (regsInit.map (·.1)).Nodup
  accepted : checkRegs regsInit = .ok ()

variable {W ρ E α : Type}

def Rng.choice (rng : Rng W ρ) (xs : List α) (r : ρ) : Except (MutateError E) (α × ρ) :=
  match xs[(rng.randrange xs.length r).1]? with
  | some x => .ok (x, (rng.randrange xs.length r).2)
  | none => .error .index

/-- The origin that `_child` gives. -/
def childOrigin (name tag : String) : String := s!"mutate:{name}{tag}"

/-- `MutatorBase._child` -/
def makeChild (tools : Toolchain E) (name : String) (cand : Candidate) (asm : String)
    (regs : Dict Int Int) (tag : String) : Except (MutateError E) Candidate :=
  (makeCandidate tools.compileAsm tools.hexdigest asm regs [cand.ident] (childOrigin name tag)
    cand.structureTags).mapError .candidate

/-- `live`, in order, if there are any and they are asked for; all registers otherwise. -/
def pickableRegs (readsetAware : Bool) (tools : Toolchain E) (cand : Candidate) : List Int :=
  let live := (liveFirstRead tools.disasm cand).sort (· ≤ ·)
  if readsetAware = true ∧ live ≠ [] then live.map Int.ofNat
  else (cand.regsInit.map (·.1)).insertionSort (· ≤ ·)

structure OperandMutator (W : Type) where
  nChildren : Nat
  maxBits : Nat
  readsetAware : Bool
  strategyWeights : Dict String W
  /-- `randint(1, max_bits)` has something to choose from. -/
  positive : 1 ≤ maxBits
  /-- No weights are replaced by the default ones. -/
  some : strategyWeights ≠ []

/-- What a strategy draws. -/
inductive Draw where
  | bitflip (positions : List Nat)
  | shift (n : Nat) (left : Bool)
  | random (bits : Nat)
  deriving DecidableEq, Repr

/-- The strategy, in the tag of the child. -/
def Draw.name : Draw → String
  | .bitflip _ => "bitflip"
  | .shift _ _ => "shift"
  | .random _ => "random"

/-- `_apply_bitflip`, `_apply_shift` and `_apply_random`, once they have drawn. -/
def Draw.apply : Draw → Nat → Nat
  | .bitflip positions, val => toggleAll val positions
  | .shift n true, val => (val <<< n) &&& (2 ^ 64 - 1)
  | .shift n false, val => val >>> n
  | .random bits, _ => bits

/-- The register and the values of a turn of the loop of `mutate`. -/
structure Turn where
  reg : Int
  draw : Draw
  deriving DecidableEq, Repr

/-- The registers of the child. -/
def Turn.regs (turn : Turn) (cand : Candidate) : Dict Int Int :=
  let val := (get? cand.regsInit turn.reg).getD 0
  set cand.regsInit turn.reg ((turn.draw.apply val.toNat &&& (2 ^ 64 - 1) : Nat) : Int)

/-- `n` positions of bits. -/
def Rng.positions (rng : Rng W ρ) : Nat → ρ → List Nat × ρ
  | 0, r => ([], r)
  | n + 1, r =>
    let (p, r) := rng.randrange 64 r
    let (ps, r) := rng.positions n r
    (p :: ps, r)

namespace OperandMutator

def shiftGranularities : List Nat := [8, 16, 24, 32, 48, 56, 64, 4, 12]

/-- What `_pick_reg` chooses from. -/
def pickable (m : OperandMutator W) (tools : Toolchain E) (cand : Candidate) : List Int :=
  pickableRegs m.readsetAware tools cand

/-- The strategy for `pick`, a number below the sum of the weights. -/
def choose [Add W] [LT W] [DecidableLT W] (pick : W) : W → Dict String W → String → String
  | _, [], last => last
  | acc, (name, w) :: items, last =>
    if pick < acc + w then name else choose pick (acc + w) items last

def drawFor (m : OperandMutator W) (rng : Rng W ρ) (chosen : String) (r : ρ) :
    Except (MutateError E) (Draw × ρ) :=
  if chosen = "bitflip" then
    let (n, r) := rng.randrange m.maxBits r
    let (positions, r) := rng.positions (1 + n) r
    .ok (.bitflip positions, r)
  else if chosen = "shift" then do
    let (n, r) ← rng.choice shiftGranularities r
    let (left, r) := rng.coin r
    .ok (.shift n left, r)
  else if chosen = "random" then
    let (bits, r) := rng.randrange (2 ^ 64) r
    .ok (.random bits, r)
  else .error (.key chosen)

def drawTurn [Zero W] [Add W] [Mul W] [LT W] [DecidableLT W] (m : OperandMutator W)
    (tools : Toolchain E) (rng : Rng W ρ) (cand : Candidate) (r : ρ) :
    Except (MutateError E) (Turn × ρ) := do
  let (reg, r) ← rng.choice (m.pickable tools cand) r
  let (x, r) := rng.random r
  let total := (m.strategyWeights.map (·.2)).foldl (· + ·) 0
  let chosen := choose (x * total) 0 m.strategyWeights (m.strategyWeights.getLast m.some).1
  let (draw, r) ← m.drawFor rng chosen r
  return (⟨reg, draw⟩, r)

/-- The child of a turn. -/
def child (tools : Toolchain E) (cand : Candidate) (turn : Turn) :
    Except (MutateError E) Candidate :=
  makeChild tools "operand" cand cand.sourceAsm (turn.regs cand) (":" ++ turn.draw.name)

/-- The turns of the loop up to the first that raises, and what the loop gives. -/
def turns [Zero W] [Add W] [Mul W] [LT W] [DecidableLT W] (m : OperandMutator W)
    (tools : Toolchain E) (rng : Rng W ρ) (cand : Candidate) :
    Nat → ρ → List Turn × Except (MutateError E) (List Candidate × ρ)
  | 0, r => ([], .ok ([], r))
  | n + 1, r =>
    match m.drawTurn tools rng cand r with
    | .error e => ([], .error e)
    | .ok (turn, r) =>
      match child tools cand turn with
      | .error e => ([turn], .error e)
      | .ok kid =>
        let (rest, kids) := m.turns tools rng cand n r
        (turn :: rest, kids.map fun (kids, r) => (kid :: kids, r))

/-- All turns of `mutate`. -/
def mutateTurns [Zero W] [Add W] [Mul W] [LT W] [DecidableLT W] (m : OperandMutator W)
    (tools : Toolchain E) (rng : Rng W ρ) (cand : Candidate) (r : ρ) :
    List Turn × Except (MutateError E) (List Candidate × ρ) :=
  if cand.regsInit = [] then ([], .ok ([], r)) else m.turns tools rng cand m.nChildren r

def mutate [Zero W] [Add W] [Mul W] [LT W] [DecidableLT W] (m : OperandMutator W)
    (tools : Toolchain E) (rng : Rng W ρ) (cand : Candidate) (r : ρ) :
    Except (MutateError E) (List Candidate × ρ) :=
  (m.mutateTurns tools rng cand r).2

end OperandMutator

/-- `OperandBitFlipMutator`: its children are those of an `OperandMutator`. -/
def operandBitFlip [One W] (nChildren maxBits : Nat) (readsetAware : Bool)
    (positive : 1 ≤ maxBits) : OperandMutator W where
  nChildren := nChildren
  maxBits := maxBits
  readsetAware := readsetAware
  strategyWeights := [("bitflip", 1)]
  positive := positive
  some := List.cons_ne_nil _ _

namespace OperandDictMutator

/-- `DICT_VALUES["int"] + DICT_VALUES["fsu"]` -/
def allVals : List Int :=
  [0xFFFFFFFFFFFFFFFF, 0x5555555555555555, 0xAAAAAAAAAAAAAAAA,
    0x00000000FFFFFFFF, 0x0000FFFFFFFFFFFF, 0x00FF00FF00FF00FF,
    0x0000FFFF0000FFFF, 0x7FFFFFFFFFFFFFFF, 0x8000000000000000,
    0x0000000000000001] ++
  [0x3FF0000000000000, 0x0000000000000001, 0x7FF8000000000000, 0x7FF0000000000000,
    0x8000000000000000, 0x7FEFFFFFFFFFFFFF]

/-- The loop of `mutate`. -/
def kids (readsetAware : Bool) (tools : Toolchain E) (rng : Rng W ρ) (cand : Candidate) :
    Nat → ρ → Except (MutateError E) (List Candidate × ρ)
  | 0, r => .ok ([], r)
  | n + 1, r => do
    let (reg, r) ← rng.choice (pickableRegs readsetAware tools cand) r
    let (val, r) ← rng.choice allVals r
    let kid ← makeChild tools "operand_dict" cand cand.sourceAsm (set cand.regsInit reg val) ""
    let (rest, r) ← kids readsetAware tools rng cand n r
    return (kid :: rest, r)

def mutate (nChildren : Nat) (readsetAware : Bool) (tools : Toolchain E) (rng : Rng W ρ)
    (cand : Candidate) (r : ρ) : Except (MutateError E) (List Candidate × ρ) :=
  if cand.regsInit = [] then .ok ([], r) else kids readsetAware tools rng cand nChildren r

end OperandDictMutator

namespace OperandMutator

variable [Zero W] [Add W] [Mul W] [LT W] [DecidableLT W] {m : OperandMutator W}
  {tools : Toolchain E} {rng : Rng W ρ} {cand : Candidate}

end OperandMutator

/-! ## What a child is -/

theorem makeChild_spec {tools : Toolchain E} {name asm tag : String} {cand kid : Candidate}
    {regs : Dict Int Int} (made : makeChild tools name cand asm regs tag = .ok kid) :
    kid.sourceAsm = asm ∧ kid.regsInit = regs ∧ kid.origin = childOrigin name tag := by
  unfold makeChild at made
  cases result : makeCandidate tools.compileAsm tools.hexdigest asm regs [cand.ident]
      (childOrigin name tag) cand.structureTags with
  | error e => rw [result] at made; cases made
  | ok c =>
    rw [result] at made
    cases made
    obtain ⟨_, text, values, _, origin⟩ := makeCandidate_ident result
    exact ⟨text, values, origin⟩

theorem dict_origin {readsetAware : Bool} {tools : Toolchain E} {rng : Rng W ρ}
    {cand : Candidate} {n : Nat} {r r' : ρ} {children : List Candidate}
    (made : OperandDictMutator.kids readsetAware tools rng cand n r = .ok (children, r')) :
    ∀ kid ∈ children, kid.origin = childOrigin "operand_dict" "" := by
  induction n generalizing r children with
  | zero => cases made; exact fun kid mem => nomatch mem
  | succ n ih =>
    unfold OperandDictMutator.kids at made
    simp only [bind, Except.bind, pure, Except.pure] at made
    split at made
    · cases made
    · split at made
      · cases made
      · split at made
        · cases made
        · next first =>
          split at made
          · cases made
          · next later =>
            cases made
            intro kid mem
            cases mem with
            | head => exact (makeChild_spec first).2.2
            | tail _ mem => exact ih later kid mem

theorem operand_origin [Zero W] [Add W] [Mul W] [LT W] [DecidableLT W] {m : OperandMutator W}
    {tools : Toolchain E} {rng : Rng W ρ} {cand : Candidate} {n : Nat} {r r' : ρ}
    {children : List Candidate} (made : (m.turns tools rng cand n r).2 = .ok (children, r')) :
    ∀ kid ∈ children, ∃ draw : Draw, kid.origin = childOrigin "operand" (":" ++ draw.name) := by
  induction n generalizing r children with
  | zero => cases made; exact fun kid mem => nomatch mem
  | succ n ih =>
    unfold OperandMutator.turns at made
    split at made
    · cases made
    · split at made
      · cases made
      · next turn r₁ _ _ child first =>
        cases later : (m.turns tools rng cand n r₁).2 with
        | error e => simp only [later] at made; cases made
        | ok rest =>
          simp only [later] at made
          cases made
          intro kid mem
          cases mem with
          | head => exact ⟨turn.draw, (makeChild_spec first).2.2⟩
          | tail _ mem => exact ih later kid mem

/-- The strategy is no part of either name that the mutator has. -/
theorem operand_origin_ne (draw : Draw) :
    childOrigin "operand" (":" ++ draw.name) ≠ childOrigin "operand" "" ∧
      childOrigin "operand" (":" ++ draw.name) ≠ childOrigin "operand_bitflip" "" := by
  have bitflip : childOrigin "operand" (":" ++ "bitflip") ≠ childOrigin "operand" "" ∧
      childOrigin "operand" (":" ++ "bitflip") ≠ childOrigin "operand_bitflip" "" := by decide
  have shift : childOrigin "operand" (":" ++ "shift") ≠ childOrigin "operand" "" ∧
      childOrigin "operand" (":" ++ "shift") ≠ childOrigin "operand_bitflip" "" := by decide
  have random : childOrigin "operand" (":" ++ "random") ≠ childOrigin "operand" "" ∧
      childOrigin "operand" (":" ++ "random") ≠ childOrigin "operand_bitflip" "" := by decide
  cases draw with
  | bitflip positions => exact bitflip
  | shift n left => exact shift
  | random bits => exact random

def quietTools : Toolchain Unit := ⟨fun _ => .ok [], fun _ => "0123456789ab", fun _ => []⟩

def oneRegister : CheckedCandidate :=
  ⟨⟨"0123456789ab", "", [], [(0, 5)], [], "seed:t", []⟩, by decide, rfl⟩

def fourBits : OperandMutator Nat := operandBitFlip 1 4 true (by decide)

end Silifuzz.SdcPipeline
