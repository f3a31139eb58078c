import Silifuzz.Library.Accumulators
import Mathlib.Algebra.Group.Basic
import Mathlib.Data.List.FinRange

/-!
# Sequences of the benchmark

`gen_asm` of `tools/sdc_experiment/sdcbench_gen.py`: eight independent chains whose results are
folded into one checksum. A flip of a bit is to survive up to there.
-/

namespace Silifuzz.SdcbenchGen

open Accumulators

/-- `CHAIN_OPS`; nothing reads the flags that `adds` and `subs` set. -/
inductive ChainOp where
  | adds | subs | mul | add | eor | and | orr | bic
  deriving DecidableEq, Repr

/-- The value of `op x{d}, x{d}, x{a}`. -/
def ChainOp.value : ChainOp → BitVec 64 → BitVec 64 → BitVec 64
  | adds, x, a | add, x, a => x + a
  | subs, x, a => x - a
  | mul, x, a => x * a
  | eor, x, a => x ^^^ a
  | and, x, a => x &&& a
  | orr, x, a => x ||| a
  | bic, x, a => x &&& ~~~a

inductive OpName where
  | op (op : ChainOp)
  | mixed
  deriving DecidableEq, Repr

def chainOpNames (i : Fin 8) : ChainOp :=
  match i with
  | 0 => .adds
  | 1 => .subs
  | 2 => .mul
  | 3 => .add
  | 4 => .eor
  | 5 => .orr
  | 6 => .bic
  | 7 => .and

abbrev Reg := Fin 31

inductive Instr where
  | movz (d : Reg) (imm : BitVec 16)
  | movk (d : Reg) (imm : BitVec 16) (lsl : Nat)
  | op (op : ChainOp) (d n a : Reg)
  deriving DecidableEq, Repr

/-- The lines that are written: `body` is between `.rept` and `.endr`. -/
structure Asm where
  setup : List Instr
  rept : Nat
  body : List Instr
  fold : List Instr

def movzSeq (reg : Reg) (val : BitVec 64) : List Instr :=
  .movz reg (val.setWidth 16) :: [16, 32, 48].flatMap fun shift =>
    let word := (val >>> shift).setWidth 16
    if word ≠ 0 then [.movk reg word shift] else []

def chainReg (i : Fin 8) : Reg := ⟨i, by omega⟩

/-- The first value of a chain. -/
def phase (initVal : BitVec 64) (i : Fin 8) : BitVec 64 :=
  let rot := if i ≠ 0 then initVal <<< (i.val * 7) ||| initVal >>> (64 - i.val * 7) else initVal
  rot ^^^ (0x9E3779B97F4A7C15 * BitVec.ofNat 64 (i + 1))

def opOf (opName : OpName) (seed : Nat) (i : Fin 8) : ChainOp :=
  match opName with
  | .mixed => chainOpNames (Fin.ofNat 8 (i + seed))
  | .op op => op

def src (iters : Nat) (i : Fin 8) : Reg := if (i + iters) % 2 = 0 then 9 else 10

def chainInstr (opName : OpName) (iters seed : Nat) (i : Fin 8) : Instr :=
  .op (opOf opName seed i) (chainReg i) (chainReg i) (src iters i)

def genAsm (opName : OpName) (initVal stepVal : BitVec 64) (iters seed : Nat) : Asm where
  setup :=
    (List.finRange 8).flatMap (fun i => movzSeq (chainReg i) (phase initVal i)) ++
      movzSeq 9 stepVal ++ movzSeq 10 (stepVal ^^^ 0xA5A5A5A5A5A5A5A5)
  rept := iters
  body := (List.finRange 8).map (chainInstr opName iters seed)
  fold := (List.finRange 8).tail.map fun i => .op .eor 0 0 (chainReg i)

/-! ## Runs -/

abbrev Regs := Reg → BitVec 64

def exec (regs : Regs) : Instr → Regs
  | .movz d imm => Function.update regs d (imm.setWidth 64)
  | .movk d imm lsl => Function.update regs d
      (regs d &&& ~~~(0xffff#64 <<< lsl) ||| imm.setWidth 64 <<< lsl)
  | .op op d n a => Function.update regs d (op.value (regs n) (regs a))

def run (l : List Instr) (regs : Regs) : Regs := l.foldl exec regs

def Asm.chain (asm : Asm) : List Instr := (List.replicate asm.rept asm.body).flatten

/-- What is in `x0` in the end. -/
def Asm.checksum (asm : Asm) (regs : Regs) : BitVec 64 :=
  run (asm.setup ++ asm.chain ++ asm.fold) regs 0

def flip (regs : Regs) (reg : Reg) (bit : Nat) : Regs :=
  Function.update regs reg (regs reg ^^^ BitVec.twoPow 64 bit)

/-- The checksum with a flip after `point` instructions of the chain. -/
def Asm.checksumWithFlip (asm : Asm) (point : Nat) (reg : Reg) (bit : Nat) (regs : Regs) :
    BitVec 64 :=
  run (asm.chain.drop point ++ asm.fold)
    (flip (run (asm.setup ++ asm.chain.take point) regs) reg bit) 0

/-! ## What a chain keeps of a flip -/

/-- The constant that a chain takes in. -/
def constant (stepVal : BitVec 64) (iters : Nat) (i : Fin 8) : BitVec 64 :=
  if (i + iters) % 2 = 0 then stepVal else stepVal ^^^ 0xA5A5A5A5A5A5A5A5

/-- The turns of a chain behind the first `point` instructions. -/
def turnsLeft (iters point : Nat) (i : Fin 8) : Nat := iters - (point + 7 - i) / 8

/-- After `turns` steps with the constant `a`, a flip can still be seen. -/
def ChainOp.Keeps (a : BitVec 64) (turns bit : Nat) : ChainOp → Prop
  | .adds | .subs | .add | .eor => True
  | .mul => ¬ 2 ^ (64 - bit) ∣ a.toNat ^ turns
  | .and => turns = 0 ∨ a.getLsbD bit = true
  | .orr | .bic => turns = 0 ∨ a.getLsbD bit = false

variable {x y a : BitVec 64} {bit : Nat}

theorem getLsbD_flip (small : bit < 64) (j : Nat) :
    (x ^^^ BitVec.twoPow 64 bit).getLsbD j = (x.getLsbD j ^^ decide (j = bit)) := by
  rw [BitVec.getLsbD_xor, BitVec.getLsbD_twoPow, decide_eq_true small, Bool.true_and]
  congr 1
  exact decide_eq_decide.mpr eq_comm

theorem flip_ne (small : bit < 64) : x ^^^ BitVec.twoPow 64 bit ≠ x := by
  intro same
  have bits := @getLsbD_flip x bit small bit
  rw [same] at bits
  cases x.getLsbD bit <;> simp at bits

/-- Of a word and its flip, one is the other and a power of two. -/
theorem flip_add (x : BitVec 64) (small : bit < 64) :
    (x ^^^ BitVec.twoPow 64 bit = x + BitVec.twoPow 64 bit) ∨
      x = (x ^^^ BitVec.twoPow 64 bit) + BitVec.twoPow 64 bit := by
  have clear (y : BitVec 64) (low : y.getLsbD bit = false) :
      y + BitVec.twoPow 64 bit = y ^^^ BitVec.twoPow 64 bit := by
    have apart : y &&& BitVec.twoPow 64 bit = 0#64 := by
      rw [BitVec.and_twoPow, low]
      rfl
    rw [BitVec.add_eq_or_of_and_eq_zero _ _ apart]
    apply BitVec.eq_of_getLsbD_eq
    intro j _
    rw [getLsbD_flip small, BitVec.getLsbD_or, BitVec.getLsbD_twoPow, decide_eq_true small]
    by_cases here : j = bit
    · subst here
      simp [low]
    · simp [here, Ne.symm here]
  cases low : x.getLsbD bit with
  | false => exact .inl (clear x low).symm
  | true =>
    right
    rw [clear, BitVec.xor_assoc, BitVec.xor_self, BitVec.xor_zero]
    rw [getLsbD_flip small, low, decide_eq_true rfl]
    rfl

theorem iterate_mul (x a : BitVec 64) (n : Nat) : (fun y => y * a)^[n] x = x * a ^ n := by
  induction n generalizing x with
  | zero => simp
  | succ n ih => rw [Function.iterate_succ_apply, ih, pow_succ', mul_assoc]

theorem toNat_pow (a : BitVec 64) (n : Nat) : (a ^ n).toNat = a.toNat ^ n % 2 ^ 64 := by
  induction n with
  | zero => rfl
  | succ n ih => rw [pow_succ, BitVec.toNat_mul, ih, Nat.mod_mul_mod, ← pow_succ]

theorem twoPow_mul_eq_zero (small : bit < 64) (a : BitVec 64) (n : Nat) :
    BitVec.twoPow 64 bit * a ^ n = 0#64 ↔ 2 ^ (64 - bit) ∣ a.toNat ^ n := by
  have split : 2 ^ 64 = 2 ^ bit * 2 ^ (64 - bit) := by
    rw [← Nat.pow_add]
    congr 1
    omega
  rw [← BitVec.toNat_inj, BitVec.toNat_mul, BitVec.toNat_twoPow_of_lt small, toNat_pow,
    Nat.mul_mod_mod, BitVec.toNat_ofNat, Nat.zero_mod, ← Nat.dvd_iff_mod_eq_zero, split]
  exact Nat.mul_dvd_mul_iff_left (Nat.two_pow_pos bit)

/-- Words that agree but at one bit. -/
theorem eq_iff_of_agree (agree : ∀ j, j ≠ bit → x.getLsbD j = y.getLsbD j) :
    x = y ↔ x.getLsbD bit = y.getLsbD bit := by
  constructor
  · rintro rfl
    rfl
  · intro same
    apply BitVec.eq_of_getLsbD_eq
    intro j _
    by_cases here : j = bit
    · rw [here, same]
    · exact agree j here

/-- Steps that change nothing more after the first. -/
theorem iterate_of_idempotent {f : BitVec 64 → BitVec 64} (again : ∀ x, f (f x) = f x) (n : Nat)
    (x : BitVec 64) : f^[n + 1] x = f x := by
  induction n with
  | zero => rfl
  | succ n ih => rw [Function.iterate_succ_apply', ih, again]

theorem injective_keeps {f : BitVec 64 → BitVec 64} (injective : Function.Injective f)
    (small : bit < 64) (n : Nat) :
    f^[n] (x ^^^ BitVec.twoPow 64 bit) ≠ f^[n] x := by
  intro same
  exact flip_ne small (injective.iterate n same)

theorem mul_keeps (small : bit < 64) (n : Nat) :
    (fun y => y * a)^[n] (x ^^^ BitVec.twoPow 64 bit) ≠ (fun y => y * a)^[n] x ↔
      ¬ 2 ^ (64 - bit) ∣ a.toNat ^ n := by
  rw [iterate_mul, iterate_mul, not_iff_not, ← twoPow_mul_eq_zero small]
  rcases flip_add x small with sum | sum
  · rw [sum, add_mul, add_eq_left]
    rfl
  · generalize x ^^^ BitVec.twoPow 64 bit = y at *
    rw [sum, add_mul, left_eq_add]
    rfl

/-- A step of a bitwise operation after which only the bit itself can differ. -/
theorem bitwise_keeps {f : BitVec 64 → BitVec 64} {kept : Prop} (small : bit < 64)
    (again : ∀ x, f (f x) = f x)
    (agree : ∀ x j, j ≠ bit → (f (x ^^^ BitVec.twoPow 64 bit)).getLsbD j = (f x).getLsbD j)
    (differ : ∀ x, ((f (x ^^^ BitVec.twoPow 64 bit)).getLsbD bit = (f x).getLsbD bit) ↔
      ¬ kept) (n : Nat) :
    f^[n] (x ^^^ BitVec.twoPow 64 bit) ≠ f^[n] x ↔ n = 0 ∨ kept := by
  cases n with
  | zero => exact ⟨fun _ => .inl rfl, fun _ => flip_ne small⟩
  | succ n =>
    rw [iterate_of_idempotent again, iterate_of_idempotent again, ne_eq,
      eq_iff_of_agree (agree x), differ]
    simp

/-- **When a chain keeps a flip.** -/
theorem keeps_iff (op : ChainOp) (small : bit < 64) (n : Nat) :
    (fun y => op.value y a)^[n] (x ^^^ BitVec.twoPow 64 bit) ≠ (fun y => op.value y a)^[n] x ↔
      op.Keeps a n bit := by
  cases op with
  | adds | add =>
    exact iff_of_true (injective_keeps (add_left_injective a) small n) trivial
  | subs => exact iff_of_true (injective_keeps (sub_left_injective) small n) trivial
  | eor =>
    refine iff_of_true (injective_keeps ?_ small n) trivial
    intro y z same
    exact (BitVec.xor_left_inj a).mp same
  | mul => exact mul_keeps small n
  | and =>
    apply bitwise_keeps small
    · intro y
      rw [ChainOp.value, ChainOp.value, BitVec.and_assoc, BitVec.and_self]
    · intro y j other
      simp [ChainOp.value, getLsbD_flip small, other]
    · intro y
      simp only [ChainOp.value, BitVec.getLsbD_and, getLsbD_flip small]
      cases y.getLsbD bit <;> simp
  | orr =>
    apply bitwise_keeps small
    · intro y
      rw [ChainOp.value, ChainOp.value, BitVec.or_assoc, BitVec.or_self]
    · intro y j other
      simp [ChainOp.value, getLsbD_flip small, other]
    · intro y
      simp only [ChainOp.value, BitVec.getLsbD_or, getLsbD_flip small]
      cases y.getLsbD bit <;> simp
  | bic =>
    apply bitwise_keeps small
    · intro y
      rw [ChainOp.value, ChainOp.value, BitVec.and_assoc, BitVec.and_self]
    · intro y j other
      simp [ChainOp.value, getLsbD_flip small, other]
    · intro y
      simp only [ChainOp.value, BitVec.getLsbD_and, getLsbD_flip small, BitVec.getLsbD_not,
        decide_eq_true small, Bool.true_and]
      cases y.getLsbD bit <;> simp

/-! ## What the instructions do -/

variable {regs : Regs}

theorem run_append (l l' : List Instr) (regs : Regs) :
    run (l ++ l') regs = run l' (run l regs) := List.foldl_append

/-- The bits below `shift` are those of `val`, and the others are clear. -/
def LowPart (val : BitVec 64) (shift : Nat) (low : BitVec 64) : Prop :=
  ∀ j, low.getLsbD j = (decide (j < shift) && val.getLsbD j)

theorem getLsbD_word (val : BitVec 64) (shift j : Nat) :
    ((val >>> shift).setWidth 16).getLsbD j = (decide (j < 16) && val.getLsbD (shift + j)) := by
  rw [BitVec.getLsbD_setWidth, BitVec.getLsbD_ushiftRight]

theorem getLsbD_mask (j : Nat) : (0xffff#64).getLsbD j = decide (j < 16) := by
  rw [BitVec.getLsbD_ofNat]
  change (decide (j < 64) && (2 ^ 16 - 1).testBit j) = _
  rw [Nat.testBit_two_pow_sub_one]
  by_cases small : j < 16
  · simp [small, Nat.lt_trans small]
  · simp [small]

/-- A `movk` sets its 16 bits. -/
theorem movk_lowPart {val low : BitVec 64} {shift : Nat} (done : LowPart val shift low) :
    LowPart val (shift + 16) (low &&& ~~~(0xffff#64 <<< shift) |||
      ((val >>> shift).setWidth 16).setWidth 64 <<< shift) := by
  intro j
  simp only [BitVec.getLsbD_or, BitVec.getLsbD_and, BitVec.getLsbD_not, BitVec.getLsbD_shiftLeft,
    BitVec.getLsbD_setWidth, BitVec.getLsbD_ushiftRight, getLsbD_mask, done j]
  rcases Nat.lt_or_ge j 64 with inside | outside
  · rcases Nat.lt_or_ge j shift with before | after
    · simp [before, inside]
      omega
    · have index : shift + (j - shift) = j := by omega
      have word : decide (j - shift < 16) = decide (j < shift + 16) :=
        decide_eq_decide.mpr (by omega)
      simp [inside, Nat.not_lt.mpr after, index, word]
      omega
  · rw [BitVec.getLsbD_of_ge val j outside]
    simp [Nat.not_lt.mpr outside]

/-- The word is loaded if there is one. -/
theorem run_movkWord {val low : BitVec 64} {shift : Nat} (reg : Reg) (regs : Regs)
    (done : LowPart val shift low) : ∃ low', LowPart val (shift + 16) low' ∧
      run (if (val >>> shift).setWidth 16 ≠ 0 then
          [.movk reg ((val >>> shift).setWidth 16) shift] else [])
        (Function.update regs reg low) = Function.update regs reg low' := by
  by_cases word : (val >>> shift).setWidth 16 = 0
  · refine ⟨low, ?_, by rw [if_neg (not_not.mpr word)]; rfl⟩
    intro j
    have zero := getLsbD_word val shift (j - shift)
    rw [word] at zero
    simp only [BitVec.ofNat_eq_ofNat, BitVec.getLsbD_zero] at zero
    rw [done j]
    rcases Nat.lt_or_ge j shift with before | after
    · rw [decide_eq_true before, decide_eq_true (by omega)]
    · rw [Nat.add_sub_cancel' after] at zero
      rw [decide_eq_false (by omega), Bool.false_and]
      by_cases below : j < shift + 16
      · rw [decide_eq_true (by omega), Bool.true_and] at zero
        rw [← zero, Bool.and_false]
      · rw [decide_eq_false below, Bool.false_and]
  · refine ⟨_, movk_lowPart done, ?_⟩
    rw [if_pos word]
    change Function.update (Function.update regs reg low) reg _ = _
    rw [Function.update_idem, Function.update_self]

/-- A constant is loaded word by word. -/
theorem run_movzSeq (reg : Reg) (val : BitVec 64) (regs : Regs) :
    run (movzSeq reg val) regs = Function.update regs reg val := by
  have first : LowPart val 16 ((val.setWidth 16).setWidth 64) := by
    intro j
    rw [BitVec.getLsbD_setWidth, BitVec.getLsbD_setWidth]
    by_cases small : j < 16
    · simp [small, Nat.lt_trans small]
    · simp [small]
  obtain ⟨low₁, part₁, run₁⟩ := run_movkWord reg regs first
  obtain ⟨low₂, part₂, run₂⟩ := run_movkWord reg regs part₁
  obtain ⟨low₃, part₃, run₃⟩ := run_movkWord reg regs part₂
  have whole : low₃ = val := by
    apply BitVec.eq_of_getLsbD_eq
    intro j inside
    rw [part₃ j, decide_eq_true inside, Bool.true_and]
  have words : movzSeq reg val = [.movz reg (val.setWidth 16)] ++
      ((if (val >>> 16).setWidth 16 ≠ 0 then [.movk reg ((val >>> 16).setWidth 16) 16] else []) ++
      ((if (val >>> 32).setWidth 16 ≠ 0 then [.movk reg ((val >>> 32).setWidth 16) 32] else []) ++
      (if (val >>> 48).setWidth 16 ≠ 0 then [.movk reg ((val >>> 48).setWidth 16) 48] else []))) :=
    by simp [movzSeq]
  rw [words, run_append, run_append, run_append]
  change run _ (run _ (run _ (Function.update regs reg ((val.setWidth 16).setWidth 64)))) = _
  rw [run₁, run₂, run₃, whole]

def chainIndices (iters : Nat) : List (Fin 8) := (List.replicate iters (List.finRange 8)).flatten

theorem chainReg_injective : Function.Injective chainReg := by
  decide

theorem chainReg_ne (i : Fin 8) : chainReg i ≠ 9 ∧ chainReg i ≠ 10 := by
  revert i
  decide

theorem chainReg_ne_src (iters : Nat) (i d : Fin 8) : chainReg d ≠ src iters i := by
  unfold src
  split
  · exact (chainReg_ne d).1
  · exact (chainReg_ne d).2

theorem chain_eq (opName : OpName) (initVal stepVal : BitVec 64) (iters seed : Nat) :
    (genAsm opName initVal stepVal iters seed).chain =
      (chainIndices iters).map (chainInstr opName iters seed) := by
  rw [chainIndices, List.map_flatten, List.map_replicate]
  rfl

/-- The chains take turns. -/
theorem run_chain (opName : OpName) (iters seed : Nat) (l : List (Fin 8)) (regs : Regs) :
    run (l.map (chainInstr opName iters seed)) regs =
      l.foldl (turn (fun i => (opOf opName seed i).value) chainReg (src iters)) regs := by
  rw [run, List.foldl_map]
  rfl

theorem count_drop_body (point : Nat) (i : Fin 8) (small : point < 8) :
    ((List.finRange 8).drop point).count i = if point ≤ i then 1 else 0 := by
  revert i
  revert point
  decide

theorem length_body : (List.finRange 8).length = 8 := List.length_finRange

theorem count_drop (iters point : Nat) (i : Fin 8) :
    ((chainIndices iters).drop point).count i = turnsLeft iters point i := by
  unfold turnsLeft
  induction iters generalizing point with
  | zero => simp [chainIndices]
  | succ n ih =>
    have next : chainIndices (n + 1) = List.finRange 8 ++ chainIndices n := rfl
    have below := i.isLt
    rw [next, List.drop_append, List.count_append, length_body, ih]
    rcases Nat.lt_or_ge point 8 with inside | behind
    · rw [count_drop_body point i inside]
      split <;> omega
    · rw [List.drop_of_length_le (by rw [length_body]; exact behind), List.count_nil]
      omega

theorem run_eors {l : List (Fin 8)} (apart : ∀ i ∈ l, chainReg i ≠ 0) (regs : Regs) :
    run (l.map fun i => .op .eor 0 0 (chainReg i)) regs 0 =
      l.foldl (fun a i => a ^^^ regs (chainReg i)) (regs 0) := by
  induction l generalizing regs with
  | nil => rfl
  | cons i l ih =>
    obtain ⟨here, later⟩ := List.forall_mem_cons.mp apart
    have same (j : Fin 8) (inside : j ∈ l) : exec regs (.op .eor 0 0 (chainReg i)) (chainReg j) =
        regs (chainReg j) := Function.update_of_ne (later j inside) _ _
    rw [List.map_cons, List.foldl_cons]
    refine (ih later (exec regs (.op .eor 0 0 (chainReg i)))).trans ?_
    rw [exec, Function.update_self]
    apply List.foldl_ext
    intro a j inside
    exact congrArg (a ^^^ ·) (same j inside)

theorem run_fold (regs : Regs) :
    run ((List.finRange 8).tail.map fun i => .op .eor 0 0 (chainReg i)) regs 0 =
      (List.finRange 8).foldl (fun a i => a ^^^ regs (chainReg i)) 0#64 := by
  have first : List.finRange 8 = 0 :: (List.finRange 8).tail := by decide
  rw [run_eors (by decide), first, List.foldl_cons, BitVec.zero_xor]
  rfl

/-! ## Flips -/

variable (opName : OpName) (initVal stepVal : BitVec 64) (iters seed : Nat)

/-- What the chains read while they run. -/
def Loaded (stepVal : BitVec 64) (regs : Regs) : Prop :=
  regs 9 = stepVal ∧ regs 10 = stepVal ^^^ 0xA5A5A5A5A5A5A5A5

theorem Loaded.src {stepVal : BitVec 64} {regs : Regs} (loaded : Loaded stepVal regs) (iters : Nat)
    (i : Fin 8) : regs (src iters i) = constant stepVal iters i := by
  unfold SdcbenchGen.src constant
  split
  · exact loaded.1
  · exact loaded.2

theorem setup_loaded (regs : Regs) :
    Loaded stepVal (run (genAsm opName initVal stepVal iters seed).setup regs) := by
  unfold genAsm
  rw [run_append, run_append, run_movzSeq, run_movzSeq]
  constructor
  · rw [Function.update_of_ne (by decide), Function.update_self]
  · rw [Function.update_self]

theorem chain_loaded {regs : Regs} (loaded : Loaded stepVal regs) (l : List (Fin 8)) :
    Loaded stepVal (run (l.map (chainInstr opName iters seed)) regs) := by
  rw [run_chain]
  constructor
  · rw [foldl_turn_of_ne fun d _ => (chainReg_ne d).1]
    exact loaded.1
  · rw [foldl_turn_of_ne fun d _ => (chainReg_ne d).2]
    exact loaded.2

theorem flip_loaded {regs : Regs} (loaded : Loaded stepVal regs) (i : Fin 8) (bit : Nat) :
    Loaded stepVal (flip regs (chainReg i) bit) := by
  constructor
  · exact (Function.update_of_ne (chainReg_ne i).1.symm _ _).trans loaded.1
  · exact (Function.update_of_ne (chainReg_ne i).2.symm _ _).trans loaded.2

/-- Each chain ends where its own steps lead. -/
theorem run_chain_apply {regs : Regs} (loaded : Loaded stepVal regs) (l : List (Fin 8))
    (i : Fin 8) : run (l.map (chainInstr opName iters seed)) regs (chainReg i) =
      (fun x => (opOf opName seed i).value x (constant stepVal iters i))^[l.count i]
        (regs (chainReg i)) := by
  rw [run_chain, foldl_turn_apply chainReg_injective fun d _ => chainReg_ne_src iters i d,
    loaded.src]

/-- The checksums differ if the values of the chain that was hit do. -/
theorem exists_chain_value (point : Nat) (i : Fin 8) (bit : Nat) (regs : Regs) :
    ∃ x, ((genAsm opName initVal stepVal iters seed).checksumWithFlip point (chainReg i) bit regs =
        (genAsm opName initVal stepVal iters seed).checksum regs ↔
      (fun y => (opOf opName seed i).value y (constant stepVal iters i))^[turnsLeft iters point i]
          (x ^^^ BitVec.twoPow 64 bit) =
        (fun y => (opOf opName seed i).value y (constant stepVal iters i))^[turnsLeft iters point i]
          x) := by
  generalize setup : run (genAsm opName initVal stepVal iters seed).setup regs = s₀
  have loaded₀ : Loaded stepVal s₀ := by
    rw [← setup]
    exact setup_loaded opName initVal stepVal iters seed regs
  generalize before : run (((chainIndices iters).take point).map (chainInstr opName iters seed))
    s₀ = s
  have loaded : Loaded stepVal s := by
    rw [← before]
    exact chain_loaded opName stepVal iters seed loaded₀ _
  have whole : run ((chainIndices iters).map (chainInstr opName iters seed)) s₀ =
      run (((chainIndices iters).drop point).map (chainInstr opName iters seed)) s := by
    rw [← before, ← run_append, ← List.map_append, List.take_append_drop]
  refine ⟨s (chainReg i), ?_⟩
  rw [Asm.checksum, Asm.checksumWithFlip, run_append _ (Asm.fold _), run_append _ (Asm.fold _),
    run_append (Asm.setup _), run_append (Asm.setup _), setup, chain_eq, ← List.map_take,
    ← List.map_drop, before, whole]
  change run ((List.finRange 8).tail.map fun i => .op .eor 0 0 (chainReg i)) _ 0 =
    run ((List.finRange 8).tail.map fun i => .op .eor 0 0 (chainReg i)) _ 0 ↔ _
  rw [run_fold, run_fold, foldl_xor_eq_iff (List.nodup_finRange 8) (List.mem_finRange i)]
  · rw [run_chain_apply opName stepVal iters seed (flip_loaded stepVal loaded i bit),
      run_chain_apply opName stepVal iters seed loaded, count_drop, flip, Function.update_self]
  · intro j other
    rw [run_chain_apply opName stepVal iters seed (flip_loaded stepVal loaded i bit),
      run_chain_apply opName stepVal iters seed loaded, flip,
      Function.update_of_ne fun eq => other (chainReg_injective eq)]

/-- **A flip changes the checksum exactly if the chain keeps it**: every flip with additions,
subtractions and exclusive ors, and with multiplications one that the power of the constant that
is still to come does not shift out. -/
theorem checksumWithFlip_ne_iff (point : Nat) (i : Fin 8) (bit : Fin 64) (regs : Regs) :
    (genAsm opName initVal stepVal iters seed).checksumWithFlip point (chainReg i) bit regs ≠
        (genAsm opName initVal stepVal iters seed).checksum regs ↔
      (opOf opName seed i).Keeps (constant stepVal iters i) (turnsLeft iters point i) bit := by
  obtain ⟨x, same⟩ := exists_chain_value opName initVal stepVal iters seed point i bit regs
  rw [ne_eq, same]
  exact keeps_iff _ bit.isLt _

theorem even_iff (v : BitVec 64) : 2 ∣ v.toNat ↔ v.getLsbD 0 = false := by
  rw [BitVec.getLsbD, Nat.testBit_zero, Nat.dvd_iff_mod_eq_zero, decide_eq_false_iff_not]
  omega

/-- One of the two constants is even. -/
theorem exists_even (stepVal : BitVec 64) (iters : Nat) :
    ∃ i, 2 ∣ (constant stepVal iters i).toNat := by
  cases low : stepVal.getLsbD 0 with
  | false =>
    refine ⟨⟨iters % 2, by omega⟩, (even_iff _).mpr ?_⟩
    rw [constant, if_pos (by change (iters % 2 + iters) % 2 = 0; omega), low]
  | true =>
    refine ⟨⟨(iters + 1) % 2, by omega⟩, (even_iff _).mpr ?_⟩
    rw [constant, if_neg (by change ¬((iters + 1) % 2 + iters) % 2 = 0; omega),
      BitVec.getLsbD_xor, low]
    rfl

theorem mul_masks_of_even {i : Fin 8} (even : 2 ∣ (constant stepVal iters i).toNat)
    (positive : 0 < iters) (regs : Regs) :
    (genAsm (.op .mul) initVal stepVal iters seed).checksumWithFlip 0 (chainReg i) 63 regs =
      (genAsm (.op .mul) initVal stepVal iters seed).checksum regs := by
  obtain ⟨x, same⟩ := exists_chain_value (.op .mul) initVal stepVal iters seed 0 i 63 regs
  have turns : turnsLeft iters 0 i ≠ 0 := by
    unfold turnsLeft
    have below := i.isLt
    omega
  rw [same]
  by_contra differ
  exact (mul_keeps (by decide) _).mp differ (even.trans (dvd_pow_self _ turns))

/-- A sequence of multiplications masks the flip of a highest bit, whatever its constants. -/
theorem mul_masks (positive : 0 < iters) : ∃ i, ∀ regs,
    (genAsm (.op .mul) initVal stepVal iters seed).checksumWithFlip 0 (chainReg i) 63 regs =
      (genAsm (.op .mul) initVal stepVal iters seed).checksum regs := by
  obtain ⟨i, even⟩ := exists_even stepVal iters
  exact ⟨i, mul_masks_of_even initVal stepVal iters seed even positive⟩

/-- In a sequence of the family `cc64_full`, a flip of the highest bit of `x1` is masked. -/
theorem checksumWithFlip_cc64_full :
    ¬ ∀ point i (bit : Fin 64) regs,
      (genAsm (.op .mul) 0xFFFFFFFFFFFFFFFF 1 60 0).checksumWithFlip point (chainReg i) bit regs ≠
        (genAsm (.op .mul) 0xFFFFFFFFFFFFFFFF 1 60 0).checksum regs := by
  intro survives
  apply survives 0 1 63 fun _ => 0
  apply mul_masks_of_even
  · decide
  · decide

end Silifuzz.SdcbenchGen
