import Silifuzz.Library.WordMemory
import Silifuzz.Tools.SdcPipeline.Candidate
import Mathlib.Tactic.IntervalCases

/-!
# The payload function of a gem5 workload

`build_workload_files` of `tools/sdc_pipeline/gem5_runner.py`, the meaning of the lines that it
writes to `payload.S`, and for which candidates the function there saves what the candidate
leaves in `x0` to `x28`. What the processor does with the candidate's own words is a parameter.
-/

namespace Silifuzz.SdcPipeline.Gem5Runner

open LittleEndian WordMemory

/-! ## The two files -/

/-- A line of `payload.S`. -/
inductive Line where
  | directive (text : String)
  /-- `stp xa, xb, [sp, #-n]!` -/
  | stpPre (a b n : Nat)
  /-- `stp xa, xb, [sp, #n]` -/
  | stp (a b n : Nat)
  /-- `ldp xa, xb, [sp, #n]` -/
  | ldp (a b n : Nat)
  /-- `ldp xa, xb, [sp], #n` -/
  | ldpPost (a b n : Nat)
  /-- `str xt, [sp, #n]` -/
  | strSp (t n : Nat)
  /-- `ldr xt, [sp, #n]` -/
  | ldrSp (t n : Nat)
  /-- `str xt, [xb, #n]` -/
  | str (t b n : Nat)
  /-- `ldr xt, [xb, #n]` -/
  | ldr (t b n : Nat)
  | long (w : Nat)
  | ret
  deriving DecidableEq, Repr

/-- `{w:x}` -/
def hexText (w : Nat) : String := String.ofList (Nat.toDigits 16 w)

/-- `{w:08x}` -/
def hexText8 (w : Nat) : String := String.ofList ((Nat.toDigits 16 w).leftpad 8 '0')

def Line.text : Line → String
  | .directive text => text
  | .stpPre a b n => s!"    stp x{a}, x{b}, [sp, #-{n}]!"
  | .stp a b n => s!"    stp x{a}, x{b}, [sp, #{n}]"
  | .ldp a b n => s!"    ldp x{a}, x{b}, [sp, #{n}]"
  | .ldpPost a b n => s!"    ldp x{a}, x{b}, [sp], #{n}"
  | .strSp t n => s!"    str x{t}, [sp, #{n}]"
  | .ldrSp t n => s!"    ldr x{t}, [sp, #{n}]"
  | .str t b n => s!"    str x{t}, [x{b}, #{n}]"
  | .ldr t b n => s!"    ldr x{t}, [x{b}, #{n}]"
  | .long w => "    .long 0x" ++ hexText8 w
  | .ret => "    ret"

/-- `x0` to `x28` -/
def nregs : Nat := 29

/-- The words of the candidate, the last one of what bytes there are. -/
def insns (codeBytes : List UInt8) : List Nat :=
  (List.range ((codeBytes.length + 3) / 4)).map fun i =>
    decode (((codeBytes.drop (4 * i)).take 4).map UInt8.toBitVec)

def prologue : List Line :=
  [.directive ".arch armv8-a", .directive ".text", .directive ".balign 64",
    .directive ".global payload", .directive ".func payload", .directive "payload:",
    .stpPre 29 30 256,
    .stp 19 20 128, .stp 21 22 144,
    .stp 23 24 160, .stp 25 26 176,
    .stp 27 28 192,
    .strSp 0 208, .strSp 1 216]

def loadLines (n : Nat) : List Line :=
  (List.range n).flatMap fun i => [.ldrSp 2 208, .ldr i 2 (i * 8)]

/-- The load loop has left a pointer in `x2`. -/
def reload : List Line := [.ldrSp 2 208, .ldr 2 2 16]

def storeLines (n : Nat) : List Line :=
  (List.range n).flatMap fun i => [.ldrSp 2 216, .str i 2 (i * 8)]

def epilogue : List Line :=
  [.ldp 19 20 128, .ldp 21 22 144,
    .ldp 23 24 160, .ldp 25 26 176,
    .ldp 27 28 192,
    .ldpPost 29 30 256, .ret, .directive ".endfunc"]

/-- `L` -/
def payload (cand : Candidate) : List Line :=
  prologue ++ loadLines nregs ++ reload ++ (insns cand.codeBytes).map .long ++
    storeLines nregs ++ epilogue

def initLine (item : Int × Int) : String :=
  s!"    g_in[{item.1}] = 0x" ++ hexText item.2.toNat ++ "ULL;"

/-- `c_src` -/
def cSource (cand : Candidate) : String :=
  s!"/* auto-generated from Candidate {cand.ident} (origin={cand.origin}) */\n" ++
  "#include <stdio.h>\n#include <stdint.h>\n#define ITERS 200\n" ++
  "extern void payload(uint64_t *in, uint64_t *out);\n" ++
  "static uint64_t g_in[31] = \x7b0\x7d, g_out[31] = \x7b0\x7d;\nint main(void) \x7b\n" ++
  String.intercalate "\n" ((sortedItems cand.regsInit).map initLine) ++
  "\n    uint64_t acc = 0;\n    for (int i = 0; i < ITERS; i++) \x7b\n" ++
  "        payload(g_in, g_out);\n" ++
  "        for (int j = 0; j < 29; j++) acc += g_out[j];\n    \x7d\n" ++
  "    uint32_t crc = (uint32_t)(acc ^ (acc >> 32));\n" ++
  "    printf(\"SUM=%llu CRC=%08x\\n\", (unsigned long long)acc, crc);\n" ++
  "    return 0;\n\x7d\n"

/-- The texts of `payload.S` and `main.c`. -/
def buildWorkloadFiles (cand : Candidate) : String × String :=
  (String.intercalate "\n" ((payload cand).map Line.text) ++ "\n", cSource cand)

/-! ## What the lines do -/

variable {σ : Type}

/-- `rest` is all that the generated lines leave alone: the flags, the vector registers. -/
structure Machine (σ : Type) where
  x : Nat → BitVec 64
  sp : BitVec 64
  mem : Memory
  rest : σ

namespace Machine

def set (s : Machine σ) (t : Nat) (v : BitVec 64) : Machine σ :=
  { s with x := Function.update s.x t v }

def put (s : Machine σ) (a v : BitVec 64) : Machine σ := { s with mem := store s.mem a v }

def offset (base : BitVec 64) (n : Nat) : BitVec 64 := base + BitVec.ofNat 64 n

def exec (s : Machine σ) : Line → Machine σ
  | .directive _ => s
  | .stpPre a b n =>
    let sp := s.sp - BitVec.ofNat 64 n
    { (s.put sp (s.x a)).put (offset sp 8) (s.x b) with sp := sp }
  | .stp a b n => (s.put (offset s.sp n) (s.x a)).put (offset s.sp (n + 8)) (s.x b)
  | .ldp a b n =>
    (s.set a (load s.mem (offset s.sp n))).set b (load s.mem (offset s.sp (n + 8)))
  | .ldpPost a b n =>
    { (s.set a (load s.mem s.sp)).set b (load s.mem (offset s.sp 8)) with
      sp := offset s.sp n }
  | .strSp t n => s.put (offset s.sp n) (s.x t)
  | .ldrSp t n => s.set t (load s.mem (offset s.sp n))
  | .str t b n => s.put (offset (s.x b) n) (s.x t)
  | .ldr t b n => s.set t (load s.mem (offset (s.x b) n))
  | .long _ => s
  | .ret => s

def execs (lines : List Line) (s : Machine σ) : Machine σ := lines.foldl exec s

/-- What `words` do. -/
def block (cpu : List Nat → Machine σ → Machine σ) (words : List Nat) (s : Machine σ) :
    Machine σ :=
  if words = [] then s else cpu words s

/-- The words between two other lines are one piece of code, and run as one. -/
def run (cpu : List Nat → Machine σ → Machine σ) : List Nat → List Line → Machine σ → Machine σ
  | words, [], s => block cpu words s
  | words, .long w :: lines, s => run cpu (words ++ [w]) lines s
  | words, line :: lines, s => run cpu [] lines ((block cpu words s).exec line)

end Machine

open Machine

/-- A call of the function as its C declaration promises it: the frame that it makes below
`sp` has no byte of the arrays that `x0` and `x1` point to. -/
structure Call (σ : Type) where
  start : Machine σ
  inputApart : ∀ i < nregs, ∀ j < 32,
    Apart (offset (start.x 0) (i * 8)) (offset (start.sp - 256) (j * 8))
  outputApart : ∀ i < nregs, ∀ j < 32,
    Apart (offset (start.x 1) (i * 8)) (offset (start.sp - 256) (j * 8))

variable {cpu : List Nat → Machine σ → Machine σ} {cand : Candidate}

/-- Where the candidate starts. -/
def Call.entered (call : Call σ) : Machine σ :=
  execs (prologue ++ loadLines nregs ++ reload) call.start

/-- Where the candidate ends. -/
def Call.left (cpu : List Nat → Machine σ → Machine σ) (cand : Candidate) (call : Call σ) :
    Machine σ :=
  block cpu (insns cand.codeBytes) call.entered

def Call.returned (cpu : List Nat → Machine σ → Machine σ) (cand : Candidate) (call : Call σ) :
    Machine σ :=
  run cpu [] (payload cand) call.start

/-- The candidate falls through to its end and keeps these. -/
def Keeps (cpu : List Nat → Machine σ → Machine σ) (cand : Candidate) : Prop :=
  ∀ s, (block cpu (insns cand.codeBytes) s).sp = s.sp ∧
    (block cpu (insns cand.codeBytes) s).x 29 = s.x 29 ∧
    (block cpu (insns cand.codeBytes) s).x 30 = s.x 30 ∧
    (block cpu (insns cand.codeBytes) s).mem = s.mem

/-- What the function is for. -/
structure Harnessed (cpu : List Nat → Machine σ → Machine σ) (cand : Candidate) (call : Call σ) :
    Prop where
  input : ∀ i < nregs, call.entered.x i = load call.start.mem (offset (call.start.x 0) (i * 8))
  output : ∀ i < nregs, load (call.returned cpu cand).mem (offset (call.start.x 1) (i * 8)) =
    (call.left cpu cand).x i
  saved : ∀ i, 19 ≤ i → i ≤ 30 → (call.returned cpu cand).x i = call.start.x i
  sp : (call.returned cpu cand).sp = call.start.sp

/-! ## One line after the other -/

theorem execs_append (a b : List Line) (s : Machine σ) :
    execs (a ++ b) s = execs b (execs a s) := List.foldl_append

theorem run_plain {lines : List Line} (plain : ∀ w, Line.long w ∉ lines) (s : Machine σ)
    (more : List Line) : run cpu [] (lines ++ more) s = run cpu [] more (execs lines s) := by
  induction lines generalizing s with
  | nil => rfl
  | cons line lines ih =>
    have rest := ih fun w mem => plain w (List.mem_cons_of_mem _ mem)
    cases line with
    | long w => exact absurd List.mem_cons_self (plain w)
    | _ => exact rest _

theorem run_longs (words more : List Nat) (line : Line) (lines : List Line)
    (plain : ∀ w, line ≠ .long w) (s : Machine σ) :
    run cpu words (more.map .long ++ line :: lines) s =
      run cpu [] (line :: lines) (block cpu (words ++ more) s) := by
  induction more generalizing words with
  | nil =>
    rw [List.append_nil]
    cases line with
    | long w => exact absurd rfl (plain w)
    | _ => rfl
  | cons w more ih =>
    rw [List.map_cons, List.cons_append, run, ih, List.append_assoc]
    rfl

/-- The slots of the frame, and what the prologue puts there. -/
def slots (s : Machine σ) : List (Nat × BitVec 64) :=
  [(0, s.x 29), (8, s.x 30), (128, s.x 19), (136, s.x 20), (144, s.x 21), (152, s.x 22),
    (160, s.x 23), (168, s.x 24), (176, s.x 25), (184, s.x 26), (192, s.x 27), (200, s.x 28),
    (208, s.x 0), (216, s.x 1)]

def stores (m : Memory) (base : BitVec 64) (words : List (Nat × BitVec 64)) : Memory :=
  words.foldl (fun m word => store m (offset base word.1) word.2) m

theorem load_stores_apart {m : Memory} {base a : BitVec 64} {words : List (Nat × BitVec 64)}
    (apart : ∀ word ∈ words, Apart (offset base word.1) a) :
    load (stores m base words) a = load m a := by
  induction words generalizing m with
  | nil => rfl
  | cons word words ih =>
    have rest := ih (m := store m (offset base word.1) word.2) fun w mem =>
      apart w (List.mem_cons_of_mem _ mem)
    exact rest.trans (load_store_apart (apart word List.mem_cons_self))

theorem load_stores {m : Memory} {base : BitVec 64} {words : List (Nat × BitVec 64)}
    (small : ∀ word ∈ words, word.1 < 2 ^ 63)
    (gaps : words.Pairwise fun v w => v.1 + 8 ≤ w.1) {word : Nat × BitVec 64}
    (mem : word ∈ words) : load (stores m base words) (offset base word.1) = word.2 := by
  induction words generalizing m with
  | nil => cases mem
  | cons first words ih =>
    rw [List.pairwise_cons] at gaps
    cases mem with
    | head =>
      have apart : ∀ w ∈ words, Apart (offset base w.1) (offset base word.1) := by
        intro w mem
        apply apart_offsets base (small w (List.mem_cons_of_mem _ mem))
          (small word List.mem_cons_self)
        exact .inr (gaps.1 w mem)
      exact (load_stores_apart apart).trans (load_store_same _ _ _)
    | tail _ mem => exact ih (fun w mem => small w (List.mem_cons_of_mem _ mem)) gaps.2 mem

theorem prologue_spec (s : Machine σ) :
    (execs prologue s).x = s.x ∧ (execs prologue s).sp = s.sp - 256 ∧
      (execs prologue s).mem = stores s.mem (s.sp - 256) (slots s) := by
  have zero (base : BitVec 64) : offset base 0 = base := BitVec.add_zero base
  simp only [execs, prologue, List.foldl_cons, List.foldl_nil, exec, put, slots, stores, zero,
    and_self, BitVec.ofNat_eq_ofNat]

theorem loadLines_succ (n : Nat) (s : Machine σ) :
    execs (loadLines (n + 1)) s =
      ((execs (loadLines n) s).exec (.ldrSp 2 208)).exec (.ldr n 2 (n * 8)) := by
  rw [loadLines, List.range_succ, List.flatMap_append, execs_append]
  rfl

theorem storeLines_succ (n : Nat) (s : Machine σ) :
    execs (storeLines (n + 1)) s =
      ((execs (storeLines n) s).exec (.ldrSp 2 216)).exec (.str n 2 (n * 8)) := by
  rw [storeLines, List.range_succ, List.flatMap_append, execs_append]
  rfl

/-- All registers but `x2` hold their elements of the array at `input`. -/
theorem loadLines_spec (n : Nat) {s : Machine σ} {input : BitVec 64}
    (slot : load s.mem (offset s.sp 208) = input) :
    (execs (loadLines n) s).sp = s.sp ∧ (execs (loadLines n) s).mem = s.mem ∧
      ∀ j, j ≠ 2 → (execs (loadLines n) s).x j =
        if j < n then load s.mem (offset input (j * 8)) else s.x j := by
  induction n with
  | zero => exact ⟨rfl, rfl, fun j _ => (if_neg (Nat.not_lt_zero j)).symm⟩
  | succ n ih =>
    obtain ⟨sp, mem, regs⟩ := ih
    rw [loadLines_succ]
    refine ⟨sp, mem, ?_⟩
    intro j other
    simp only [exec, Machine.set, sp, mem, slot, Function.update_self]
    by_cases here : j = n
    · rw [here, Function.update_self, if_pos (Nat.lt_succ_self n)]
    · rw [Function.update_of_ne here, Function.update_of_ne other, regs j other]
      by_cases before : j < n
      · rw [if_pos before, if_pos (by omega)]
      · rw [if_neg before, if_neg (by omega)]

/-- All elements but the third get their registers: `x2` holds `output` when it is stored. -/
theorem storeLines_spec (n : Nat) (le : n ≤ nregs) {s : Machine σ} {output : BitVec 64}
    (slot : load s.mem (offset s.sp 216) = output)
    (apart : ∀ i < nregs, ∀ j < 32, Apart (offset output (i * 8)) (offset s.sp (j * 8))) :
    (execs (storeLines n) s).sp = s.sp ∧
      (∀ j, j ≠ 2 → (execs (storeLines n) s).x j = s.x j) ∧
      (∀ k < 32, load (execs (storeLines n) s).mem (offset s.sp (k * 8)) =
        load s.mem (offset s.sp (k * 8))) ∧
      ∀ j < n, load (execs (storeLines n) s).mem (offset output (j * 8)) =
        if j = 2 then output else s.x j := by
  induction n with
  | zero =>
    exact ⟨rfl, fun _ _ => rfl, fun _ _ => rfl, fun _ low => absurd low (Nat.not_lt_zero _)⟩
  | succ n ih =>
    obtain ⟨sp, regs, frame, stored⟩ := ih (by omega)
    have pointer : load (execs (storeLines n) s).mem (offset s.sp 216) = output := by
      rw [← slot]
      exact frame 27 (by decide)
    rw [storeLines_succ]
    simp only [exec, Machine.set, put, sp, pointer, Function.update_self]
    refine ⟨trivial, ?_, ?_, ?_⟩
    · intro j other
      rw [Function.update_of_ne other, regs j other]
    · intro k low
      rw [load_store_apart (apart n (by omega) k low), frame k low]
    · intro j low
      by_cases here : j = n
      · rw [here, load_store_same]
        by_cases two : n = 2
        · rw [two, Function.update_self, if_pos rfl]
        · rw [Function.update_of_ne two, if_neg two, regs n two]
      · have small : nregs < 2 ^ 10 := by decide
        have other : Apart (offset output (n * 8)) (offset output (j * 8)) :=
          apart_offsets output (by omega) (by omega) (by omega)
        rw [load_store_apart other]
        exact stored j (by omega)

theorem epilogue_spec {s : Machine σ} {m : Machine σ}
    (frame : ∀ word ∈ slots m, word.1 ≠ 208 → word.1 ≠ 216 →
      load s.mem (offset s.sp word.1) = word.2) :
    (∀ i, 19 ≤ i → i ≤ 30 → (execs epilogue s).x i = m.x i) ∧
      (execs epilogue s).sp = s.sp + 256 ∧ (execs epilogue s).mem = s.mem := by
  have zero (base : BitVec 64) : offset base 0 = base := BitVec.add_zero base
  simp only [slots, List.forall_mem_cons, zero] at frame
  refine ⟨?_, rfl, rfl⟩
  intro i low high
  interval_cases i <;> simp [execs, epilogue, exec, Machine.set, Function.update, frame]

/-! ## A whole call -/

theorem returned_eq (call : Call σ) :
    call.returned cpu cand = execs epilogue (execs (storeLines nregs) (call.left cpu cand)) := by
  have before : ∀ w, Line.long w ∉ prologue ++ loadLines nregs ++ reload := by
    simp [prologue, loadLines, reload]
  have after : ∀ w, Line.long w ∉ storeLines nregs ++ epilogue := by
    simp [storeLines, epilogue]
  have first : storeLines nregs ++ epilogue =
      .ldrSp 2 216 :: (storeLines nregs ++ epilogue).tail := rfl
  have longs := @run_longs σ cpu [] (insns cand.codeBytes) (.ldrSp 2 216)
    (storeLines nregs ++ epilogue).tail (by simp) call.entered
  have rest := @run_plain σ cpu _ after (call.left cpu cand) []
  rw [List.append_nil] at rest
  rw [← first, List.nil_append] at longs
  rw [Call.returned, payload, List.append_assoc, List.append_assoc, run_plain before]
  exact longs.trans (rest.trans (execs_append _ _ _))

theorem slots_aligned (s : Machine σ) : ∀ word ∈ slots s, ∃ k < 32, word.1 = k * 8 := by
  simp only [slots, List.forall_mem_cons, List.not_mem_nil, false_implies, implies_true, and_true]
  decide

theorem slots_small (s : Machine σ) : ∀ word ∈ slots s, word.1 < 2 ^ 63 := by
  intro word mem
  obtain ⟨k, low, eq⟩ := slots_aligned s word mem
  omega

theorem slots_gaps (s : Machine σ) : (slots s).Pairwise fun v w => v.1 + 8 ≤ w.1 := by
  simp [slots]

theorem load_slots {m : Memory} {base : BitVec 64} {s : Machine σ} {word : Nat × BitVec 64}
    (mem : word ∈ slots s) : load (stores m base (slots s)) (offset base word.1) = word.2 :=
  load_stores (slots_small s) (slots_gaps s) mem

/-- The candidate starts with its input in the registers and the frame as the prologue left
it. -/
theorem entered_spec (call : Call σ) :
    (∀ i < nregs, call.entered.x i = load call.start.mem (offset (call.start.x 0) (i * 8))) ∧
      call.entered.sp = call.start.sp - 256 ∧
      call.entered.mem = stores call.start.mem (call.start.sp - 256) (slots call.start) := by
  obtain ⟨_, sp, mem⟩ := prologue_spec call.start
  have slot : load (execs prologue call.start).mem (offset (execs prologue call.start).sp 208) =
      call.start.x 0 := by
    rw [sp, mem]
    exact @load_slots _ _ _ _ (208, call.start.x 0) (by simp [slots])
  obtain ⟨sp', mem', regs⟩ := loadLines_spec nregs slot
  have kept (i : Nat) (low : i < nregs) :
      load (execs prologue call.start).mem (offset (call.start.x 0) (i * 8)) =
        load call.start.mem (offset (call.start.x 0) (i * 8)) := by
    rw [mem]
    apply load_stores_apart
    intro word inSlots
    obtain ⟨k, small, eq⟩ := slots_aligned _ word inSlots
    rw [eq]
    exact (call.inputApart i low k small).symm
  rw [Call.entered, execs_append, execs_append]
  generalize execs prologue call.start = p at *
  simp only [reload, execs, List.foldl_cons, List.foldl_nil, exec, Machine.set] at sp' mem' regs ⊢
  refine ⟨?_, sp'.trans sp, mem'.trans mem⟩
  intro i low
  by_cases two : i = 2
  · rw [two, Function.update_self, Function.update_self, sp', mem', slot]
    exact kept 2 (by decide)
  · rw [Function.update_of_ne two, Function.update_of_ne two, regs i two, if_pos low]
    exact kept i low

/-- What the function leaves, in the output array and in the registers that it must keep. -/
theorem returned_spec (keeps : Keeps cpu cand) (call : Call σ) :
    (∀ i < nregs, load (call.returned cpu cand).mem (offset (call.start.x 1) (i * 8)) =
        if i = 2 then call.start.x 1 else (call.left cpu cand).x i) ∧
      (∀ i, 19 ≤ i → i ≤ 30 → (call.returned cpu cand).x i = call.start.x i) ∧
      (call.returned cpu cand).sp = call.start.sp := by
  obtain ⟨_, sp, mem⟩ := entered_spec call
  obtain ⟨keptSp, _, _, keptMem⟩ := keeps call.entered
  have leftSp : (call.left cpu cand).sp = call.start.sp - 256 := keptSp.trans sp
  have leftMem : (call.left cpu cand).mem = _ := keptMem.trans mem
  have slot : load (call.left cpu cand).mem (offset (call.left cpu cand).sp 216) =
      call.start.x 1 := by
    rw [leftSp, leftMem]
    exact @load_slots _ _ _ _ (216, call.start.x 1) (by simp [slots])
  have apart : ∀ i < nregs, ∀ j < 32, Apart (offset (call.start.x 1) (i * 8))
      (offset (call.left cpu cand).sp (j * 8)) := by
    rw [leftSp]
    exact call.outputApart
  obtain ⟨storedSp, _, frame, stored⟩ := storeLines_spec nregs le_rfl slot apart
  have restored : ∀ word ∈ slots call.start, word.1 ≠ 208 → word.1 ≠ 216 →
      load (execs (storeLines nregs) (call.left cpu cand)).mem
        (offset (execs (storeLines nregs) (call.left cpu cand)).sp word.1) = word.2 := by
    intro word inSlots _ _
    obtain ⟨k, low, eq⟩ := slots_aligned _ word inSlots
    rw [storedSp, eq, frame k low, ← eq, leftSp, leftMem]
    exact load_slots inSlots
  obtain ⟨saved, lastSp, lastMem⟩ := epilogue_spec restored
  rw [returned_eq, lastMem, lastSp, storedSp, leftSp]
  exact ⟨stored, saved, BitVec.sub_add_cancel _ _⟩

/-- **The function does what it is for exactly when the candidate leaves the address of the
output array in `x2`.** -/
theorem harnessed_iff (cpu : List Nat → Machine σ → Machine σ) (cand : Candidate)
    (keeps : Keeps cpu cand) (call : Call σ) :
    Harnessed cpu cand call ↔ (call.left cpu cand).x 2 = call.start.x 1 := by
  obtain ⟨stored, saved, sp⟩ := returned_spec keeps call
  constructor
  · intro harnessed
    have third := harnessed.output 2 (by decide)
    rw [stored 2 (by decide), if_pos rfl] at third
    exact third.symm
  · intro address
    constructor
    · exact (entered_spec call).1
    · intro i low
      rw [stored i low]
      split
      · next two => rw [two, address]
      · rfl
    · exact saved
    · exact sp

/-- `movz x2, #0x2000` -/
def movCandidate : Candidate :=
  ⟨"c0ffee000001", "movz x2, #0x2000", [0x02, 0x00, 0x84, 0xd2], [], [], "seed:mov", []⟩

def movCpu (_ : List Nat) (s : Machine Unit) : Machine Unit := s.set 2 0x2000

/-- `nop` -/
def nopCandidate : Candidate :=
  ⟨"c0ffee000000", "nop", [0x1f, 0x20, 0x03, 0xd5], [], [], "seed:nop", []⟩

def nopCpu (_ : List Nat) (s : Machine Unit) : Machine Unit := s

/-- Arrays of zeros at `0x1000` and `0x2000`, and a stack that ends at `0x8000`. -/
def zeroCall : Call Unit where
  start :=
    ⟨fun i => if i = 0 then 0x1000 else if i = 1 then 0x2000 else 0, 0x8000, fun _ => 0, ()⟩
  inputApart := by
    intro i hi j hj
    unfold nregs at hi
    simp only [Apart, offset, if_pos]
    constructor <;> bv_omega
  outputApart := by
    intro i hi j hj
    unfold nregs at hi
    simp only [Apart, offset, one_ne_zero, if_true, if_false]
    constructor <;> bv_omega

theorem harnessed_mov : Harnessed movCpu movCandidate zeroCall :=
  (harnessed_iff movCpu movCandidate
    (fun _ => ⟨rfl, rfl, rfl, rfl⟩) zeroCall).mpr rfl

/-- The third element of the output is the address of the array. -/
theorem harnessed_nop_not : Keeps nopCpu nopCandidate ∧
    ¬ Harnessed nopCpu nopCandidate zeroCall := by
  have keeps : Keeps nopCpu nopCandidate := fun _ => ⟨rfl, rfl, rfl, rfl⟩
  constructor
  · exact keeps
  · intro harnessed
    have stored := (returned_spec keeps zeroCall).1 2 (by decide)
    have left : (zeroCall.left nopCpu nopCandidate).x 2 = zeroCall.entered.x 2 := rfl
    rw [harnessed.output 2 (by decide), if_pos rfl, left,
      (entered_spec zeroCall).1 2 (by decide)] at stored
    exact absurd stored (by decide)

end Silifuzz.SdcPipeline.Gem5Runner
