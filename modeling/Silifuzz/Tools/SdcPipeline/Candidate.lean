import Mathlib.Algebra.Group.Int.Defs
import Silifuzz.Library.Decimals
import Silifuzz.Tools.SdcPipeline.Vault
import Mathlib.Data.List.Sort

/-!
# Candidates

`make_candidate` of `tools/sdc_pipeline/candidate.py`, and which candidates the bytes that it
hashes tell apart. The assembler and `sha256(..).hexdigest()` are parameters.
-/

namespace Silifuzz.SdcPipeline

open Decimals Dicts

inductive CandidateError (E : Type) where
  /-- `ValueError` -/
  | value (message : String)
  /-- Raised by `compile_asm`. -/
  | compile (error : E)
  deriving DecidableEq, Repr

def checkReg (item : Int × Int) : Except String Unit :=
  let (r, v) := item
  if ¬ (0 ≤ r ∧ r ≤ 30) then
    .error s!"寄存器号必须在 X0-X30 (拒绝 X31/越界): {r}"
  else if ¬ (0 ≤ v ∧ v < 2 ^ 64) then
    .error s!"寄存器值必须是 [0, 2^64) 整数: {r}={v}"
  else .ok ()

/-- `_check_regs` -/
def checkRegs (regsInit : Dict Int Int) : Except String Unit := regsInit.forM checkReg

/-- The items of a dictionary in the order of `sorted(regs_init)`. -/
def sortedItems (regsInit : Dict Int Int) : Dict Int Int :=
  regsInit.mergeSort fun i j => decide (i.1 ≤ j.1)

/-- All that goes into `h.update`. -/
def hashed (asmText : String) (regsInit : Dict Int Int) : ByteArray :=
  (sortedItems regsInit).foldl (fun h item => h ++ s!"{item.1}={item.2}".toUTF8) asmText.toUTF8

variable {E : Type}

def makeCandidate (compileAsm : String → Except E (List UInt8)) (hexdigest : ByteArray → String)
    (asmText : String) (regsInit : Dict Int Int) (parents : List String) (origin : String)
    (structureTags : List String) : Except (CandidateError E) Candidate := do
  (checkRegs regsInit).mapError .value
  let code ← (compileAsm asmText).mapError .compile
  let ident := String.ofList ((hexdigest (hashed asmText regsInit)).toList.take 12)
  return ⟨ident, asmText, code, regsInit, parents, origin, structureTags⟩

/-- Registers that `_check_regs` accepts. -/
structure RegsInit where
  items : Dict Int Int
  distinct : (items.map (·.1)).Nodup
  accepted : checkRegs items = .ok ()

/-- `==` of two dictionaries. -/
def RegsInit.Same (r q : RegsInit) : Prop := r.items.Perm q.items

/-- What the loop appends to the text. -/
def regsText : Dict Int Int → String
  | [] => ""
  | (k, v) :: rest => s!"{k}={v}" ++ regsText rest

/-- From the value `v` on, each value with the next key has the other's text. -/
def Rejoins : Int → Dict Int Int → Int → Dict Int Int → Prop
  | v, [], w, [] => v = w
  | v, (k, u) :: l, w, (j, t) :: m => SameText (v, k) (w, j) ∧ Rejoins u l t m
  | _, _, _, _ => False

/-- The same first key, and then the same digits between one `=` and the next. -/
def Regrouped : Dict Int Int → Dict Int Int → Prop
  | [], [] => True
  | (k, v) :: l, (j, w) :: m => k = j ∧ Rejoins v l w m
  | _, _ => False

/-- `s` is written as the front items and then the digits of the key `k` that are left when `j` is
taken for the key: these may be digits of the value before `k` as well. -/
def Leaves (front : Dict Int Int) (k j : Int) (s : String) : Prop :=
  (front = [] ∧ 10 ≤ k ∧ j = k % 10 ∧ s = s!"{k / 10}") ∨
  ∃ before i u x, front = before ++ [(i, u)] ∧ Trailing u k j x ∧
    s = regsText before ++ s!"{i}=" ++ String.ofList x

/-- The items `q` are `s` and then the items `r`: some of them are in `s`, the key of the next is
cut by the end of `s`, and from its value on they are regrouped. -/
def Continues (s : String) (q : Dict Int Int) : Dict Int Int → Prop
  | [] => s = regsText q
  | (j, w) :: m => ∃ front k v l, q = front ++ (k, v) :: l ∧ Leaves front k j s ∧ Rejoins v l w m

/-- The texts are the same but a digit moves between a value and the key after it, or one
text is the other and more, which looks like the first of the other's items. -/
def Ambiguous (a : String) (r : RegsInit) (b : String) (q : RegsInit) : Prop :=
  let rItems := sortedItems r.items
  let qItems := sortedItems q.items
  (a = b ∧ ¬ r.Same q ∧ Regrouped rItems qItems) ∨
  (∃ s, s ≠ "" ∧ a = b ++ s ∧ Continues s qItems rItems) ∨
  (∃ s, s ≠ "" ∧ b = a ++ s ∧ Continues s rItems qItems)

/-- The bytes are the same for these two candidates exactly when the candidates are. -/
def Identifies (a : String) (r : RegsInit) (b : String) (q : RegsInit) : Prop :=
  hashed a r.items = hashed b q.items ↔ a = b ∧ r.Same q

/-! ## The bytes and the texts -/

theorem foldl_bytes (items : Dict Int Int) (text : String) :
    items.foldl (fun h item => h ++ s!"{item.1}={item.2}".toUTF8) text.toUTF8 =
      (text ++ regsText items).toUTF8 := by
  induction items generalizing text with
  | nil => rw [regsText, String.append_empty]; rfl
  | cons item items ih =>
    obtain ⟨k, v⟩ := item
    rw [List.foldl_cons, regsText, ← String.append_assoc, ← ih]
    rfl

theorem hashed_eq_iff {a b : String} {r q : Dict Int Int} :
    hashed a r = hashed b q ↔
      a ++ regsText (sortedItems r) = b ++ regsText (sortedItems q) := by
  rw [hashed, hashed, foldl_bytes, foldl_bytes]
  exact String.toByteArray_inj

/-- Where two concatenations are the same, one's first part is the other's and more. -/
theorem append_split {a b x y : String} (same : a ++ x = b ++ y) :
    (∃ s, b = a ++ s ∧ x = s ++ y) ∨ (∃ s, a = b ++ s ∧ y = s ++ x) := by
  have lists := congrArg String.toList same
  rw [String.toList_append, String.toList_append, List.append_eq_append_iff] at lists
  rcases lists with ⟨s, first, second⟩ | ⟨s, first, second⟩
  · exact .inl ⟨String.ofList s, String.toList_inj.mp (by simpa using first),
      String.toList_inj.mp (by simpa using second)⟩
  · exact .inr ⟨String.ofList s, String.toList_inj.mp (by simpa using first),
      String.toList_inj.mp (by simpa using second)⟩

theorem append_ne_self {a s : String} (some : s ≠ "") : a ++ s ≠ a := by
  intro same
  have lists := congrArg String.toList same
  rw [String.toList_append] at lists
  exact some (String.toList_inj.mp (List.append_right_eq_self.mp lists))

theorem regsText_cons (k v : Int) (rest : Dict Int Int) :
    (regsText ((k, v) :: rest)).toList =
      digits k ++ '=' :: (digits v ++ (regsText rest).toList) := by
  simp only [regsText, digits, String.toList_append, List.append_assoc]
  rfl

/-! ## Reading the items back -/

/-- Items in the range that `_check_regs` accepts. -/
def InRange (items : Dict Int Int) : Prop :=
  ∀ item ∈ items, 0 ≤ item.1 ∧ item.1 ≤ 30 ∧ 0 ≤ item.2

theorem checkReg_ok {item : Int × Int} (ok : checkReg item = .ok ()) :
    0 ≤ item.1 ∧ item.1 ≤ 30 ∧ 0 ≤ item.2 := by
  obtain ⟨r, v⟩ := item
  simp only [checkReg] at ok
  split at ok
  · cases ok
  · split at ok
    · cases ok
    · omega

theorem inRange_of_checkRegs {items : Dict Int Int} (ok : checkRegs items = .ok ()) :
    InRange items := by
  induction items with
  | nil => intro item mem; cases mem
  | cons item items ih =>
    change (checkReg item >>= fun _ => checkRegs items) = _ at ok
    cases first : checkReg item with
    | error e => rw [first] at ok; cases ok
    | ok u =>
      rw [first] at ok
      intro i mem
      cases mem with
      | head => exact checkReg_ok first
      | tail _ mem => exact ih ok i mem

theorem sortedItems_inRange {items : Dict Int Int} (range : InRange items) :
    InRange (sortedItems items) :=
  fun item mem => range item ((List.mergeSort_perm _ _).mem_iff.mp mem)

/-- No digit is `=`, so the texts agree up to their first `=`. -/
theorem split_at_equals {x y : List Char} {l m : List Char}
    (hx : ∀ c ∈ x, c.isDigit) (hy : ∀ c ∈ y, c.isDigit) (same : x ++ '=' :: l = y ++ '=' :: m) :
    x = y ∧ l = m := by
  induction x generalizing y with
  | nil =>
    cases y with
    | nil => exact ⟨rfl, (List.cons.inj same).2⟩
    | cons c y =>
      have digit := hy c List.mem_cons_self
      rw [← (List.cons.inj same).1] at digit
      exact absurd digit (by decide)
  | cons c x ih =>
    cases y with
    | nil =>
      have digit := hx c List.mem_cons_self
      rw [(List.cons.inj same).1] at digit
      exact absurd digit (by decide)
    | cons d y =>
      have rest := ih (fun c mem => hx c (List.mem_cons_of_mem _ mem))
        (fun c mem => hy c (List.mem_cons_of_mem _ mem)) (List.cons.inj same).2
      exact ⟨by rw [(List.cons.inj same).1, rest.1], rest.2⟩

theorem no_equals {x l y : List Char} (hy : ∀ c ∈ y, c.isDigit) : x ++ '=' :: l ≠ y := by
  intro same
  have digit := hy '=' (by rw [← same]; simp)
  exact absurd digit (by decide)

theorem isDigit_pair {v k : Int} (hv : 0 ≤ v) (hk : 0 ≤ k) :
    ∀ c ∈ digits v ++ digits k, c.isDigit := by
  intro c mem
  cases List.mem_append.mp mem with
  | inl mem => exact isDigit_of_mem hv mem
  | inr mem => exact isDigit_of_mem hk mem

theorem rejoins_iff {v w : Int} {l m : Dict Int Int} (hv : 0 ≤ v) (hw : 0 ≤ w)
    (hl : InRange l) (hm : InRange m) :
    digits v ++ (regsText l).toList = digits w ++ (regsText m).toList ↔ Rejoins v l w m := by
  induction l generalizing v w m with
  | nil =>
    cases m with
    | nil =>
      have empty : (regsText []).toList = [] := rfl
      rw [empty, List.append_nil, List.append_nil]
      exact ⟨digits_inj hv hw, fun same => by rw [show v = w from same]⟩
    | cons item m =>
      have empty : (regsText []).toList = [] := rfl
      rw [empty, List.append_nil, regsText_cons item.1 item.2, ← List.append_assoc]
      exact ⟨fun same => absurd same.symm (no_equals fun c mem => isDigit_of_mem hv mem),
        False.elim⟩
  | cons item l ih =>
    obtain ⟨k, u⟩ := item
    cases m with
    | nil =>
      have empty : (regsText []).toList = [] := rfl
      rw [empty, List.append_nil, regsText_cons, ← List.append_assoc]
      exact ⟨fun same => absurd same (no_equals fun c mem => isDigit_of_mem hw mem),
        False.elim⟩
    | cons item m =>
      obtain ⟨j, t⟩ := item
      have rk := hl (k, u) List.mem_cons_self
      have rj := hm (j, t) List.mem_cons_self
      simp only at rk rj
      have rest := ih (v := u) (w := t) (m := m) rk.2.2 rj.2.2
        (fun i mem => hl i (List.mem_cons_of_mem _ mem))
        (fun i mem => hm i (List.mem_cons_of_mem _ mem))
      have link := digits_append_eq_iff (x := (v, k)) (y := (w, j))
        ⟨hv, rk.1, by simp only; omega⟩ ⟨hw, rj.1, by simp only; omega⟩
      rw [regsText_cons, regsText_cons, ← List.append_assoc, ← List.append_assoc, Rejoins,
        ← link, ← rest]
      constructor
      · exact split_at_equals (isDigit_pair hv rk.1) (isDigit_pair hw rj.1)
      · rintro ⟨links, values⟩
        rw [links, values]

theorem regrouped_iff {l m : Dict Int Int} (hl : InRange l) (hm : InRange m) :
    regsText l = regsText m ↔ Regrouped l m := by
  rw [← String.toList_inj]
  cases l with
  | nil =>
    cases m with
    | nil => exact ⟨fun _ => trivial, fun _ => rfl⟩
    | cons item m =>
      rw [regsText_cons item.1 item.2]
      exact ⟨fun same => absurd same.symm (no_equals fun c mem => nomatch mem), False.elim⟩
  | cons item l =>
    obtain ⟨k, v⟩ := item
    have rk := hl (k, v) List.mem_cons_self
    cases m with
    | nil =>
      rw [regsText_cons]
      exact ⟨fun same => absurd same (no_equals fun c mem => nomatch mem), False.elim⟩
    | cons item m =>
      obtain ⟨j, w⟩ := item
      have rj := hm (j, w) List.mem_cons_self
      simp only at rk rj
      have rest := rejoins_iff (l := l) (m := m) rk.2.2 rj.2.2
        (fun i mem => hl i (List.mem_cons_of_mem _ mem))
        (fun i mem => hm i (List.mem_cons_of_mem _ mem))
      rw [regsText_cons, regsText_cons, Regrouped, ← rest]
      constructor
      · intro same
        have parts := split_at_equals (fun c => isDigit_of_mem rk.1)
          (fun c => isDigit_of_mem rj.1) same
        exact ⟨digits_inj rk.1 rj.1 parts.1, parts.2⟩
      · rintro ⟨rfl, values⟩
        rw [values]

/-! ## Items behind a text -/

theorem regsText_append (l m : Dict Int Int) : regsText (l ++ m) = regsText l ++ regsText m := by
  induction l with
  | nil => rw [regsText, String.empty_append, List.nil_append]
  | cons item l ih =>
    rw [List.cons_append, regsText, regsText, ih]
    exact (String.append_assoc ..).symm

/-- No digit of the number behind `s` is the `=`. -/
theorem equals_before {p t s : List Char} {j : Int} (hj : 0 ≤ j)
    (same : p ++ '=' :: t = s ++ digits j) : ∃ z, s = p ++ '=' :: z ∧ t = z ++ digits j := by
  rcases List.append_eq_append_iff.mp same with ⟨z, left, right⟩ | ⟨z, left, right⟩
  · cases z with
    | nil => exact absurd right (no_equals (x := []) fun c => isDigit_of_mem hj)
    | cons c z =>
      obtain ⟨rfl, rest⟩ := List.cons.inj right
      exact ⟨z, left, rest⟩
  · exact absurd right.symm (no_equals fun c => isDigit_of_mem hj)

/-- The `=` of an item behind `s` is one of the items' own, whatever digits stand before them. -/
theorem split_items {x s y : List Char} {j : Int} {q : Dict Int Int} (hx : ∀ c ∈ x, c.isDigit)
    (hj : 0 ≤ j) (hq : InRange q)
    (same : x ++ (regsText q).toList = s ++ (digits j ++ '=' :: y)) :
    ∃ front k v l, q = front ++ (k, v) :: l ∧ y = digits v ++ (regsText l).toList ∧
      x ++ (regsText front).toList ++ digits k = s ++ digits j := by
  induction q generalizing x s with
  | nil =>
    have empty : (regsText []).toList = [] := rfl
    rw [empty, List.append_nil, ← List.append_assoc] at same
    exact absurd same.symm (no_equals hx)
  | cons item q ih =>
    obtain ⟨k, v⟩ := item
    have rk := hq (k, v) List.mem_cons_self
    simp only at rk
    have pair : ∀ c ∈ x ++ digits k, c.isDigit := by
      intro c mem
      cases List.mem_append.mp mem with
      | inl mem => exact hx c mem
      | inr mem => exact isDigit_of_mem rk.1 mem
    rw [regsText_cons, ← List.append_assoc, ← List.append_assoc] at same
    rcases List.append_eq_append_iff.mp same with ⟨t, first, second⟩ | ⟨t, first, second⟩
    · cases t with
      | nil =>
        rw [List.append_nil] at first
        refine ⟨[], k, v, q, rfl, (List.cons.inj second).2.symm, ?_⟩
        have empty : (regsText []).toList = [] := rfl
        rw [empty, List.append_nil, first]
      | cons c t =>
        obtain ⟨rfl, rest⟩ := List.cons.inj second
        obtain ⟨s', cut, rfl⟩ := equals_before hj first.symm
        have rest : digits v ++ (regsText q).toList = s' ++ (digits j ++ '=' :: y) :=
          rest.trans (List.append_assoc ..)
        obtain ⟨front, k', v', l, rfl, values, leads⟩ :=
          ih (fun c => isDigit_of_mem rk.2.2) (fun i mem => hq i (List.mem_cons_of_mem _ mem)) rest
        refine ⟨(k, v) :: front, k', v', l, rfl, values, ?_⟩
        rw [regsText_cons, cut]
        simp only [List.append_assoc, List.cons_append] at leads ⊢
        rw [leads]
    · cases t with
      | nil =>
        refine ⟨[], k, v, q, rfl, (List.cons.inj second).2, ?_⟩
        have empty : (regsText []).toList = [] := rfl
        rw [empty, List.append_nil, first, List.append_nil]
      | cons c t =>
        obtain ⟨rfl, -⟩ := List.cons.inj second
        exact absurd first.symm (no_equals pair)

/-- What is written before the key `j`. -/
theorem leaves_iff {front : Dict Int Int} {k j : Int} {s : String} (some : s ≠ "")
    (hf : InRange front) (hk : 0 ≤ k ∧ k ≤ 30) (hj : 0 ≤ j ∧ j ≤ 30) :
    (regsText front).toList ++ digits k = s.toList ++ digits j ↔ Leaves front k j s := by
  unfold Leaves
  rcases List.eq_nil_or_concat front with rfl | ⟨before, ⟨i, u⟩, rfl⟩
  · have empty : (regsText []).toList = [] := rfl
    rw [empty, List.nil_append]
    have more : s.toList ≠ [] := fun none => some (String.toList_inj.mp none)
    rw [digits_cut ⟨hk.1, by omega⟩ ⟨hj.1, by omega⟩ more]
    constructor
    · rintro ⟨two, last, text⟩
      exact .inl ⟨rfl, two, last, String.toList_inj.mp text⟩
    · rintro (⟨-, two, rfl, rfl⟩ | ⟨before, i, u, x, nil, -⟩)
      · exact ⟨two, rfl, rfl⟩
      · exact absurd nil (by simp)
  · have ri := hf (i, u) (by simp)
    simp only at ri
    have text : (regsText (before ++ [(i, u)])).toList =
        (regsText before).toList ++ (digits i ++ '=' :: digits u) := by
      have empty : (regsText []).toList = [] := rfl
      rw [regsText_append, String.toList_append, regsText_cons, empty, List.append_nil]
    have lead (x : List Char) : (regsText before ++ s!"{i}=" ++ String.ofList x).toList =
        (regsText before).toList ++ (digits i ++ '=' :: x) := by
      simp only [String.toList_append, String.toList_ofList, List.append_assoc]
      rfl
    have trailing (x : List Char) := trailing_iff (u := u) (k := k) (j := j) (x := x) ri.2.2
      ⟨hk.1, by omega⟩ ⟨hj.1, by omega⟩
    rw [List.concat_eq_append, text]
    constructor
    · intro same
      have parts : (regsText before).toList ++ digits i ++ '=' :: (digits u ++ digits k) =
          s.toList ++ digits j := by
        rw [← same]
        simp only [List.append_assoc, List.cons_append]
      obtain ⟨x, cut, rest⟩ := equals_before hj.1 parts
      rw [List.append_assoc] at cut
      exact .inr ⟨before, i, u, x, rfl, (trailing x).mp rest,
        String.toList_inj.mp (cut.trans (lead x).symm)⟩
    · rintro (⟨nil, -⟩ | ⟨before', i', u', x, same, cut, rfl⟩)
      · exact absurd nil (by simp)
      · obtain ⟨rfl, last⟩ := List.append_inj' same rfl
        obtain ⟨rfl, rfl⟩ := Prod.mk.inj (List.cons.inj last).1
        rw [lead]
        simp only [List.append_assoc, List.cons_append, (trailing x).mpr cut]

theorem continues_iff {s : String} {q r : Dict Int Int} (some : s ≠ "") (hq : InRange q)
    (hr : InRange r) : regsText q = s ++ regsText r ↔ Continues s q r := by
  cases r with
  | nil =>
    rw [regsText, String.append_empty, Continues]
    exact eq_comm
  | cons item m =>
    obtain ⟨j, w⟩ := item
    have rj := hr (j, w) List.mem_cons_self
    simp only at rj
    rw [← String.toList_inj, String.toList_append, regsText_cons, Continues]
    have tail (v : Int) (l : Dict Int Int) (hv : 0 ≤ v) (hl : InRange l) :=
      rejoins_iff (l := l) (m := m) hv rj.2.2 hl fun i mem => hr i (List.mem_cons_of_mem _ mem)
    constructor
    · intro same
      obtain ⟨front, k, v, l, rfl, values, leads⟩ :=
        split_items (x := []) (fun c mem => nomatch mem) rj.1 hq same
      have rk := hq (k, v) (List.mem_append_right _ List.mem_cons_self)
      exact ⟨front, k, v, l, rfl,
        (leaves_iff some (fun i mem => hq i (List.mem_append_left _ mem)) ⟨rk.1, rk.2.1⟩
          ⟨rj.1, rj.2.1⟩).mp leads,
        (tail v l rk.2.2 fun i mem =>
          hq i (List.mem_append_right _ (List.mem_cons_of_mem _ mem))).mp values.symm⟩
    · rintro ⟨front, k, v, l, rfl, leaves, rejoins⟩
      have rk := hq (k, v) (List.mem_append_right _ List.mem_cons_self)
      have leads := (leaves_iff some (fun i mem => hq i (List.mem_append_left _ mem))
        ⟨rk.1, rk.2.1⟩ ⟨rj.1, rj.2.1⟩).mpr leaves
      have values := (tail v l rk.2.2 fun i mem =>
        hq i (List.mem_append_right _ (List.mem_cons_of_mem _ mem))).mpr rejoins
      rw [regsText_append, String.toList_append, regsText_cons, ← List.append_assoc, leads, values,
        List.append_assoc]

/-! ## The order of the items -/

theorem sortedItems_eq_iff (r q : RegsInit) :
    sortedItems r.items = sortedItems q.items ↔ r.Same q := by
  have permR := List.mergeSort_perm r.items fun i j => decide (i.1 ≤ j.1)
  have permQ := List.mergeSort_perm q.items fun i j => decide (i.1 ≤ j.1)
  constructor
  · intro same
    exact (permR.symm.trans (List.Perm.of_eq same)).trans permQ
  · intro same
    have sorted (items : Dict Int Int) :
        (sortedItems items).Pairwise fun i j => decide (i.1 ≤ j.1) := by
      apply List.pairwise_mergeSort
      · intro a b c hab hbc
        simp only [decide_eq_true_eq] at hab hbc ⊢
        omega
      · intro a b
        simp only [Bool.or_eq_true, decide_eq_true_eq]
        omega
    refine List.Perm.eq_of_pairwise ?_ (sorted _) (sorted _)
      ((permR.trans same).trans permQ.symm)
    intro i j hi hj hij hji
    simp only [decide_eq_true_eq] at hij hji
    have keys : i.1 = j.1 := by omega
    have memI := permR.mem_iff.mp hi
    have memJ := same.mem_iff.mpr (permQ.mem_iff.mp hj)
    exact List.inj_on_of_nodup_map r.distinct memI memJ keys

/-- **The hashed bytes identify two candidates exactly when the pair is not ambiguous.** -/
theorem hashed_identifies_iff (a : String) (r : RegsInit) (b : String) (q : RegsInit) :
    Identifies a r b q ↔ ¬ Ambiguous a r b q := by
  have rangeR := sortedItems_inRange (inRange_of_checkRegs r.accepted)
  have rangeQ := sortedItems_inRange (inRange_of_checkRegs q.accepted)
  have regroup := regrouped_iff rangeR rangeQ
  unfold Identifies
  rw [hashed_eq_iff]
  constructor
  · intro identifies ambiguous
    rcases ambiguous with ⟨rfl, differ, grouped⟩ | ⟨s, some, rfl, items⟩ | ⟨s, some, rfl, items⟩
    · exact differ (identifies.mp (by rw [regroup.mpr grouped])).2
    · have written := (continues_iff some rangeQ rangeR).mpr items
      have same := (identifies.mp (by rw [written, String.append_assoc])).1
      exact append_ne_self some same
    · have written := (continues_iff some rangeR rangeQ).mpr items
      have same := (identifies.mp (by rw [written, String.append_assoc])).1
      exact append_ne_self some same.symm
  · intro clear
    constructor
    · intro same
      have texts : a = b := by
        rcases append_split same with ⟨s, other, items⟩ | ⟨s, other, items⟩
        · by_cases none : s = ""
          · rw [other, none, String.append_empty]
          · have items := (continues_iff none rangeR rangeQ).mp items
            exact absurd (.inr (.inr ⟨s, none, other, items⟩)) clear
        · by_cases none : s = ""
          · rw [other, none, String.append_empty]
          · have items := (continues_iff none rangeQ rangeR).mp items
            exact absurd (.inr (.inl ⟨s, none, other, items⟩)) clear
      subst texts
      constructor
      · rfl
      · by_contra differ
        have items := String.append_right_inj a |>.mp same
        exact clear (.inl ⟨rfl, differ, regroup.mp items⟩)
    · rintro ⟨rfl, same⟩
      rw [(sortedItems_eq_iff r q).mpr same]

/-- A candidate's identity is a prefix of the hash of these bytes, so where they differ only
a collision gives two candidates one identity. -/
theorem makeCandidate_ident {compileAsm : String → Except E (List UInt8)}
    {hexdigest : ByteArray → String} {asmText : String} {regsInit : Dict Int Int}
    {parents structureTags : List String} {origin : String} {c : Candidate}
    (made : makeCandidate compileAsm hexdigest asmText regsInit parents origin structureTags =
      .ok c) :
    checkRegs regsInit = .ok () ∧ c.sourceAsm = asmText ∧ c.regsInit = regsInit ∧
      c.ident = String.ofList ((hexdigest (hashed asmText regsInit)).toList.take 12) ∧
      c.origin = origin := by
  unfold makeCandidate at made
  cases checked : checkRegs regsInit with
  | error message => rw [checked] at made; cases made
  | ok u =>
    rw [checked] at made
    cases compiled : compileAsm asmText with
    | error e => rw [compiled] at made; cases made
    | ok code =>
      rw [compiled] at made
      cases made
      exact ⟨rfl, rfl, rfl, rfl, rfl⟩

/-- `X1 = 1, X12 = 5` and `X1 = 11, X2 = 5`. -/
def regsTwelve : RegsInit := ⟨[(1, 1), (12, 5)], by decide, rfl⟩

def regsTwo : RegsInit := ⟨[(1, 11), (2, 5)], by decide, rfl⟩

/-- Both are `1=112=5` after the text. -/
theorem hashed_identifies_not : ¬ Identifies "ret" regsTwelve "ret" regsTwo := by
  intro identifies
  have same : hashed "ret" regsTwelve.items = hashed "ret" regsTwo.items := by
    apply hashed_eq_iff.mpr
    have sortedTwelve : sortedItems regsTwelve.items = [(1, 1), (12, 5)] := by
      simp [sortedItems, regsTwelve, List.mergeSort, List.MergeSort.Internal.splitInTwo]
    have sortedTwo : sortedItems regsTwo.items = [(1, 11), (2, 5)] := by
      simp [sortedItems, regsTwo, List.mergeSort, List.MergeSort.Internal.splitInTwo]
    rw [sortedTwelve, sortedTwo]
    decide
  have items := (identifies.mp same).2
  exact absurd (items.mem_iff.mp (List.mem_cons_self : ((1 : Int), (1 : Int)) ∈ _)) (by decide)

end Silifuzz.SdcPipeline
