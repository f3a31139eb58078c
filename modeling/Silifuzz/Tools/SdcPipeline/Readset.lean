import Silifuzz.Tools.SdcPipeline.Candidate
import Mathlib.Data.Finset.Basic
import Mathlib.Data.Finset.Union

/-!
# Read sets

`tools/sdc_pipeline/readset.py`, and when equal values in the registers of `first_read_live`
give equal values in all registers that a sequence writes. The disassembler is a parameter;
what it lists of an instruction are names of general registers.
-/

namespace Silifuzz.SdcPipeline.Readset

open Dicts Decimals

/-- `insn.regs_access()`, by name. -/
structure Access where
  reads : List String
  writes : List String
  deriving DecidableEq, Repr

/-- The number in `x<number>`; `none` for any other name. -/
def generalNumber (name : String) : Option Nat :=
  match name.toList with
  | 'x' :: number =>
    if number ≠ [] ∧ number.all Char.isDigit then some (Nat.ofDigitChars 10 number 0) else none
  | _ => none

def numbers (names : List String) : Finset Nat := (names.filterMap generalNumber).toFinset

def readset (insns : List Access) : Finset Nat :=
  insns.foldl (fun reads insn => reads ∪ numbers insn.reads) ∅

def writeset (insns : List Access) : Finset Nat :=
  insns.foldl (fun writes insn => writes ∪ numbers insn.writes) ∅

/-- A turn of the loop of `first_read_live`: `live`, and `seen`, whose initial values are
dead. -/
def firstReadTurn (state : Finset Nat × Finset Nat) (insn : Access) : Finset Nat × Finset Nat :=
  (state.1 ∪ (numbers insn.reads \ state.2), state.2 ∪ numbers insn.writes)

def firstReadLive (insns : List Access) : Finset Nat :=
  (insns.foldl firstReadTurn (∅, ∅)).1

/-- The registers that have an initial value. -/
def initialised (cand : Candidate) : Finset Nat :=
  (cand.regsInit.map fun item => item.1.toNat).toFinset

def liveReadset (disasm : List UInt8 → List Access) (cand : Candidate) : Finset Nat :=
  readset (disasm cand.codeBytes) ∩ initialised cand

def liveFirstRead (disasm : List UInt8 → List Access) (cand : Candidate) : Finset Nat :=
  firstReadLive (disasm cand.codeBytes) ∩ initialised cand

/-! ## General registers -/

inductive View where
  | w
  | x
  deriving DecidableEq, Repr

/-- A general register under its 32- or its 64-bit name. -/
structure Reg where
  view : View
  number : Nat
  deriving DecidableEq, Repr

def Reg.name (r : Reg) : String :=
  (match r.view with | .w => "w" | .x => "x") ++ toString r.number

/-- The general registers that an instruction reads and writes. -/
structure Uses where
  reads : List Reg
  writes : List Reg
  deriving DecidableEq, Repr

def Uses.access (u : Uses) : Access := ⟨u.reads.map Reg.name, u.writes.map Reg.name⟩

def Uses.Writes (u : Uses) (n : Nat) : Prop := ∃ r ∈ u.writes, r.number = n

abbrev File := Nat → BitVec 64

/-- What reading a register under its name gives. -/
def Reg.value (r : Reg) (file : File) : BitVec 64 :=
  match r.view with
  | .w => ((file r.number).setWidth 32).setWidth 64
  | .x => file r.number

/-- An instruction, which reads and writes what is listed of it. `ρ` is the rest of the
machine: flags, vector registers, memory. -/
structure Insn (ρ : Type) where
  uses : Uses
  step : File × ρ → File × ρ
  frame : ∀ s n, ¬ uses.Writes n → (step s).1 n = s.1 n
  reads : ∀ s t : File × ρ, s.2 = t.2 → (∀ r ∈ uses.reads, r.value s.1 = r.value t.1) →
    (step s).2 = (step t).2 ∧ ∀ n, uses.Writes n → (step s).1 n = (step t).1 n

variable {ρ : Type}

def run (insns : List (Insn ρ)) (s : File × ρ) : File × ρ := insns.foldl (fun s i => i.step s) s

/-- Some of the instructions have written the register. -/
def Written (code : List Uses) (n : Nat) : Prop := ∃ u ∈ code, u.Writes n

/-- Two runs whose files agree on `live` have, after each instruction, equal values in every
register that has been written. -/
def Determines (live : Finset Nat) (code : List Uses) : Prop :=
  ∀ (ρ : Type) (insns : List (Insn ρ)), insns.map Insn.uses = code →
    ∀ (f g : File) (rest : ρ), (∀ n ∈ live, f n = g n) →
      ∀ k n, Written (code.take k) n →
        (run (insns.take k) (f, rest)).1 n = (run (insns.take k) (g, rest)).1 n

/-- The register is read under its 64-bit name before it is written under it. -/
def FirstRead (code : List Uses) (n : Nat) : Prop :=
  ∃ before u after, code = before ++ u :: after ∧ ⟨.x, n⟩ ∈ u.reads ∧
    ∀ b ∈ before, ⟨.x, n⟩ ∉ b.writes

/-- `u` reads an initial value of which only the 32-bit name is ever read. -/
def Missed (code before : List Uses) (u : Uses) : Prop :=
  ∃ n, ⟨.w, n⟩ ∈ u.reads ∧ ¬ Written before n ∧ ¬ FirstRead code n

/-- No general register is written by an instruction that reads such a value or comes
after one that does. -/
def Harmless (code : List Uses) : Prop :=
  ∀ before u after, code = before ++ u :: after → Missed code before u →
    ∀ v ∈ u :: after, v.writes = []

/-! ## What `first_read_live` finds -/

theorem generalNumber_name (r : Reg) :
    generalNumber r.name = if r.view = .x then some r.number else none := by
  have digits : (toString r.number).toList = Nat.toDigits 10 r.number := Nat.toList_repr
  cases view : r.view with
  | w =>
    have chars : r.name.toList = 'w' :: Nat.toDigits 10 r.number := by
      rw [Reg.name, view, String.toList_append, digits]
      rfl
    rw [generalNumber, chars]
    rfl
  | x =>
    have chars : r.name.toList = 'x' :: Nat.toDigits 10 r.number := by
      rw [Reg.name, view, String.toList_append, digits]
      rfl
    have all : (Nat.toDigits 10 r.number).all Char.isDigit := by
      apply List.all_eq_true.mpr
      intro c mem
      exact Nat.isDigit_of_mem_toDigits (by decide) (by decide) mem
    have some : Nat.toDigits 10 r.number ≠ [] := Nat.toDigits_ne_nil
    rw [generalNumber, chars]
    simp only [some, all, ne_eq, not_false_eq_true, and_self, if_true,
      Nat.ofDigitChars_ten_toDigits]

theorem mem_numbers {regs : List Reg} {n : Nat} :
    n ∈ numbers (regs.map Reg.name) ↔ ⟨.x, n⟩ ∈ regs := by
  simp only [numbers, List.mem_toFinset, List.mem_filterMap, List.mem_map]
  constructor
  · rintro ⟨_, ⟨r, mem, rfl⟩, number⟩
    rw [generalNumber_name] at number
    split at number
    · next view =>
      cases number
      obtain ⟨v, n⟩ := r
      cases view
      exact mem
    · cases number
  · intro mem
    exact ⟨_, ⟨_, mem, rfl⟩, by rw [generalNumber_name, if_pos rfl]⟩

theorem mem_foldl_firstReadTurn {code : List Uses} {live seen : Finset Nat} {n : Nat} :
    n ∈ ((code.map Uses.access).foldl firstReadTurn (live, seen)).1 ↔
      n ∈ live ∨ (n ∉ seen ∧ FirstRead code n) := by
  induction code generalizing live seen with
  | nil =>
    constructor
    · exact .inl
    · rintro (mem | ⟨_, before, u, after, none, _⟩)
      · exact mem
      · cases before <;> cases none
  | cons u code ih =>
    rw [List.map_cons, List.foldl_cons, firstReadTurn, ih]
    simp only [Finset.mem_union, Finset.mem_sdiff, Uses.access, mem_numbers, not_or]
    constructor
    · rintro ((mem | ⟨read, fresh⟩) | ⟨⟨fresh, unwritten⟩, before, v, after, rfl, read, none⟩)
      · exact .inl mem
      · exact .inr ⟨fresh, [], u, code, rfl, read, fun _ mem => nomatch mem⟩
      · refine .inr ⟨fresh, u :: before, v, after, rfl, read, ?_⟩
        intro b mem
        cases mem with
        | head => exact unwritten
        | tail _ mem => exact none b mem
    · rintro (mem | ⟨fresh, before, v, after, eq, read, none⟩)
      · exact .inl (.inl mem)
      · cases before with
        | nil =>
          cases eq
          exact .inl (.inr ⟨read, fresh⟩)
        | cons b before =>
          cases eq
          exact .inr ⟨⟨fresh, none u List.mem_cons_self⟩, before, v, after, rfl, read,
            fun b mem => none b (List.mem_cons_of_mem _ mem)⟩

theorem mem_firstReadLive {code : List Uses} {n : Nat} :
    n ∈ firstReadLive (code.map Uses.access) ↔ FirstRead code n := by
  rw [firstReadLive, mem_foldl_firstReadTurn]
  constructor
  · rintro (none | ⟨_, first⟩)
    · exact absurd none (Finset.notMem_empty n)
    · exact first
  · exact fun first => .inr ⟨Finset.notMem_empty n, first⟩

/-! ## Two runs -/

/-- What two runs have in common after the instructions `before`. -/
structure Agreed (code before : List Uses) (s t : File × ρ) : Prop where
  rest : s.2 = t.2
  regs : ∀ n, FirstRead code n ∨ Written before n → s.1 n = t.1 n

theorem value_congr {r : Reg} {f g : File} (same : f r.number = g r.number) :
    r.value f = r.value g := by
  cases view : r.view with
  | w => simp only [Reg.value, view, same]
  | x => simp only [Reg.value, view, same]

theorem written_snoc {code : List Uses} {u : Uses} {n : Nat} :
    Written (code ++ [u]) n ↔ Written code n ∨ u.Writes n := by
  simp [Written, or_and_right, exists_or]

theorem run_frame {insns : List (Insn ρ)} {n : Nat} (quiet : ∀ i ∈ insns, ¬ i.uses.Writes n)
    (s : File × ρ) : (run insns s).1 n = s.1 n := by
  induction insns generalizing s with
  | nil => rfl
  | cons i insns ih =>
    have rest := ih (fun j mem => quiet j (List.mem_cons_of_mem _ mem)) (i.step s)
    exact rest.trans (i.frame s n (quiet i List.mem_cons_self))

/-- A register that is read has been written or is first read under its 64-bit name, unless
the instruction misses it. -/
theorem agreed_step {code before after : List Uses} {i : Insn ρ} {s t : File × ρ}
    (place : code = before ++ i.uses :: after) (found : ¬ Missed code before i.uses)
    (agreed : Agreed code before s t) :
    Agreed code (before ++ [i.uses]) (i.step s) (i.step t) := by
  have reading : ∀ r ∈ i.uses.reads, r.value s.1 = r.value t.1 := by
    intro r mem
    apply value_congr
    apply agreed.regs
    by_cases written : Written before r.number
    · exact .inr written
    · left
      obtain ⟨view, n⟩ := r
      cases view with
      | x =>
        refine ⟨before, i.uses, after, place, mem, ?_⟩
        intro b inside writes
        exact written ⟨b, inside, _, writes, rfl⟩
      | w =>
        by_contra missed
        exact found ⟨n, mem, written, missed⟩
  obtain ⟨rest, values⟩ := i.reads s t agreed.rest reading
  constructor
  · exact rest
  · intro n known
    by_cases now : i.uses.Writes n
    · exact values n now
    · rw [i.frame s n now, i.frame t n now]
      apply agreed.regs
      rcases known with first | written
      · exact .inl first
      · exact .inr ((written_snoc.mp written).resolve_right now)

theorem run_agreed {code before : List Uses} {insns : List (Insn ρ)} {s t : File × ρ}
    (harmless : Harmless code) (place : code = before ++ insns.map Insn.uses)
    (agreed : Agreed code before s t) (k n : Nat)
    (written : Written (before ++ (insns.take k).map Insn.uses) n) :
    (run (insns.take k) s).1 n = (run (insns.take k) t).1 n := by
  induction insns generalizing before s t k with
  | nil =>
    rw [List.take_nil, List.map_nil, List.append_nil] at written
    rw [List.take_nil]
    exact agreed.regs n (.inr written)
  | cons i insns ih =>
    cases k with
    | zero =>
      rw [List.take_zero, List.map_nil, List.append_nil] at written
      exact agreed.regs n (.inr written)
    | succ k =>
      rw [List.map_cons] at place
      rw [List.take_succ_cons] at written ⊢
      by_cases missed : Missed code before i.uses
      · have quiet : ∀ j ∈ i :: insns.take k, ¬ j.uses.Writes n := by
          intro j mem ⟨r, writes, _⟩
          have inCode : j.uses ∈ i.uses :: insns.map Insn.uses := by
            rw [← List.map_cons]
            apply List.mem_map_of_mem
            exact List.cons_subset_cons i (List.take_subset k insns) mem
          rw [harmless before i.uses _ place missed j.uses inCode] at writes
          cases writes
        have earlier : Written before n := by
          obtain ⟨u, mem, writes⟩ := written
          rcases List.mem_append.mp mem with mem | mem
          · exact ⟨u, mem, writes⟩
          · obtain ⟨j, inside, rfl⟩ := List.mem_map.mp mem
            exact absurd writes (quiet j inside)
        rw [run_frame quiet, run_frame quiet]
        exact agreed.regs n (.inr earlier)
      · apply @ih (before ++ [i.uses])
        · rw [place, List.append_assoc]
          rfl
        · exact agreed_step place missed agreed
        · rw [List.append_assoc]
          exact written

/-! ## A semantics that lets nothing go -/

instance (u : Uses) (n : Nat) : Decidable (u.Writes n) :=
  inferInstanceAs (Decidable (∃ r ∈ u.writes, r.number = n))

/-- A value other than 0 has been read. -/
def tainted (u : Uses) (s : File × Bool) : Bool := s.2 || u.reads.any fun r => r.value s.1 ≠ 0

/-- Writes 1 once a value other than 0 has been read, and 0 before. -/
def taint (u : Uses) : Insn Bool where
  uses := u
  step s := (fun n => if u.Writes n then (if tainted u s then 1 else 0) else s.1 n, tainted u s)
  frame s n unwritten := if_neg unwritten
  reads s t rest values := by
    have any : (u.reads.any fun r => r.value s.1 ≠ 0) = u.reads.any fun r => r.value t.1 ≠ 0 := by
      rw [Bool.eq_iff_iff, List.any_eq_true, List.any_eq_true]
      constructor
      · rintro ⟨r, mem, nonzero⟩
        exact ⟨r, mem, by rw [← values r mem]; exact nonzero⟩
      · rintro ⟨r, mem, nonzero⟩
        exact ⟨r, mem, by rw [values r mem]; exact nonzero⟩
    have same : tainted u s = tainted u t := by rw [tainted, tainted, rest, any]
    refine ⟨same, ?_⟩
    intro n writes
    simp only [if_pos writes, same]

def clean : File × Bool := (fun _ => 0, false)

theorem run_clean (code : List Uses) : run (code.map taint) clean = clean := by
  induction code with
  | nil => rfl
  | cons u code ih =>
    have none : tainted u clean = false := by
      rw [tainted, Bool.or_eq_false_iff, List.any_eq_false]
      refine ⟨rfl, ?_⟩
      intro r _
      obtain ⟨view, n⟩ := r
      cases view <;> simp [Reg.value, clean]
    have still : (taint u).step clean = clean := by
      have zero : (fun n => if u.Writes n then (if tainted u clean then (1 : BitVec 64) else 0)
          else clean.1 n) = clean.1 := by
        funext n
        rw [none]
        exact ite_self _
      exact Prod.ext zero none
    rw [List.map_cons, run, List.foldl_cons, still]
    exact ih

theorem run_tainted (code : List Uses) (s : File × Bool) (already : s.2 = true) :
    (run (code.map taint) s).2 = true := by
  induction code generalizing s with
  | nil => exact already
  | cons u code ih =>
    apply ih
    exact Bool.or_eq_true_iff.mpr (.inl already)

/-- From an instruction that reads a 1 on, all instructions write a 1. -/
theorem tainted_after {u v : Uses} {after mid rest : List Uses} {n : Nat} {s : File × Bool}
    (read : ⟨.w, n⟩ ∈ u.reads) (one : s.1 n = 1) (place : u :: after = mid ++ v :: rest) :
    tainted v (run (mid.map taint) s) = true := by
  have now : tainted u s = true := by
    apply Bool.or_eq_true_iff.mpr
    right
    exact List.any_eq_true.mpr ⟨_, read, by simp [Reg.value, one]⟩
  cases mid with
  | nil =>
    cases place
    exact now
  | cons w mid =>
    cases place
    exact Bool.or_eq_true_iff.mpr (.inl (run_tainted mid _ now))

theorem not_determines {code before after : List Uses} {u v : Uses} {r : Reg}
    (place : code = before ++ u :: after) (missed : Missed code before u) (mem : v ∈ u :: after)
    (writes : r ∈ v.writes) : ¬ Determines (firstReadLive (code.map Uses.access)) code := by
  intro determines
  obtain ⟨n, read, unwritten, unseen⟩ := missed
  obtain ⟨mid, rest, split⟩ := List.append_of_mem mem
  have prefix' : code.take (before.length + mid.length + 1) = before ++ mid ++ [v] := by
    rw [place, split, ← List.append_assoc, List.append_cons]
    apply List.take_left'
    simp [Nat.add_assoc]
  have uses : (code.map taint).map Insn.uses = code := by
    rw [List.map_map]
    exact List.map_id code
  have equal := determines Bool (code.map taint) uses clean.1
    (Function.update clean.1 n 1) false
    (by
      intro m live
      have other : m ≠ n := by
        rintro rfl
        exact unseen (mem_firstReadLive.mp live)
      exact (Function.update_of_ne other _ _).symm)
    (before.length + mid.length + 1) r.number
    (by rw [prefix']; exact ⟨v, by simp, r, writes, rfl⟩)
  have kept : (run (before.map taint) (Function.update clean.1 n 1, false)).1 n = 1 := by
    rw [run_frame]
    · exact Function.update_self _ _ _
    · intro i inside now
      obtain ⟨b, inBefore, rfl⟩ := List.mem_map.mp inside
      exact unwritten ⟨b, inBefore, now⟩
  have reached := tainted_after read kept split
  rw [← List.map_take, prefix', List.map_append, List.map_append, List.map_cons, List.map_nil]
    at equal
  have written : v.Writes r.number := ⟨r, writes, rfl⟩
  have clear : run (before.map taint ++ mid.map taint ++ [taint v]) (clean.1, false) = clean := by
    have all := run_clean (before ++ mid ++ [v])
    rw [List.map_append, List.map_append, List.map_cons, List.map_nil] at all
    exact all
  rw [clear, run, List.foldl_append, List.foldl_append] at equal
  have last : (1 : BitVec 64) = 0 := by
    rw [show (0 : BitVec 64) = clean.1 r.number from rfl, equal]
    have value : ((taint v).step (run (mid.map taint)
        (run (before.map taint) (Function.update clean.1 n 1, false)))).1 r.number = 1 := by
      change (if v.Writes r.number then (if tainted v _ then (1 : BitVec 64) else 0) else _) = 1
      rw [if_pos written, if_pos reached]
    exact value.symm
  exact absurd last (by decide)

/-- **The registers of `first_read_live` determine all that a sequence writes exactly when no
write comes after an instruction that reads an initial value by its 32-bit name alone.** -/
theorem firstReadLive_determines_iff (code : List Uses) :
    Determines (firstReadLive (code.map Uses.access)) code ↔ Harmless code := by
  constructor
  · intro determines before u after place missed v mem
    by_contra some
    obtain ⟨r, writes⟩ := List.exists_mem_of_ne_nil _ some
    exact not_determines place missed mem writes determines
  · intro harmless ρ insns uses f g rest live k n written
    subst uses
    rw [← List.map_take] at written
    apply run_agreed harmless (List.nil_append _).symm _ k n written
    constructor
    · rfl
    · rintro m (first | ⟨_, none, _⟩)
      · exact live m (mem_firstReadLive.mpr first)
      · cases none

/-- `add w0, w1, w2` -/
def addW : List Uses := [⟨[⟨.w, 1⟩, ⟨.w, 2⟩], [⟨.w, 0⟩]⟩]

/-- `first_read_live` is empty, and `w1` and `w2` go into `x0`. -/
theorem firstReadLive_determines_not :
    ¬ Determines (firstReadLive (addW.map Uses.access)) addW := by
  apply @not_determines addW [] [] _ ⟨[⟨.w, 1⟩, ⟨.w, 2⟩], [⟨.w, 0⟩]⟩ _ rfl _ List.mem_cons_self
    List.mem_cons_self
  refine ⟨1, List.mem_cons_self, ?_, ?_⟩
  · rintro ⟨_, none, _⟩
    cases none
  · rw [← mem_firstReadLive]
    decide

end Silifuzz.SdcPipeline.Readset
