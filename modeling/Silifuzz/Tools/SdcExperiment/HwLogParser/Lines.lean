import Silifuzz.Tools.SdcExperiment.HwLogParser

/-!
# The lines of a log

The patterns of a log do not look past the end of a line, so that a search finds what it finds
in each line. On a line it goes on after a match, and by one character without one.
-/

namespace Silifuzz.SdcExperiment

variable {α : Type} {p : Pattern α} {text rest l : List Char} {a : α}

/-- A pattern does not look past the line that it is at. -/
structure LineSafe (p : Pattern α) : Prop where
  suffix {l rest : List Char} {a : α} : p l = some (a, rest) → rest <:+ l
  line {l : List Char} (rest : List Char) : '\n' ∉ l →
    p (l ++ '\n' :: rest) = (p l).map fun found => (found.1, found.2 ++ '\n' :: rest)

/-- It takes some of the line, too. -/
structure LineLocal (p : Pattern α) : Prop extends LineSafe p where
  less {l rest : List Char} {a : α} : p l = some (a, rest) → rest.length < l.length

theorem LineLocal.takes (h : LineLocal p) (here : p l = some (a, rest)) :
    rest <:+ l ∧ rest.length < l.length := ⟨h.suffix here, h.less here⟩

theorem LineLocal.nil (h : LineLocal p) : p [] = none := by
  cases found : p [] with
  | none => rfl
  | some x => exact absurd (h.takes found).2 (Nat.not_lt_zero _)

theorem LineLocal.newline (h : LineLocal p) (rest : List Char) : p ('\n' :: rest) = none := by
  have none := h.line (l := []) rest (by simp)
  rwa [h.nil] at none

/-! ## A search -/

/-- The matches, for a pattern that takes something. -/
def found (p : Pattern α) (text : List Char) : List α := findAllLoop p (text.length + 1) text

theorem findAllLoop_match (fuel : Nat) (here : p text = some (a, rest)) :
    findAllLoop p (fuel + 1) text = a :: findAllLoop p fuel rest := by
  simp only [findAllLoop, here]

theorem findAllLoop_skip (fuel : Nat) {c : Char} (here : p (c :: text) = none) :
    findAllLoop p (fuel + 1) (c :: text) = findAllLoop p fuel text := by
  simp only [findAllLoop, here]

theorem findAllLoop_nil (h : LineLocal p) (fuel : Nat) : findAllLoop p fuel [] = [] := by
  cases fuel with
  | zero => rfl
  | succ fuel => simp only [findAllLoop, h.nil]

theorem findAllLoop_enough (h : LineLocal p) {fuel : Nat} (enough : text.length < fuel) :
    findAllLoop p fuel text = found p text := by
  unfold found
  induction fuel using Nat.strong_induction_on generalizing text with
  | _ fuel ih =>
    cases fuel with
    | zero => exact absurd enough (Nat.not_lt_zero _)
    | succ fuel =>
      cases here : p text with
      | some x =>
        obtain ⟨a, rest⟩ := x
        have less := (h.takes here).2
        rw [findAllLoop_match _ here, findAllLoop_match _ here]
        rw [ih fuel (Nat.lt_succ_self _) (by omega)]
        by_cases all : text.length = fuel
        · rw [all, ih fuel (Nat.lt_succ_self _) (by omega)]
        · rw [ih text.length (by omega) less]
      | none =>
        cases text with
        | nil => rw [findAllLoop_nil h, findAllLoop_nil h]
        | cons c text =>
          rw [findAllLoop_skip _ here, findAllLoop_skip _ here]
          simp only [List.length_cons] at enough ⊢
          exact ih fuel (Nat.lt_succ_self _) (by omega)

theorem found_nil (h : LineLocal p) : found p [] = [] := findAllLoop_nil h _

theorem found_match (h : LineLocal p) (here : p text = some (a, rest)) :
    found p text = a :: found p rest := by
  rw [found, findAllLoop_match _ here, findAllLoop_enough h (h.takes here).2]

theorem found_skip {c : Char} (here : p (c :: text) = none) :
    found p (c :: text) = found p text := findAllLoop_skip _ here

/-- What is passed by without a match. -/
theorem found_pass {before : List Char}
    (none : ∀ i < before.length, p ((before ++ text).drop i) = none) :
    found p (before ++ text) = found p text := by
  induction before with
  | nil => rfl
  | cons c before ih =>
    rw [List.cons_append]
    rw [found_skip (by simpa using none 0 (Nat.succ_pos _))]
    exact ih fun i hi => none (i + 1) (Nat.succ_lt_succ hi)

theorem found_none (h : LineLocal p) (none : ∀ s, s <:+ text → p s = none) : found p text = [] := by
  induction text with
  | nil => exact found_nil h
  | cons c text ih =>
    rw [found_skip (none _ List.suffix_rfl)]
    exact ih fun s hs => none s (hs.trans (List.suffix_cons c text))

/-- Where a match comes from. -/
theorem mem_found (h : LineLocal p) (mem : a ∈ found p text) :
    ∃ s rest, s <:+ text ∧ p s = some (a, rest) := by
  generalize size : text.length = n
  induction n using Nat.strong_induction_on generalizing text with
  | _ n ih =>
    cases here : p text with
    | some x =>
      obtain ⟨b, rest⟩ := x
      rw [found_match h here] at mem
      obtain ⟨suffix, less⟩ := h.takes here
      rcases List.mem_cons.mp mem with rfl | later
      · exact ⟨text, rest, List.suffix_rfl, here⟩
      · obtain ⟨s, r, hs, matched⟩ := ih _ (size ▸ less) later rfl
        exact ⟨s, r, hs.trans suffix, matched⟩
    | none =>
      cases text with
      | nil =>
        rw [found_nil h] at mem
        cases mem
      | cons c text =>
        rw [found_skip here] at mem
        obtain ⟨s, r, hs, matched⟩ := ih _ (by simp [← size]) mem rfl
        exact ⟨s, r, hs.trans (List.suffix_cons c text), matched⟩

/-- A line, and what comes after it. -/
theorem found_line (h : LineLocal p) (plain : '\n' ∉ l) (rest : List Char) :
    found p (l ++ '\n' :: rest) = found p l ++ found p rest := by
  generalize size : l.length = n
  induction n using Nat.strong_induction_on generalizing l with
  | _ n ih =>
    have whole := h.line rest plain
    cases here : p l with
    | some x =>
      obtain ⟨b, left⟩ := x
      obtain ⟨suffix, less⟩ := h.takes here
      rw [here, Option.map_some] at whole
      rw [found_match h whole, found_match h here, List.cons_append]
      rw [ih _ (size ▸ less) (fun mem => plain (suffix.subset mem)) rfl]
    | none =>
      rw [here, Option.map_none] at whole
      cases l with
      | nil => rw [List.nil_append, found_skip (h.newline rest), found_nil h, List.nil_append]
      | cons c l =>
        rw [List.cons_append] at whole ⊢
        rw [found_skip whole, found_skip here]
        exact ih _ (by simp [← size]) (fun mem => plain (List.mem_cons_of_mem c mem)) rfl

/-- A text is a line, or a line with a text below it. -/
theorem lines_induction {P : List Char → Prop} (single : ∀ l, '\n' ∉ l → P l)
    (more : ∀ l rest, '\n' ∉ l → P rest → P (l ++ '\n' :: rest)) (text : List Char) : P text := by
  generalize size : text.length = n
  induction n using Nat.strong_induction_on generalizing text with
  | _ n ih =>
    by_cases mem : '\n' ∈ text
    · obtain ⟨l, rest, rfl, plain⟩ := List.eq_append_cons_of_mem mem
      exact more l rest plain (ih rest.length (by simp [← size]; omega) rest rfl)
    · exact single text mem

/-- **A search finds what it finds in each line.** -/
theorem found_lines (h : LineLocal p) (text : List Char) :
    found p text = (text.splitOn '\n').flatMap (found p) := by
  induction text using lines_induction with
  | single l plain => rw [List.splitOn_eq_singleton plain, List.flatMap_singleton]
  | more l rest plain ih =>
    rw [found_line h plain, List.splitOn_append_cons_self_of_not_mem plain, List.flatMap_cons, ih]

/-- Where a line is. -/
theorem mem_lines (mem : l ∈ text.splitOn '\n') : '\n' ∉ l ∧
    ∃ before after, text = before ++ l ++ after ∧ ∀ c ∈ after.head?, c = '\n' := by
  induction text using lines_induction with
  | single text plain =>
    rw [List.splitOn_eq_singleton plain, List.mem_singleton] at mem
    subst mem
    exact ⟨plain, [], [], by simp, nofun⟩
  | more first rest plain ih =>
    rw [List.splitOn_append_cons_self_of_not_mem plain] at mem
    rcases List.mem_cons.mp mem with rfl | below
    · exact ⟨plain, [], '\n' :: rest, by simp, by simp⟩
    · obtain ⟨plain', before, after, rfl, ends⟩ := ih below
      exact ⟨plain', first ++ '\n' :: before, after, by simp, ends⟩

/-! ## The patterns -/

theorem LineSafe.pure (a : α) : LineSafe fun text => some (a, text) where
  suffix here := by
    cases here
    exact List.suffix_rfl
  line _ _ := rfl

theorem literal_append (word : String) (text : List Char) :
    literal word (word.toList ++ text) = some text := by
  rw [literal, if_pos (List.prefix_append _ _), List.drop_left]

theorem literal_eq_some {word : String} (h : literal word text = some rest) :
    text = word.toList ++ rest := by
  unfold literal at h
  split at h
  · next begins =>
    obtain ⟨tail, rfl⟩ := begins
    rw [List.drop_left] at h
    rw [Option.some.inj h]
  · cases h

theorem literal_line {word : String} (plain : '\n' ∉ word.toList) (l rest : List Char) :
    literal word (l ++ '\n' :: rest) = (literal word l).map (· ++ '\n' :: rest) := by
  unfold literal
  by_cases begins : word.toList <+: l
  · rw [if_pos begins, if_pos (begins.trans (List.prefix_append _ _)), Option.map_some,
      List.drop_append_of_le_length begins.length_le]
  · rw [if_neg begins, if_neg, Option.map_none]
    intro longer
    rcases List.prefix_or_prefix_of_prefix longer (List.prefix_append _ _) with short | ⟨tail, whole⟩
    · exact begins short
    · rw [← whole] at longer plain begins
      have inside := List.prefix_append_right_inj l |>.mp longer
      cases tail with
      | nil => exact begins (by simp)
      | cons c tail =>
        obtain ⟨rfl, -⟩ := List.cons_prefix_cons.mp inside
        exact plain (by simp)

theorem LineLocal.literal {word : String} {K : Pattern α} (plain : '\n' ∉ word.toList)
    (some : word.toList ≠ []) (hK : LineSafe K) :
    LineLocal fun text => (literal word text).bind K where
  suffix here := by
    obtain ⟨tail, begins, next⟩ := Option.bind_eq_some_iff.mp here
    rw [literal_eq_some begins]
    exact (hK.suffix next).trans (List.suffix_append _ _)
  line {l} rest hl := by
    rw [literal_line plain]
    cases begins : SdcExperiment.literal word l with
    | none => rfl
    | some tail =>
      apply hK.line
      intro mem
      exact hl (literal_eq_some begins ▸ List.mem_append_right _ mem)
  less here := by
    obtain ⟨tail, begins, next⟩ := Option.bind_eq_some_iff.mp here
    rw [literal_eq_some begins, List.length_append]
    have shorter := (hK.suffix next).length_le
    have long := List.length_pos_iff.mpr some
    omega

theorem many_eq_some {q : Char → Bool} {taken : List Char} (h : many q text = some (taken, rest)) :
    taken = text.takeWhile q ∧ taken ≠ [] ∧ rest = text.dropWhile q := by
  unfold many at h
  split at h
  · cases h
  · next nonempty =>
    cases h
    exact ⟨rfl, by simpa using nonempty, rfl⟩

theorem many_append {q : Char → Bool} {taken : List Char} (some : taken ≠ [])
    (all : ∀ c ∈ taken, q c = true) (ends : ∀ c ∈ rest.head?, q c = false) :
    many q (taken ++ rest) = .some (taken, rest) := by
  have takes : (taken ++ rest).takeWhile q = taken := by
    rw [List.takeWhile_append_of_pos all]
    cases rest with
    | nil => simp
    | cons c rest => simp [ends c rfl]
  have drops : (taken ++ rest).dropWhile q = rest := by
    rw [List.dropWhile_append_of_pos all]
    cases rest with
    | nil => rfl
    | cons c rest => simp [ends c rfl]
  rw [many, takes, drops, if_neg]
  simpa using some

theorem many_line {q : Char → Bool} (newline : q '\n' = false) (hl : '\n' ∉ l)
    (rest : List Char) :
    many q (l ++ '\n' :: rest) = (many q l).map fun found => (found.1, found.2 ++ '\n' :: rest) := by
  have takes : (l ++ '\n' :: rest).takeWhile q = l.takeWhile q := by
    induction l with
    | nil => simp [newline]
    | cons c l ih =>
      have ih := ih fun mem => hl (List.mem_cons_of_mem c mem)
      by_cases hc : q c = true <;> simp [hc, ih]
  have drops : (l ++ '\n' :: rest).dropWhile q = l.dropWhile q ++ '\n' :: rest := by
    clear takes
    induction l with
    | nil => simp [newline]
    | cons c l ih =>
      have ih := ih fun mem => hl (List.mem_cons_of_mem c mem)
      by_cases hc : q c = true <;> simp [hc, ih]
  unfold many
  rw [takes, drops]
  split <;> rfl

theorem LineLocal.many {q : Char → Bool} (newline : q '\n' = false) : LineLocal (many q) where
  suffix here := by
    obtain ⟨-, -, rfl⟩ := many_eq_some here
    exact List.dropWhile_suffix q
  line rest hl := many_line newline hl rest
  less {l} _ _ here := by
    obtain ⟨rfl, some, rfl⟩ := many_eq_some here
    have parts := congrArg List.length (List.takeWhile_append_dropWhile (p := q) (l := l))
    rw [List.length_append] at parts
    have long := List.length_pos_iff.mpr some
    omega

theorem LineLocal.bind {β : Type} {K : α → Pattern β} (h : LineLocal p) (hK : ∀ a, LineSafe (K a)) :
    LineLocal fun text => (p text).bind fun found => K found.1 found.2 where
  suffix here := by
    obtain ⟨⟨a, tail⟩, begins, next⟩ := Option.bind_eq_some_iff.mp here
    exact ((hK a).suffix next).trans (h.suffix begins)
  line {l} rest hl := by
    rw [h.line rest hl]
    cases begins : p l with
    | none => rfl
    | some found =>
      obtain ⟨a, tail⟩ := found
      exact (hK a).line rest fun mem => hl ((h.suffix begins).subset mem)
  less here := by
    obtain ⟨⟨a, tail⟩, begins, next⟩ := Option.bind_eq_some_iff.mp here
    exact Nat.lt_of_le_of_lt ((hK a).suffix next).length_le (h.less begins)

theorem restOfLine_newline (text : List Char) :
    restOfLine p ('\n' :: text) = p ('\n' :: text) := if_pos rfl

theorem restOfLine_cons (c : Char) (text : List Char) (hc : c ≠ '\n') :
    restOfLine p (c :: text) = (restOfLine p text).or (p (c :: text)) := by
  rw [restOfLine, if_neg hc]
  cases restOfLine p text <;> rfl

/-- Where the rest of a line ends. -/
theorem restOfLine_eq_some (here : restOfLine p text = some (a, rest)) :
    ∃ u v, text = u ++ v ∧ '\n' ∉ u ∧ p v = some (a, rest) := by
  induction text with
  | nil => exact ⟨[], [], rfl, List.not_mem_nil, here⟩
  | cons c text ih =>
    by_cases hc : c = '\n'
    · subst hc
      exact ⟨[], '\n' :: text, rfl, List.not_mem_nil, here⟩
    · rw [restOfLine_cons c text hc] at here
      cases later : restOfLine p text with
      | some found =>
        rw [later] at here
        obtain ⟨u, v, rfl, plain, ends⟩ := ih (later.trans here)
        exact ⟨c :: u, v, rfl, by simp [plain, Ne.symm hc], ends⟩
      | none =>
        rw [later] at here
        exact ⟨[], c :: text, rfl, List.not_mem_nil, here⟩

theorem restOfLine_isSome {u v : List Char} (plain : '\n' ∉ u) (ends : (p v).isSome = true) :
    (restOfLine p (u ++ v)).isSome = true := by
  induction u with
  | nil =>
    cases v with
    | nil => exact ends
    | cons c v =>
      by_cases hc : c = '\n'
      · subst hc
        exact ends
      · rw [List.nil_append, restOfLine_cons c v hc, Option.isSome_or, ends, Bool.or_true]
  | cons c u ih =>
    have hc : c ≠ '\n' := fun same => plain (same ▸ List.mem_cons_self)
    rw [List.cons_append, restOfLine_cons _ _ hc, Option.isSome_or,
      ih fun mem => plain (List.mem_cons_of_mem c mem), Bool.true_or]

theorem restOfLine_suffix (safe : LineLocal p) (here : restOfLine p text = some (a, rest)) :
    rest <:+ text ∧ rest.length < text.length := by
  induction text with
  | nil =>
    rw [restOfLine, safe.nil] at here
    cases here
  | cons c text ih =>
    by_cases hc : c = '\n'
    · subst hc
      rw [restOfLine_newline] at here
      exact safe.takes here
    · rw [restOfLine_cons c text hc] at here
      cases later : restOfLine p text with
      | some found =>
        rw [later, Option.some_or] at here
        cases here
        obtain ⟨suffix, less⟩ := ih later
        exact ⟨suffix.trans (List.suffix_cons c text), less.trans (Nat.lt_succ_self _)⟩
      | none =>
        rw [later, Option.none_or] at here
        exact safe.takes here

theorem LineLocal.restOfLine (h : LineLocal p) : LineLocal (restOfLine p) where
  suffix here := (restOfLine_suffix h here).1
  less here := (restOfLine_suffix h here).2
  line {l} rest hl := by
    induction l with
    | nil =>
      rw [List.nil_append, restOfLine_newline, h.newline, SdcExperiment.restOfLine, h.nil]
      rfl
    | cons c l ih =>
      have hc : c ≠ '\n' := fun same => hl (same ▸ List.mem_cons_self)
      rw [List.cons_append, restOfLine_cons _ _ hc, restOfLine_cons _ _ hc,
        ih fun mem => hl (List.mem_cons_of_mem c mem), ← List.cons_append, h.line rest hl]
      cases SdcExperiment.restOfLine p l <;> rfl

theorem hashRe_eq : hashRe = fun text =>
    (literal "Snapshot [" text).bind fun text => (many hexDigit text).bind fun found =>
      (literal "]" found.2).bind fun text => some (String.ofList found.1, text) := rfl

theorem hashRe_local : LineLocal hashRe :=
  .literal (by decide) (by decide) (LineLocal.bind (.many rfl) fun hash =>
    (LineLocal.literal (by decide) (by decide) (.pure (String.ofList hash))).toLineSafe).toLineSafe

section

variable {decimal : Char → Option Nat}

theorem outcomeRe_eq : outcomeRe decimal = fun text =>
    (literal "outcome = " text).bind (many fun c => (decimal c).isSome) := rfl

/-- `failed, outcome = (\d+)` -/
def failedEnd (decimal : Char → Option Nat) : Pattern (List Char) := fun text =>
  (literal "failed, outcome = " text).bind (many fun c => (decimal c).isSome)

/-- `[234]` -/
def mismatch : Pattern Char
  | c :: rest => if c = '2' ∨ c = '3' ∨ c = '4' then some (c, rest) else none
  | [] => none

/-- `failed, outcome = [234]` -/
def detailEnd : Pattern Char := fun text => (literal "failed, outcome = " text).bind mismatch

theorem failedRe_eq : failedRe decimal = fun text =>
    (hashRe text).bind fun found => restOfLine (failedEnd decimal) found.2 := rfl

theorem sdcDetailRe_eq : sdcDetailRe = fun text =>
    (hashRe text).bind fun found => (restOfLine detailEnd found.2).bind fun found =>
      some (String.ofList (text.take (text.length - found.2.length)), found.2) := by
  rfl

/-- `\d` of Python: the digits of ASCII, and no newline. -/
structure Digits (decimal : Char → Option Nat) : Prop where
  ascii {c : Char} : c.isDigit = true → decimal c = some (c.toNat - '0'.toNat)
  newline : decimal '\n' = none

theorem Digits.many_local (h : Digits decimal) :
    LineLocal (many fun c => (decimal c).isSome) := .many (by rw [h.newline]; rfl)

theorem outcomeRe_local (h : Digits decimal) : LineLocal (outcomeRe decimal) :=
  .literal (by decide) (by decide) h.many_local.toLineSafe

theorem failedEnd_local (h : Digits decimal) : LineLocal (failedEnd decimal) :=
  .literal (by decide) (by decide) h.many_local.toLineSafe

theorem failedRe_local (h : Digits decimal) : LineLocal (failedRe decimal) := by
  rw [failedRe_eq]
  exact hashRe_local.bind fun _ => (failedEnd_local h).restOfLine.toLineSafe

theorem mismatch_local : LineLocal mismatch where
  suffix {l _ _} here := by
    cases l with
    | nil => cases here
    | cons c l =>
      simp only [mismatch] at here
      split at here
      · cases here
        exact List.suffix_cons _ _
      · cases here
  line {l} rest _ := by
    cases l with
    | nil => rfl
    | cons c l =>
      simp only [mismatch, List.cons_append]
      split <;> rfl
  less {l _ _} here := by
    cases l with
    | nil => cases here
    | cons c l =>
      simp only [mismatch] at here
      split at here
      · cases here
        exact Nat.lt_succ_self _
      · cases here

theorem detailEnd_local : LineLocal detailEnd :=
  .literal (by decide) (by decide) mismatch_local.toLineSafe

/-- The match with its text. -/
theorem sdcDetailRe_local : LineLocal sdcDetailRe where
  suffix here := by
    rw [sdcDetailRe_eq] at here
    obtain ⟨⟨hash, tail⟩, begins, here⟩ := Option.bind_eq_some_iff.mp here
    obtain ⟨⟨d, left⟩, ends, here⟩ := Option.bind_eq_some_iff.mp here
    cases here
    exact (detailEnd_local.restOfLine.suffix ends).trans (hashRe_local.suffix begins)
  less here := by
    rw [sdcDetailRe_eq] at here
    obtain ⟨⟨hash, tail⟩, begins, here⟩ := Option.bind_eq_some_iff.mp here
    obtain ⟨⟨d, left⟩, ends, here⟩ := Option.bind_eq_some_iff.mp here
    cases here
    exact (detailEnd_local.restOfLine.less ends).trans (hashRe_local.less begins)
  line {l} rest hl := by
    rw [sdcDetailRe_eq]
    dsimp only
    rw [hashRe_local.line rest hl]
    cases begins : hashRe l with
    | none => rfl
    | some found =>
      obtain ⟨hash, tail⟩ := found
      simp only [Option.map_some, Option.bind_some]
      have inside := hashRe_local.suffix begins
      rw [detailEnd_local.restOfLine.line rest fun mem => hl (inside.subset mem)]
      cases ends : restOfLine detailEnd tail with
      | none => rfl
      | some found =>
        obtain ⟨d, left⟩ := found
        have shorter := ((detailEnd_local.restOfLine.suffix ends).trans inside).length_le
        simp only [Option.map_some, Option.bind_some, List.length_append]
        rw [Nat.add_sub_add_right, List.take_append_of_le_length (Nat.sub_le _ _)]

end

end Silifuzz.SdcExperiment
