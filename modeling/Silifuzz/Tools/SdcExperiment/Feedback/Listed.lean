import Silifuzz.Tools.SdcExperiment.Feedback
import Silifuzz.Tools.SdcExperiment.HwLogParser.Lines

/-!
# The hits that a report lists

The report pairs the hashes and the outcomes of a log's details by their positions. When each
line with a detail has one failure, each pair is a failure of the log and there are as many as
details. The patterns go to the last failure of a line, so that it is otherwise when several
share one.
-/

namespace Silifuzz.SdcExperiment

/-- A failure as the runner prints it. -/
def recordText (hash digits : List Char) : List Char :=
  "Snapshot [".toList ++ (hash ++ ("] failed, outcome = ".toList ++ digits))

/-- The log has a failure of the snapshot with the outcome, of which these are all the digits. -/
def Recorded (decimal : Char → Option Nat) (text : List Char) (hash : String) (outcome : Nat) :
    Prop :=
  ∃ before digits after, text = before ++ (recordText hash.toList digits ++ after) ∧
    hash.toList ≠ [] ∧ (∀ c ∈ hash.toList, hexDigit c = true) ∧
    digits ≠ [] ∧ (∀ c ∈ digits, (decimal c).isSome = true) ∧
    (∀ c ∈ after.head?, decimal c = none) ∧ decimalNumber decimal digits = outcome

/-- What the report lists for a file. -/
def listedFor (items : List Item) (file : String) : List (Option String × Option Nat) :=
  (items.filter fun item => item.source = file).map fun item => (item.hash, item.outcome)

/-- The pairs are failures of the log, as many as details were retained. -/
structure Faithful (decimal : Char → Option Nat) (text : String)
    (pairs : List (Option String × Option Nat)) : Prop where
  recorded : ∀ pair ∈ pairs, ∃ hash outcome, pair = (some hash, some outcome) ∧
    Recorded decimal text.toList hash outcome
  count : pairs.length = (parseLog decimal text).sdcDetails.length

/-! ## Lines with one failure -/

/-- The lines on which a detail can be found. -/
def sdcLines (text : List Char) : List (List Char) :=
  (text.splitOn '\n').filter fun line => line.tails.any fun s => (sdcDetailRe s).isSome

/-- What is before the failure on its line has no snapshot with a hash; the number ends where
the line does, or before another character; and after it no mismatch ends. -/
structure RecordLine (decimal : Char → Option Nat) (before hash : List Char) (d : Char)
    (after : List Char) : Prop where
  nonempty : hash ≠ []
  hex : ∀ c ∈ hash, hexDigit c = true
  outcome : d = '2' ∨ d = '3' ∨ d = '4'
  first : ∀ i < before.length,
    hashRe ((before ++ (recordText hash [d] ++ after)).drop i) = none
  complete : ∀ c ∈ after.head?, decimal c = none
  last : ∀ s, s <:+ after → detailEnd s = none

def SingleRecord (decimal : Char → Option Nat) (line : List Char) : Prop :=
  ∃ before hash d after, line = before ++ (recordText hash [d] ++ after) ∧
    RecordLine decimal before hash d after

variable {α : Type} {p : Pattern α} {decimal : Char → Option Nat}
  {before hash after text : List Char} {d : Char}

/-! ## Where a pattern does not match -/

theorem literal_ne {word : String} {c c' : Char} {w : List Char} (begins : word.toList = c' :: w)
    (differ : c ≠ c') (text : List Char) : literal word (c :: text) = none := by
  rw [literal, if_neg]
  rw [begins]
  intro is
  exact differ (List.cons_prefix_cons.mp is).1.symm

/-- A pattern that begins with a character does not match where there is none. -/
theorem none_of_not_mem {b : Char} (begins : ∀ c text, c ≠ b → p (c :: text) = none)
    {u : List Char} (plain : b ∉ u) (rest : ∀ s, s <:+ after → p s = none) :
    ∀ s, s <:+ u ++ after → p s = none := by
  induction u with
  | nil => exact rest
  | cons c u ih =>
    intro s hs
    rcases List.suffix_cons_iff.mp hs with rfl | later
    · exact begins c _ fun same => plain (same ▸ List.mem_cons_self)
    · exact ih (fun mem => plain (List.mem_cons_of_mem c mem)) s later

theorem restOfLine_none (never : ∀ s, s <:+ text → p s = none) : restOfLine p text = none := by
  induction text with
  | nil => exact never [] List.suffix_rfl
  | cons c text ih =>
    have here := never _ List.suffix_rfl
    by_cases hc : c = '\n'
    · subst hc
      rw [restOfLine_newline, here]
    · have rest := ih fun s hs => never s (hs.trans (List.suffix_cons c text))
      rw [restOfLine_cons c text hc, here, rest]
      rfl

/-! ## What is found in a failure -/

theorem hexDigit_plain {c : Char} (h : hexDigit c = true) : c ≠ 'o' ∧ c ≠ 'S' ∧ c ≠ '\n' := by
  refine ⟨?_, ?_, ?_⟩ <;> rintro rfl <;> exact absurd h (by decide)

/-- What comes after the hash. -/
def recordTail (digits after : List Char) : List Char :=
  ' ' :: 'f' :: ("ailed, outcome = ".toList ++ (digits ++ after))

theorem recordText_append (hash digits after : List Char) : recordText hash digits ++ after =
    "Snapshot [".toList ++ (hash ++ ("]".toList ++ recordTail digits after)) := by
  have ends : "] failed, outcome = ".toList =
      "]".toList ++ ' ' :: 'f' :: "ailed, outcome = ".toList := rfl
  unfold recordText recordTail
  rw [ends]
  generalize "Snapshot [".toList = snapshot
  generalize "ailed, outcome = ".toList = outcome
  generalize "]".toList = bracket
  simp only [List.append_assoc, List.cons_append]

theorem hashRe_record (nonempty : hash ≠ []) (hex : ∀ c ∈ hash, hexDigit c = true)
    (digits after : List Char) : hashRe (recordText hash digits ++ after) =
      some (String.ofList hash, recordTail digits after) := by
  have begins (text : List Char) : ∀ c ∈ ("]".toList ++ text).head?, hexDigit c = false := by
    rintro _ ⟨⟩
    rfl
  rw [recordText_append, hashRe_eq]
  simp only [literal_append, many_append nonempty hex (begins _), Option.bind_some]

/-- The end of a failure, with no other end behind it. -/
theorem restOfLine_record {q : Pattern α} {a : α} {digits : List Char}
    (plain : 'f' ∉ digits) (takes : q (digits ++ after) = some (a, after))
    (never : ∀ s, s <:+ after → ((literal "failed, outcome = " s).bind q) = none) :
    restOfLine (fun text => (literal "failed, outcome = " text).bind q) (recordTail digits after) =
      some (a, after) := by
  have later := restOfLine_none (p := fun text => (literal "failed, outcome = " text).bind q)
    (none_of_not_mem (b := 'f') (u := "ailed, outcome = ".toList ++ digits) (fun c text hc => by
      rw [literal_ne rfl hc]
      rfl) (by simpa using plain) never)
  have word : 'f' :: "ailed, outcome = ".toList = "failed, outcome = ".toList := rfl
  have here : (literal "failed, outcome = "
      ('f' :: ("ailed, outcome = ".toList ++ (digits ++ after)))).bind q = some (a, after) := by
    rw [← List.cons_append, word, literal_append, Option.bind_some, takes]
  rw [List.append_assoc] at later
  rw [recordTail, restOfLine_cons _ _ (by decide), restOfLine_cons _ _ (by decide), later, here]
  rfl

namespace RecordLine

theorem digit (h : RecordLine decimal before hash d after) : d.isDigit = true := by
  rcases h.outcome with rfl | rfl | rfl <;> rfl

theorem plain (h : RecordLine decimal before hash d after) {c : Char} (other : c.isDigit = false) :
    c ∉ [d] := by
  intro mem
  rw [List.mem_singleton.mp mem, h.digit] at other
  cases other

theorem sdcDetailRe_record (h : RecordLine decimal before hash d after) :
    sdcDetailRe (recordText hash [d] ++ after) =
      some (String.ofList (recordText hash [d]), after) := by
  have ends : restOfLine detailEnd (recordTail [d] after) = some (d, after) :=
    restOfLine_record (h.plain rfl) (if_pos h.outcome) h.last
  rw [sdcDetailRe_eq]
  dsimp only
  rw [hashRe_record h.nonempty h.hex, Option.bind_some]
  dsimp only
  rw [ends, Option.bind_some, List.length_append, Nat.add_sub_cancel, List.take_left]

/-- One detail is found on the line. -/
theorem found_detail (h : RecordLine decimal before hash d after) :
    found sdcDetailRe (before ++ (recordText hash [d] ++ after)) =
      [String.ofList (recordText hash [d])] := by
  have nothing : found sdcDetailRe after = [] := by
    apply found_none sdcDetailRe_local
    intro s hs
    rw [sdcDetailRe_eq]
    cases begins : hashRe s with
    | none => simp only [begins, Option.bind_none]
    | some found =>
      obtain ⟨hash, rest⟩ := found
      have inside := (hashRe_local.suffix begins).trans hs
      have never := restOfLine_none fun t ht => h.last t (ht.trans inside)
      simp only [begins, Option.bind_some, never, Option.bind_none]
  rw [found_pass, found_match sdcDetailRe_local h.sdcDetailRe_record, nothing]
  intro i hi
  rw [sdcDetailRe_eq]
  dsimp only
  rw [h.first i hi, Option.bind_none]

/-- One hash is found in the detail. -/
theorem found_hash (h : RecordLine decimal before hash d after) :
    found hashRe (recordText hash [d]) = [String.ofList hash] := by
  have here := hashRe_record h.nonempty h.hex [d] []
  rw [List.append_nil] at here
  rw [found_match hashRe_local here, found_none hashRe_local]
  have plain : 'S' ∉ recordTail [d] [] := by
    intro mem
    have digit := h.plain (c := 'S') rfl
    simp [recordTail] at mem digit
    exact digit mem
  have ends : ∀ s, s <:+ [] → hashRe s = none := by
    intro s hs
    rw [List.eq_nil_of_suffix_nil hs]
    rfl
  have never := none_of_not_mem (p := hashRe) (b := 'S') (fun c text hc => by
    rw [hashRe_eq]
    dsimp only
    rw [literal_ne rfl hc]
    rfl) plain ends
  rwa [List.append_nil] at never

theorem no_newline (h : RecordLine decimal before hash d after) : '\n' ∉ recordText hash [d] := by
  intro mem
  rcases List.mem_append.mp mem with first | mem
  · exact absurd first (by decide)
  rcases List.mem_append.mp mem with inside | mem
  · exact (hexDigit_plain (h.hex _ inside)).2.2 rfl
  rcases List.mem_append.mp mem with last | digit
  · exact absurd last (by decide)
  · exact h.plain rfl digit

end RecordLine

/-- Characters that begin no outcome. -/
theorem found_outcome_skip {u : List Char} (plain : 'o' ∉ u) (text : List Char) :
    found (outcomeRe decimal) (u ++ text) = found (outcomeRe decimal) text := by
  induction u with
  | nil => rfl
  | cons c u ih =>
    have hc : c ≠ 'o' := by
      rintro rfl
      exact plain List.mem_cons_self
    have here : outcomeRe decimal (c :: (u ++ text)) = none := by
      rw [outcomeRe_eq]
      dsimp only
      rw [literal_ne rfl hc]
      rfl
    rw [List.cons_append, found_skip here]
    exact ih fun mem => plain (List.mem_cons_of_mem c mem)

/-- One outcome is found in the detail. -/
theorem RecordLine.found_outcome (h : RecordLine decimal before hash d after)
    (digits : Digits decimal) : found (outcomeRe decimal) (recordText hash [d]) = [[d]] := by
  have shape : recordText hash [d] = "Snapsh".toList ++ 'o' :: ("t [".toList ++ hash ++
      "] failed, ".toList ++ ("outcome = ".toList ++ ([d] ++ []))) := by
    have first : "Snapshot [".toList = "Snapsh".toList ++ 'o' :: "t [".toList := rfl
    have last : "] failed, outcome = ".toList = "] failed, ".toList ++ "outcome = ".toList := rfl
    unfold recordText
    rw [first, last]
    generalize "Snapsh".toList = snapsh
    generalize "t [".toList = t
    generalize "] failed, ".toList = failed
    generalize "outcome = ".toList = outcome
    simp only [List.append_assoc, List.cons_append, List.append_nil]
  have plain : 'o' ∉ "t [".toList ++ hash ++ "] failed, ".toList := by
    intro mem
    simp at mem
    exact (hexDigit_plain (h.hex _ mem)).1 rfl
  have letter (text : List Char) : outcomeRe decimal ('o' :: ("t [".toList ++ text)) = none := by
    rw [outcomeRe_eq]
    change (literal "outcome = " ('o' :: 't' :: ' ' :: '[' :: text)).bind (many _) = none
    rw [literal, if_neg]
    · rfl
    · intro is
      have second := (List.cons_prefix_cons.mp (List.cons_prefix_cons.mp is).2).1
      exact absurd second (by decide)
  have ends : outcomeRe decimal ("outcome = ".toList ++ ([d] ++ [])) = some ([d], []) := by
    rw [outcomeRe_eq]
    dsimp only
    rw [literal_append, Option.bind_some]
    apply many_append (List.cons_ne_nil d [])
    · intro c hc
      rw [List.mem_singleton.mp hc, digits.ascii h.digit]
      rfl
    · intro c hc
      exact absurd hc (by simp)
  rw [shape, found_outcome_skip (by decide), List.append_assoc, List.append_assoc,
    found_skip (letter _), ← List.append_assoc, ← List.append_assoc, found_outcome_skip plain,
    found_match (outcomeRe_local digits) ends, found_nil (outcomeRe_local digits)]

/-! ## The details of a log -/

theorem findAll_eq (p : Pattern α) (text : String) : findAll p text = found p text.toList := rfl

/-- A line on which no detail can be found. -/
theorem found_detail_none {line : List Char}
    (never : line.tails.any (fun s => (sdcDetailRe s).isSome) = false) :
    found sdcDetailRe line = [] := by
  apply found_none sdcDetailRe_local
  intro s hs
  have none := List.any_eq_false.mp never s ((List.mem_tails s line).mpr hs)
  simpa using none

theorem found_sdcLines (text : List Char) :
    found sdcDetailRe text = (sdcLines text).flatMap (found sdcDetailRe) := by
  rw [found_lines sdcDetailRe_local, sdcLines]
  induction text.splitOn '\n' with
  | nil => rfl
  | cons line lines ih =>
    rw [List.flatMap_cons, ih, List.filter_cons]
    split
    · rw [List.flatMap_cons]
    · next never => rw [found_detail_none (Bool.eq_false_iff.mpr never), List.nil_append]

/-- The first elements of lists with one element each. -/
theorem take_flatMap {β : Type} {f : β → List α} {n : Nat} {l : List β}
    (one : ∀ x ∈ l.take n, (f x).length = 1) :
    (l.flatMap f).take n = (l.take n).flatMap f := by
  induction l generalizing n with
  | nil => simp
  | cons x l ih =>
    cases n with
    | zero => rfl
    | succ n =>
      rw [List.take_succ_cons, List.flatMap_cons, List.flatMap_cons]
      have single := one x (by simp)
      rw [List.take_append, single, Nat.add_sub_cancel, List.take_of_length_le (by omega)]
      rw [ih fun y hy => one y (by simp [hy])]

/-- **Each line with a failure gives a detail, a hash and an outcome**, which are a failure of the
log. -/
theorem lists_recorded (digits : Digits decimal) {lines : List (List Char)}
    (each : ∀ line ∈ lines, SingleRecord decimal line ∧
      ∃ above below, text = above ++ line ++ below ∧ ∀ c ∈ below.head?, c = '\n') :
    ∃ pairs : List (String × List Char), lines.length = pairs.length ∧
      (lines.flatMap (found sdcDetailRe)).length = pairs.length ∧
      (lines.flatMap (found sdcDetailRe)).flatMap (found hashRe ·.toList) = pairs.map (·.1) ∧
      (lines.flatMap (found sdcDetailRe)).flatMap (found (outcomeRe decimal) ·.toList) =
        pairs.map (·.2) ∧
      (∀ detail ∈ lines.flatMap (found sdcDetailRe), '\n' ∉ detail.toList) ∧
      ∀ pair ∈ pairs, Recorded decimal text pair.1 (decimalNumber decimal pair.2) := by
  induction lines with
  | nil => exact ⟨[], rfl, rfl, rfl, rfl, nofun, nofun⟩
  | cons line lines ih =>
    obtain ⟨pairs, size, length, hashes, outcomes, plain, all⟩ :=
      ih fun line mem => each line (List.mem_cons_of_mem _ mem)
    obtain ⟨⟨before, hash, d, after, rfl, record⟩, above, below, within, ends⟩ :=
      each _ List.mem_cons_self
    have detail := record.found_detail
    refine ⟨(String.ofList hash, [d]) :: pairs, congrArg (· + 1) size, ?_, ?_, ?_, ?_, ?_⟩
    · rw [List.flatMap_cons, detail, List.length_append, length]
      simp [Nat.add_comm]
    · rw [List.flatMap_cons, detail, List.flatMap_append, hashes, List.flatMap_singleton,
        String.toList_ofList, record.found_hash]
      rfl
    · rw [List.flatMap_cons, detail, List.flatMap_append, outcomes, List.flatMap_singleton,
        String.toList_ofList, record.found_outcome digits]
      rfl
    · rw [List.flatMap_cons, detail]
      intro text mem
      rcases List.mem_append.mp mem with here | later
      · rw [List.mem_singleton.mp here, String.toList_ofList]
        exact record.no_newline
      · exact plain text later
    · intro pair mem
      rcases List.mem_cons.mp mem with rfl | later
      · refine ⟨above ++ before, [d], after ++ below, ?_, ?_, ?_, List.cons_ne_nil d [], ?_, ?_,
          rfl⟩
        · simp [within]
        · rw [String.toList_ofList]
          exact record.nonempty
        · rw [String.toList_ofList]
          exact record.hex
        · intro c hc
          rw [List.mem_singleton.mp hc, digits.ascii record.digit]
          rfl
        · intro c hc
          cases after with
          | nil =>
            rw [ends c hc]
            exact digits.newline
          | cons c' after => exact record.complete c hc
      · exact all pair later

theorem found_intercalate (h : LineLocal p) {ls : List (List Char)} (plain : ∀ l ∈ ls, '\n' ∉ l) :
    found p (['\n'].intercalate ls) = ls.flatMap (found p) := by
  cases ls with
  | nil => exact found_nil h
  | cons l ls =>
    rw [found_lines h, List.splitOn_intercalate '\n' plain (List.cons_ne_nil l ls)]

theorem findAll_details (h : LineLocal p) {details : List String}
    (plain : ∀ detail ∈ details, '\n' ∉ detail.toList) :
    findAll p ("\n".intercalate details) = details.flatMap (found p ·.toList) := by
  have newline : "\n".toList = ['\n'] := rfl
  rw [findAll_eq, String.toList_intercalate, newline, found_intercalate h, List.flatMap_map]
  intro l hl
  obtain ⟨detail, mem, rfl⟩ := List.mem_map.mp hl
  exact plain detail mem

/-! ## The count of the hits -/

/-- A line with a number that is counted as a hit. -/
def Counted (decimal : Char → Option Nat) (line : List Char) : Prop :=
  ∃ o ∈ found (failedRe decimal) line, o = ['2'] ∨ o = ['3'] ∨ o = ['4']

theorem sdcHits_pos (digits : Digits decimal) (text : String) :
    0 < (parseLog decimal text).sdcHits ↔
      ∃ line ∈ text.toList.splitOn '\n', Counted decimal line := by
  unfold parseLog Counted
  dsimp only
  rw [List.countP_pos_iff, findAll_eq, found_lines (failedRe_local digits)]
  simp only [List.mem_flatMap, Bool.or_eq_true, beq_iff_eq, or_assoc]
  constructor
  · rintro ⟨o, ⟨line, listed, mem⟩, counted⟩
    exact ⟨line, listed, o, mem, counted⟩
  · rintro ⟨line, listed, o, mem, counted⟩
    exact ⟨o, ⟨line, listed, mem⟩, counted⟩

/-- A number that is counted is one of a line with a detail. -/
theorem Counted.sdcLine (digits : Digits decimal) {line : List Char} (h : Counted decimal line) :
    line.tails.any (fun s => (sdcDetailRe s).isSome) = true := by
  obtain ⟨o, mem, counted⟩ := h
  obtain ⟨s, rest, hs, matched⟩ := mem_found (failedRe_local digits) mem
  rw [failedRe_eq] at matched
  obtain ⟨⟨hash, tail⟩, begins, here⟩ := Option.bind_eq_some_iff.mp matched
  obtain ⟨u, v, rfl, plain, ends⟩ := restOfLine_eq_some here
  obtain ⟨number, word, taken⟩ := Option.bind_eq_some_iff.mp ends
  obtain ⟨first, -, -⟩ := many_eq_some taken
  have detail : (detailEnd v).isSome = true := by
    rw [detailEnd, word, Option.bind_some]
    cases number with
    | nil => rcases counted with rfl | rfl | rfl <;> cases first
    | cons c number =>
      have same : c = '2' ∨ c = '3' ∨ c = '4' := by
        rw [List.takeWhile_cons] at first
        split at first
        · rcases counted with rfl | rfl | rfl
          · exact .inl (List.cons.inj first).1.symm
          · exact .inr (.inl (List.cons.inj first).1.symm)
          · exact .inr (.inr (List.cons.inj first).1.symm)
        · rcases counted with rfl | rfl | rfl <;> cases first
      rw [mismatch, if_pos same]
      rfl
  obtain ⟨found, last⟩ := Option.isSome_iff_exists.mp (restOfLine_isSome plain detail)
  rw [List.any_eq_true]
  refine ⟨s, (List.mem_tails s line).mpr hs, ?_⟩
  rw [sdcDetailRe_eq]
  dsimp only
  rw [begins, Option.bind_some]
  dsimp only
  rw [last]
  rfl

/-! ## The report -/

/-- What `parse_log` gives, as a `hw_*.json`. -/
def hwJson (decimal : Char → Option Nat) (text : String) (device : Option String) : HwJson :=
  .scan (parseLog decimal text).sdcHits (parseLog decimal text).sdcDetails device

variable {env : Environment}

/-- The hits of one file. -/
def hitsOf (env : Environment) : String × HwJson → List Hit := fun (file, json) =>
  extractHits { env with hwFiles := [(file, json)] }

theorem extractHits_eq : extractHits env = env.hwFiles.flatMap (hitsOf env) := by
  unfold hitsOf extractHits
  simp only [List.flatMap_singleton]

theorem hitsOf_file {entry : String × HwJson} {hit : Hit} (mem : hit ∈ hitsOf env entry) :
    hit.file = entry.1 := by
  obtain ⟨file, json⟩ := entry
  cases json with
  | rows rows =>
    simp only [hitsOf, extractHits, List.flatMap_singleton, List.mem_filterMap] at mem
    obtain ⟨row, _, made⟩ := mem
    split at made
    · rw [← Option.some.inj made]
    · cases made
  | scan sdcHits sdcDetails device =>
    simp only [hitsOf, extractHits, List.flatMap_singleton] at mem
    split at mem
    · rw [List.mem_singleton.mp mem]
    · cases mem
  | other => cases mem

theorem map_mapIdx_eq {β γ : Type} {f : Nat → α → β} {g : β → γ} {h : α → γ}
    (same : ∀ i a, g (f i a) = h a) (l : List α) : (l.mapIdx f).map g = l.map h := by
  apply List.ext_getElem?
  intro i
  rw [List.getElem?_map, List.getElem?_mapIdx, List.getElem?_map, Option.map_map]
  congr 1
  funext a
  exact same i a

theorem pairs_of_file (hit : Hit) (file : String) :
    (((hit.pairs.map (hit, ·)).map fun x => (x.1.file, x.2)).filter fun x => x.1 = file).map (·.2) =
      if hit.file = file then hit.pairs else [] := by
  induction hit.pairs with
  | nil => simp
  | cons pair pairs ih =>
    rw [List.map_cons, List.map_cons, List.filter_cons]
    by_cases same : hit.file = file
    · rw [if_pos same] at ih
      rw [if_pos (decide_eq_true same), if_pos same, List.map_cons, ih]
    · rw [if_neg same] at ih
      rw [if_neg (by simpa using same), if_neg same, ih]

/-- The report lists the pairs of the file's hits. -/
theorem listedFor_report (hits : List Hit) (file : String) :
    listedFor (buildFeedbackReport env hits) file =
      (hits.filter fun hit => hit.file = file).flatMap Hit.pairs := by
  have items : (buildFeedbackReport env hits).map
      (fun item => (item.source, item.hash, item.outcome)) =
      (hits.flatMap fun hit => hit.pairs.map (hit, ·)).map fun x => (x.1.file, x.2) :=
    @map_mapIdx_eq (Hit × Option String × Option Nat) Item _
      (fun number x => buildItem env number x.1 x.2) _ (fun x => (x.1.file, x.2)) (fun _ _ => rfl) _
  have listed : listedFor (buildFeedbackReport env hits) file =
      (((buildFeedbackReport env hits).map
        fun item => (item.source, item.hash, item.outcome)).filter
          fun x => x.1 = file).map (·.2) := by
    rw [List.filter_map, List.map_map]
    rfl
  rw [listed, items]
  clear listed items
  induction hits with
  | nil => rfl
  | cons hit hits ih =>
    rw [List.flatMap_cons, List.map_append, List.filter_append, List.map_append, List.filter_cons,
      ih, pairs_of_file]
    by_cases same : hit.file = file
    · rw [if_pos same, if_pos (decide_eq_true same), List.flatMap_cons]
    · rw [if_neg same, if_neg (by simpa using same), List.nil_append]

/-- A file's hits, when no other file has its name. -/
theorem filter_hits {before after : List (String × HwJson)} {entry : String × HwJson}
    (files : env.hwFiles = before ++ entry :: after)
    (alone : ∀ other ∈ before ++ after, other.1 ≠ entry.1) :
    (extractHits env).filter (fun hit => hit.file = entry.1) = hitsOf env entry := by
  have dropped {others : List (String × HwJson)} (differ : ∀ other ∈ others, other.1 ≠ entry.1) :
      (others.flatMap (hitsOf env)).filter (fun hit => hit.file = entry.1) = [] := by
    rw [List.filter_eq_nil_iff]
    intro hit mem
    obtain ⟨other, listed, mem⟩ := List.mem_flatMap.mp mem
    simpa [hitsOf_file mem] using differ other listed
  rw [extractHits_eq, files, List.flatMap_append, List.flatMap_cons, List.filter_append,
    List.filter_append, dropped fun other mem => alone other (List.mem_append_left _ mem),
    dropped fun other mem => alone other (List.mem_append_right _ mem), List.append_nil,
    List.nil_append, List.filter_eq_self]
  intro hit mem
  rw [hitsOf_file mem, decide_eq_true_eq]

/-- Each of the first ten lines with a detail has one failure, and some line counts as a hit. -/
structure OneFailureLines (decimal : Char → Option Nat) (text : String) : Prop where
  single : ∀ line ∈ (sdcLines text.toList).take 10, SingleRecord decimal line
  counted : sdcLines text.toList ≠ [] → ∃ line ∈ text.toList.splitOn '\n', Counted decimal line

theorem sdcDetails_eq {text : String} (h : OneFailureLines decimal text) :
    (parseLog decimal text).sdcDetails =
      ((sdcLines text.toList).take 10).flatMap (found sdcDetailRe) := by
  unfold parseLog
  dsimp only
  rw [findAll_eq, found_sdcLines]
  apply take_flatMap
  intro line mem
  obtain ⟨before, hash, d, after, rfl, record⟩ := h.single line mem
  rw [record.found_detail]
  rfl

/-- The hits counted are those of lines with a detail. -/
theorem sdcHits_pos_iff {text : String} (digits : Digits decimal)
    (h : OneFailureLines decimal text) :
    0 < (parseLog decimal text).sdcHits ↔ sdcLines text.toList ≠ [] := by
  rw [sdcHits_pos digits]
  refine ⟨?_, h.counted⟩
  rintro ⟨line, listed, counted⟩ empty
  have mem : line ∈ sdcLines text.toList := List.mem_filter.mpr ⟨listed, counted.sdcLine digits⟩
  rw [empty] at mem
  cases mem

theorem hitPairs_eq {hit : Hit} {pairs : List (String × List Char)} (some : pairs ≠ [])
    (hashes : hit.hashes = pairs.map (·.1))
    (outcomes : hit.outcomes = (pairs.map (·.2)).map (decimalNumber decimal)) :
    hit.pairs = pairs.map fun pair => (.some pair.1, .some (decimalNumber decimal pair.2)) := by
  have zipped : hit.hashes.zip hit.outcomes =
      pairs.map fun pair => (pair.1, decimalNumber decimal pair.2) := by
    rw [hashes, outcomes, List.map_map, List.zip_map']
    rfl
  unfold Hit.pairs
  rw [zipped]
  split
  · next empty => exact absurd (List.map_eq_nil_iff.mp empty) some
  · rw [List.map_map]
    rfl

/-- **A report lists the failures of a log, one for each retained detail**, when each line with a
detail has one failure. -/
theorem listed_faithful {text file : String} {device : Option String}
    {before after : List (String × HwJson)} (digits : Digits env.decimal)
    (files : env.hwFiles = before ++ (file, hwJson env.decimal text device) :: after)
    (alone : ∀ other ∈ before ++ after, other.1 ≠ file)
    (lines : OneFailureLines env.decimal text) :
    Faithful env.decimal text (listedFor (buildFeedbackReport env (extractHits env)) file) := by
  have details := sdcDetails_eq lines
  have hits := sdcHits_pos_iff digits lines
  rw [listedFor_report, filter_hits files alone]
  by_cases empty : sdcLines text.toList = []
  · have none : hitsOf env (file, hwJson env.decimal text device) = [] := by
      simp only [hitsOf, extractHits, hwJson, List.flatMap_singleton]
      rw [if_neg]
      intro positive
      exact hits.mp (Int.natCast_pos.mp positive) empty
    rw [none]
    refine ⟨nofun, ?_⟩
    rw [details, empty]
    rfl
  · have each : ∀ line ∈ (sdcLines text.toList).take 10, SingleRecord env.decimal line ∧
        ∃ above below, text.toList = above ++ line ++ below ∧ ∀ c ∈ below.head?, c = '\n' := by
      intro line mem
      have listed := (List.mem_filter.mp (List.mem_of_mem_take mem)).1
      exact ⟨lines.single line mem, (mem_lines listed).2⟩
    obtain ⟨pairs, size, length, hashes, outcomes, plain, all⟩ := lists_recorded digits each
    rw [← details] at length hashes outcomes plain
    have some : pairs ≠ [] := by
      rintro rfl
      rw [List.length_nil, List.length_eq_zero_iff, List.take_eq_nil_iff] at size
      exact size.elim nofun empty
    have one : hitsOf env (file, hwJson env.decimal text device) =
        [⟨file, device, none, (parseLog env.decimal text).sdcHits, pairs.map (·.1),
          (pairs.map (·.2)).map (decimalNumber env.decimal)⟩] := by
      simp only [hitsOf, extractHits, hwJson, List.flatMap_singleton]
      rw [if_pos (Int.natCast_pos.mpr (hits.mpr empty)), findAll_details hashRe_local plain,
        findAll_details (outcomeRe_local digits) plain, hashes, outcomes]
    rw [one, List.flatMap_singleton, hitPairs_eq some rfl rfl]
    refine ⟨?_, ?_⟩
    · intro listed mem
      obtain ⟨pair, inside, rfl⟩ := List.mem_map.mp mem
      exact ⟨pair.1, decimalNumber env.decimal pair.2, rfl, all pair inside⟩
    · rw [List.length_map, ← length]

/-- The scan of one log, and no other file. -/
def oneLog (text : String) : Environment where
  hwFiles := [("hw_1.json", hwJson asciiDecimal text none)]
  pbFiles := []
  decimal := asciiDecimal
  print _ := none
  getInstructions _ _ := none
  generateCorpus _ _ := none
  runner _ _ := none

theorem asciiDecimal_digits : Digits asciiDecimal where
  ascii h := if_pos h
  newline := rfl

/-- Two failures, with another line between them. -/
def twoLines : String :=
  "Snapshot [a0] failed, outcome = 3\nrunning\nSnapshot [b1c] failed, outcome = 2"

def firstLine : List Char := "Snapshot [a0] failed, outcome = 3".toList

def secondLine : List Char := "Snapshot [b1c] failed, outcome = 2".toList

theorem single_record {line hash : List Char} {digit : Char}
    (record : line = [] ++ (recordText hash [digit] ++ [])) (some : hash ≠ [])
    (hex : hash.all hexDigit = true) (outcome : digit = '2' ∨ digit = '3' ∨ digit = '4') :
    SingleRecord asciiDecimal line := by
  refine ⟨[], hash, digit, [], record, some, List.all_eq_true.mp hex, outcome, nofun, nofun, ?_⟩
  intro s hs
  rw [List.eq_nil_of_suffix_nil hs]
  rfl

theorem listed_faithful_line : Faithful asciiDecimal twoLines
    (listedFor (buildFeedbackReport (oneLog twoLines) (extractHits (oneLog twoLines)))
      "hw_1.json") := by
  have lines : sdcLines twoLines.toList = [firstLine, secondLine] := by decide +kernel
  refine @listed_faithful (oneLog twoLines) _ _ none [] [] asciiDecimal_digits rfl nofun ⟨?_, ?_⟩
  · change ∀ l ∈ (sdcLines twoLines.toList).take 10, _
    rw [lines]
    intro l mem
    rcases List.mem_cons.mp mem with rfl | mem
    · exact @single_record _ ['a', '0'] _ (by decide +kernel) (List.cons_ne_nil _ _)
        (by decide +kernel) (.inr (.inl rfl))
    · rw [List.mem_singleton.mp mem]
      exact @single_record _ ['b', '1', 'c'] _ (by decide +kernel) (List.cons_ne_nil _ _)
        (by decide +kernel) (.inl rfl)
  · intro _
    exact ⟨firstLine, by decide +kernel, ['3'], by decide +kernel, .inr (.inl rfl)⟩

/-- Two failures on a line are one detail, and two pairs. -/
theorem listed_shared_line :
    ¬ Faithful asciiDecimal "Snapshot [aa] failed, outcome = 2 Snapshot [bb] failed, outcome = 3"
      (listedFor (buildFeedbackReport
        (oneLog "Snapshot [aa] failed, outcome = 2 Snapshot [bb] failed, outcome = 3")
        (extractHits (oneLog
          "Snapshot [aa] failed, outcome = 2 Snapshot [bb] failed, outcome = 3"))) "hw_1.json") := by
  intro faithful
  exact absurd faithful.count (by decide +kernel)

end Silifuzz.SdcExperiment
