import Silifuzz.Library.Images
import Silifuzz.Library.Cursors
import Silifuzz.Util.Atoi
import Mathlib.Data.List.Forall2

/-!
# Parsing of /proc maps

`ParseProcMaps` of `util/proc_maps_parser.cc`, with each character that it reads and each byte
that it writes checked to be in the text and in the array of entries.
-/

namespace Silifuzz

namespace ProcMaps

open Atoi Cursors

/-- How a run ends early. -/
inductive Fault where
  | check
  /-- A place that is neither in the text nor in the entries. -/
  | outside
  deriving DecidableEq, Repr

abbrev Parse := Except Fault

def check (condition : Bool) : Parse Unit := if condition then .ok () else .error .check

/-- `CHECK_NE(p, nullptr)` -/
def checkFound : Option Nat → Parse Nat
  | some p => .ok p
  | none => .error .check

/-- `char name[128]` -/
structure Field where
  bytes : List Char8
  size : bytes.length = 128

/-- `memcpy` into a field. -/
def Field.write (field : Field) (offset : Nat) (data : List Char8) : Parse Field :=
  if fits : offset + data.length ≤ field.bytes.length then
    .ok ⟨Buffers.write field.bytes offset data, (Buffers.length_write fits).trans field.size⟩
  else .error .outside

/-- The C string in a field. -/
def Field.cString (field : Field) : List Char8 := field.bytes.takeWhile (· ≠ 0)

structure ProcMapsEntry where
  startAddress : BitVec 64
  limitAddress : BitVec 64
  name : Field

/-! ## The code -/

def skipWhile (maps : List Char8) (pred : Char8 → Bool) (begin' end' : Nat) :
    Parse (Option Nat) :=
  scan .outside maps pred (end' - begin') begin'

def isXDigit (c : Char8) : Bool :=
  0x30 ≤ c && c ≤ 0x39 || 0x61 ≤ c && c ≤ 0x66 || 0x41 ≤ c && c ≤ 0x46

/-- The loop of `StrToU64`; none is the result false. -/
def digitsAt (maps : List Char8) (base : Nat) : Nat → Nat → Nat → Parse (Option Nat)
  | 0, _, value => .ok (some value)
  | len + 1, str, value => do
    let c ← charAt .outside maps str
    if c = 0 then return some value
    let digit := digitValue base c
    let limitValue := (2 ^ 64 - 1) / base
    let limitDigit := (2 ^ 64 - 1) % base
    if digit < 0 then return none
    else if limitValue < value ∨ value = limitValue ∧ limitDigit < digit.toNat then return none
    else digitsAt maps base len (str + 1) ((value * base + digit.toNat) % 2 ^ 64)

def strToU64At (maps : List Char8) (base str len : Nat) : Parse (Option Nat) := do
  if (← charAt .outside maps str) = 0 then return none
  digitsAt maps base len str 0

/-- `str[0] == '0' && (str[1] == 'x' || str[1] == 'X')` -/
def prefixAt (maps : List Char8) (str : Nat) : Parse Bool := do
  if (← charAt .outside maps str) = 0x30 then
    let c ← charAt .outside maps (str + 1)
    return c == 0x78 || c == 0x58
  else return false

def hexToU64At (maps : List Char8) (str len : Nat) : Parse (Option Nat) := do
  if ← prefixAt maps str then strToU64At maps 16 (str + 2) ((len + (2 ^ 64 - 2)) % 2 ^ 64)
  else strToU64At maps 16 str len

/-- A turn of the loop over the columns. -/
def skipColumn (maps : List Char8) (p endOfLine : Nat) : Parse (Option Nat) := do
  match ← skipWhile maps (· ≠ 0x20) (p + 1) endOfLine with
  | some p => skipWhile maps (· = 0x20) (p + 1) endOfLine
  | none => return none

def skipColumns (maps : List Char8) (endOfLine : Nat) : Nat → Option Nat → Parse (Option Nat)
  | n + 1, some p => do skipColumns maps endOfLine n (← skipColumn maps p endOfLine)
  | _, p => return p

/-- `memcpy` out of the text. -/
def copyFrom (maps : List Char8) (p n : Nat) : Parse (List Char8) :=
  if p + n ≤ maps.length then .ok ((maps.drop p).take n) else .error .outside

def parseName (maps : List Char8) (p : Option Nat) (endOfLine : Nat) (name : Field) :
    Parse Field := do
  let name ← name.write 0 [0]
  match p with
  | some p =>
    let numBytes := min (128 - 1) (endOfLine - p)
    let name ← name.write 0 (← copyFrom maps p numBytes)
    name.write numBytes [0]
  | none => return name

/-- A turn of the loop over the lines, with the entry that it stores and the next line. -/
def parseLine (maps : List Char8) (ptr : Nat) (entry : ProcMapsEntry) :
    Parse (ProcMapsEntry × Nat) := do
  let endOfLine ← checkFound (← skipWhile maps (· ≠ 0x0a) ptr maps.length)
  let hex1End ← checkFound (← skipWhile maps isXDigit ptr endOfLine)
  check ((← charAt .outside maps hex1End) = 0x2d)
  let hex2Begin := hex1End + 1
  let hex2End ← checkFound (← skipWhile maps isXDigit hex2Begin endOfLine)
  let conversion1 ← hexToU64At maps ptr (hex1End - ptr)
  let conversion2 ← hexToU64At maps hex2Begin (hex2End - hex2Begin)
  match conversion1, conversion2 with
  | some start, some limit =>
    let p ← skipColumns maps endOfLine 4 (some hex2End)
    let name ← parseName maps p endOfLine entry.name
    return (⟨BitVec.ofNat 64 start, BitVec.ofNat 64 limit, name⟩, endOfLine + 1)
  | _, _ => .error .check

/-- The loop, with room for so many more entries. -/
def parseLoop (maps : List Char8) : Nat → Nat → Nat → List ProcMapsEntry →
    Parse (Nat × List ProcMapsEntry)
  | 0, _, numEntries, entries => .ok (numEntries, entries)
  | room + 1, ptr, numEntries, entries =>
    if ptr < maps.length then do
      match entries[numEntries]? with
      | some entry =>
        let (entry, next) ← parseLine maps ptr entry
        parseLoop maps room next (numEntries + 1) (entries.set numEntries entry)
      | none => .error .outside
    else .ok (numEntries, entries)

/-- What it returns, and the array after it. -/
def parseProcMaps (maps : List Char8) (entries : List ProcMapsEntry) (maxProcMapsEntries : Nat) :
    Parse (Nat × List ProcMapsEntry) :=
  parseLoop maps maxProcMapsEntries 0 0 entries

/-! ## The text of the kernel -/

/-- A column has characters, but neither a blank nor the end of a line. -/
structure Column where
  chars : List Char8
  nonempty : chars ≠ []
  plain : ∀ c ∈ chars, c ≠ 0x20 ∧ c ≠ 0x0a

/-- `n + 1` blanks -/
def blanks (n : Nat) : List Char8 := List.replicate (n + 1) 0x20

/-- A line. As the kernel writes it, one blank is behind the range; there may be more of them
elsewhere, and also at the end of a line without a name. -/
structure MapsLine where
  startText : List Char8
  start : BitVec 64
  isStart : denoted 16 startText = some start.toNat
  limitText : List Char8
  limit : BitVec 64
  isLimit : denoted 16 limitText = some limit.toNat
  perms : Column
  offset : Column
  dev : Column
  inode : Column
  /-- How many blanks there are more than one. -/
  afterPerms : Nat
  afterOffset : Nat
  afterDev : Nat
  padding : List Char8
  isPadding : ∀ c ∈ padding, c = 0x20
  name : List Char8
  apart : name ≠ [] → padding ≠ []
  named : ∀ c ∈ name, c ≠ 0x0a ∧ c ≠ 0
  begins : name.head? ≠ some 0x20

namespace MapsLine

variable (line : MapsLine)

def range : List Char8 := line.startText ++ 0x2d :: line.limitText

def columns : List Char8 :=
  line.perms.chars ++ blanks line.afterPerms ++ (line.offset.chars ++ blanks line.afterOffset ++
    (line.dev.chars ++ blanks line.afterDev ++ line.inode.chars))

/-- The line without its end. -/
def body : List Char8 := line.range ++ 0x20 :: line.columns ++ (line.padding ++ line.name)

def chars : List Char8 := line.body ++ [0x0a]

end MapsLine

def fileText (lines : List MapsLine) : List Char8 := (lines.map MapsLine.chars).flatten

/-- The entry says what the line says. -/
structure Records (line : MapsLine) (entry : ProcMapsEntry) : Prop where
  start : entry.startAddress = line.start
  limit : entry.limitAddress = line.limit
  name : entry.name.cString = line.name.take 127

/-! ## Numbers -/

variable {maps : List Char8} {i : Nat}

theorem isXDigit_iff (c : Char8) : isXDigit c = true ↔ 0 ≤ digitValue 16 c := by
  unfold isXDigit digitValue
  simp only [Bool.or_eq_true, Bool.and_eq_true, decide_eq_true_eq, BitVec.le_def]
  simp
  split_ifs <;> omega

/-- What is no digit: the end of a string, the prefixes, and what is between numbers. -/
theorem ne_of_isXDigit {c : Char8} (digit : isXDigit c = true) :
    c ≠ 0 ∧ c ≠ 0x78 ∧ c ≠ 0x58 ∧ c ≠ 0x0a := by
  refine ⟨?_, ?_, ?_, ?_⟩ <;> (rintro rfl; cases digit)

theorem foldlM_digits {str : List Char8} {value number : Nat}
    (run : str.foldlM (addDigit 16) value = some number) : ∀ c ∈ str, isXDigit c = true := by
  induction str generalizing value with
  | nil => simp
  | cons c str ih =>
    obtain ⟨next, step, rest⟩ := Option.bind_eq_some_iff.mp run
    rw [List.forall_mem_cons]
    refine ⟨?_, ih rest⟩
    rw [isXDigit_iff]
    by_contra negative
    have none : addDigit 16 value c = none := if_neg negative
    rw [none] at step
    cases step

theorem denoted_digits {str : List Char8} {number : Nat} (denotes : denoted 16 str = some number) :
    str ≠ [] ∧ ∀ c ∈ str, isXDigit c = true := by
  unfold denoted at denotes
  split at denotes
  · cases denotes
  · next some =>
    rw [List.isEmpty_iff] at some
    exact ⟨some, foldlM_digits (Option.filter_eq_some_iff.mp denotes).1⟩

/-- The loop reads the digits and nothing else. -/
theorem digitsAt_eq {str : List Char8} (sees : Sees maps i str)
    (digits : ∀ c ∈ str, isXDigit c = true) (value : Nat) :
    digitsAt maps 16 str.length i value = .ok (digitsFrom 16 value str str.length) := by
  induction str generalizing i value with
  | nil => rfl
  | cons c str ih =>
    obtain ⟨digit, digits⟩ := List.forall_mem_cons.mp digits
    rw [List.length_cons, digitsAt, charAt_sees _ sees, digitsFrom]
    change (if c = 0 then _ else _) = _
    rw [if_neg (ne_of_isXDigit digit).1]
    split
    · rfl
    · split
      · rfl
      · exact ih (sees_cons.mp sees).2 digits _

theorem prefixAt_false {str : List Char8} {c : Char8} (sees : Sees maps i (str ++ [c]))
    (some : str ≠ []) (digits : ∀ c ∈ str, isXDigit c = true)
    (plain : c ≠ 0x78 ∧ c ≠ 0x58) : prefixAt maps i = .ok false := by
  have second : ∃ d, charAt Fault.outside maps (i + 1) = .ok d ∧ d ≠ 0x78 ∧ d ≠ 0x58 := by
    match str with
    | [_] => exact ⟨c, charAt_sees _ (sees_cons.mp sees).2, plain⟩
    | _ :: d :: _ =>
      have digit := ne_of_isXDigit (digits d (by simp))
      exact ⟨d, charAt_sees _ (sees_cons.mp sees).2, digit.2.1, digit.2.2.1⟩
  obtain ⟨d, found, small, big⟩ := second
  cases str with
  | nil => exact absurd rfl some
  | cons first str =>
    rw [prefixAt, charAt_sees _ sees]
    change (if first = 0x30 then _ else _) = _
    split
    · rw [found]
      change Except.ok (d == 0x78 || d == 0x58) = _
      rw [beq_eq_false_iff_ne.mpr small, beq_eq_false_iff_ne.mpr big]
      rfl
    · rfl

/-- `HexToU64` reads the number that the text is up to `c`. -/
theorem hexToU64At_eq {str : List Char8} {c : Char8} {number : Nat}
    (sees : Sees maps i (str ++ [c])) (denotes : denoted 16 str = some number)
    (plain : c ≠ 0x78 ∧ c ≠ 0x58) : hexToU64At maps i str.length = .ok (some number) := by
  obtain ⟨some, digits⟩ := denoted_digits denotes
  have front := (sees_append.mp sees).1
  have value : digitsFrom 16 0 str str.length = Option.some number := by
    rw [digitsFrom_eq (by decide) _ _ _ (by decide), List.take_length, ← denotes, denoted, if_neg]
    rwa [List.isEmpty_iff]
  rw [hexToU64At, prefixAt_false sees some digits plain]
  change strToU64At maps 16 i str.length = _
  have loop := digitsAt_eq front digits 0
  cases str with
  | nil => exact absurd rfl some
  | cons first str =>
    rw [strToU64At, charAt_sees _ front]
    change (if first = 0 then _ else _) = _
    rw [if_neg (ne_of_isXDigit (digits first List.mem_cons_self)).1, loop, value]

/-! ## Columns -/

/-- What is left of a line at `p`. -/
structure Left (maps : List Char8) (p endOfLine : Nat) (l : List Char8) : Prop where
  sees : Sees maps p l
  ends : endOfLine = p + l.length

variable {p endOfLine : Nat} {a b : List Char8} {c d : Char8} {pred : Char8 → Bool}

theorem Left.skip (left : Left maps p endOfLine (a ++ b)) :
    Left maps (p + a.length) endOfLine b := by
  constructor
  · exact (sees_append.mp left.sees).2
  · rw [left.ends, List.length_append, Nat.add_assoc]

theorem skipWhile_stops (left : Left maps p endOfLine (a ++ c :: b))
    (run : ∀ x ∈ a, pred x = true) (stop : pred c = false) :
    skipWhile maps pred p endOfLine = .ok (some (p + a.length)) := by
  have sees : Sees maps p (a ++ [c]) := by
    have whole := left.sees
    rw [List.append_cons] at whole
    exact (sees_append.mp whole).1
  apply scan_stops _ sees run stop
  rw [left.ends, List.length_append, List.length_cons]
  omega

theorem skipWhile_passes (left : Left maps p endOfLine a) (run : ∀ x ∈ a, pred x = true) :
    skipWhile maps pred p endOfLine = .ok none := by
  apply scan_passes _ left.sees run
  rw [left.ends, Nat.add_sub_cancel_left]

@[simp] theorem ok_bind {α β : Type} (x : α) (f : α → Parse β) :
    (Except.ok x : Parse α) >>= f = f x := rfl

theorem skipColumn_next {n : Nat}
    (left : Left maps p endOfLine (c :: (a ++ (blanks n ++ d :: b)))) (plain : ∀ x ∈ a, x ≠ 0x20)
    (other : d ≠ 0x20) : ∃ q, skipColumn maps p endOfLine = .ok (some q) ∧
      Left maps q endOfLine (d :: b) := by
  have column : Left maps (p + 1) endOfLine (a ++ 0x20 :: (List.replicate n 0x20 ++ d :: b)) :=
    left.skip (a := [c])
  have gap : Left maps (p + 1 + a.length + 1) endOfLine (List.replicate n 0x20 ++ d :: b) :=
    column.skip.skip (a := [0x20])
  refine ⟨_, ?_, gap.skip⟩
  rw [skipColumn, skipWhile_stops column (by simpa using plain) (by decide)]
  exact skipWhile_stops gap (by simp) (by simpa using other)

theorem skipColumn_last (left : Left maps p endOfLine (c :: a)) (plain : ∀ x ∈ a, x ≠ 0x20) :
    skipColumn maps p endOfLine = .ok none := by
  have column : Left maps (p + 1) endOfLine a := left.skip (a := [c])
  rw [skipColumn, skipWhile_passes column (by simpa using plain)]
  rfl

theorem skipColumn_trailing {n : Nat} (left : Left maps p endOfLine (c :: (a ++ blanks n)))
    (plain : ∀ x ∈ a, x ≠ 0x20) : skipColumn maps p endOfLine = .ok none := by
  have column : Left maps (p + 1) endOfLine (a ++ 0x20 :: List.replicate n 0x20) :=
    left.skip (a := [c])
  have gap : Left maps (p + 1 + a.length + 1) endOfLine (List.replicate n 0x20) :=
    column.skip.skip (a := [0x20])
  rw [skipColumn, skipWhile_stops column (by simpa using plain) (by decide)]
  exact skipWhile_passes gap (by simp)

theorem Column.exists_cons (column : Column) : ∃ first rest, column.chars = first :: rest ∧
    first ≠ 0x20 ∧ ∀ x ∈ rest, x ≠ 0x20 := by
  obtain ⟨chars, nonempty, plain⟩ := column
  cases chars with
  | nil => exact absurd rfl nonempty
  | cons first rest =>
    obtain ⟨plainFirst, plainRest⟩ := List.forall_mem_cons.mp plain
    exact ⟨first, rest, rfl, plainFirst.1, fun x inside => (plainRest x inside).1⟩

theorem exists_blanks {padding : List Char8} (isPadding : ∀ c ∈ padding, c = 0x20)
    (some : padding ≠ []) : ∃ n, padding = blanks n := by
  refine ⟨padding.length - 1, ?_⟩
  have length : padding.length - 1 + 1 = padding.length :=
    Nat.sub_add_cancel (List.length_pos_iff.mpr some)
  rw [blanks, length]
  exact List.eq_replicate_of_mem isPadding

/-- The four turns find the name, or that there is none. -/
theorem skipColumns_spec {line : MapsLine}
    (left : Left maps p endOfLine (0x20 :: line.columns ++ (line.padding ++ line.name))) :
    ∃ found, skipColumns maps endOfLine 4 (some p) = .ok found ∧
      match found with
      | some q => line.name ≠ [] ∧ Left maps q endOfLine line.name
      | none => line.name = [] := by
  obtain ⟨o, offset, offsetEq, o_other, offset_plain⟩ := line.offset.exists_cons
  obtain ⟨v, dev, devEq, v_other, dev_plain⟩ := line.dev.exists_cons
  obtain ⟨n, inode, inodeEq, n_other, inode_plain⟩ := line.inode.exists_cons
  unfold MapsLine.columns at left
  rw [offsetEq, devEq, inodeEq] at left
  simp only [List.cons_append, List.append_assoc] at left
  obtain ⟨q₁, turn₁, left⟩ := skipColumn_next left (fun x inside => (line.perms.plain x inside).1)
    o_other
  obtain ⟨q₂, turn₂, left⟩ := skipColumn_next left offset_plain v_other
  obtain ⟨q₃, turn₃, left⟩ := skipColumn_next left dev_plain n_other
  have turns : skipColumns maps endOfLine 4 (some p) =
      skipColumn maps q₃ endOfLine >>= skipColumns maps endOfLine 0 := by
    simp only [skipColumns, turn₁, turn₂, turn₃, ok_bind]
  rw [turns]
  by_cases named : line.name = []
  · have last : skipColumn maps q₃ endOfLine = .ok none := by
      rw [named, List.append_nil] at left
      by_cases padded : line.padding = []
      · rw [padded, List.append_nil] at left
        exact skipColumn_last left inode_plain
      · obtain ⟨k, eq⟩ := exists_blanks line.isPadding padded
        rw [eq] at left
        exact skipColumn_trailing left inode_plain
    exact ⟨none, by rw [last]; rfl, named⟩
  · obtain ⟨k, eq⟩ := exists_blanks line.isPadding (line.apart named)
    cases name : line.name with
    | nil => exact absurd name named
    | cons first rest =>
      have other : first ≠ 0x20 := by
        intro blank
        apply line.begins
        rw [name, blank]
        rfl
      rw [eq, name] at left
      obtain ⟨q, turn, found⟩ := skipColumn_next left inode_plain other
      exact ⟨some q, by rw [turn]; rfl, by simp, found⟩

/-! ## Names -/

theorem Field.write_ok (field : Field) {offset : Nat} {data : List Char8}
    (fits : offset + data.length ≤ 128) : ∃ written, field.write offset data = .ok written ∧
      written.bytes = Buffers.write field.bytes offset data := by
  have inside : offset + data.length ≤ field.bytes.length := by rwa [field.size]
  exact ⟨_, dif_pos inside, rfl⟩

/-- What is in front of a zero is the string. -/
theorem cString_of_bytes {field : Field} {data rest : List Char8}
    (bytes : field.bytes = data ++ 0 :: rest) (nonzero : ∀ c ∈ data, c ≠ 0) :
    field.cString = data := by
  rw [Field.cString, bytes, List.takeWhile_append_of_pos (by simpa using nonzero),
    List.takeWhile_cons_of_neg (by decide), List.append_nil]

theorem copyFrom_ok (left : Left maps p endOfLine a) (some : a ≠ []) {n : Nat}
    (few : n ≤ a.length) : copyFrom maps p n = .ok (a.take n) := by
  obtain ⟨rest, eq⟩ := left.sees
  have pos := List.length_pos_iff.mpr some
  have length := congrArg List.length eq
  rw [List.length_append, List.length_drop] at length
  rw [copyFrom, if_pos (by omega), ← eq, List.take_append_of_le_length few]

/-- The name is stored as far as it fits. -/
theorem parseName_spec {name : List Char8} {found : Option Nat} (field : Field)
    (nonzero : ∀ c ∈ name, c ≠ 0)
    (at' : match found with
      | some q => name ≠ [] ∧ Left maps q endOfLine name
      | none => name = []) :
    ∃ stored, parseName maps found endOfLine field = .ok stored ∧
      stored.cString = name.take 127 := by
  obtain ⟨cleared, clear, clearedBytes⟩ := @Field.write_ok field 0 [0] (Nat.le_add_left 1 127)
  cases found with
  | none =>
    refine ⟨cleared, ?_, ?_⟩
    · rw [parseName, clear]
      rfl
    · rw [at', List.take_nil]
      exact cString_of_bytes clearedBytes (by simp)
  | some q =>
    obtain ⟨some, left⟩ := at'
    have numBytes : min (128 - 1) (endOfLine - q) = min 127 name.length := by
      rw [left.ends, Nat.add_sub_cancel_left]
    have copy := copyFrom_ok left some (Nat.min_le_right 127 name.length)
    rw [← List.take_eq_take_min] at copy
    have length : (name.take 127).length = min 127 name.length := List.length_take
    obtain ⟨copied, write, copiedBytes⟩ :=
      @Field.write_ok cleared 0 (name.take 127) (by omega)
    obtain ⟨stored, finish, storedBytes⟩ :=
      @Field.write_ok copied (min 127 name.length) [0]
        (Nat.succ_le_succ (Nat.min_le_left 127 name.length))
    refine ⟨stored, ?_, ?_⟩
    · simp only [parseName, clear, ok_bind, numBytes, copy, write]
      exact finish
    · rw [← length, copiedBytes] at storedBytes
      have bytes : stored.bytes = name.take 127 ++ 0 ::
          (Buffers.write cleared.bytes 0 (name.take 127)).drop ((name.take 127).length + 1) := by
        rw [storedBytes]
        simp [Buffers.write]
      exact cString_of_bytes bytes fun c inside => nonzero c (List.mem_of_mem_take inside)

/-! ## Lines -/

namespace MapsLine

variable (line : MapsLine)

theorem body_eq : line.body = line.startText ++ 0x2d :: (line.limitText ++
    (0x20 :: line.columns ++ (line.padding ++ line.name))) := by
  simp [body, range]

theorem mem_columns {c : Char8} (inside : c ∈ line.columns) : c ≠ 0x0a := by
  simp only [columns, blanks, List.mem_append, List.mem_replicate] at inside
  rcases inside with (perms | ⟨-, rfl⟩) | (offset | ⟨-, rfl⟩) | (dev | ⟨-, rfl⟩) | inode
  · exact (line.perms.plain c perms).2
  · decide
  · exact (line.offset.plain c offset).2
  · decide
  · exact (line.dev.plain c dev).2
  · decide
  · exact (line.inode.plain c inode).2

/-- A line ends once. -/
theorem mem_body {c : Char8} (inside : c ∈ line.body) : c ≠ 0x0a := by
  rw [body_eq] at inside
  simp only [List.mem_append, List.mem_cons] at inside
  rcases inside with start | rfl | limit | (rfl | columns) | padding | name
  · exact (ne_of_isXDigit ((denoted_digits line.isStart).2 c start)).2.2.2
  · decide
  · exact (ne_of_isXDigit ((denoted_digits line.isLimit).2 c limit)).2.2.2
  · decide
  · exact line.mem_columns columns
  · rw [line.isPadding c padding]
    decide
  · exact (line.named c name).1

end MapsLine

theorem parseLine_spec {line : MapsLine} {ptr : Nat} {rest : List Char8} (entry : ProcMapsEntry)
    (left : Left maps ptr maps.length (line.chars ++ rest)) :
    ∃ stored, parseLine maps ptr entry = .ok (stored, ptr + line.chars.length) ∧
      Records line stored := by
  obtain ⟨e, ends⟩ : ∃ e, e = ptr + line.body.length := ⟨_, rfl⟩
  have next : ptr + line.chars.length = e + 1 := by
    rw [MapsLine.chars, List.length_append, ends]
    rfl
  rw [MapsLine.chars, List.append_assoc] at left
  have endOfLine : skipWhile maps (· ≠ 0x0a) ptr maps.length = .ok (some e) := by
    rw [ends]
    exact skipWhile_stops left (fun c inside => by simpa using line.mem_body inside) (by decide)
  have body : Left maps ptr e line.body := ⟨(sees_append.mp left.sees).1, ends⟩
  rw [line.body_eq] at body
  have hex1End := skipWhile_stops body (denoted_digits line.isStart).2 (by decide)
  have dash := charAt_sees Fault.outside body.skip.sees
  have limit : Left maps (ptr + line.startText.length + 1) e (line.limitText ++
      0x20 :: (line.columns ++ (line.padding ++ line.name))) := body.skip.skip (a := [0x2d])
  have hex2End := skipWhile_stops limit (denoted_digits line.isLimit).2 (by decide)
  have startSees := body.sees
  rw [List.append_cons] at startSees
  have conversion1 := hexToU64At_eq (sees_append.mp startSees).1 line.isStart (by decide)
  have limitSees := limit.sees
  rw [List.append_cons] at limitSees
  have conversion2 := hexToU64At_eq (sees_append.mp limitSees).1 line.isLimit (by decide)
  obtain ⟨found, columns, name⟩ := skipColumns_spec limit.skip
  obtain ⟨stored, parsed, cString⟩ :=
    parseName_spec entry.name (fun c inside => (line.named c inside).2) name
  refine ⟨⟨BitVec.ofNat 64 line.start.toNat, BitVec.ofNat 64 line.limit.toNat, stored⟩, ?_, ?_⟩
  · simp only [parseLine, endOfLine, checkFound, ok_bind, hex1End, dash, decide_true, check, if_true,
      hex2End, Nat.add_sub_cancel_left, conversion1, conversion2, columns, parsed, next]
    rfl
  · exact ⟨by simp, by simp, cString⟩

theorem fileText_cons (line : MapsLine) (lines : List MapsLine) :
    fileText (line :: lines) = line.chars ++ fileText lines := rfl

/-- The turns store the lines, as far as there is room, behind what is stored already. -/
theorem parseLoop_spec {lines : List MapsLine} {room ptr n : Nat} {entries : List ProcMapsEntry}
    (left : Left maps ptr maps.length (fileText lines)) (enough : n + room ≤ entries.length) :
    ∃ parsed, List.Forall₂ Records (lines.take room) parsed ∧
      parseLoop maps room ptr n entries = .ok (n + min lines.length room,
        entries.take n ++ parsed ++ entries.drop (n + min lines.length room)) := by
  induction room generalizing lines ptr n entries with
  | zero =>
    refine ⟨[], ?_, ?_⟩
    · rw [List.take_zero]
      exact .nil
    · simp [parseLoop]
  | succ room ih =>
    cases lines with
    | nil =>
      have last : ¬ ptr < maps.length := by
        rw [left.ends]
        exact Nat.lt_irrefl ptr
      exact ⟨[], .nil, by simp [parseLoop, last]⟩
    | cons line lines =>
      rw [fileText_cons] at left
      have inside : ptr < maps.length := by
        rw [left.ends, MapsLine.chars]
        simp only [List.length_append, List.length_singleton]
        omega
      have below : n < entries.length := by omega
      obtain ⟨stored, turn, records⟩ := parseLine_spec entries[n] left
      obtain ⟨parsed, rest, loop⟩ := @ih lines (ptr + line.chars.length) (n + 1) (entries.set n stored)
        left.skip (by rw [List.length_set]; omega)
      refine ⟨stored :: parsed, .cons records rest, ?_⟩
      rw [parseLoop, if_pos inside, List.getElem?_eq_getElem below]
      change parseLine maps ptr entries[n] >>= _ = _
      rw [turn, ok_bind]
      have count : n + 1 + min lines.length room = n + min (lines.length + 1) (room + 1) := by
        omega
      have front : (entries.set n stored).take (n + 1) = entries.take n ++ [stored] := by
        rw [List.take_add_one, List.take_set_of_le (Nat.le_refl n), List.getElem?_set_self below]
        rfl
      refine loop.trans ?_
      rw [front, count, List.length_cons, List.drop_set_of_lt (by omega), List.append_assoc _ [stored]]
      rfl

/-- **Each line is an entry, in order and as far as there is room**: no `CHECK` fails, nothing
outside of the text and the entries is touched, and the other entries stay. -/
theorem parseProcMaps_fileText (lines : List MapsLine) (entries : List ProcMapsEntry)
    {maxProcMapsEntries : Nat} (room : maxProcMapsEntries ≤ entries.length) :
    ∃ parsed, List.Forall₂ Records (lines.take maxProcMapsEntries) parsed ∧
      parseProcMaps (fileText lines) entries maxProcMapsEntries =
        .ok (min lines.length maxProcMapsEntries,
          parsed ++ entries.drop (min lines.length maxProcMapsEntries)) := by
  have left : Left (fileText lines) 0 (fileText lines).length (fileText lines) :=
    ⟨List.prefix_refl _, (Nat.zero_add _).symm⟩
  have enough : 0 + maxProcMapsEntries ≤ entries.length := by omega
  obtain ⟨parsed, records, loop⟩ := parseLoop_spec left enough
  refine ⟨parsed, records, ?_⟩
  rw [parseProcMaps, loop, Nat.zero_add, List.take_zero]
  rfl

/-- `7fff0000-7fff1000 r-xp 0 0:0 4  /a b` -/
def dataLine : MapsLine where
  startText := [0x37, 0x66, 0x66, 0x66, 0x30, 0x30, 0x30, 0x30]
  start := 0x7fff0000
  isStart := by decide
  limitText := [0x37, 0x66, 0x66, 0x66, 0x31, 0x30, 0x30, 0x30]
  limit := 0x7fff1000
  isLimit := by decide
  perms := ⟨[0x72, 0x2d, 0x78, 0x70], by decide, by decide⟩
  offset := ⟨[0x30], by decide, by decide⟩
  dev := ⟨[0x30, 0x3a, 0x30], by decide, by decide⟩
  inode := ⟨[0x34], by decide, by decide⟩
  afterPerms := 0
  afterOffset := 0
  afterDev := 0
  padding := [0x20, 0x20]
  isPadding := by decide
  name := [0x2f, 0x61, 0x20, 0x62]
  apart := by decide
  named := by decide
  begins := by decide

def emptyEntry : ProcMapsEntry := ⟨0, 0, ⟨List.replicate 128 0, List.length_replicate⟩⟩

theorem parseProcMaps_dataLine : ∃ parsed, List.Forall₂ Records [dataLine] parsed ∧
    parseProcMaps (fileText [dataLine]) [emptyEntry, emptyEntry] 2 =
      .ok (1, parsed ++ [emptyEntry]) :=
  parseProcMaps_fileText [dataLine] [emptyEntry, emptyEntry] (Nat.le_refl 2)

end ProcMaps

end Silifuzz
