import Mathlib.Data.List.Basic
import Mathlib.Data.Nat.Digits.Defs

/-!
# Text format

The text form of records: fields `name:value` after one another, where a value is a word,
a quoted string of bytes or a list of fields in braces. `parse` reads them, by a machine
for the characters, the grammar of single fields and a stack of open braces. Comments,
lists, adjacent strings and octal or Unicode escapes are not part of it.
-/

namespace TextFormat

abbrev Text := List Char
abbrev Byte := BitVec 8

inductive Token where
  | ident (word : Text)
  | colon
  | openBrace
  | closeBrace
  | string (value : List Byte)
  deriving DecidableEq

/-- Where the lexer is. -/
inductive LexState where
  | between
  | word (done : Text)
  | string (quote : Char) (done : List Byte)
  | escape (quote : Char) (done : List Byte)
  | hex (quote : Char) (done : List Byte)
  /-- After the first hexadecimal digit. -/
  | hexDigit (quote : Char) (done : List Byte) (digit : Nat)
  deriving DecidableEq

def isSpace (c : Char) : Bool := c = ' ' || c = '\n' || c = '\t' || c = '\r'

def isWordChar (c : Char) : Bool :=
  c.isAlphanum || c = '_' || c = '-' || c = '+' || c = '.'

def digitValue (c : Char) : Option Nat :=
  if '0' ≤ c ∧ c ≤ '9' then some (c.toNat - '0'.toNat)
  else if 'a' ≤ c ∧ c ≤ 'f' then some (c.toNat - 'a'.toNat + 10)
  else if 'A' ≤ c ∧ c ≤ 'F' then some (c.toNat - 'A'.toNat + 10)
  else none

/-- A character that no token has begun before. -/
def beginToken (c : Char) : Option (List Token × LexState) :=
  if isSpace c then some ([], .between)
  else if c = ':' then some ([.colon], .between)
  else if c = '{' then some ([.openBrace], .between)
  else if c = '}' then some ([.closeBrace], .between)
  else if c = '\'' ∨ c = '"' then some ([], .string c [])
  else if isWordChar c then some ([], .word [c])
  else none

def stringChar (quote : Char) (done : List Byte) (c : Char) : Option (List Token × LexState) :=
  if c = quote then some ([.string done], .between)
  else if c = '\\' then some ([], .escape quote done)
  else if c = '\n' then none
  else some ([], .string quote (done ++ [BitVec.ofNat 8 c.toNat]))

def escapedValue (c : Char) : Option Byte :=
  if c = 'n' then some 10
  else if c = 'r' then some 13
  else if c = 't' then some 9
  else if c = '"' ∨ c = '\'' ∨ c = '\\' then some (BitVec.ofNat 8 c.toNat)
  else none

def lexStep : LexState → Char → Option (List Token × LexState)
  | .between, c => beginToken c
  | .word done, c =>
    if isWordChar c then some ([], .word (done ++ [c]))
    else (beginToken c).map fun next => (.ident done :: next.1, next.2)
  | .string quote done, c => stringChar quote done c
  | .escape quote done, c =>
    if c = 'x' then some ([], .hex quote done)
    else (escapedValue c).map fun byte => ([], .string quote (done ++ [byte]))
  | .hex quote done, c => (digitValue c).map fun digit => ([], .hexDigit quote done digit)
  | .hexDigit quote done digit, c =>
    match digitValue c with
    | some last => some ([], .string quote (done ++ [BitVec.ofNat 8 (16 * digit + last)]))
    | none => stringChar quote (done ++ [BitVec.ofNat 8 digit]) c

def lexFrom : LexState → Text → Option (List Token)
  | .between, [] => some []
  | .word done, [] => some [.ident done]
  | _, [] => none
  | s, c :: text => do
    let next ← lexStep s c
    let rest ← lexFrom next.2 text
    return next.1 ++ rest

inductive Event where
  | openMessage (name : Text)
  | closeMessage
  | string (name : Text) (value : List Byte)
  | scalar (name : Text) (word : Text)
  deriving DecidableEq

/-- A field is its name and a value; before a brace the colon may be missing. -/
def events : List Token → Option (List Event)
  | [] => some []
  | .closeBrace :: tokens => (events tokens).map (.closeMessage :: ·)
  | .ident name :: .openBrace :: tokens => (events tokens).map (.openMessage name :: ·)
  | .ident name :: .colon :: .openBrace :: tokens => (events tokens).map (.openMessage name :: ·)
  | .ident name :: .colon :: .string value :: tokens =>
    (events tokens).map (.string name value :: ·)
  | .ident name :: .colon :: .ident word :: tokens => (events tokens).map (.scalar name word :: ·)
  | _ => none

inductive Field where
  | message (name : Text) (fields : List Field)
  | string (name : Text) (value : List Byte)
  | scalar (name : Text) (word : Text)

def Field.name : Field → Text
  | .message name _ | .string name _ | .scalar name _ => name

/-- The fields so far, with those of the messages around them. -/
def fieldsFrom (around : List (Text × List Field)) (done : List Field) :
    List Event → Option (List Field)
  | [] =>
    match around with
    | [] => some done
    | _ :: _ => none
  | .openMessage name :: es => fieldsFrom ((name, done) :: around) [] es
  | .closeMessage :: es =>
    match around with
    | [] => none
    | (name, before) :: around => fieldsFrom around (before ++ [.message name done]) es
  | .string name value :: es => fieldsFrom around (done ++ [.string name value]) es
  | .scalar name word :: es => fieldsFrom around (done ++ [.scalar name word]) es

def parse (text : Text) : Option (List Field) := do
  let tokens ← lexFrom .between text
  let es ← events tokens
  fieldsFrom [] [] es

/-! ## What is printed is read back -/

/-- The braces of the events match, and what is in them are the fields. -/
inductive Denotes : List Event → List Field → Prop where
  | nil : Denotes [] []
  | string {es fs} (name value) (rest : Denotes es fs) :
    Denotes (.string name value :: es) (.string name value :: fs)
  | scalar {es fs} (name word) (rest : Denotes es fs) :
    Denotes (.scalar name word :: es) (.scalar name word :: fs)
  | message {inner gs es fs} (name) (fields : Denotes inner gs) (rest : Denotes es fs) :
    Denotes (.openMessage name :: (inner ++ .closeMessage :: es)) (.message name gs :: fs)

theorem Denotes.append {es es' : List Event} {fs fs' : List Field} (h : Denotes es fs)
    (h' : Denotes es' fs') : Denotes (es ++ es') (fs ++ fs') := by
  induction h with
  | nil => exact h'
  | string name value _ ih => exact .string name value ih
  | scalar name word _ ih => exact .scalar name word ih
  | message name fields _ _ ih =>
    simp only [List.cons_append, List.append_assoc]
    exact .message name fields ih

theorem fieldsFrom_denotes {es : List Event} {fs : List Field} (h : Denotes es fs)
    (around : List (Text × List Field)) (done : List Field) (rest : List Event) :
    fieldsFrom around done (es ++ rest) = fieldsFrom around (done ++ fs) rest := by
  induction h generalizing around done rest with
  | nil => rw [List.nil_append, List.append_nil]
  | string name value _ ih =>
    simp only [List.cons_append, fieldsFrom, ih, List.append_assoc, List.nil_append]
  | scalar name word _ ih =>
    simp only [List.cons_append, fieldsFrom, ih, List.append_assoc, List.nil_append]
  | message name _ _ ihFields ihRest =>
    simp only [List.cons_append, fieldsFrom, List.append_assoc, ihFields, ihRest,
      List.nil_append]

/-- A name, or a value that is not quoted. -/
def IsWord (word : Text) : Prop := word ≠ [] ∧ ∀ c ∈ word, isWordChar c = true

instance (word : Text) : Decidable (IsWord word) :=
  decidable_of_iff ((!word.isEmpty && word.all isWordChar) = true) (by simp [IsWord])

/-- A quoting of bytes that the lexer undoes. -/
def Quotes (quote : Char) (escape : Byte → Text) : Prop :=
  ∀ byte done rest, lexFrom (.string quote done) (escape byte ++ rest) =
    lexFrom (.string quote (done ++ [byte])) rest

/-- An event as it is printed, with strings in single quotes. -/
def Event.print (escape : Byte → Text) : Event → Text
  | .openMessage name => name ++ [':', '{', ' ']
  | .closeMessage => ['}', ' ']
  | .string name value => name ++ [':', '\''] ++ value.flatMap escape ++ ['\'', ' ']
  | .scalar name word => name ++ [':'] ++ word ++ [' ']

def Event.Plain : Event → Prop
  | .openMessage name | .string name _ => IsWord name
  | .closeMessage => True
  | .scalar name word => IsWord name ∧ IsWord word

def Event.tokens : Event → List Token
  | .openMessage name => [.ident name, .colon, .openBrace]
  | .closeMessage => [.closeBrace]
  | .string name value => [.ident name, .colon, .string value]
  | .scalar name word => [.ident name, .colon, .ident word]

/-- The text is read as the tokens, whatever follows it. -/
def Reads (text : Text) (tokens : List Token) : Prop :=
  ∀ rest, lexFrom .between (text ++ rest) = (lexFrom .between rest).map (tokens ++ ·)

theorem Reads.append {text text' : Text} {tokens tokens' : List Token} (h : Reads text tokens)
    (h' : Reads text' tokens') : Reads (text ++ text') (tokens ++ tokens') := by
  intro rest
  rw [List.append_assoc, h, h', Option.map_map]
  simp only [Function.comp_def, List.append_assoc]

theorem reads_nil : Reads [] [] := by
  intro rest
  simp

theorem lexFrom_cons {s next : LexState} {c : Char} {tokens : List Token}
    (step : lexStep s c = some (tokens, next)) (rest : Text) :
    lexFrom s (c :: rest) = (lexFrom next rest).map (tokens ++ ·) := by
  rw [lexFrom, step, Option.bind_eq_bind, Option.bind_some]
  cases lexFrom next rest <;> rfl

theorem lexFrom_token {s next : LexState} {c : Char} {token : Token}
    (step : lexStep s c = some ([token], next)) (rest : Text) :
    lexFrom s (c :: rest) = (lexFrom next rest).map (token :: ·) := lexFrom_cons step rest

theorem lexFrom_silent {s next : LexState} {c : Char} (step : lexStep s c = some ([], next))
    (rest : Text) : lexFrom s (c :: rest) = lexFrom next rest := by
  rw [lexFrom_cons step]
  cases lexFrom next rest <;> rfl

theorem isWordChar_begins {c : Char} (word : isWordChar c = true) :
    beginToken c = some ([], .word [c]) := by
  have space : isSpace c = false := by
    rw [Bool.eq_false_iff]
    intro blank
    simp only [isSpace, Bool.or_eq_true, decide_eq_true_eq] at blank
    rcases blank with ((rfl | rfl) | rfl) | rfl <;> exact absurd word (by decide)
  have colon : c ≠ ':' := by rintro rfl; exact absurd word (by decide)
  have opens : c ≠ '{' := by rintro rfl; exact absurd word (by decide)
  have closes : c ≠ '}' := by rintro rfl; exact absurd word (by decide)
  have quote : ¬ (c = '\'' ∨ c = '"') := by
    rintro (rfl | rfl) <;> exact absurd word (by decide)
  simp only [beginToken, space, Bool.false_eq_true, if_false, colon, opens, closes, quote, word,
    if_true]

theorem lexFrom_word (done word rest : Text) (h : ∀ c ∈ word, isWordChar c = true) :
    lexFrom (.word done) (word ++ rest) = lexFrom (.word (done ++ word)) rest := by
  induction word generalizing done with
  | nil => rw [List.nil_append, List.append_nil]
  | cons c word ih =>
    have step : lexStep (.word done) c = some ([], .word (done ++ [c])) := by
      rw [lexStep, if_pos (h c List.mem_cons_self)]
    have next := ih (done ++ [c]) fun c member => h c (List.mem_cons_of_mem _ member)
    rw [List.append_assoc, List.singleton_append] at next
    rw [List.cons_append, lexFrom_silent step, next]

/-- A word ends at a character that is not of words. -/
theorem lexFrom_ident {word : Text} (h : IsWord word) {c : Char} (rest : Text)
    (ends : isWordChar c = false) :
    lexFrom .between (word ++ c :: rest) =
      (lexFrom .between (c :: rest)).map (.ident word :: ·) := by
  cases word with
  | nil => exact absurd rfl h.1
  | cons first word =>
    have start := isWordChar_begins (h.2 first List.mem_cons_self)
    have inside := lexFrom_word [first] word (c :: rest) fun c member =>
      h.2 c (List.mem_cons_of_mem _ member)
    have step : lexStep (.word (first :: word)) c =
        (beginToken c).map fun next => (.ident (first :: word) :: next.1, next.2) := by
      rw [lexStep, ends]
      rfl
    rw [List.cons_append, lexFrom_silent (s := .between) start, inside, List.singleton_append]
    cases begun : beginToken c with
    | none =>
      rw [begun] at step
      rw [lexFrom, lexFrom, step, lexStep, begun]
      rfl
    | some next =>
      rw [begun] at step
      rw [lexFrom_cons step, lexFrom_cons (s := .between) begun]
      cases lexFrom next.2 rest <;> rfl

theorem lexFrom_quoted {escape : Byte → Text} {quote : Char} (h : Quotes quote escape)
    (done value : List Byte) (rest : Text) :
    lexFrom (.string quote done) (value.flatMap escape ++ rest) =
      lexFrom (.string quote (done ++ value)) rest := by
  induction value generalizing done with
  | nil => rw [List.flatMap_nil, List.nil_append, List.append_nil]
  | cons byte value ih =>
    rw [List.flatMap_cons, List.append_assoc, h, ih, List.append_assoc, List.singleton_append]

theorem lexFrom_closed (value : List Byte) (quote : Char) (rest : Text) :
    lexFrom (.string quote value) (quote :: rest) =
      (lexFrom .between rest).map (.string value :: ·) := by
  apply lexFrom_token
  rw [lexStep, stringChar, if_pos rfl]

theorem lexFrom_space (rest : Text) : lexFrom .between (' ' :: rest) = lexFrom .between rest := by
  exact lexFrom_silent (s := .between) rfl rest

theorem lexFrom_colon (rest : Text) :
    lexFrom .between (':' :: rest) = (lexFrom .between rest).map (.colon :: ·) := by
  exact lexFrom_token (s := .between) rfl rest

theorem lexFrom_openBrace (rest : Text) :
    lexFrom .between ('{' :: rest) = (lexFrom .between rest).map (.openBrace :: ·) := by
  exact lexFrom_token (s := .between) rfl rest

theorem lexFrom_closeBrace (rest : Text) :
    lexFrom .between ('}' :: rest) = (lexFrom .between rest).map (.closeBrace :: ·) := by
  exact lexFrom_token (s := .between) rfl rest

theorem lexFrom_quote (rest : Text) :
    lexFrom .between ('\'' :: rest) = lexFrom (.string '\'' []) rest := by
  exact lexFrom_silent (s := .between) rfl rest

theorem Event.reads {escape : Byte → Text} (h : Quotes '\'' escape) {e : Event}
    (plain : e.Plain) : Reads (e.print escape) e.tokens := by
  intro rest
  cases e with
  | openMessage name =>
    have word : IsWord name := plain
    simp only [Event.print, List.append_assoc, List.cons_append, List.nil_append]
    rw [lexFrom_ident word _ rfl, lexFrom_colon, lexFrom_openBrace, lexFrom_space]
    simp only [Option.map_map]
    rfl
  | closeMessage =>
    simp only [Event.print, List.cons_append, List.nil_append]
    rw [lexFrom_closeBrace, lexFrom_space]
    rfl
  | string name value =>
    have word : IsWord name := plain
    simp only [Event.print, List.append_assoc, List.cons_append, List.nil_append]
    rw [lexFrom_ident word _ rfl, lexFrom_colon, lexFrom_quote, lexFrom_quoted h,
      List.nil_append, lexFrom_closed, lexFrom_space]
    simp only [Option.map_map]
    rfl
  | scalar name word =>
    simp only [Event.print, List.append_assoc, List.cons_append, List.nil_append]
    rw [lexFrom_ident plain.1 _ rfl, lexFrom_colon, lexFrom_ident plain.2 _ rfl, lexFrom_space]
    simp only [Option.map_map]
    rfl

theorem reads_print {escape : Byte → Text} (h : Quotes '\'' escape) {es : List Event}
    (plain : ∀ e ∈ es, e.Plain) :
    Reads (es.flatMap (·.print escape)) (es.flatMap (·.tokens)) := by
  induction es with
  | nil => exact reads_nil
  | cons e es ih =>
    rw [List.flatMap_cons, List.flatMap_cons]
    exact (Event.reads h (plain e List.mem_cons_self)).append
      (ih fun e member => plain e (List.mem_cons_of_mem _ member))

theorem events_tokens (es : List Event) : events (es.flatMap (·.tokens)) = some es := by
  induction es with
  | nil => rfl
  | cons e es ih =>
    have first (rest : List Token) : events (e.tokens ++ rest) = (events rest).map (e :: ·) := by
      cases e <;> rfl
    rw [List.flatMap_cons, first, ih]
    rfl

/-- **The text of events that open and close messages is parsed as their fields.** -/
theorem parse_print {escape : Byte → Text} (h : Quotes '\'' escape) {es : List Event}
    {fs : List Field} (plain : ∀ e ∈ es, e.Plain) (denotes : Denotes es fs) :
    parse (es.flatMap (·.print escape)) = some fs := by
  have lexed := reads_print h plain []
  rw [List.append_nil] at lexed
  have read := fieldsFrom_denotes denotes [] [] []
  rw [List.append_nil, List.nil_append] at read
  rw [parse, lexed]
  simp only [lexFrom, Option.map_some, List.append_nil, Option.bind_eq_bind, Option.bind_some,
    events_tokens, read, fieldsFrom]

/-! ## Quoted bytes -/

def hexDigit (n : Nat) : Char :=
  if n < 10 then Char.ofNat ('0'.toNat + n) else Char.ofNat ('a'.toNat + (n - 10))

theorem digitValue_hexDigit {n : Nat} (h : n < 16) : digitValue (hexDigit n) = some n := by
  have all : ∀ n < 16, digitValue (hexDigit n) = some n := by decide
  exact all n h

/-- A digit is a character of words, and no `x` and no sign. -/
theorem hexDigit_plain {n : Nat} (h : n < 16) :
    isWordChar (hexDigit n) = true ∧ hexDigit n ≠ 'x' ∧ hexDigit n ≠ '-' := by
  have all : ∀ n < 16, isWordChar (hexDigit n) = true ∧ hexDigit n ≠ 'x' ∧ hexDigit n ≠ '-' := by
    decide
  exact all n h

theorem lexFrom_char {quote c : Char} (done : List Byte) (rest : Text) (inside : c ≠ quote)
    (plain : c ≠ '\\') (line : c ≠ '\n') :
    lexFrom (.string quote done) (c :: rest) =
      lexFrom (.string quote (done ++ [BitVec.ofNat 8 c.toNat])) rest := by
  apply lexFrom_silent
  rw [lexStep, stringChar, if_neg inside, if_neg plain, if_neg line]

theorem lexFrom_backslash {quote : Char} (done : List Byte) (rest : Text) (h : quote ≠ '\\') :
    lexFrom (.string quote done) ('\\' :: rest) = lexFrom (.escape quote done) rest := by
  apply lexFrom_silent
  rw [lexStep, stringChar, if_neg h.symm, if_pos rfl]

theorem lexFrom_escaped {quote c : Char} {byte : Byte} (done : List Byte) (rest : Text)
    (h : quote ≠ '\\') (hex : c ≠ 'x') (value : escapedValue c = some byte) :
    lexFrom (.string quote done) ('\\' :: c :: rest) =
      lexFrom (.string quote (done ++ [byte])) rest := by
  have step : lexStep (.escape quote done) c = some ([], .string quote (done ++ [byte])) := by
    rw [lexStep, if_neg hex, value]
    rfl
  rw [lexFrom_backslash _ _ h, lexFrom_silent step]

theorem lexFrom_hex {quote : Char} (done : List Byte) (byte : Byte) (rest : Text)
    (h : quote ≠ '\\') :
    lexFrom (.string quote done) ('\\' :: 'x' :: hexDigit (byte.toNat / 16) ::
        hexDigit (byte.toNat % 16) :: rest) =
      lexFrom (.string quote (done ++ [byte])) rest := by
  have bound := byte.isLt
  have high := digitValue_hexDigit (n := byte.toNat / 16) (by omega)
  have low := digitValue_hexDigit (n := byte.toNat % 16) (by omega)
  have value : BitVec.ofNat 8 (16 * (byte.toNat / 16) + byte.toNat % 16) = byte := by
    rw [Nat.div_add_mod, BitVec.ofNat_toNat, BitVec.setWidth_eq]
  have first : lexStep (.hex quote done) (hexDigit (byte.toNat / 16)) =
      some ([], .hexDigit quote done (byte.toNat / 16)) := by
    rw [lexStep, high]
    rfl
  have second : lexStep (.hexDigit quote done (byte.toNat / 16)) (hexDigit (byte.toNat % 16)) =
      some ([], .string quote (done ++ [byte])) := by
    simp only [lexStep, low, value]
  rw [lexFrom_backslash _ _ h, lexFrom_silent rfl, lexFrom_silent first, lexFrom_silent second]

/-! ## Numbers -/

/-- The digits of a number, the last one split off first. -/
def digits (base n : Nat) : Text :=
  if 2 ≤ base ∧ base ≤ n then digits base (n / base) ++ [hexDigit (n % base)] else [hexDigit n]
termination_by n
decreasing_by exact Nat.div_lt_self (by omega) (by omega)

def addDigit (base value : Nat) (c : Char) : Option Nat :=
  match digitValue c with
  | some digit => if digit < base then some (base * value + digit) else none
  | none => none

def number (base : Nat) (word : Text) : Option Nat :=
  if word = [] then none else word.foldlM (addDigit base) 0

theorem digits_of_lt {base n : Nat} (h : n < base) : digits base n = [hexDigit n] := by
  rw [digits, if_neg (by omega)]

theorem digits_ne_nil (base n : Nat) : digits base n ≠ [] := by
  rw [digits]
  split <;> simp

theorem addDigit_hexDigit {base digit : Nat} (value : Nat) (small : base ≤ 16)
    (h : digit < base) : addDigit base value (hexDigit digit) = some (base * value + digit) := by
  rw [addDigit, digitValue_hexDigit (Nat.lt_of_lt_of_le h small)]
  exact if_pos h

theorem foldlM_digits {base : Nat} (two : 2 ≤ base) (small : base ≤ 16) (n : Nat) :
    (digits base n).foldlM (addDigit base) 0 = some n := by
  fun_induction digits base n with
  | case1 n h ih =>
    rw [List.foldlM_append, ih, Option.bind_eq_bind, Option.bind_some, List.foldlM_cons,
      addDigit_hexDigit _ small (Nat.mod_lt _ (by omega)), Nat.div_add_mod]
    rfl
  | case2 n h =>
    rw [List.foldlM_cons, addDigit_hexDigit _ small (by omega), Nat.mul_zero, Nat.zero_add]
    rfl

theorem number_digits {base : Nat} (two : 2 ≤ base) (small : base ≤ 16) (n : Nat) :
    number base (digits base n) = some n := by
  rw [number, if_neg (digits_ne_nil base n), foldlM_digits two small]

theorem mem_digits {base : Nat} (two : 2 ≤ base) (n : Nat) :
    ∀ c ∈ digits base n, ∃ digit < base, c = hexDigit digit := by
  fun_induction digits base n with
  | case1 n h ih =>
    intro c member
    rw [List.mem_append, List.mem_singleton] at member
    cases member with
    | inl earlier => exact ih c earlier
    | inr last => exact ⟨n % base, Nat.mod_lt _ (by omega), last⟩
  | case2 n h =>
    intro c member
    exact ⟨n, by omega, List.mem_singleton.mp member⟩

theorem isWord_digits {base : Nat} (two : 2 ≤ base) (small : base ≤ 16) (n : Nat) :
    IsWord (digits base n) := by
  constructor
  · exact digits_ne_nil base n
  · intro c member
    obtain ⟨digit, bound, rfl⟩ := mem_digits two n c member
    exact (hexDigit_plain (Nat.lt_of_lt_of_le bound small)).1

/-- A number without a sign: hexadecimal after `0x`, else decimal. -/
def unsigned : Text → Option Nat
  | '0' :: 'x' :: word => number 16 word
  | word => number 10 word

def signed : Text → Option Int
  | '-' :: word => (unsigned word).map fun n => -(n : Int)
  | word => (unsigned word).map fun n => (n : Int)

theorem unsigned_decimal (n : Nat) : unsigned (digits 10 n) = some n := by
  rw [unsigned]
  · exact number_digits (by decide) (by decide) n
  · intro word hex
    have two : 2 ≤ 10 := by decide
    obtain ⟨digit, bound, x⟩ := mem_digits two n 'x' (by simp [hex])
    exact (hexDigit_plain (by omega)).2.1 x.symm

theorem unsigned_hex (n : Nat) : unsigned ('0' :: 'x' :: digits 16 n) = some n := by
  rw [unsigned]
  exact number_digits (by decide) (by decide) n

theorem signed_neg (n : Nat) : signed ('-' :: digits 10 n) = some (-(n : Int)) := by
  rw [signed, unsigned_decimal]
  rfl

theorem signed_decimal (n : Nat) : signed (digits 10 n) = some (n : Int) := by
  rw [signed]
  · rw [unsigned_decimal]
    rfl
  · intro word minus
    have two : 2 ≤ 10 := by decide
    obtain ⟨digit, bound, sign⟩ := mem_digits two n '-' (by simp [minus])
    exact (hexDigit_plain (by omega)).2.2 sign.symm

end TextFormat
