import Silifuzz.Library.TextFormat

/-!
# TextProtoPrinter

`util/text_proto_printer.cc`: fields in the text format of protos, appended to a buffer
of fixed size. A message is printed to a buffer of its own, which its destructor appends
to the one of its parent. The numbers are those of `util/itoa.cc`.
-/

namespace Silifuzz

open TextFormat

namespace Itoa

def intStr (num : Int) : Text :=
  if num < 0 then '-' :: digits 10 num.natAbs else digits 10 num.natAbs

def hexStr (num : Nat) : Text := '0' :: 'x' :: digits 16 num

theorem intStr_of_lt {n : Nat} (h : n < 10) : intStr n = [hexDigit n] := by
  rw [intStr, if_neg (by omega), Int.natAbs_natCast, digits_of_lt h]

theorem isWord_intStr (num : Int) : IsWord (intStr num) := by
  have word : IsWord (digits 10 num.natAbs) := isWord_digits (by decide) (by decide) _
  unfold intStr
  split
  · constructor
    · exact List.cons_ne_nil _ _
    · intro c member
      cases List.mem_cons.mp member with
      | inl sign =>
        rw [sign]
        rfl
      | inr digit => exact word.2 c digit
  · exact word

theorem isWord_hexStr (num : Nat) : IsWord (hexStr num) := by
  have word : IsWord (digits 16 num) := isWord_digits (by decide) (by decide) _
  constructor
  · exact List.cons_ne_nil _ _
  · intro c member
    simp only [hexStr, List.mem_cons] at member
    rcases member with rfl | rfl | digit
    · rfl
    · rfl
    · exact word.2 c digit

theorem signed_intStr (num : Int) : signed (intStr num) = some num := by
  unfold intStr
  split
  · rw [signed_neg]
    exact congrArg some (by omega)
  · rw [signed_decimal]
    exact congrArg some (by omega)

theorem unsigned_hexStr (num : Nat) : unsigned (hexStr num) = some num := unsigned_hex num

end Itoa

open Itoa

namespace TextProtoPrinter

def kMaxBytesFieldCapacity : Nat := 4096 * 4 + 1

/-- `sizeof(buf_)` -/
def sizeofBuf : Nat := kMaxBytesFieldCapacity * 20 + 2048

def kEscapedLen : List Nat := [
  4, 4, 4, 4, 4, 4, 4, 4, 4, 2, 2, 4, 4, 2, 4, 4,
  4, 4, 4, 4, 4, 4, 4, 4, 4, 4, 4, 4, 4, 4, 4, 4,
  1, 1, 2, 1, 1, 1, 1, 2, 1, 1, 1, 1, 1, 1, 1, 1,
  1, 1, 1, 1, 1, 1, 1, 1, 1, 1, 1, 1, 1, 1, 1, 1,
  1, 1, 1, 1, 1, 1, 1, 1, 1, 1, 1, 1, 1, 1, 1, 1,
  1, 1, 1, 1, 1, 1, 1, 1, 1, 1, 1, 1, 2, 1, 1, 1,
  1, 1, 1, 1, 1, 1, 1, 1, 1, 1, 1, 1, 1, 1, 1, 1,
  1, 1, 1, 1, 1, 1, 1, 1, 1, 1, 1, 1, 1, 1, 1, 4] ++ List.replicate 128 4

def charLen (c : Byte) : Nat := kEscapedLen.getD c.toNat 0

/-- The character that stands for one of two characters. -/
def escapedChar (c : Char) : Char :=
  if c = '\n' then 'n' else if c = '\r' then 'r' else if c = '\t' then 't' else c

/-- One turn of the loop of `Bytes`. -/
def escape (c : Byte) : Text :=
  if charLen c = 1 then [Char.ofNat c.toNat]
  else if charLen c = 2 then ['\\', escapedChar (Char.ofNat c.toNat)]
  else ['\\', 'x', hexDigit (c.toNat / 16), hexDigit (c.toNat % 16)]

theorem length_escape (c : Byte) : (escape c).length = charLen c := by
  have all : ∀ n < 256, (escape (BitVec.ofNat 8 n)).length = charLen (BitVec.ofNat 8 n) := by
    decide +kernel
  have this := all c.toNat c.isLt
  rwa [BitVec.ofNat_toNat, BitVec.setWidth_eq] at this

/-- A character that stands for itself is no quote, no backslash and no newline. -/
theorem charLen_one {c : Byte} (h : charLen c = 1) :
    Char.ofNat c.toNat ≠ '\'' ∧ Char.ofNat c.toNat ≠ '\\' ∧ Char.ofNat c.toNat ≠ '\n' ∧
      (Char.ofNat c.toNat).toNat = c.toNat := by
  have all : ∀ n < 256, charLen (BitVec.ofNat 8 n) = 1 →
      Char.ofNat n ≠ '\'' ∧ Char.ofNat n ≠ '\\' ∧ Char.ofNat n ≠ '\n' ∧
        (Char.ofNat n).toNat = n := by
    decide +kernel
  apply all c.toNat c.isLt
  rwa [BitVec.ofNat_toNat, BitVec.setWidth_eq]

theorem charLen_two {c : Byte} (h : charLen c = 2) :
    escapedChar (Char.ofNat c.toNat) ≠ 'x' ∧
      escapedValue (escapedChar (Char.ofNat c.toNat)) = some c := by
  have all : ∀ n < 256, charLen (BitVec.ofNat 8 n) = 2 → escapedChar (Char.ofNat n) ≠ 'x' ∧
      escapedValue (escapedChar (Char.ofNat n)) = some (BitVec.ofNat 8 n) := by
    decide +kernel
  have this := all c.toNat c.isLt
  rw [BitVec.ofNat_toNat, BitVec.setWidth_eq] at this
  exact this h

theorem quotes_escape : Quotes '\'' escape := by
  intro byte done rest
  by_cases one : charLen byte = 1
  · obtain ⟨inside, plain, line, value⟩ := charLen_one one
    rw [escape, if_pos one, List.singleton_append, lexFrom_char done rest inside plain line, value,
      BitVec.ofNat_toNat, BitVec.setWidth_eq]
  · by_cases two : charLen byte = 2
    · obtain ⟨hex, value⟩ := charLen_two two
      rw [escape, if_neg one, if_pos two]
      exact lexFrom_escaped done rest (by decide) hex value
    · rw [escape, if_neg one, if_neg two]
      exact lexFrom_hex done byte rest (by decide)

end TextProtoPrinter

/-- The buffer, without the terminating zero that has its place in it. -/
structure TextProtoPrinter where
  buf : Text
  terminated : buf.length + 1 < TextProtoPrinter.sizeofBuf

namespace TextProtoPrinter

def new : TextProtoPrinter := ⟨[], by decide⟩

/-- `Print`; none is the `LOG_FATAL` for a buffer that is too small. -/
def print (p : TextProtoPrinter) (str : Text) : Option TextProtoPrinter :=
  if h : str.length + 1 + p.buf.length < sizeofBuf then
    some ⟨p.buf ++ str, by rw [List.length_append]; omega⟩
  else none

/-- `Bytes`. Its own buffer is not checked: none is also a write past the end of it. -/
def bytes (p : TextProtoPrinter) (fieldName : String) (value : List Byte) :
    Option TextProtoPrinter :=
  if value.length > kMaxBytesFieldCapacity then none
  else if kMaxBytesFieldCapacity < (value.flatMap escape).length + 1 then none
  else do
    let p ← p.print fieldName.toList
    let p ← p.print ":'".toList
    let p ← p.print (value.flatMap escape)
    p.print "' ".toList

/-- `String`, of the characters up to the zero. -/
def string (p : TextProtoPrinter) (fieldName : String) (value : List Byte) :
    Option TextProtoPrinter :=
  p.bytes fieldName value

def word (p : TextProtoPrinter) (fieldName : String) (value : Text) : Option TextProtoPrinter := do
  let p ← p.print fieldName.toList
  let p ← p.print ":".toList
  let p ← p.print value
  p.print " ".toList

def enum (p : TextProtoPrinter) (fieldName value : String) : Option TextProtoPrinter :=
  p.word fieldName value.toList

def int (p : TextProtoPrinter) (fieldName : String) (value : Int) : Option TextProtoPrinter :=
  p.word fieldName (intStr value)

def hex (p : TextProtoPrinter) (fieldName : String) (value : Nat) : Option TextProtoPrinter :=
  p.word fieldName (Itoa.hexStr value)

/-- The printer of a message, when it is constructed. -/
def message (fieldName : String) : Option TextProtoPrinter := do
  let p ← new.print fieldName.toList
  p.print ":\x7b ".toList

/-- The destructor of a message with the printer `p`. -/
def commit (p parent : TextProtoPrinter) : Option TextProtoPrinter := do
  let parent ← parent.print p.buf
  parent.print "\x7d ".toList

/-! ## What is printed -/

/-- The text of events. -/
def printed (es : List Event) : Text := es.flatMap (·.print escape)

/-- If it fits and `fits` holds, `op` appends `text`; else it fails. -/
def Appends (op : TextProtoPrinter → Option TextProtoPrinter) (fits : Prop) (text : Text) : Prop :=
  ∀ p q, op p = some q ↔ fits ∧ q.buf = p.buf ++ text

theorem eq_of_buf {p q : TextProtoPrinter} (h : p.buf = q.buf) : p = q := by
  cases p
  cases q
  cases h
  rfl

theorem appends_print (str : Text) : Appends (·.print str) True str := by
  intro p q
  change p.print str = some q ↔ _
  rw [print]
  constructor
  · intro h
    split at h
    · cases h
      exact ⟨trivial, rfl⟩
    · cases h
  · intro h
    have bound := q.terminated
    rw [h.2, List.length_append] at bound
    rw [dif_pos (by omega)]
    exact congrArg some (eq_of_buf h.2.symm)

theorem Appends.bind {f g : TextProtoPrinter → Option TextProtoPrinter} {F G : Prop}
    {t u : Text} (first : Appends f F t) (second : Appends g G u) :
    Appends (fun p => (f p).bind g) (F ∧ G) (t ++ u) := by
  intro p q
  constructor
  · intro h
    obtain ⟨m, hm, hq⟩ := Option.bind_eq_some_iff.mp h
    have one := (first p m).mp hm
    have two := (second m q).mp hq
    rw [two.2, one.2, List.append_assoc]
    exact ⟨⟨one.1, two.1⟩, rfl⟩
  · intro h
    have bound := q.terminated
    rw [h.2, List.length_append, List.length_append] at bound
    have middle : (p.buf ++ t).length + 1 < sizeofBuf := by
      rw [List.length_append]
      omega
    apply Option.bind_eq_some_iff.mpr
    refine ⟨⟨p.buf ++ t, middle⟩, (first p _).mpr ⟨h.1.1, rfl⟩, (second _ q).mpr ⟨h.1.2, ?_⟩⟩
    rw [h.2, List.append_assoc]

theorem appends_self : Appends some True [] := by
  intro p q
  rw [List.append_nil, true_and, Option.some_inj]
  constructor
  · rintro rfl
    rfl
  · intro h
    exact eq_of_buf h.symm

theorem Appends.foldlM {α : Type} {op : TextProtoPrinter → α → Option TextProtoPrinter}
    {F : α → Prop} {t : α → Text} (each : ∀ x, Appends (op · x) (F x) (t x)) (xs : List α) :
    Appends (fun p => xs.foldlM op p) (∀ x ∈ xs, F x) (xs.flatMap t) := by
  induction xs with
  | nil =>
    intro p q
    simpa using appends_self p q
  | cons x xs ih =>
    intro p q
    have both := (each x).bind ih p q
    simp only [List.foldlM_cons, List.forall_mem_cons, List.flatMap_cons]
    exact both

/-- How much of a buffer the escaped bytes take. -/
def escapedLength (value : List Byte) : Nat := (value.map charLen).sum

theorem length_escaped (value : List Byte) :
    (value.flatMap escape).length = escapedLength value := by
  rw [List.length_flatMap, escapedLength]
  congr 1
  apply List.map_congr_left
  intro c _
  exact length_escape c

theorem charLen_bounds (c : Byte) : 1 ≤ charLen c ∧ charLen c ≤ 4 := by
  have all : ∀ n < 256, 1 ≤ charLen (BitVec.ofNat 8 n) ∧ charLen (BitVec.ofNat 8 n) ≤ 4 := by
    decide +kernel
  have this := all c.toNat c.isLt
  rwa [BitVec.ofNat_toNat, BitVec.setWidth_eq] at this

theorem escapedLength_bounds (value : List Byte) :
    value.length ≤ escapedLength value ∧ escapedLength value ≤ 4 * value.length := by
  induction value with
  | nil => exact ⟨Nat.le_refl _, Nat.le_refl _⟩
  | cons c value ih =>
    have this := charLen_bounds c
    simp only [escapedLength, List.map_cons, List.sum_cons, List.length_cons] at ih ⊢
    omega

/-- A bytes field that fits into the buffer that `Bytes` escapes it in. -/
def BytesFit (value : List Byte) : Prop := escapedLength value < kMaxBytesFieldCapacity

theorem appends_bytes (fieldName : String) (value : List Byte) :
    Appends (·.bytes fieldName value) (BytesFit value)
      (printed [.string fieldName.toList value]) := by
  intro p q
  have bounds := escapedLength_bounds value
  have pieces := (appends_print fieldName.toList).bind ((appends_print ":'".toList).bind
    ((appends_print (value.flatMap escape)).bind (appends_print "' ".toList))) p q
  have text : fieldName.toList ++ (":'".toList ++ (value.flatMap escape ++ "' ".toList)) =
      printed [.string fieldName.toList value] := by
    simp [printed, Event.print]
  rw [text] at pieces
  change p.bytes fieldName value = some q ↔ _
  rw [bytes, length_escaped, BytesFit]
  by_cases fits : escapedLength value < kMaxBytesFieldCapacity
  · rw [if_neg (by omega), if_neg (by omega)]
    refine pieces.trans ?_
    simp [fits]
  · constructor
    · intro h
      split at h
      · cases h
      · rw [if_pos (by omega)] at h
        cases h
    · intro h
      exact absurd h.1 fits

theorem appends_word (fieldName : String) (value : Text) :
    Appends (·.word fieldName value) True (printed [.scalar fieldName.toList value]) := by
  intro p q
  have pieces := (appends_print fieldName.toList).bind ((appends_print ":".toList).bind
    ((appends_print value).bind (appends_print " ".toList))) p q
  have text : fieldName.toList ++ (":".toList ++ (value ++ " ".toList)) =
      printed [.scalar fieldName.toList value] := by
    simp [printed, Event.print]
  rw [text] at pieces
  refine pieces.trans ?_
  simp

theorem message_eq_some {fieldName : String} {p : TextProtoPrinter} :
    message fieldName = some p ↔ p.buf = printed [.openMessage fieldName.toList] := by
  have pieces := (appends_print fieldName.toList).bind (appends_print ":\x7b ".toList) new p
  have text : fieldName.toList ++ ":\x7b ".toList = printed [.openMessage fieldName.toList] := by
    simp [printed, Event.print]
  rw [text] at pieces
  refine pieces.trans ?_
  simp [new]

theorem appends_commit (p : TextProtoPrinter) :
    Appends (p.commit ·) True (p.buf ++ printed [.closeMessage]) := by
  intro parent q
  have pieces := (appends_print p.buf).bind (appends_print "\x7d ".toList) parent q
  have text : "\x7d ".toList = printed [.closeMessage] := rfl
  rw [text] at pieces
  refine pieces.trans ?_
  simp

/-- Part of what a buffer holds has its place in a buffer. -/
theorem exists_part (q : TextProtoPrinter) (text : Text) (part : text.length ≤ q.buf.length) :
    ∃ p : TextProtoPrinter, p.buf = text := by
  have bound := q.terminated
  exact ⟨⟨text, by omega⟩, rfl⟩

@[simp] theorem printed_append (es es' : List Event) :
    printed (es ++ es') = printed es ++ printed es' := List.flatMap_append

/-- A message, between its constructor and its destructor. -/
theorem appends_message {body : TextProtoPrinter → Option TextProtoPrinter} {F : Prop}
    {es : List Event} (inside : Appends body F (printed es)) (fieldName : String) :
    Appends (fun parent => (message fieldName).bind fun m => (body m).bind fun m => m.commit parent)
      F (printed (.openMessage fieldName.toList :: (es ++ [.closeMessage]))) := by
  have text : printed (.openMessage fieldName.toList :: (es ++ [.closeMessage])) =
      printed [.openMessage fieldName.toList] ++ printed es ++ printed [.closeMessage] := by
    rw [← printed_append, ← printed_append]
    rfl
  intro parent q
  rw [text]
  constructor
  · intro h
    obtain ⟨m, hm, h⟩ := Option.bind_eq_some_iff.mp h
    obtain ⟨m', hm', h⟩ := Option.bind_eq_some_iff.mp h
    have opened := message_eq_some.mp hm
    have filled := (inside m m').mp hm'
    have closed := (appends_commit m' parent q).mp h
    rw [closed.2, filled.2, opened]
    exact ⟨filled.1, rfl⟩
  · intro h
    have length := congrArg List.length h.2
    simp only [List.length_append] at length
    obtain ⟨m, opened⟩ := q.exists_part (printed [.openMessage fieldName.toList]) (by omega)
    obtain ⟨m', filled⟩ := q.exists_part
      (printed [.openMessage fieldName.toList] ++ printed es) (by
        rw [List.length_append]
        omega)
    apply Option.bind_eq_some_iff.mpr
    refine ⟨m, message_eq_some.mpr opened, ?_⟩
    apply Option.bind_eq_some_iff.mpr
    refine ⟨m', (inside m m').mpr ⟨h.1, by rw [filled, opened]⟩, ?_⟩
    exact (appends_commit m' parent q).mpr ⟨trivial, by rw [h.2, filled]⟩

end TextProtoPrinter

end Silifuzz
