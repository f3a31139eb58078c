import Silifuzz.Common.SnapshotProto

/-!
# Instructions of a trace

`tools/minimizer/insn.py`: the instructions that a trace lists, and the NOPs that take
their place. The text of a trace is ASCII. Numbers are Python's, without a bound.
-/

namespace Silifuzz.Minimizer

/-- A `str`. -/
abbrev Str := List Char

/-- What is raised; the messages, which are only logged, are left out. -/
inductive PyException where
  | runtimeError
  | valueError
  | keyError
  | decodeError
  | osError
  | usageError
  deriving DecidableEq, Repr

/-- `snapshot_pb2.Snapshot.Architecture`. -/
abbrev ProtoArchitecture := Proto.Enum Architecture

def x86Nops : List (Int × ByteData) :=
  [(1, [0x90]),
    (2, [0x66, 0x90]),
    (3, [0x0f, 0x1f, 0x00]),
    (4, [0x0f, 0x1f, 0x40, 0x00]),
    (5, [0x0f, 0x1f, 0x44, 0x00, 0x00]),
    (6, [0x66, 0x0f, 0x1f, 0x44, 0x00, 0x00]),
    (7, [0x0f, 0x1f, 0x80, 0x00, 0x00, 0x00, 0x00]),
    (8, [0x0f, 0x1f, 0x84, 0x00, 0x00, 0x00, 0x00, 0x00]),
    (9, [0x66, 0x0f, 0x1f, 0x84, 0x00, 0x00, 0x00, 0x00, 0x00]),
    (10, [0x66, 0x66, 0x0f, 0x1f, 0x84, 0x00, 0x00, 0x00, 0x00, 0x00]),
    (11, [0x66, 0x66, 0x66, 0x0f, 0x1f, 0x84, 0x00, 0x00, 0x00, 0x00, 0x00])]

def aarch64Nops : List (Int × ByteData) := [(4, [0x1f, 0x20, 0x03, 0xd5])]

/-- `_SINGLE_NOP_INSTRUCTIONS_BY_SIZE`. -/
def singleNopInstructionsBySize : ProtoArchitecture → Option (List (Int × ByteData))
  | .known .kX86_64 => some x86Nops
  | .known .kAArch64 => some aarch64Nops
  | .undefined => none

/-- `MAX_NOP_LEN_BY_ARCH[arch]`. -/
def maxNopLenByArch (arch : ProtoArchitecture) : Except PyException Int :=
  match singleNopInstructionsBySize arch with
  | some nopByLen => .ok ((nopByLen.map Prod.fst).foldl max 0)
  | none => .error .keyError

/-- `MIN_NOP_LEN_BY_ARCH[arch]`. -/
def minNopLenByArch (arch : ProtoArchitecture) : Except PyException Int :=
  match singleNopInstructionsBySize arch with
  | some nopByLen => .ok ((nopByLen.map Prod.fst).tail.foldl min ((nopByLen.map Prod.fst).headD 0))
  | none => .error .keyError

example : maxNopLenByArch (.known .kX86_64) = .ok 11 ∧ minNopLenByArch (.known .kX86_64) = .ok 1 :=
  ⟨rfl, rfl⟩

structure Insn where
  addr : Int
  len : Int
  repr : Str
  deriving DecidableEq

/-- `sub in text`. -/
def isIn (sub : String) (text : Str) : Bool := decide (sub.toList <:+: text)

def Insn.isNop (x : Insn) : Bool := isIn "nop" x.repr && !isIn "feni8087_nop" x.repr

def Insn.isSimpleNop (x : Insn) (arch : ProtoArchitecture) : Bool :=
  if arch = .known .kAArch64 then x.isNop else decide (x.len = 1) && x.isNop

structure NopSequence where
  addr : Int
  len : Int

def nopSequenceBytes (arch : ProtoArchitecture) (length : Int) : Except PyException ByteData :=
  if length < 0 then .error .valueError
  else
    match arch with
    | .undefined => .error .valueError
    | .known .kX86_64 => .ok (List.replicate length.toNat 0x90)
    | .known .kAArch64 =>
      if length % 4 ≠ 0 then .error .valueError
      else .ok (List.replicate (length / 4).toNat [0x1f, 0x20, 0x03, 0xd5]).flatten

def singleNopBytes (arch : ProtoArchitecture) (length : Int) : Except PyException ByteData :=
  match singleNopInstructionsBySize arch with
  | none => .error .valueError
  | some archTable =>
    match archTable.lookup length with
    | none => .error .valueError
    | some nop => .ok nop

/-! ## Text -/

def isSpace (c : Char) : Bool := (9 ≤ c.val && c.val ≤ 13) || (28 ≤ c.val && c.val ≤ 32)

def strip (text : Str) : Str := ((text.dropWhile isSpace).reverse.dropWhile isSpace).reverse

def removePrefix (sub : String) (text : Str) : Str :=
  if sub.toList.isPrefixOf text then text.drop sub.length else text

/-- `text.split(" ", maxsplit)`. -/
def splitSpaces : Nat → Str → List Str
  | 0, text => [text]
  | maxsplit + 1, text =>
    match text.dropWhile (· != ' ') with
    | [] => [text]
    | _ :: rest => text.takeWhile (· != ' ') :: splitSpaces maxsplit rest

def digit (base : Nat) (c : Char) : Option Nat :=
  let value :=
    if c.isDigit then some (c.toNat - 48)
    else if c.isLower then some (c.toNat - 87)
    else if c.isUpper then some (c.toNat - 55)
    else none
  value.filter (· < base)

/-- The digits after the first one, each of which may follow one underscore. -/
def moreDigits (base : Nat) : Nat → Str → Option Nat
  | acc, [] => some acc
  | acc, '_' :: c :: rest => do
    let d ← digit base c
    moreDigits base (acc * base + d) rest
  | acc, c :: rest => do
    let d ← digit base c
    moreDigits base (acc * base + d) rest

def digits (base : Nat) : Str → Option Nat
  | [] => none
  | c :: rest => do
    let d ← digit base c
    moreDigits base d rest

/-- The digits of `int(text, base)`, behind a `0x` if the base is 16. -/
def unsignedInt (base : Nat) : Str → Option Nat
  | '0' :: x :: rest =>
    if base = 16 ∧ (x = 'x' ∨ x = 'X') then
      match rest with
      | '_' :: rest => digits base rest
      | rest => digits base rest
    else digits base ('0' :: x :: rest)
  | text => digits base text

/-- `int(text, base)`. -/
def int (base : Nat) (text : Str) : Except PyException Int :=
  let value : Option Int :=
    match strip text with
    | '-' :: rest => (unsignedInt base rest).map fun n => -(n : Int)
    | '+' :: rest => (unsignedInt base rest).map Int.ofNat
    | rest => (unsignedInt base rest).map Int.ofNat
  match value with
  | some n => .ok n
  | none => .error .valueError

example : int 16 "0x1_00f".toList = .ok 4111 := by decide

/-- A line of a trace, if it lists an instruction. -/
def parseTraceLine (fixedSize : Option Int) (line : Str) : Option Insn :=
  let targetSplits := if fixedSize.isNone then 3 else 2
  let line := strip line
  if !isIn "addr=" line then none
  else if fixedSize.isNone && !isIn "size=" line then none
  else
    match fixedSize, (splitSpaces targetSplits line).tail with
    | some size, [addrStr, mnemonic] =>
      match int 16 (removePrefix "addr=" addrStr) with
      | .ok addr => some ⟨addr, size, mnemonic⟩
      | .error _ => none
    | none, [addrStr, sizeStr, mnemonic] =>
      match int 10 (removePrefix "size=" sizeStr), int 16 (removePrefix "addr=" addrStr) with
      | .ok size, .ok addr => some ⟨addr, size, mnemonic⟩
      | _, _ => none
    | _, _ => none

def parseTraceLines (lines : List Str) (fixedSize : Option Int) : List Insn :=
  lines.foldl (fun insns line =>
    match parseTraceLine fixedSize line with
    | some candidate => if candidate ∈ insns then insns else insns ++ [candidate]
    | none => insns) []

def parseTrace (lines : List Str) : ProtoArchitecture → Except PyException (List Insn)
  | .known .kX86_64 => .ok (parseTraceLines lines none)
  | .known .kAArch64 => .ok (parseTraceLines lines (some 4))
  | .undefined => .error .valueError

example : parseTrace ["1 addr=0x1000 size=5 mov eax, 1".toList, "done".toList] (.known .kX86_64) =
    .ok [⟨0x1000, 5, "mov eax, 1".toList⟩] := by decide

end Silifuzz.Minimizer
