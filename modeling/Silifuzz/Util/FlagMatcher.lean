import Silifuzz.Util.Atoi

/-!
# FlagMatcher

`CommandLineFlagMatcher::Match` of `util/flag_matcher.cc`, on the arguments from `optind_` on,
and the forms in which it finds a flag.
-/

namespace Silifuzz

namespace Atoi

/-- The characters of a literal. -/
def ascii (text : List Char) : List Char8 := text.map fun c => BitVec.ofNat 8 c.toNat

namespace CString

theorem nonzero_of_all {chars : List Char8} (all : chars.all (· != 0) = true) :
    ∀ c ∈ chars, c ≠ 0 := fun c hc => by simpa using List.all_eq_true.mp all c hc

theorem ext {a b : CString} (same : a.chars = b.chars) : a = b := by
  cases a
  cases b
  cases same
  rfl

/-- The string at a later character. -/
def drop (n : Nat) (str : CString) : CString where
  chars := str.chars.drop n
  nonzero c hc := str.nonzero c (List.mem_of_mem_drop hc)

def append (a b : CString) : CString where
  chars := a.chars ++ b.chars
  nonzero c hc := (List.mem_append.mp hc).elim (a.nonzero c) (b.nonzero c)

end CString

end Atoi

namespace FlagMatcher

open Atoi

inductive ArgumentKind where
  | kNoArgument
  | kRequiredArgument

/-- `optarg_` after a match, which is null for a flag without an argument. -/
abbrev ArgumentKind.Optarg : ArgumentKind → Type
  | kNoArgument => Unit
  | kRequiredArgument => CString

/-- `Match`: what `optarg_` is after it, and the arguments that are left. -/
def matchFlag (flag : CString) (argumentKind : ArgumentKind) :
    List CString → Option (argumentKind.Optarg × List CString)
  | [] => none
  | option :: rest =>
    let flagLen := flag.chars.length
    if option.chars.take 2 ≠ [0x2d, 0x2d] ∨ (option.chars.drop 2).take flagLen ≠ flag.chars then
      none
    else
      let optionTail := option.drop (flagLen + 2)
      let optionTailEmpty := optionTail.chars.isEmpty
      if !optionTailEmpty && optionTail.chars.head? != some 0x3d then none
      else
        match argumentKind with
        | .kNoArgument => some ((), rest)
        | .kRequiredArgument =>
          if optionTailEmpty then
            match rest with
            | [] => none
            | optarg :: rest => some (optarg, rest)
          else some (optionTail.drop 1, rest)

/-! ## The forms of a flag -/

/-- `--flag` and `--flag=value` without an argument, whose value is ignored; `--flag=value` and
`--flag value` with one. -/
inductive Form : ArgumentKind → Type where
  | bare : Form .kNoArgument
  | ignored (value : CString) : Form .kNoArgument
  | equals (value : CString) : Form .kRequiredArgument
  | next (value : CString) : Form .kRequiredArgument

namespace Form

variable {kind : ArgumentKind}

def optarg : {kind : ArgumentKind} → Form kind → kind.Optarg
  | _, bare | _, ignored _ => ()
  | _, equals value | _, next value => value

/-- The text of the value that is given. A flag alone stands for 1. -/
def text : {kind : ArgumentKind} → Form kind → CString
  | _, bare => ⟨[0x31], by decide⟩
  | _, ignored value | _, equals value | _, next value => value

/-- `--flag` -/
def dashed (flag : CString) : CString := CString.append ⟨[0x2d, 0x2d], by decide⟩ flag

/-- `--flag=value` -/
def assigned (flag value : CString) : CString :=
  (dashed flag).append (CString.append ⟨[0x3d], by decide⟩ value)

def args (flag : CString) : {kind : ArgumentKind} → Form kind → List CString
  | _, bare => [dashed flag]
  | _, ignored value | _, equals value => [assigned flag value]
  | _, next value => [dashed flag, value]

end Form

open Form

/-- An option that the flag is the first part of, with what follows it. -/
theorem dashed_append {flag option : CString} (dashes : option.chars.take 2 = [0x2d, 0x2d])
    (begins : (option.chars.drop 2).take flag.chars.length = flag.chars) :
    option = (dashed flag).append (option.drop (flag.chars.length + 2)) := by
  apply CString.ext
  change option.chars = [0x2d, 0x2d] ++ flag.chars ++ option.chars.drop (flag.chars.length + 2)
  calc option.chars
    _ = option.chars.take 2 ++ option.chars.drop 2 := (List.take_append_drop 2 _).symm
    _ = [0x2d, 0x2d] ++ ((option.chars.drop 2).take flag.chars.length ++
        (option.chars.drop 2).drop flag.chars.length) := by rw [dashes, List.take_append_drop]
    _ = [0x2d, 0x2d] ++ flag.chars ++ option.chars.drop (flag.chars.length + 2) := by
      rw [begins, List.drop_drop, List.append_assoc, Nat.add_comm]

theorem append_empty {a b : CString} (empty : b.chars = []) : a.append b = a := by
  apply CString.ext
  change a.chars ++ b.chars = a.chars
  rw [empty, List.append_nil]

/-- **A match is one of the flag's forms** at the front of the arguments. -/
theorem matchFlag_form {flag : CString} {kind : ArgumentKind} {args rest : List CString}
    {optarg : kind.Optarg} (matched : matchFlag flag kind args = some (optarg, rest)) :
    ∃ form : Form kind, form.optarg = optarg ∧ args = form.args flag ++ rest := by
  cases args with
  | nil => cases matched
  | cons option args =>
    simp only [matchFlag] at matched
    split at matched
    · cases matched
    · next begins =>
      obtain ⟨dashes, begins⟩ := not_or.mp begins
      have whole := dashed_append (not_not.mp dashes) (not_not.mp begins)
      generalize option.drop (flag.chars.length + 2) = tail at matched whole
      split at matched
      · cases matched
      · next complete =>
        cases chars : tail.chars with
        | nil =>
          rw [append_empty chars] at whole
          subst whole
          cases kind with
          | kNoArgument =>
            cases matched
            exact ⟨.bare, rfl, rfl⟩
          | kRequiredArgument =>
            simp only [chars, List.isEmpty_nil, if_true] at matched
            cases args with
            | nil => cases matched
            | cons value args =>
              cases matched
              exact ⟨.next optarg, rfl, rfl⟩
        | cons c value =>
          have sign : c = 0x3d := by simpa [chars] using complete
          have equal : tail = CString.append ⟨[0x3d], by decide⟩ (tail.drop 1) := by
            apply CString.ext
            change tail.chars = [0x3d] ++ tail.chars.drop 1
            rw [chars, sign]
            rfl
          have option_eq : option = assigned flag (tail.drop 1) := whole.trans (by
            rw [assigned, ← equal])
          cases kind with
          | kNoArgument =>
            cases matched
            exact ⟨.ignored (tail.drop 1), rfl, by rw [option_eq]; rfl⟩
          | kRequiredArgument =>
            simp only [chars, List.isEmpty_cons, Bool.false_eq_true, if_false] at matched
            cases matched
            exact ⟨.equals (tail.drop 1), rfl, by rw [option_eq]; rfl⟩

end FlagMatcher

end Silifuzz
