import Silifuzz.Util.TextProtoPrinter

/-!
# The buffer of TextProtoPrinter::Bytes

The loop of `Bytes` with each of its writes to the local buffer, and when all of them are
inside it.
-/

namespace Silifuzz

open TextFormat

namespace TextProtoPrinter

/-- Where the next character goes, and what has been written at which offset of `buf`. -/
structure Escaping where
  ptr : Nat
  writes : List (Nat × Char)
  deriving DecidableEq

/-- `*ptr++ = c` -/
def Escaping.put (s : Escaping) (c : Char) : Escaping := ⟨s.ptr + 1, s.writes ++ [(s.ptr, c)]⟩

/-- The body of the loop, for one byte. -/
def Escaping.turn (s : Escaping) (c : Byte) : Escaping :=
  let char := Char.ofNat c.toNat
  if charLen c = 1 then s.put char
  else if charLen c = 2 then
    if char = '\n' then (s.put '\\').put 'n'
    else if char = '\r' then (s.put '\\').put 'r'
    else if char = '\t' then (s.put '\\').put 't'
    else if char = '"' then (s.put '\\').put '"'
    else if char = '\'' then (s.put '\\').put '\''
    else if char = '\\' then (s.put '\\').put '\\'
    else s
  else
    (((s.put '\\').put 'x').put (hexDigit ((c &&& 0xF0) >>> 4).toNat)).put
      (hexDigit (c &&& 0xF).toNat)

/-- The first `n` bytes at `value`. -/
def firstBytes (value : Nat → Byte) (n : Int) : List Byte := (List.range n.toNat).map value

/-- The writes of `Bytes` to its buffer, the terminating zero last; none is the `LOG_FATAL`. -/
def bytesWrites (value : Nat → Byte) (n : Int) : Option (List (Nat × Char)) :=
  if n > kMaxBytesFieldCapacity then none
  else
    let s := (firstBytes value n).foldl Escaping.turn ⟨0, []⟩
    some (s.writes ++ [(s.ptr, '\x00')])

/-- A text from the offset `ptr` on. -/
def written : Nat → Text → List (Nat × Char)
  | _, [] => []
  | ptr, c :: text => (ptr, c) :: written (ptr + 1) text

theorem mem_written {ptr : Nat} {text : Text} {w : Nat × Char} (h : w ∈ written ptr text) :
    ptr ≤ w.1 ∧ w.1 < ptr + text.length := by
  induction text generalizing ptr with
  | nil => cases h
  | cons c text ih =>
    rw [List.length_cons]
    rcases List.mem_cons.mp h with rfl | h
    · exact ⟨le_rfl, by omega⟩
    · have bounds := ih h
      omega

theorem foldl_put (s : Escaping) (text : Text) :
    text.foldl Escaping.put s = ⟨s.ptr + text.length, s.writes ++ written s.ptr text⟩ := by
  induction text generalizing s with
  | nil => simp [written]
  | cons c text ih =>
    rw [List.foldl_cons, ih]
    simp only [Escaping.put, written, List.length_cons, List.append_assoc, List.singleton_append]
    congr 1
    omega

/-- The characters that the `switch` knows are those of two characters. -/
theorem charLen_two_cases {c : Byte} (h : charLen c = 2) :
    Char.ofNat c.toNat = '\n' ∨ Char.ofNat c.toNat = '\r' ∨ Char.ofNat c.toNat = '\t' ∨
      Char.ofNat c.toNat = '"' ∨ Char.ofNat c.toNat = '\'' ∨ Char.ofNat c.toNat = '\\' := by
  have all : ∀ n < 256, charLen (BitVec.ofNat 8 n) = 2 → Char.ofNat n = '\n' ∨ Char.ofNat n = '\r' ∨
      Char.ofNat n = '\t' ∨ Char.ofNat n = '"' ∨ Char.ofNat n = '\'' ∨ Char.ofNat n = '\\' := by
    decide +kernel
  apply all c.toNat c.isLt
  rwa [BitVec.ofNat_toNat, BitVec.setWidth_eq]

theorem nibbles (c : Byte) :
    ((c &&& 0xF0) >>> 4).toNat = c.toNat / 16 ∧ (c &&& 0xF).toNat = c.toNat % 16 := by
  have all : ∀ n < 256, ((BitVec.ofNat 8 n &&& 0xF0) >>> 4).toNat = n / 16 ∧
      (BitVec.ofNat 8 n &&& 0xF).toNat = n % 16 := by
    decide +kernel
  have this := all c.toNat c.isLt
  rwa [BitVec.ofNat_toNat, BitVec.setWidth_eq] at this

/-- A turn puts down the escaped byte. -/
theorem turn_eq (s : Escaping) (c : Byte) : s.turn c = (escape c).foldl Escaping.put s := by
  unfold Escaping.turn escape
  by_cases one : charLen c = 1
  · simp only [if_pos one, List.foldl_cons, List.foldl_nil]
  · by_cases two : charLen c = 2
    · simp only [if_neg one, if_pos two, List.foldl_cons, List.foldl_nil, escapedChar]
      rcases charLen_two_cases two with char | char | char | char | char | char <;> rw [char] <;> rfl
    · obtain ⟨high, low⟩ := nibbles c
      simp only [if_neg one, if_neg two, List.foldl_cons, List.foldl_nil, high, low]

theorem foldl_turn (s : Escaping) (value : List Byte) :
    value.foldl Escaping.turn s = (value.flatMap escape).foldl Escaping.put s := by
  induction value generalizing s with
  | nil => rfl
  | cons c value ih => rw [List.foldl_cons, ih, turn_eq, List.flatMap_cons, List.foldl_append]

/-- **The writes are the escaped text from the start of the buffer on**, and a zero. -/
theorem bytesWrites_eq {value : Nat → Byte} {n : Int} (accepted : n ≤ kMaxBytesFieldCapacity) :
    bytesWrites value n = some (written 0 ((firstBytes value n).flatMap escape) ++
      [(escapedLength (firstBytes value n), '\x00')]) := by
  rw [bytesWrites, if_neg (by omega)]
  simp only [foldl_turn, foldl_put, length_escaped, List.nil_append, Nat.zero_add]

/-- **The writes that an accepted field takes are in the buffer exactly if the escaped text is
shorter than the buffer.** -/
theorem bytesWrites_inside (value : Nat → Byte) (n : Int) :
    (∀ writes, bytesWrites value n = some writes → ∀ w ∈ writes, w.1 < kMaxBytesFieldCapacity) ↔
      n > kMaxBytesFieldCapacity ∨ BytesFit (firstBytes value n) := by
  by_cases accepted : n ≤ kMaxBytesFieldCapacity
  · rw [bytesWrites_eq accepted]
    constructor
    · intro inside
      right
      exact inside _ rfl _ (List.mem_append_right _ (List.mem_singleton_self _))
    · rintro (refused | fits)
      · omega
      · rintro writes ⟨⟩ w member
        unfold BytesFit at fits
        rcases List.mem_append.mp member with escaped | zero
        · have bounds := mem_written escaped
          rw [length_escaped] at bounds
          omega
        · rw [List.mem_singleton.mp zero]
          exact fits
  · constructor
    · intro _
      left
      omega
    · intro _ writes run
      rw [bytesWrites, if_pos (by omega)] at run
      cases run

/-- More than a page of zeros is accepted, and written past the end of the buffer. -/
theorem bytesWrites_zeros : ∃ writes, bytesWrites (fun _ => 0) 4097 = some writes ∧
    ∃ w ∈ writes, ¬ w.1 < kMaxBytesFieldCapacity := by
  have zeros : firstBytes (fun _ => 0) 4097 = List.replicate 4097 0 := by
    rw [firstBytes, List.map_const', List.length_range]
    rfl
  have length : escapedLength (List.replicate 4097 0) = 16388 := by
    rw [escapedLength, List.map_replicate, List.sum_replicate_nat]
    rfl
  refine ⟨_, bytesWrites_eq (by decide), _,
    List.mem_append_right _ (List.mem_singleton_self _), ?_⟩
  rw [zeros, length]
  decide

theorem written_text (ptr : Nat) (text : Text) : (written ptr text).map Prod.snd = text := by
  induction text generalizing ptr with
  | nil => rfl
  | cons c text ih => rw [written, List.map_cons, ih]

/-- What is printed is what is in the buffer before the zero. -/
theorem bytes_prints_writes (p : TextProtoPrinter) (fieldName : String) {value : Nat → Byte}
    {n : Int} {writes : List (Nat × Char)} (run : bytesWrites value n = some writes)
    (inside : ∀ w ∈ writes, w.1 < kMaxBytesFieldCapacity) :
    p.bytes fieldName (firstBytes value n) = (do
      let p ← p.print fieldName.toList
      let p ← p.print ":'".toList
      let p ← p.print (writes.dropLast.map Prod.snd)
      p.print "' ".toList) := by
  have accepted : n ≤ kMaxBytesFieldCapacity := by
    by_contra refused
    rw [bytesWrites, if_pos (by omega)] at run
    cases run
  rw [bytesWrites_eq accepted] at run
  cases run
  have fits : escapedLength (firstBytes value n) < kMaxBytesFieldCapacity :=
    inside _ (List.mem_append_right _ (List.mem_singleton_self _))
  have bounds := escapedLength_bounds (firstBytes value n)
  rw [List.dropLast_concat, written_text, bytes, length_escaped, if_neg (by omega),
    if_neg (by omega)]

end TextProtoPrinter

end Silifuzz
