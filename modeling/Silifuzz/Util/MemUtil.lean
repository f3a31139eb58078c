import Mathlib.Data.Nat.Basic
import Silifuzz.Library.LittleEndian

/-!
# Memory utilities

`util/mem_util.cc`: comparing, setting and copying memory, eight bytes at a time where the
addresses and the size are aligned, and byte by byte elsewhere. Every word has its lowest
byte first.
-/

namespace Silifuzz

namespace MemUtil

open LittleEndian (Bytes encode decode)

abbrev Memory := Nat → BitVec 8

namespace Memory

def store (memory : Memory) (address : Nat) (byte : BitVec 8) : Memory :=
  fun a => if a = address then byte else memory a

def storeBytes (memory : Memory) (address : Nat) : Bytes → Memory
  | [] => memory
  | byte :: bytes => storeBytes (memory.store address byte) (address + 1) bytes

def loadBytes (memory : Memory) (address n : Nat) : Bytes :=
  (List.range n).map fun i => memory (address + i)

def loadUint64 (memory : Memory) (address : Nat) : BitVec 64 :=
  BitVec.ofNat 64 (decode (memory.loadBytes address 8))

def storeUint64 (memory : Memory) (address : Nat) (value : BitVec 64) : Memory :=
  memory.storeBytes address (encode 8 value.toNat)

end Memory

/-- `c * 0x0101010101010101ULL` -/
def replicateByte (c : BitVec 8) : BitVec 64 := c.setWidth 64 * 0x0101010101010101#64

def memAllEqualToImpl (compareWithZero : Bool) (memory : Memory) (src : Nat) (c : BitVec 8)
    (n : Nat) : Bool :=
  let c := if compareWithZero then 0 else c
  if src % 8 = 0 ∧ n % 8 = 0 then
    let numU64s := n / 8
    let cU64 := replicateByte c
    let diff := (List.range numU64s).foldl
      (fun diff i => diff ||| (memory.loadUint64 (src + 8 * i) ^^^ cU64)) 0#64
    diff == 0#64
  else
    (List.range n).all fun i => memory (src + i) == c

def memAllEqualTo (memory : Memory) (src : Nat) (c : BitVec 8) (n : Nat) : Bool :=
  if c = 0 then memAllEqualToImpl true memory src 0 n
  else memAllEqualToImpl false memory src c n

def memCopy (memory : Memory) (dest src n : Nat) : Memory :=
  if dest % 8 ≠ 0 ∨ src % 8 ≠ 0 ∨ n % 8 ≠ 0 then
    (List.range n).foldl (fun memory i => memory.store (dest + i) (memory (src + i))) memory
  else
    let numU64s := n / 8
    (List.range numU64s).foldl
      (fun memory i => memory.storeUint64 (dest + 8 * i) (memory.loadUint64 (src + 8 * i))) memory

def memSet (memory : Memory) (dest : Nat) (c : BitVec 8) (n : Nat) : Memory :=
  if dest % 8 ≠ 0 ∨ n % 8 ≠ 0 then
    (List.range n).foldl (fun memory i => memory.store (dest + i) c) memory
  else
    let numU64s := n / 8
    let cU64 := replicateByte c
    (List.range numU64s).foldl (fun memory i => memory.storeUint64 (dest + 8 * i) cU64) memory

/-- Zero if the bytes are the same. -/
def bcmp (memory : Memory) (s1 s2 n : Nat) : Int :=
  if memory.loadBytes s1 n = memory.loadBytes s2 n then 0 else 1

def memEq (memory : Memory) (s1 s2 n : Nat) : Bool :=
  if s1 % 8 ≠ 0 ∨ s2 % 8 ≠ 0 ∨ n % 8 ≠ 0 then
    bcmp memory s1 s2 n == 0
  else
    let numU64s := n / 8
    let diff := (List.range numU64s).foldl
      (fun diff i => diff |||
        (memory.loadUint64 (s1 + 8 * i) ^^^ memory.loadUint64 (s2 + 8 * i))) 0#64
    diff == 0#64

/-! ## Bytes one by one -/

/-- Memory with the byte in all of `[dest, dest + n)`. -/
def filled (memory : Memory) (dest : Nat) (c : BitVec 8) (n : Nat) : Memory :=
  fun a => if dest ≤ a ∧ a < dest + n then c else memory a

/-- Memory with the bytes of `[src, src + n)` in `[dest, dest + n)`. -/
def copied (memory : Memory) (dest src n : Nat) : Memory :=
  fun a => if dest ≤ a ∧ a < dest + n then memory (src + (a - dest)) else memory a

/-- The bytes copied one after the other, the first one first. -/
def copyBytes (memory : Memory) (dest src : Nat) : Nat → Memory
  | 0 => memory
  | n + 1 =>
    let memory := copyBytes memory dest src n
    memory.store (dest + n) (memory (src + n))

/-! ## Words -/

section

variable {memory : Memory}

@[simp] theorem length_loadBytes (address n : Nat) :
    (memory.loadBytes address n).length = n := by
  rw [Memory.loadBytes, List.length_map, List.length_range]

theorem loadBytes_succ (address n : Nat) :
    memory.loadBytes address (n + 1) = memory.loadBytes address n ++ [memory (address + n)] := by
  rw [Memory.loadBytes, List.range_succ, List.map_append]
  rfl

theorem loadBytes_eq_iff {memory' : Memory} {address address' n : Nat} :
    memory.loadBytes address n = memory'.loadBytes address' n ↔
      ∀ i < n, memory (address + i) = memory' (address' + i) := by
  rw [Memory.loadBytes, Memory.loadBytes, List.map_inj_left]
  simp only [List.mem_range]

theorem toNat_loadUint64 (address : Nat) :
    (memory.loadUint64 address).toNat = decode (memory.loadBytes address 8) := by
  have bound : decode (memory.loadBytes address 8) < 2 ^ 64 := by
    have bound := LittleEndian.decode_lt (memory.loadBytes address 8)
    rwa [length_loadBytes] at bound
  rw [Memory.loadUint64, BitVec.toNat_ofNat, Nat.mod_eq_of_lt bound]

/-- A word is its bytes. -/
theorem encode_loadUint64 (address : Nat) :
    encode 8 (memory.loadUint64 address).toNat = memory.loadBytes address 8 := by
  have back := LittleEndian.encode_decode (memory.loadBytes address 8)
  rwa [length_loadBytes, ← toNat_loadUint64] at back

theorem encode_replicateByte (c : BitVec 8) :
    encode 8 (replicateByte c).toNat = List.replicate 8 c := by
  have word : (replicateByte c).toNat = decode (List.replicate 8 c) := by
    have bound := c.isLt
    rw [replicateByte, BitVec.toNat_mul, BitVec.toNat_setWidth]
    simp only [List.replicate, decode, BitVec.toNat_ofNat]
    omega
  have back := LittleEndian.encode_decode (List.replicate 8 c)
  rwa [List.length_replicate, ← word] at back

theorem word_eq_iff {v w : BitVec 64} : v = w ↔ encode 8 v.toNat = encode 8 w.toNat := by
  constructor
  · exact fun same => same ▸ rfl
  · intro same
    apply BitVec.eq_of_toNat_eq
    rw [← LittleEndian.decode_encode_of_lt (n := 8) v.isLt, same,
      LittleEndian.decode_encode_of_lt w.isLt]

theorem loadUint64_eq_iff {address address' : Nat} :
    memory.loadUint64 address = memory.loadUint64 address' ↔
      ∀ j < 8, memory (address + j) = memory (address' + j) := by
  rw [word_eq_iff, encode_loadUint64, encode_loadUint64, loadBytes_eq_iff]

theorem loadUint64_eq_replicateByte {address : Nat} {c : BitVec 8} :
    memory.loadUint64 address = replicateByte c ↔ ∀ j < 8, memory (address + j) = c := by
  have constant : List.replicate 8 c = Memory.loadBytes (fun _ => c) 0 8 := by
    rw [Memory.loadBytes, List.map_const', List.length_range]
  rw [word_eq_iff, encode_loadUint64, encode_replicateByte, constant, loadBytes_eq_iff]

/-- What holds of all bytes of every word holds of all bytes. -/
theorem forall_words {P : Nat → Prop} {n : Nat} (aligned : n % 8 = 0) :
    (∀ i < n / 8, ∀ j < 8, P (8 * i + j)) ↔ ∀ i < n, P i := by
  constructor
  · intro words i inside
    have at_word := words (i / 8) (by omega) (i % 8) (Nat.mod_lt i (by decide))
    rwa [Nat.div_add_mod] at at_word
  · intro bytes i inside j small
    exact bytes (8 * i + j) (by omega)

/-- The differences are collected until the end. -/
theorem diff_eq_zero {l : List Nat} {f g : Nat → BitVec 64} {start : BitVec 64} :
    l.foldl (fun diff i => diff ||| (f i ^^^ g i)) start = 0#64 ↔
      start = 0#64 ∧ ∀ i ∈ l, f i = g i := by
  induction l generalizing start with
  | nil => simp
  | cons i l ih =>
    rw [List.foldl_cons, ih, List.forall_mem_cons, BitVec.or_eq_zero_iff,
      BitVec.xor_eq_zero_iff, and_assoc]

/-- The words are the same as the bytes are. -/
theorem words_eq_iff {n : Nat} (aligned : n % 8 = 0) {f g : Nat → BitVec 64}
    {P : Nat → Prop} (word : ∀ i, f i = g i ↔ ∀ j < 8, P (8 * i + j)) :
    (((List.range (n / 8)).foldl (fun diff i => diff ||| (f i ^^^ g i)) 0#64) == 0#64) = true ↔
      ∀ i < n, P i := by
  rw [beq_iff_eq, diff_eq_zero, ← forall_words aligned]
  simp only [true_and, List.mem_range, word]

/-! ## The comparisons -/

theorem memAllEqualToImpl_iff (compareWithZero : Bool) {src : Nat} {c : BitVec 8} {n : Nat}
    (zero : compareWithZero = true → c = 0) :
    memAllEqualToImpl compareWithZero memory src c n = true ↔ ∀ i < n, memory (src + i) = c := by
  have value : (if compareWithZero then 0 else c) = c := by
    cases compareWithZero with
    | false => rfl
    | true => exact (zero rfl).symm
  rw [memAllEqualToImpl]
  simp only [value]
  split
  · rename_i aligned
    apply words_eq_iff (P := fun i => memory (src + i) = c) aligned.2
    intro i
    rw [loadUint64_eq_replicateByte]
    simp only [Nat.add_assoc]
  · simp only [List.all_eq_true, List.mem_range, beq_iff_eq]

theorem memAllEqualTo_iff (memory : Memory) (src : Nat) (c : BitVec 8) (n : Nat) :
    memAllEqualTo memory src c n = true ↔ ∀ i < n, memory (src + i) = c := by
  rw [memAllEqualTo]
  split
  · rename_i zero
    rw [zero]
    exact memAllEqualToImpl_iff true fun _ => rfl
  · exact memAllEqualToImpl_iff false fun impossible => by cases impossible

theorem memEq_iff (memory : Memory) (s1 s2 n : Nat) :
    memEq memory s1 s2 n = true ↔ ∀ i < n, memory (s1 + i) = memory (s2 + i) := by
  rw [memEq]
  split
  · rw [bcmp, ← loadBytes_eq_iff]
    split
    · rename_i same
      simp only [same, beq_self_eq_true]
    · rename_i different
      simp only [different, iff_false]
      decide
  · rename_i aligned
    apply words_eq_iff (P := fun i => memory (s1 + i) = memory (s2 + i)) (by omega)
    intro i
    rw [loadUint64_eq_iff]
    simp only [Nat.add_assoc]

/-! ## The writers -/

theorem storeBytes_append (address : Nat) (bytes : Bytes) (byte : BitVec 8) :
    memory.storeBytes address (bytes ++ [byte]) =
      (memory.storeBytes address bytes).store (address + bytes.length) byte := by
  induction bytes generalizing memory address with
  | nil => rfl
  | cons first bytes ih =>
    rw [List.cons_append, Memory.storeBytes, ih, List.length_cons, Nat.add_assoc,
      Nat.add_comm 1]
    rfl

/-- Bytes that are not written are as they were. -/
theorem storeBytes_frame {address a : Nat} {bytes : Bytes}
    (outside : a < address ∨ address + bytes.length ≤ a) :
    memory.storeBytes address bytes a = memory a := by
  induction bytes generalizing memory address with
  | nil => rfl
  | cons byte bytes ih =>
    rw [List.length_cons] at outside
    rw [Memory.storeBytes, ih (by omega), Memory.store, if_neg (by omega)]

theorem filled_succ (dest : Nat) (c : BitVec 8) (n : Nat) :
    filled memory dest c (n + 1) = (filled memory dest c n).store (dest + n) c := by
  funext a
  simp only [filled, Memory.store]
  split <;> split <;> grind

/-- A word of the byte is eight bytes of it. -/
theorem filled_add (dest : Nat) (c : BitVec 8) (n k : Nat) :
    (filled memory dest c n).storeBytes (dest + n) (List.replicate k c) =
      filled memory dest c (n + k) := by
  induction k with
  | zero => rfl
  | succ k ih =>
    rw [List.replicate_succ', storeBytes_append, ih, List.length_replicate, Nat.add_assoc,
      ← Nat.add_assoc n, filled_succ]

theorem memSet_eq (memory : Memory) (dest : Nat) (c : BitVec 8) (n : Nat) :
    memSet memory dest c n = filled memory dest c n := by
  have none : filled memory dest c 0 = memory := by
    funext a
    rw [filled, if_neg (by omega)]
  have bytes (k : Nat) : (List.range k).foldl (fun memory i => memory.store (dest + i) c) memory =
      filled memory dest c k := by
    induction k with
    | zero => exact none.symm
    | succ k ih => rw [List.range_succ, List.foldl_concat, ih, filled_succ]
  have words (k : Nat) : (List.range k).foldl
      (fun memory i => memory.storeUint64 (dest + 8 * i) (replicateByte c)) memory =
      filled memory dest c (8 * k) := by
    induction k with
    | zero => exact none.symm
    | succ k ih =>
      rw [List.range_succ, List.foldl_concat, ih, Memory.storeUint64, encode_replicateByte,
        filled_add, Nat.mul_succ]
  rw [memSet]
  split
  · exact bytes n
  · rename_i aligned
    have whole : 8 * (n / 8) = n := by omega
    rw [← whole]
    simp only [Nat.mul_div_cancel_left _ (show 0 < 8 by decide)]
    exact words (n / 8)

/-- The bytes of a word are read before any of them is written, which makes no difference
where a byte is not written before it is read. -/
theorem copyBytes_add {dest src : Nat} (n k : Nat)
    (apart : dest ≤ src ∨ src + k ≤ dest) :
    (copyBytes memory dest src n).storeBytes (dest + n)
        ((copyBytes memory dest src n).loadBytes (src + n) k) =
      copyBytes memory dest src (n + k) := by
  induction k with
  | zero => rfl
  | succ k ih =>
    have before := ih (by omega)
    have unread : copyBytes memory dest src (n + k) (src + (n + k)) =
        copyBytes memory dest src n (src + n + k) := by
      rw [← before, ← Nat.add_assoc]
      apply storeBytes_frame
      rw [length_loadBytes]
      omega
    rw [loadBytes_succ, storeBytes_append, before, length_loadBytes, ← unread,
      Nat.add_assoc dest]
    rfl

/-- The copy by words is the copy byte by byte, also where the ranges overlap. -/
theorem memCopy_eq (memory : Memory) (dest src n : Nat) :
    memCopy memory dest src n = copyBytes memory dest src n := by
  have bytes (k : Nat) : (List.range k).foldl
      (fun memory i => memory.store (dest + i) (memory (src + i))) memory =
      copyBytes memory dest src k := by
    induction k with
    | zero => rfl
    | succ k ih =>
      rw [List.range_succ, List.foldl_concat, ih]
      rfl
  have words (aligned : dest % 8 = 0 ∧ src % 8 = 0) (k : Nat) : (List.range k).foldl
      (fun memory i => memory.storeUint64 (dest + 8 * i) (memory.loadUint64 (src + 8 * i)))
      memory = copyBytes memory dest src (8 * k) := by
    induction k with
    | zero => rfl
    | succ k ih =>
      rw [List.range_succ, List.foldl_concat, ih, Memory.storeUint64, encode_loadUint64,
        copyBytes_add _ _ (by omega), Nat.mul_succ]
  rw [memCopy]
  split
  · exact bytes n
  · rename_i aligned
    have whole : 8 * (n / 8) = n := by omega
    have copy := words (by omega) (n / 8)
    rwa [whole] at copy

theorem copyBytes_eq {dest src n : Nat} (apart : src + n ≤ dest ∨ dest + n ≤ src) :
    copyBytes memory dest src n = copied memory dest src n := by
  induction n with
  | zero =>
    funext a
    rw [copied, if_neg (by omega)]
    rfl
  | succ n ih =>
    rw [copyBytes, ih (by omega)]
    funext a
    simp only [copied, Memory.store]
    split
    · rename_i last
      rw [if_neg (by omega), if_pos (by omega), last, Nat.add_sub_cancel_left]
    · rename_i other
      split
      · rw [if_pos (by omega)]
      · rw [if_neg (by omega)]

end

/-- **The functions by words do what the bytes say**: the comparisons find whether all bytes
match, and the writers leave exactly the bytes that they are given. A copy between ranges
that overlap is the copy byte by byte. -/
theorem memUtil_exact :
    (∀ memory src c n, memAllEqualTo memory src c n = true ↔
      ∀ i < n, memory (src + i) = c) ∧
    (∀ memory s1 s2 n, memEq memory s1 s2 n = true ↔
      ∀ i < n, memory (s1 + i) = memory (s2 + i)) ∧
    (∀ memory dest c n, memSet memory dest c n = filled memory dest c n) ∧
    (∀ memory dest src n, memCopy memory dest src n = copyBytes memory dest src n) ∧
    (∀ memory dest src n, (src + n ≤ dest ∨ dest + n ≤ src) →
      memCopy memory dest src n = copied memory dest src n) := by
  constructor
  · exact memAllEqualTo_iff
  constructor
  · exact memEq_iff
  constructor
  · exact memSet_eq
  constructor
  · exact memCopy_eq
  · intro memory dest src n apart
    rw [memCopy_eq, copyBytes_eq apart]

/-- Two words of a memory in which every byte is its address. -/
theorem memUtil_exact_words :
    memCopy (BitVec.ofNat 8) 64 8 16 = copied (BitVec.ofNat 8) 64 8 16 :=
  memUtil_exact.2.2.2.2 (BitVec.ofNat 8) 64 8 16 (.inl (by decide))

end MemUtil

end Silifuzz
