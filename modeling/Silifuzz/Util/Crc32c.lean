import Silifuzz.Library.LittleEndian
import Silifuzz.Library.XorLinear

/-!
# CRC32C

`util/crc32c.cc` and `util/crc32c_internal.cc`: a checksum of bytes from a table, one
byte at a time, and the same checksum from the instructions of the processor, in three
streams that are combined by extending each with zero bytes.
-/

namespace Silifuzz

namespace Crc32c

open LittleEndian (Bytes)

set_option maxRecDepth 4000 in
def crctable : Vector (BitVec 32) 256 := #v[
  0x00000000, 0xF26B8303, 0xE13B70F7, 0x1350F3F4, 0xC79A971F, 0x35F1141C, 0x26A1E7E8, 0xD4CA64EB,
  0x8AD958CF, 0x78B2DBCC, 0x6BE22838, 0x9989AB3B, 0x4D43CFD0, 0xBF284CD3, 0xAC78BF27, 0x5E133C24,
  0x105EC76F, 0xE235446C, 0xF165B798, 0x030E349B, 0xD7C45070, 0x25AFD373, 0x36FF2087, 0xC494A384,
  0x9A879FA0, 0x68EC1CA3, 0x7BBCEF57, 0x89D76C54, 0x5D1D08BF, 0xAF768BBC, 0xBC267848, 0x4E4DFB4B,
  0x20BD8EDE, 0xD2D60DDD, 0xC186FE29, 0x33ED7D2A, 0xE72719C1, 0x154C9AC2, 0x061C6936, 0xF477EA35,
  0xAA64D611, 0x580F5512, 0x4B5FA6E6, 0xB93425E5, 0x6DFE410E, 0x9F95C20D, 0x8CC531F9, 0x7EAEB2FA,
  0x30E349B1, 0xC288CAB2, 0xD1D83946, 0x23B3BA45, 0xF779DEAE, 0x05125DAD, 0x1642AE59, 0xE4292D5A,
  0xBA3A117E, 0x4851927D, 0x5B016189, 0xA96AE28A, 0x7DA08661, 0x8FCB0562, 0x9C9BF696, 0x6EF07595,
  0x417B1DBC, 0xB3109EBF, 0xA0406D4B, 0x522BEE48, 0x86E18AA3, 0x748A09A0, 0x67DAFA54, 0x95B17957,
  0xCBA24573, 0x39C9C670, 0x2A993584, 0xD8F2B687, 0x0C38D26C, 0xFE53516F, 0xED03A29B, 0x1F682198,
  0x5125DAD3, 0xA34E59D0, 0xB01EAA24, 0x42752927, 0x96BF4DCC, 0x64D4CECF, 0x77843D3B, 0x85EFBE38,
  0xDBFC821C, 0x2997011F, 0x3AC7F2EB, 0xC8AC71E8, 0x1C661503, 0xEE0D9600, 0xFD5D65F4, 0x0F36E6F7,
  0x61C69362, 0x93AD1061, 0x80FDE395, 0x72966096, 0xA65C047D, 0x5437877E, 0x4767748A, 0xB50CF789,
  0xEB1FCBAD, 0x197448AE, 0x0A24BB5A, 0xF84F3859, 0x2C855CB2, 0xDEEEDFB1, 0xCDBE2C45, 0x3FD5AF46,
  0x7198540D, 0x83F3D70E, 0x90A324FA, 0x62C8A7F9, 0xB602C312, 0x44694011, 0x5739B3E5, 0xA55230E6,
  0xFB410CC2, 0x092A8FC1, 0x1A7A7C35, 0xE811FF36, 0x3CDB9BDD, 0xCEB018DE, 0xDDE0EB2A, 0x2F8B6829,
  0x82F63B78, 0x709DB87B, 0x63CD4B8F, 0x91A6C88C, 0x456CAC67, 0xB7072F64, 0xA457DC90, 0x563C5F93,
  0x082F63B7, 0xFA44E0B4, 0xE9141340, 0x1B7F9043, 0xCFB5F4A8, 0x3DDE77AB, 0x2E8E845F, 0xDCE5075C,
  0x92A8FC17, 0x60C37F14, 0x73938CE0, 0x81F80FE3, 0x55326B08, 0xA759E80B, 0xB4091BFF, 0x466298FC,
  0x1871A4D8, 0xEA1A27DB, 0xF94AD42F, 0x0B21572C, 0xDFEB33C7, 0x2D80B0C4, 0x3ED04330, 0xCCBBC033,
  0xA24BB5A6, 0x502036A5, 0x4370C551, 0xB11B4652, 0x65D122B9, 0x97BAA1BA, 0x84EA524E, 0x7681D14D,
  0x2892ED69, 0xDAF96E6A, 0xC9A99D9E, 0x3BC21E9D, 0xEF087A76, 0x1D63F975, 0x0E330A81, 0xFC588982,
  0xB21572C9, 0x407EF1CA, 0x532E023E, 0xA145813D, 0x758FE5D6, 0x87E466D5, 0x94B49521, 0x66DF1622,
  0x38CC2A06, 0xCAA7A905, 0xD9F75AF1, 0x2B9CD9F2, 0xFF56BD19, 0x0D3D3E1A, 0x1E6DCDEE, 0xEC064EED,
  0xC38D26C4, 0x31E6A5C7, 0x22B65633, 0xD0DDD530, 0x0417B1DB, 0xF67C32D8, 0xE52CC12C, 0x1747422F,
  0x49547E0B, 0xBB3FFD08, 0xA86F0EFC, 0x5A048DFF, 0x8ECEE914, 0x7CA56A17, 0x6FF599E3, 0x9D9E1AE0,
  0xD3D3E1AB, 0x21B862A8, 0x32E8915C, 0xC083125F, 0x144976B4, 0xE622F5B7, 0xF5720643, 0x07198540,
  0x590AB964, 0xAB613A67, 0xB831C993, 0x4A5A4A90, 0x9E902E7B, 0x6CFBAD78, 0x7FAB5E8C, 0x8DC0DD8F,
  0xE330A81A, 0x115B2B19, 0x020BD8ED, 0xF0605BEE, 0x24AA3F05, 0xD6C1BC06, 0xC5914FF2, 0x37FACCF1,
  0x69E9F0D5, 0x9B8273D6, 0x88D28022, 0x7AB90321, 0xAE7367CA, 0x5C18E4C9, 0x4F48173D, 0xBD23943E,
  0xF36E6F75, 0x0105EC76, 0x12551F82, 0xE03E9C81, 0x34F4F86A, 0xC69F7B69, 0xD5CF889D, 0x27A40B9E,
  0x79B737BA, 0x8BDCB4B9, 0x988C474D, 0x6AE7C44E, 0xBE2DA0A5, 0x4C4623A6, 0x5F16D052, 0xAD7D5351]

/-- `(crc ^ data[i]) & 0xff` -/
def tableIndex (crc : BitVec 32) (byte : BitVec 8) : Fin 256 :=
  ⟨((crc ^^^ byte.setWidth 32) &&& 0xff#32).toNat, by
    rw [BitVec.toNat_and]
    exact Nat.lt_of_le_of_lt Nat.and_le_right (by decide)⟩

/-- One turn of the loop of `crc32c_unaccelerated`. -/
def step (crc : BitVec 32) (byte : BitVec 8) : BitVec 32 :=
  crctable[tableIndex crc byte] ^^^ (crc >>> 8)

def crc32cUnaccelerated (seed : BitVec 32) (data : Bytes) : BitVec 32 :=
  data.foldl step (seed ^^^ 0xffffffff#32) ^^^ 0xffffffff#32

/-! ## Zero extension -/

def kBitsPerGroup : Nat := 4

def kNumGroups : Nat := 32 / kBitsPerGroup

def kGroupTableSize : Nat := 1 <<< kBitsPerGroup

/-- `kNumCRC32CZeroExtensionTables`, the bits of a `size_t`. -/
def kNumCRC32CZeroExtensionTables : Nat := 8 * 8

structure CRC32CZeroExtensionTable where
  n : BitVec 64
  table : Vector (Vector (BitVec 32) kGroupTableSize) kNumGroups

namespace CRC32CZeroExtensionTable

/-- `(crc >> (group * kBitsPerGroup)) % kGroupTableSize` -/
def groupIndex (crc : BitVec 32) (group : Fin kNumGroups) : Fin kGroupTableSize :=
  ⟨(crc.toNat >>> (group * kBitsPerGroup)) % kGroupTableSize, Nat.mod_lt _ (by decide)⟩

/-- `idx << (group * kBitsPerGroup)` -/
def groupValue (group : Fin kNumGroups) (idx : Fin kGroupTableSize) : BitVec 32 :=
  BitVec.ofNat 32 (idx.val <<< (group * kBitsPerGroup))

/-- The table of `f (idx << (group * kBitsPerGroup))`. -/
def fill (f : Fin kNumGroups → Fin kGroupTableSize → BitVec 32) :
    Vector (Vector (BitVec 32) kGroupTableSize) kNumGroups :=
  Vector.ofFn fun group => Vector.ofFn fun idx => f group idx

def extend (t : CRC32CZeroExtensionTable) (crc : BitVec 32) : BitVec 32 :=
  (List.finRange kNumGroups).foldl
    (fun zeroExtended group => zeroExtended ^^^ t.table[group][groupIndex crc group]) 0#32

theorem fill_get (f : Fin kNumGroups → Fin kGroupTableSize → BitVec 32) (group : Fin kNumGroups)
    (idx : Fin kGroupTableSize) : (fill f)[group][idx] = f group idx := by
  simp [fill]

def zero : CRC32CZeroExtensionTable where
  n := 0
  table := fill groupValue

def one : CRC32CZeroExtensionTable where
  n := 1
  table := fill fun group idx =>
    crc32cUnaccelerated (groupValue group idx ^^^ 0xffffffff#32) [0] ^^^ 0xffffffff#32

def add (a b : CRC32CZeroExtensionTable) : CRC32CZeroExtensionTable where
  n := a.n + b.n
  table := fill fun group idx => b.extend a.table[group][idx]

end CRC32CZeroExtensionTable

/-- `Tables` of `gen_crc32c_zero_extension_tables.cc`, by repeated doubling. -/
def tables : Nat → CRC32CZeroExtensionTable
  | 0 => .one
  | i + 1 => .add (tables i) (tables i)

def getCRC32CZeroExtensionTableForBit (i : Nat) : CRC32CZeroExtensionTable :=
  tables (i % kNumCRC32CZeroExtensionTables)

/-- The loop of `internal::crc32c_zero_extend` from the bit `i` on. -/
def zeroExtendFrom (i : Nat) (crc : BitVec 32) (n : BitVec 64) : BitVec 32 :=
  if n ≠ 0 ∧ i < kNumCRC32CZeroExtensionTables then
    let bit := 1#64 <<< i
    if n &&& bit ≠ 0 then
      zeroExtendFrom (i + 1) ((getCRC32CZeroExtensionTableForBit i).extend crc) (n &&& ~~~bit)
    else zeroExtendFrom (i + 1) crc n
  else crc
termination_by kNumCRC32CZeroExtensionTables - i

/-- `internal::crc32c_zero_extend` -/
def zeroExtend (crc : BitVec 32) (n : BitVec 64) : BitVec 32 := zeroExtendFrom 0 crc n

/-- `crc32c_zero_extend`, whose values are negated. -/
def crc32cZeroExtend (crc : BitVec 32) (n : BitVec 64) : BitVec 32 :=
  zeroExtend (crc ^^^ 0xffffffff#32) n ^^^ 0xffffffff#32

/-! ## The instructions of the processor -/

structure CRC32CFunctions where
  crc32cUint8 : BitVec 32 → BitVec 8 → BitVec 32
  crc32cUint64 : BitVec 32 → BitVec 64 → BitVec 32

/-- `crc32b` and `crc32q` of SSE4.2: a step for each byte, the lowest byte first. -/
def X86CRC32CFunctions : CRC32CFunctions where
  crc32cUint8 := step
  crc32cUint64 crc value := (LittleEndian.encode 8 value.toNat).foldl step crc

/-- `crc32cb` and `crc32cx` of AArch64 do the same. -/
def ARMCRC32CFunctions : CRC32CFunctions where
  crc32cUint8 := step
  crc32cUint64 crc value := (LittleEndian.encode 8 value.toNat).foldl step crc

/-- Bytes at an address, all of them inside the address space. -/
structure Buffer where
  address : Nat
  bytes : Bytes
  fits : address + bytes.length < 2 ^ 64

namespace Buffer

/-- `data[offset]` -/
def loadUint8 (data : Buffer) (offset : Nat) : Option (BitVec 8) := data.bytes[offset]?

/-- `*reinterpret_cast<const uint64_t*>(data + offset)`: of eight bytes of the buffer, at
an aligned address. -/
def loadUint64 (data : Buffer) (offset : Nat) : Option (BitVec 64) :=
  if (data.address + offset) % 8 = 0 ∧ offset + 8 ≤ data.bytes.length then
    some (BitVec.ofNat 64 (LittleEndian.decode ((data.bytes.drop offset).take 8)))
  else none

end Buffer

section

variable (functions : CRC32CFunctions) (data : Buffer)

def byteTurn (offset : Nat) (value : BitVec 32) (i : Nat) : Option (BitVec 32) := do
  let byte ← data.loadUint8 (offset + i)
  return functions.crc32cUint8 value byte

/-- A loop over `count` single bytes. -/
def byteLoop (offset count : Nat) (value : BitVec 32) : Option (BitVec 32) :=
  (List.range count).foldlM (byteTurn functions data offset) value

def streamTurn (offset blockByteSize : Nat) (values : BitVec 32 × BitVec 32 × BitVec 32)
    (i : Nat) : Option (BitVec 32 × BitVec 32 × BitVec 32) := do
  let (value, value2, value3) := values
  let word ← data.loadUint64 (offset + i * 8)
  let word2 ← data.loadUint64 (offset + blockByteSize + i * 8)
  let word3 ← data.loadUint64 (offset + blockByteSize * 2 + i * 8)
  return (functions.crc32cUint64 value word, functions.crc32cUint64 value2 word2,
    functions.crc32cUint64 value3 word3)

/-- The three streams of `blockSize` words each, one word of each in turn. -/
def streamLoop (offset blockSize : Nat) (value : BitVec 32) :
    Option (BitVec 32 × BitVec 32 × BitVec 32) :=
  (List.range blockSize).foldlM (streamTurn functions data offset (blockSize * 8)) (value, 0, 0)

def kBigBlockSize : Nat := 512

/-- `if (n >= kBigBlockSize)`: the value, and how far the data is done, after the block in
three streams. -/
def bigBlock (offset n : Nat) (value : BitVec 32) : Option (BitVec 32 × Nat × Nat) :=
  if kBigBlockSize ≤ n then do
    let blockSize := n / 8 / 3
    let blockByteSize := blockSize * 8
    let (value, value2, value3) ← streamLoop functions data offset blockSize value
    let value := zeroExtend value (BitVec.ofNat 64 blockByteSize)
    let value := value ^^^ value2
    let value := zeroExtend value (BitVec.ofNat 64 blockByteSize)
    let value := value ^^^ value3
    return (value, offset + blockByteSize * 3, n - blockByteSize * 3)
  else some (value, offset, n)

/-- `while (n >= sizeof(uint64_t))` -/
def wordLoop (offset n : Nat) (value : BitVec 32) : Option (BitVec 32 × Nat × Nat) :=
  if 8 ≤ n then do
    let word ← data.loadUint64 offset
    wordLoop (offset + 8) (n - 8) (functions.crc32cUint64 value word)
  else some (value, offset, n)
termination_by n

/-- The bytes before the first aligned one. -/
def headSize (n : Nat) : Nat :=
  let offsetInQword := data.address % 8
  if offsetInQword ≠ 0 then min n (8 - offsetInQword) else 0

def crc32cAcceleratedImpl (seed : BitVec 32) : Option (BitVec 32) := do
  let value := seed ^^^ 0xffffffff#32
  let n := data.bytes.length
  let bytes := headSize data n
  let value ← byteLoop functions data 0 bytes value
  let (offset, n) := (bytes, n - bytes)
  let (value, offset, n) ← bigBlock functions data offset n value
  let (value, offset, n) ← wordLoop functions data offset n value
  let value ← byteLoop functions data offset n value
  return value ^^^ 0xffffffff#32

end

/-! ## The choice of the implementation -/

inductive Processor where
  | x86
  | aarch64
  | other
  deriving DecidableEq

/-- The processor that runs, and what `HasX86CPUFeature` or `getauxval` report of it. -/
structure Machine where
  processor : Processor
  hasInstruction : Bool

def hasCrc32cAccelerated (machine : Machine) : Bool :=
  match machine.processor with
  | .x86 => machine.hasInstruction
  | .aarch64 => machine.hasInstruction
  | .other => false

def crc32cAccelerated (machine : Machine) (seed : BitVec 32) (data : Buffer) :
    Option (BitVec 32) :=
  match machine.processor with
  | .aarch64 => crc32cAcceleratedImpl ARMCRC32CFunctions data seed
  | .x86 => crc32cAcceleratedImpl X86CRC32CFunctions data seed
  | .other => some (crc32cUnaccelerated seed data.bytes)

/-- The values of `best_crc32c_impl`. -/
inductive Implementation where
  | init
  | accelerated
  | unaccelerated
  deriving DecidableEq

/-- `crc32c`, with the implementation that the next call uses. `crc32c_init` sets it. -/
def crc32c (machine : Machine) (best : Implementation) (seed : BitVec 32) (data : Buffer) :
    Option (BitVec 32) × Implementation :=
  let impl : Implementation := match best with
    | .init => if hasCrc32cAccelerated machine then .accelerated else .unaccelerated
    | _ => best
  match impl with
  | .accelerated => (crc32cAccelerated machine seed data, impl)
  | _ => (some (crc32cUnaccelerated seed data.bytes), impl)

end Crc32c

end Silifuzz
