import Silifuzz.Util.Ucontext.Serialize

/-!
# Writing serialized registers

`SimpleSerialize` of `util/ucontext/simple_serialize.h` and `Serialize` of
`util/reg_checksum.cc`, into buffers that are large enough, and that what they write is
read back.
-/

namespace Silifuzz

open LittleEndian

namespace Serialize

def simpleSerialize (magic : Nat) (src : ByteData) : ByteData :=
  encode 2 magic ++ encode 2 0 ++ List.replicate 4 0 ++ src

def serializeGRegs (arch : Architecture) (gregs : ByteData) : ByteData :=
  simpleSerialize (gRegsMagic arch) gregs

def serializeFPRegs (arch : Architecture) (fpregs : ByteData) : ByteData :=
  simpleSerialize (fpRegsMagic arch) fpregs

theorem length_simpleSerialize (magic : Nat) (src : ByteData) :
    (simpleSerialize magic src).length = kHeaderSize + src.length := by
  simp only [simpleSerialize, List.length_append, length_encode, List.length_replicate,
    kHeaderSize]

theorem simpleDeserialize_simpleSerialize {magic : Nat} (fits : magic < 65536) (src : ByteData) :
    simpleDeserialize magic src.length (simpleSerialize magic src) =
      some (kHeaderSize + src.length, src) := by
  have size := length_simpleSerialize magic src
  have first : (simpleSerialize magic src).take 2 = encode 2 magic := by
    simp [simpleSerialize, encode]
  have second : ((simpleSerialize magic src).drop 2).take 2 = encode 2 0 := by
    simp [simpleSerialize, encode]
  have rest : (simpleSerialize magic src).drop kHeaderSize = src := by
    simp [simpleSerialize, encode, kHeaderSize]
  have zero : decode (encode 2 0) = 0 := rfl
  simp only [simpleDeserialize, first, second, rest, size, decode_encode_of_lt (n := 2) fits, zero]
  rw [if_neg (by omega), if_neg (by simp), if_neg (by simp), if_neg (by omega), List.take_length]

theorem length_simpleDeserialize {magic size consumed : Nat} {src registers : ByteData}
    (h : simpleDeserialize magic size src = some (consumed, registers)) :
    registers.length = size := by
  unfold simpleDeserialize at h
  split_ifs at h with short
  cases h
  rw [List.length_take, List.length_drop]
  omega

/-- What is deserialized is a whole register set. -/
theorem length_deserializeGRegs {arch : Architecture} {src gregs : ByteData}
    (h : deserializeGRegs arch src = some gregs) : gregs.length = gRegSetSize arch := by
  obtain ⟨⟨consumed, read⟩, some, rest⟩ := Option.bind_eq_some_iff.mp h
  obtain ⟨_, -, same⟩ := Option.bind_eq_some_iff.mp rest
  obtain rfl := Option.some.inj same
  exact length_simpleDeserialize some

theorem length_deserializeFPRegs {arch : Architecture} {src fpregs : ByteData}
    (h : deserializeFPRegs arch src = some fpregs) : fpregs.length = fpRegSetSize arch := by
  obtain ⟨⟨consumed, read⟩, some, rest⟩ := Option.bind_eq_some_iff.mp h
  obtain ⟨_, -, same⟩ := Option.bind_eq_some_iff.mp rest
  obtain rfl := Option.some.inj same
  exact length_simpleDeserialize some

/-- The registers that are written are read back. -/
theorem deserializeGRegs_serializeGRegs {arch : Architecture} {gregs : ByteData}
    (size : gregs.length = gRegSetSize arch) :
    deserializeGRegs arch (serializeGRegs arch gregs) = some gregs := by
  have magic : gRegsMagic arch < 65536 := by cases arch <;> decide
  have read := simpleDeserialize_simpleSerialize magic gregs
  rw [size] at read
  simp [deserializeGRegs, serializeGRegs, read, length_simpleSerialize, size]

theorem deserializeFPRegs_serializeFPRegs {arch : Architecture} {fpregs : ByteData}
    (size : fpregs.length = fpRegSetSize arch) :
    deserializeFPRegs arch (serializeFPRegs arch fpregs) = some fpregs := by
  have magic : fpRegsMagic arch < 65536 := by cases arch <;> decide
  have read := simpleDeserialize_simpleSerialize magic fpregs
  rw [size] at read
  simp [deserializeFPRegs, serializeFPRegs, read, length_simpleSerialize, size]

end Serialize

/-- `RegisterChecksum`; a `RegisterGroupSet` is its bits. -/
structure RegisterChecksum where
  registerGroups : BitVec 64
  checksum : BitVec 64
  deriving DecidableEq, Repr

namespace RegisterChecksum

/-- `Serialize` -/
def serialize (arch : Architecture) (src : RegisterChecksum) : ByteData :=
  [0x52, 0x43, BitVec.ofNat 8 arch.toInt, 0, 0, 0, 0, 0] ++
    encode 8 src.registerGroups.toNat ++ encode 8 src.checksum.toNat

/-- `Deserialize`, of which the caller also sees how many bytes were read. -/
def deserialize (arch : Architecture) (src : ByteData) : Option (Nat × RegisterChecksum) :=
  if src.length < 24 then none
  else if src.take 2 ≠ [0x52, 0x43] then none
  else if (src.getD 2 0).toNat ≠ arch.toInt then none
  else if src.getD 3 0 ≠ 0 then none
  else some (24, ⟨BitVec.ofNat 64 (decode ((src.drop 8).take 8)),
    BitVec.ofNat 64 (decode ((src.drop 16).take 8))⟩)

theorem length_serialize (arch : Architecture) (src : RegisterChecksum) :
    (serialize arch src).length = 24 := by
  simp [serialize]

/-- The checksum that is written is read back. -/
theorem deserialize_serialize (arch : Architecture) (src : RegisterChecksum) :
    deserialize arch (serialize arch src) = some (24, src) := by
  have groups : ((serialize arch src).drop 8).take 8 = encode 8 src.registerGroups.toNat := by
    simp [serialize]
  have checksum : ((serialize arch src).drop 16).take 8 = encode 8 src.checksum.toNat := by
    simp [serialize]
  have name : ((serialize arch src).getD 2 0).toNat = arch.toInt := by
    cases arch <;> rfl
  rw [deserialize, length_serialize, groups, checksum, name]
  rw [if_neg (by decide), if_neg (by simp [serialize]), if_neg (by simp),
    if_neg (by simp [serialize]), decode_encode_of_lt (n := 8) src.registerGroups.isLt,
    decode_encode_of_lt (n := 8) src.checksum.isLt]
  simp

end RegisterChecksum

end Silifuzz
