import Silifuzz.Common.MappedMemoryMap

/-!
# MemoryMapping

A range of addresses with permissions (`common/memory_mapping.cc`). What the
factories require is part of the value: a mapping has bytes, ends by
`kMaxAddress` and its permissions are `Permission` bits without `kMapped`. A
factory that is called without this gives `none`.
-/

namespace Silifuzz

def kMaxAddress : Address := 2 ^ 64 - 1

structure MemoryMapping where
  startAddress : Address
  numBytes : Nat
  perms : MemoryPerms
  nonempty : 0 < numBytes
  bounded : startAddress + numBytes ≤ kMaxAddress
  proper : perms.Proper
  unmapped : perms.has .kMapped = false
  deriving DecidableEq

namespace MemoryMapping

def limitAddress (m : MemoryMapping) : Address := m.startAddress + m.numBytes

def makeSized (start : Address) (numBytes : Nat) (perms : MemoryPerms) : Option MemoryMapping :=
  if h : 0 < numBytes ∧ start + numBytes ≤ kMaxAddress ∧ perms.Proper ∧
      perms.has .kMapped = false then
    some ⟨start, numBytes, perms, h.1, h.2.1, h.2.2.1, h.2.2.2⟩
  else none

def makeRanged (start limit : Address) (perms : MemoryPerms) : Option MemoryMapping :=
  makeSized start (limit - start) perms

def setPerms (m : MemoryMapping) (perms : MemoryPerms) : Option MemoryMapping :=
  makeSized m.startAddress m.numBytes perms

theorem page_nonempty : 0 < 0x1000 := by decide

theorem firstPage_bounded : 0x1000 + 0x1000 ≤ kMaxAddress := by decide

/-- The first page that is not reserved. -/
theorem freePage_bounded : 0x20000 + 0x1000 ≤ kMaxAddress := by decide

theorem start_lt_limit (m : MemoryMapping) : m.startAddress < m.limitAddress :=
  Nat.lt_add_of_pos_right m.nonempty

/-- The mapping has the address `k`. -/
def Covers (m : MemoryMapping) (k : Address) : Prop := m.startAddress ≤ k ∧ k < m.limitAddress

instance (m : MemoryMapping) (k : Address) : Decidable (m.Covers k) :=
  inferInstanceAs (Decidable (_ ∧ _))

/-- No address is in both mappings. -/
def Disjoint (m n : MemoryMapping) : Prop :=
  m.limitAddress ≤ n.startAddress ∨ n.limitAddress ≤ m.startAddress

theorem Disjoint.symm {m n : MemoryMapping} (h : m.Disjoint n) : n.Disjoint m := Or.symm h

theorem Disjoint.covers {m n : MemoryMapping} (h : m.Disjoint n) {k : Address}
    (hm : m.Covers k) : ¬ n.Covers k := by
  obtain ⟨hs, hl⟩ := hm
  rintro ⟨hs', hl'⟩
  rcases h with h | h <;> order

theorem makeRanged_some {start limit : Address} {perms : MemoryPerms} (h : start < limit)
    (bounded : limit ≤ kMaxAddress) (proper : perms.Proper)
    (unmapped : perms.has .kMapped = false) :
    ∃ m, makeRanged start limit perms = some m ∧ m.startAddress = start ∧
      m.limitAddress = limit ∧ m.perms = perms := by
  have pos : 0 < limit - start := Nat.sub_pos_of_lt h
  have sum : start + (limit - start) = limit := Nat.add_sub_cancel' h.le
  have fits : start + (limit - start) ≤ kMaxAddress := sum.le.trans bounded
  exact ⟨⟨start, limit - start, perms, pos, fits, proper, unmapped⟩,
    dif_pos ⟨pos, fits, proper, unmapped⟩, rfl, sum, rfl⟩

theorem makeRanged_ends {start limit : Address} {perms : MemoryPerms} {m : MemoryMapping}
    (h : makeRanged start limit perms = some m) :
    m.startAddress = start ∧ m.limitAddress = limit := by
  simp only [makeRanged, makeSized] at h
  split at h
  · next ok =>
    obtain rfl := Option.some.inj h
    refine ⟨rfl, ?_⟩
    simp only [limitAddress]
    lia
  · cases h

end MemoryMapping

/-- `MappingAt`: the entry that holds the address, without `kMapped`. -/
def MappedMemoryMap.mappingAt (m : MappedMemoryMap) (address : Address) : Option MemoryMapping := do
  let i ← RangeMap.findAt m.rep address
  MemoryMapping.makeRanged i.start i.limit (i.value.clear (.of .kMapped))

end Silifuzz
