import Silifuzz.Common.RawInsnsUtil

/-!
# Instructions that come back

What an accepted call of `InstructionsToSnapshot` leaves, and that the instructions of its
snapshot are the code that it was given.
-/

namespace Silifuzz

open Checked Serialize SnapshotMemory Loops

variable {f : PermsMap} {start limit : Address} {p : MemoryPerms}

/-- A range with more permissions. -/
theorem PermsMap.Mapped.add (hf : f.Mapped) (proper : p.Proper) (unmapped : p.has .kMapped = false)
    (nonempty : p ≠ .none) (bounded : limit ≤ kMaxAddress) : (f.add start limit p).Mapped where
  proper := hf.proper.add proper
  unmapped k q hq := by
    simp only [PermsMap.add] at hq
    split at hq
    · obtain rfl := Option.some.inj hq
      rw [MemoryPerms.has_add, unmapped, Bool.or_false]
      cases old : f k with
      | none => rfl
      | some q => exact hf.unmapped k q old
    · exact hf.unmapped k q hq
  nonempty k q hq := by
    simp only [PermsMap.add] at hq
    split at hq
    · obtain rfl := Option.some.inj hq
      exact fun none => nonempty (MemoryPerms.add_eq_none.mp none).2
    · exact hf.nonempty k q hq
  bounded k hk := by
    simp only [PermsMap.add] at hk
    split at hk
    · next inside => exact inside.2.trans_le bounded
    · exact hf.bounded k hk

/-- Bytes with the same permissions everywhere are a normal list. -/
theorem normal_singleton {b : MemoryBytes} (uniform : ∀ k, b.Covers k → f k = some p) :
    Normal f [b] where
  ordered := List.pairwise_singleton _ _
  uniform c hc := by
    obtain rfl := List.mem_singleton.mp hc
    exact ⟨p.clear (.of .kMapped), fun k hk => by rw [chunkPerms, uniform k hk, Option.map_some]⟩
  apart := List.pairwise_singleton _ _

theorem normalizeBytes_singleton {m : MappedMemoryMap} (hm : m.Represents f) (mapped : f.Mapped)
    {b : MemoryBytes} (uniform : ∀ k, b.Covers k → f k = some p) :
    normalizeBytes m [b] = some [b] := by
  have placed : Placed f [b] :=
    ⟨List.pairwise_singleton _ _, fun c hc k hk => by
      obtain rfl := List.mem_singleton.mp hc
      rw [uniform k hk, Option.isSome_some]⟩
  obtain ⟨l, run, normal⟩ := normalizeBytes_normalizes hm mapped placed
  have contents := contents_bytesIn placed.disjoint
  rw [run, normal_unique normal.normal (normal_singleton uniform) (normal.contents contents)
    contents]

namespace RawInsns

theorem dcheckStatus_bind {α : Type} {debug : Bool} {status : Checked Unit} {f : Unit → Checked α}
    {a : α} (run : dcheckStatus debug status >>= f = .ok a) : f () = .ok a := by
  obtain ⟨_, _, run⟩ := bind_eq_ok.mp run
  exact run

variable {arch : Architecture} {code : ByteData} {uctx : UContext arch} {config : FuzzingConfig}

/-- The first address of the stack. -/
def stackStart (uctx : UContext arch) (config : FuzzingConfig) : Address :=
  (stackPointer arch uctx.gregs + 2 ^ 64 - stackSize arch config) % 2 ^ 64

/-- The permissions of the code page and of the stack. -/
def permsOf (uctx : UContext arch) (config : FuzzingConfig) : PermsMap :=
  (PermsMap.empty.add (instructionPointer arch uctx.gregs)
    (instructionPointer arch uctx.gregs + kPageSize) .xr).add (stackStart uctx config)
      (stackStart uctx config + stackSize arch config) .rw

/-- What an accepted call has checked, and the snapshot it leaves. -/
structure Made (code : ByteData) (uctx : UContext arch) (config : FuzzingConfig) (s : Snapshot) :
    Prop where
  fits : code.length ≤ kPageSize - exitSequenceSize arch
  aligned : instructionPointer arch uctx.gregs % kPageSize = 0
  stackAligned : stackPointer arch uctx.gregs % kPageSize = 0
  codeLimit : instructionPointer arch uctx.gregs + kPageSize ≤ kMaxAddress
  stackLimit : stackStart uctx config + stackSize arch config ≤ kMaxAddress
  architecture : s.architecture = arch
  mapped : s.mappedMemoryMap.Represents (permsOf uctx config)
  negative : s.negativeMappedMemoryMap = .empty
  bytes : ∃ b pad, s.memoryBytes = [b] ∧ b.startAddress = instructionPointer arch uctx.gregs ∧
    b.byteValues = code ++ pad ∧ b.byteValues.length = kPageSize
  registers : s.registers = some (convertRegsToSnapshot arch uctx.gregs uctx.fpregs)
  states : s.expectedEndStates = [.new (.kInstruction
    (instructionPointer arch uctx.gregs + code.length)) ⟨[], []⟩]

theorem padToSizeWithTraps_eq_ok {targetSize : Nat} {padded : ByteData}
    (run : padToSizeWithTraps arch code targetSize = .ok padded) :
    ∃ pad, padded = code ++ pad ∧ padded.length = targetSize := by
  unfold padToSizeWithTraps at run
  split at run
  · cases run
  · next fits =>
    have sum : code.length + (targetSize - code.length) = targetSize := by lia
    cases arch with
    | kX86_64 =>
      obtain rfl := Except.ok.inj run
      exact ⟨_, rfl, by rw [List.length_append, List.length_replicate, sum]⟩
    | kAArch64 =>
      simp only at run
      split at run
      · cases run
      · obtain rfl := Except.ok.inj run
        exact ⟨_, rfl, by rw [List.length_append, List.length_replicate, sum]⟩

theorem makeSized_eq_some {numBytes : Nat} {m : MemoryMapping}
    (run : MemoryMapping.makeSized start numBytes p = some m) :
    m.startAddress = start ∧ m.limitAddress = start + numBytes ∧ m.perms = p ∧
      start + numBytes ≤ kMaxAddress := by
  unfold MemoryMapping.makeSized at run
  split at run
  · next ok =>
    obtain rfl := Option.some.inj run
    exact ⟨rfl, rfl, rfl, ok.2.1⟩
  · cases run

theorem make_eq_some {bytes : ByteData} {b : MemoryBytes}
    (run : MemoryBytes.make start bytes = some b) :
    b.startAddress = start ∧ b.byteValues = bytes := by
  unfold MemoryBytes.make at run
  split at run
  · obtain rfl := Option.some.inj run
    exact ⟨rfl, rfl⟩
  · cases run

/-- A mapping that is added, whatever was there. -/
theorem checkedAddMemoryMapping_eq_ok {debug : Bool} {s t : Snapshot} {x : MemoryMapping}
    (hs : s.mappedMemoryMap.Represents f)
    (run : s.checkedAddMemoryMapping debug x = .ok t) :
    ∃ m, m.Represents (f.add x.startAddress x.limitAddress x.perms) ∧
      t = { s with mappedMemoryMap := m, memoryMappings := s.memoryMappings ++ [x] } := by
  have run := dcheckStatus_bind run
  obtain ⟨memory, added, run⟩ := bind_eq_ok.mp run
  obtain ⟨m, add, hm⟩ := hs.add_represents x.start_lt_limit x.perms
  have made := orAbort_eq_ok.mp added
  simp only [addMemoryMapping, MappedMemoryMap.addNew, add, Option.bind_eq_bind,
    Option.bind_some, Option.pure_def, Option.some.injEq] at made
  subst made
  exact ⟨m, hm, (Except.ok.inj run).symm⟩

theorem checkedAddMemoryBytes_eq_ok {debug : Bool} {s t : Snapshot} {x : MemoryBytes}
    (run : s.checkedAddMemoryBytes debug x = .ok t) :
    ∃ w, t = { s with writtenMemorySet := w, memoryBytes := s.memoryBytes ++ [x] } := by
  have run := dcheckStatus_bind run
  obtain ⟨memory, added, run⟩ := bind_eq_ok.mp run
  obtain ⟨w, _, made⟩ := Option.bind_eq_some_iff.mp (orAbort_eq_ok.mp added)
  obtain rfl := Option.some.inj made
  exact ⟨w, (Except.ok.inj run).symm⟩

theorem checkedSetRegisters_eq_ok {debug : Bool} {s t : Snapshot} {x : RegisterState}
    (run : s.checkedSetRegisters debug x = .ok t) : t = { s with registers := some x } := by
  obtain ⟨set, made, run⟩ := bind_eq_ok.mp run
  have run := dcheckStatus_bind run
  obtain rfl := Except.ok.inj run
  unfold Snapshot.setRegisters at made
  split at made
  · exact (Except.ok.inj made).symm
  · cases made

/-- Every accepted call. -/
theorem instructionsToSnapshot_made {debug : Bool} {s : Snapshot}
    (run : instructionsToSnapshot debug arch code uctx config = .ok s) :
    Made code uctx config s := by
  obtain ⟨_, _, run⟩ := bind_eq_ok.mp run
  obtain ⟨_, fits, run⟩ := bind_eq_ok.mp run
  obtain ⟨_, aligned, run⟩ := bind_eq_ok.mp run
  obtain ⟨_, _, run⟩ := bind_eq_ok.mp run
  obtain ⟨_, _, run⟩ := bind_eq_ok.mp run
  obtain ⟨codePage, madeCode, run⟩ := bind_eq_ok.mp run
  obtain ⟨s₁, added₁, run⟩ := bind_eq_ok.mp run
  obtain ⟨padded, padding, run⟩ := bind_eq_ok.mp run
  obtain ⟨b, madeBytes, run⟩ := bind_eq_ok.mp run
  obtain ⟨s₂, added₂, run⟩ := bind_eq_ok.mp run
  obtain ⟨_, stackAligned, run⟩ := bind_eq_ok.mp run
  obtain ⟨_, _, run⟩ := bind_eq_ok.mp run
  obtain ⟨dataPage, madeData, run⟩ := bind_eq_ok.mp run
  obtain ⟨s₃, added₃, run⟩ := bind_eq_ok.mp run
  obtain ⟨s₄, added₄, run⟩ := bind_eq_ok.mp run
  have last := dcheckStatus_bind run
  obtain ⟨codeStart, codeEnd, codePerms, codeLimit⟩ := makeSized_eq_some (orAbort_eq_ok.mp madeCode)
  obtain ⟨dataStart, dataEnd, dataPerms, dataLimit⟩ := makeSized_eq_some (orAbort_eq_ok.mp madeData)
  obtain ⟨pad, rfl, size⟩ := padToSizeWithTraps_eq_ok padding
  obtain ⟨bytesStart, values⟩ := make_eq_some (orAbort_eq_ok.mp madeBytes)
  have empty : (Snapshot.new arch unsetId).mappedMemoryMap.Represents PermsMap.empty :=
    MappedMemoryMap.empty_represents
  obtain ⟨m₁, mapped₁, rfl⟩ := checkedAddMemoryMapping_eq_ok empty added₁
  obtain ⟨w, rfl⟩ := checkedAddMemoryBytes_eq_ok added₂
  obtain ⟨m₃, mapped₃, rfl⟩ := checkedAddMemoryMapping_eq_ok mapped₁ added₃
  obtain rfl := checkedSetRegisters_eq_ok added₄
  obtain rfl := Except.ok.inj last
  have fits : code.length ≤ kPageSize - exitSequenceSize arch := by simpa using fits
  rw [codeStart, codeEnd, codePerms, dataStart, dataEnd, dataPerms] at mapped₃
  exact {
    fits := fits
    aligned := by simpa [isPageAligned] using aligned
    stackAligned := by simpa [isPageAligned] using stackAligned
    codeLimit := codeLimit
    stackLimit := dataLimit
    architecture := rfl
    mapped := mapped₃
    negative := rfl
    bytes := ⟨b, pad, rfl, bytesStart, values, by rw [values, size]⟩
    registers := rfl
    states := by
      have small : kMaxAddress < 2 ^ 64 := by decide
      have inside : instructionPointer arch uctx.gregs + code.length < 2 ^ 64 := by lia
      simp only [Snapshot.addExpectedEndState, Snapshot.new, List.nil_append,
        Nat.mod_eq_of_lt inside] }

/-- The stack is beside the code page, or it has whole pages. -/
def StackApart (uctx : UContext arch) (config : FuzzingConfig) : Prop :=
  stackStart uctx config + stackSize arch config ≤ instructionPointer arch uctx.gregs ∨
    instructionPointer arch uctx.gregs + kPageSize ≤ stackStart uctx config ∨
    stackSize arch config % kPageSize = 0

/-- Whole pages at aligned addresses are the same or disjoint. -/
theorem page_apart {ip stack size : Nat} (aligned : ip % kPageSize = 0)
    (stackAligned : stack % kPageSize = 0) (pages : size % kPageSize = 0) :
    stack + size ≤ ip ∨ ip + kPageSize ≤ stack ∨ (stack ≤ ip ∧ ip + kPageSize ≤ stack + size) := by
  simp only [kPageSize] at *
  omega

/-- Whole pages below an aligned address, in arithmetic of 64 bits. -/
theorem below_aligned {stack size : Nat} (aligned : stack % kPageSize = 0)
    (pages : size % kPageSize = 0) : (stack + 2 ^ 64 - size) % 2 ^ 64 % kPageSize = 0 := by
  simp only [kPageSize] at *
  omega

namespace Made

variable {s : Snapshot}

theorem permsOf_mapped (made : Made code uctx config s) : (permsOf uctx config).Mapped := by
  have empty : PermsMap.empty.Mapped := Describes.nil.mapped
  have codePage : (PermsMap.empty.add (instructionPointer arch uctx.gregs)
      (instructionPointer arch uctx.gregs + kPageSize) .xr).Mapped :=
    empty.add (by decide) (by decide) (by decide) made.codeLimit
  exact codePage.add (by decide) (by decide) (by decide) made.stackLimit

/-- The code page has the same permissions everywhere. -/
theorem uniform (made : Made code uctx config s) (apart : StackApart uctx config) :
    ∃ p, ∀ k, instructionPointer arch uctx.gregs ≤ k →
      k < instructionPointer arch uctx.gregs + kPageSize → permsOf uctx config k = some p := by
  have cases : stackStart uctx config + stackSize arch config ≤ instructionPointer arch uctx.gregs ∨
      instructionPointer arch uctx.gregs + kPageSize ≤ stackStart uctx config ∨
      (stackStart uctx config ≤ instructionPointer arch uctx.gregs ∧
        instructionPointer arch uctx.gregs + kPageSize ≤
          stackStart uctx config + stackSize arch config) := by
    rcases apart with before | after | pages
    · exact .inl before
    · exact .inr (.inl after)
    · apply page_apart made.aligned _ pages
      exact below_aligned made.stackAligned pages
  rcases cases with before | after | ⟨low, high⟩
  · refine ⟨MemoryPerms.none.add .xr, fun k first last => ?_⟩
    rw [permsOf, PermsMap.add_outside (by lia), PermsMap.add_inside ⟨first, last⟩]
    rfl
  · refine ⟨MemoryPerms.none.add .xr, fun k first last => ?_⟩
    rw [permsOf, PermsMap.add_outside (by lia), PermsMap.add_inside ⟨first, last⟩]
    rfl
  · refine ⟨(MemoryPerms.none.add .xr).add .rw, fun k first last => ?_⟩
    rw [permsOf, PermsMap.add_inside ⟨low.trans first, last.trans_le high⟩,
      PermsMap.add_inside ⟨first, last⟩]
    rfl

/-- The page of code is in normal form. -/
theorem normal (made : Made code uctx config s) (apart : StackApart uctx config) :
    normalizeBytes s.mappedMemoryMap s.memoryBytes = some s.memoryBytes := by
  obtain ⟨b, pad, bytes, start, values, size⟩ := made.bytes
  obtain ⟨p, uniform⟩ := made.uniform apart
  rw [bytes]
  apply normalizeBytes_singleton made.mapped made.permsOf_mapped
  intro k hk
  have last := hk.2
  rw [MemoryBytes.limitAddress, start, size] at last
  exact uniform k (start ▸ hk.1) last

/-- **The instructions of the snapshot are the code.** -/
theorem instructions (made : Made code uctx config s) (apart : StackApart uctx config)
    (debug : Bool) : getInstructionBytesFromSnapshot debug s = .ok code := by
  obtain ⟨b, pad, bytes, start, values, size⟩ := made.bytes
  have ip : s.extractRip (convertRegsToSnapshot arch uctx.gregs uctx.fpregs) =
      some (instructionPointer arch uctx.gregs) := by
    have some : (serializeGRegs arch uctx.gregs).isEmpty = false := by
      simp [serializeGRegs, simpleSerialize, LittleEndian.encode]
    simp only [extractRip, convertRegsToSnapshot, some, made.architecture,
      deserializeGRegs_serializeGRegs uctx.gregsSize, Bool.false_eq_true, if_false, Option.map_some]
  have address : (Endpoint.kInstruction (instructionPointer arch uctx.gregs + code.length)
      ).checkedInstructionAddress debug = .ok (instructionPointer arch uctx.gregs + code.length) := by
    cases debug <;> rfl
  have fits := made.fits
  have inside : code.length ≤ kPageSize := fits.trans (Nat.sub_le _ _)
  have last : instructionPointer arch uctx.gregs + code.length ≤ b.limitAddress := by
    rw [MemoryBytes.limitAddress, start, size]
    lia
  have normal := made.normal apart
  rw [bytes] at normal
  have all : [EndState.new (.kInstruction (instructionPointer arch uctx.gregs + code.length))
      ⟨[], []⟩].forM (checkEndCode debug (instructionPointer arch uctx.gregs + code.length)) =
        .ok () := by
    rw [forM_eq_ok]
    intro es hes
    rw [List.mem_singleton.mp hes]
    simp only [checkEndCode, EndState.new, address, ok_bind, decide_true, ensure, if_true]
  have matched : [b].find? (fun bytes =>
      decide (bytes.startAddress ≤ instructionPointer arch uctx.gregs) &&
        decide (instructionPointer arch uctx.gregs + code.length ≤ bytes.limitAddress)) = some b :=
    List.find?_cons_of_pos (by simp [start, last])
  simp only [EndState.new] at all
  simp only [getInstructionBytesFromSnapshot, made.registers, made.states, bytes, normal, ip,
    orAbort, ok_bind, EndState.new, address]
  rw [if_neg (by lia)]
  simp only [all, pure_ok, ok_bind, matched, start, values, Nat.sub_self, List.drop_zero,
    Nat.add_sub_cancel_left, List.take_left]

/-- The end state has no bytes. -/
theorem memory_fixed (made : Made code uctx config s) (apart : StackApart uctx config) :
    s.normalizeMemoryBytes = some s := by
  apply Snapshot.normalizeMemoryBytes_fixed (made.normal apart)
  intro e he
  rw [made.states, List.mem_singleton] at he
  rw [he]
  rfl

/-- Normalizing gives new lists of mappings, and leaves the rest as it is. -/
theorem normalizeAll (made : Made code uctx config s) (apart : StackApart uctx config) :
    ∃ a, s.normalizeAll = some a ∧ Made code uctx config a := by
  obtain ⟨l, sorted, _⟩ := sorted_describes made.mapped made.permsOf_mapped
  have negative : sortedMemoryMappingList s.negativeMappedMemoryMap = some [] := by
    rw [made.negative]
    rfl
  have made' : Made code uctx config
      { s with memoryMappings := l, negativeMemoryMappings := [] } :=
    { made with }
  refine ⟨_, ?_, made'⟩
  simp only [Snapshot.normalizeAll, normalizeMemoryMappings, sorted, negative,
    Option.bind_eq_bind, Option.bind_some, Option.pure_def]
  exact made'.memory_fixed apart

end Made

/-- **The instructions of an accepted snapshot are the code that it was made of, before and
after normalizing.** -/
theorem instructionsToSnapshot_roundTrip {debug : Bool} {s : Snapshot}
    (run : instructionsToSnapshot debug arch code uctx config = .ok s)
    (apart : StackApart uctx config) (reading : Bool) :
    getInstructionBytesFromSnapshot reading s = .ok code ∧
    (∃ n, s.normalizeMemoryBytes = some n ∧
      getInstructionBytesFromSnapshot reading n = .ok code) ∧
    ∃ a, s.normalizeAll = some a ∧ getInstructionBytesFromSnapshot reading a = .ok code := by
  have made := instructionsToSnapshot_made run
  obtain ⟨a, all, again⟩ := made.normalizeAll apart
  have before := made.instructions apart reading
  exact ⟨before, ⟨s, made.memory_fixed apart, before⟩, a, all, again.instructions apart reading⟩

/-- A context at the start of the code range, with a page of stack. -/
def firstPage : UContext .kX86_64 where
  gregs := List.replicate 120 0 ++ LittleEndian.encode 8 0x11000 ++
    LittleEndian.encode 8 0x30000000 ++ List.replicate 40 0
  fpregs := List.replicate 512 0
  gregsSize := by decide +kernel
  fpregsSize := Serialize.zero_fpregs_size

/-- The range is not read for x86. -/
def noStackRange : FuzzingConfig := ⟨⟨0, 0⟩, {}⟩

theorem firstPage_accepted :
    (instructionsToSnapshot true .kX86_64 [0x90] firstPage noStackRange).toBool = true := by
  decide +kernel

/-- One instruction, in a debug build. -/
theorem instructionsToSnapshot_roundTrip_nop : ∃ s,
    instructionsToSnapshot true .kX86_64 [0x90] firstPage noStackRange = .ok s ∧
    getInstructionBytesFromSnapshot true s = .ok [0x90] ∧
    (∃ n, s.normalizeMemoryBytes = some n ∧
      getInstructionBytesFromSnapshot true n = .ok [0x90]) ∧
    ∃ a, s.normalizeAll = some a ∧ getInstructionBytesFromSnapshot true a = .ok [0x90] := by
  have accepted := firstPage_accepted
  cases run : instructionsToSnapshot true .kX86_64 [0x90] firstPage noStackRange with
  | error e =>
    rw [run] at accepted
    cases accepted
  | ok s =>
    have pages : stackSize .kX86_64 noStackRange % kPageSize = 0 := by decide
    exact ⟨s, rfl, instructionsToSnapshot_roundTrip run (.inr (.inr pages)) true⟩

end RawInsns

end Silifuzz
