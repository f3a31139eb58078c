import Silifuzz.Snap.Gen.RelocatableSnapGenerator
import Mathlib.Data.List.Pairwise

/-!
# The two passes of the generator

The generation pass makes the same allocations as the layout pass, in blocks of the same sizes,
and takes the same data for duplicates: what is written in between changes neither the sizes nor
the maps. So each block fits into the part of the main block that was set aside for it.
-/

namespace Silifuzz

open LittleEndian Images Triples Crc32c

/-! ## Allocations -/

namespace RelocatableDataBlock

variable {block block' : RelocatableDataBlock} {size alignment offset : Nat}

/-- The block after an allocation that ends at `limit`. -/
def grown (block : RelocatableDataBlock) (limit alignment : Nat) : RelocatableDataBlock :=
  { block with size := limit, requiredAlignment := max block.requiredAlignment alignment }

structure Allocates (block : RelocatableDataBlock) (size alignment offset : Nat)
    (block' : RelocatableDataBlock) : Prop where
  power : alignment &&& (alignment - 1) = 0
  placed : offset = alignedOffset block.size alignment
  fits : ∀ contents, block.contents = some contents → offset + size ≤ block.maxContentsSize
  grown : block' = block.grown (offset + size) alignment

theorem check_ok {c : Prop} [Decidable c] (h : checkCondition c = .ok ()) : c := by
  by_cases holds : c
  · exact holds
  · rw [checkCondition, if_neg holds] at h
    cases h

theorem check_true {c : Prop} [Decidable c] (h : c) : checkCondition c = .ok () := if_pos h

theorem checkCapacity_ok {limit : Nat} (h : block.checkCapacity limit = .ok ()) :
    ∀ contents, block.contents = some contents → limit ≤ block.maxContentsSize := by
  intro contents is
  unfold checkCapacity at h
  rw [is] at h
  exact check_ok h

theorem except_bind_ok {α β ε : Type} {x : Except ε α} {f : α → Except ε β} {b : β}
    (h : (x >>= f) = .ok b) : ∃ a, x = .ok a ∧ f a = .ok b := by
  cases x with
  | error e => cases h
  | ok a => exact ⟨a, rfl, h⟩

theorem allocate_ok (h : block.allocate size alignment = .ok (offset, block')) :
    block.Allocates size alignment offset block' := by
  obtain ⟨⟨⟩, power, rest⟩ := except_bind_ok h
  obtain ⟨⟨⟩, capacity, rest⟩ := except_bind_ok rest
  cases rest
  exact ⟨check_ok power, rfl, checkCapacity_ok capacity, rfl⟩

/-- Without a content buffer, only the alignment is checked. -/
theorem allocate_bare (power : alignment &&& (alignment - 1) = 0) (bare : block.contents = none) :
    block.allocate size alignment =
      .ok (alignedOffset block.size alignment,
        block.grown (alignedOffset block.size alignment + size) alignment) := by
  have capacity (limit : Nat) : block.checkCapacity limit = .ok () := by
    unfold checkCapacity
    rw [bare]
  have run : block.allocate size alignment =
      (block.checkCapacity (alignedOffset block.size alignment + size)).bind fun _ =>
        .ok (alignedOffset block.size alignment,
          block.grown (alignedOffset block.size alignment + size) alignment) := by
    rw [allocate, check_true power]
    rfl
  rw [run, capacity]
  rfl

theorem loadAddressAt_ok {address : Nat} (h : block.loadAddressAt offset = .ok address) :
    ∃ base, block.loadAddress = some base ∧ offset ≤ block.size ∧ address = base + offset := by
  unfold loadAddressAt at h
  cases is : block.loadAddress with
  | none =>
    rw [is] at h
    cases h
  | some base =>
    rw [is] at h
    obtain ⟨⟨⟩, inside, rest⟩ := except_bind_ok h
    cases rest
    exact ⟨base, rfl, check_ok inside, rfl⟩

theorem contentsAt_ok {address : Nat} (h : block.contentsAt offset = .ok address) :
    ∃ base, block.contents = some base ∧ offset ≤ block.maxContentsSize ∧
      address = base + offset := by
  unfold contentsAt at h
  cases is : block.contents with
  | none =>
    rw [is] at h
    cases h
  | some base =>
    rw [is] at h
    obtain ⟨⟨⟩, inside, rest⟩ := except_bind_ok h
    cases rest
    exact ⟨base, rfl, check_ok inside, rfl⟩

end RelocatableDataBlock

namespace Traversal

open RelocatableDataBlock

/-! ## Writing only writes -/

def push (t : Traversal) (new : List (Nat × ByteData)) : Traversal :=
  { t with stores := t.stores ++ new }

@[simp] theorem push_nil (t : Traversal) : t.push [] = t := by
  rw [push, List.append_nil]

@[simp] theorem push_push (t : Traversal) (new new' : List (Nat × ByteData)) :
    (t.push new).push new' = t.push (new ++ new') := by
  simp only [push, List.append_assoc]

theorem get_bind_run {α : Type} (f : Traversal → Traverse α) (t : Traversal) :
    (get >>= f) t = f t t := rfl

/-- A run of the program only stores to the content buffer. -/
def OnlyStores {α : Type} (x : Traverse α) : Prop :=
  ∀ t a t', x t = .ok (a, t') → ∃ new, t' = t.push new

section

variable {α β : Type}

theorem onlyStores_pure (a : α) : OnlyStores (pure a) := by
  intro t b t' run
  cases run
  exact ⟨[], (push_nil t).symm⟩

theorem onlyStores_get : OnlyStores (get : Traverse Traversal) := by
  intro t b t' run
  cases run
  exact ⟨[], (push_nil t).symm⟩

theorem onlyStores_lift (x : Except CheckFailure α) : OnlyStores (liftM x : Traverse α) := by
  intro t b t' run
  obtain ⟨-, rfl⟩ := lift_ok run
  exact ⟨[], (push_nil t').symm⟩

theorem onlyStores_bind {x : Traverse α} {f : α → Traverse β} (hx : OnlyStores x)
    (hf : ∀ a, OnlyStores (f a)) : OnlyStores (x >>= f) := by
  intro t b t' run
  obtain ⟨a, t₁, first, rest⟩ := bind_ok run
  obtain ⟨new, rfl⟩ := hx t a t₁ first
  obtain ⟨new', rfl⟩ := hf a _ b t' rest
  exact ⟨new ++ new', push_push t new new'⟩

theorem onlyStores_store (offset : Nat) (bytes : ByteData) : OnlyStores (store offset bytes) := by
  intro t a t' run
  cases run
  exact ⟨[(offset, bytes)], rfl⟩

theorem onlyStores_forM {l : List α} {f : α → Traverse Unit} (hf : ∀ a, OnlyStores (f a)) :
    OnlyStores (l.forM f) := by
  induction l with
  | nil => exact onlyStores_pure ()
  | cons a l ih => exact onlyStores_bind (hf a) fun _ => ih

end

/-! ### What is written -/

/-- The numbers in the fields of a struct, by the offset of the struct, and offset and size of
each field. -/
def fields (offset : Nat) (l : List (Nat × Nat × Nat)) : List (Nat × ByteData) :=
  l.map fun (field, size, v) => (offset + field, encode size v)

/-- The content buffer has the reference at the offset. -/
def Ref.Contents (t : Traversal) (ref : Ref) (offset : Nat) : Prop :=
  ∃ base, (t.blocks ref.block).contents = some base ∧
    ref.byteOffset ≤ (t.blocks ref.block).maxContentsSize ∧ offset = base + ref.byteOffset

/-- The address of the reference in the corpus. -/
def Ref.Loads (t : Traversal) (ref : Ref) (address : Nat) : Prop :=
  ∃ base, (t.blocks ref.block).loadAddress = some base ∧
    ref.byteOffset ≤ (t.blocks ref.block).size ∧ address = base + ref.byteOffset

section

variable {t t' : Traversal} {ref : Ref} {type : CType} {offset : Nat} {u : Unit}

theorem contents_ok (run : ref.contents t = .ok (offset, t')) : ref.Contents t offset ∧ t' = t := by
  obtain ⟨_, t₁, first, rest⟩ := bind_ok run
  cases first
  obtain ⟨read, rfl⟩ := lift_ok rest
  exact ⟨contentsAt_ok read, rfl⟩

theorem loadAddress_ok (run : ref.loadAddress t = .ok (offset, t')) :
    ref.Loads t offset ∧ t' = t := by
  obtain ⟨_, t₁, first, rest⟩ := bind_ok run
  cases first
  obtain ⟨read, rfl⟩ := lift_ok rest
  exact ⟨loadAddressAt_ok read, rfl⟩

theorem contentsAsPointerOf_ok (run : ref.contentsAsPointerOf type t = .ok (offset, t')) :
    ref.Contents t offset ∧ offset % type.align = 0 ∧ t' = t := by
  obtain ⟨o, t₁, first, rest⟩ := bind_ok run
  obtain ⟨placed, rfl⟩ := contents_ok first
  obtain ⟨u, t₂, checked, rest'⟩ := bind_ok rest
  obtain ⟨aligned, rfl⟩ := lift_ok checked
  cases rest'
  exact ⟨placed, check_ok aligned, rfl⟩

theorem plus_ok {ref' : Ref} {addend : Nat} (run : ref.plus addend t = .ok (ref', t')) :
    ref' = ⟨ref.block, ref.byteOffset + addend⟩ ∧ t' = t := by
  obtain ⟨u, t₁, first, rest⟩ := bind_ok run
  obtain ⟨-, rfl⟩ := lift_ok first
  cases rest
  exact ⟨rfl, rfl⟩

theorem storeArray_run (offset size elements : Nat) (t : Traversal) :
    storeArray offset size elements t =
      .ok ((), t.push (fields offset [(0, 8, size), (8, 8, elements)])) := by
  rw [fields, List.map_cons, List.map_singleton, ← List.singleton_append, ← push_push]
  rfl

def byteRunFields (b : MemoryBytes) : List (Nat × Nat × Nat) :=
  [(0, 8, b.startAddress), (8, 1, Offset.SnapMemoryBytes.kRepeating),
    (16, 1, (b.byteValues.headD 0).toNat), (24, 8, b.byteValues.length)]

theorem storeByteRun_ok {b : MemoryBytes} (run : storeByteRun b ref t = .ok (u, t')) :
    ∃ o, ref.Contents t o ∧ o % 8 = 0 ∧ t' = t.push (fields o (byteRunFields b)) := by
  obtain ⟨o, t₁, first, rest⟩ := bind_ok run
  obtain ⟨placed, aligned, rfl⟩ := contentsAsPointerOf_ok first
  cases rest
  refine ⟨o, placed, aligned, ?_⟩
  simp only [push, fields, byteRunFields, List.map_cons, List.map_nil, List.append_assoc]
  rfl

def byteValuesFields (b : MemoryBytes) (elements : Nat) : List (Nat × Nat × Nat) :=
  [(0, 8, b.startAddress), (8, 1, 0), (16, 8, b.byteValues.length), (24, 8, elements)]

theorem storeByteValues_ok {b : MemoryBytes} {elements : Ref}
    (run : storeByteValues b ref elements t = .ok (u, t')) :
    ∃ o e, ref.Contents t o ∧ o % 8 = 0 ∧ elements.Loads t e ∧
      t' = t.push (fields o (byteValuesFields b e)) := by
  obtain ⟨o, t₁, first, rest⟩ := bind_ok run
  obtain ⟨placed, aligned, rfl⟩ := contentsAsPointerOf_ok first
  obtain ⟨e, t₂, second, rest'⟩ := bind_ok rest
  obtain ⟨loads, rfl⟩ := loadAddress_ok second
  cases rest'
  refine ⟨o, e, placed, aligned, loads, ?_⟩
  simp only [push, fields, byteValuesFields, List.map_cons, List.map_nil, List.append_assoc]
  rfl

def memoryMappingFields (mapping : MemoryMapping) (l : List MemoryBytes) (elements : Nat) :
    List (Nat × Nat × Nat) :=
  [(0, 8, mapping.startAddress), (8, 8, mapping.numBytes), (16, 4, mapping.perms.toMProtect),
    (20, 4, (memoryChecksum l).toNat), (24, 8, l.length), (32, 8, elements)]

theorem storeMemoryMapping_ok {mapping : MemoryMapping} {l : List MemoryBytes} {elements : Ref}
    (run : storeMemoryMapping mapping l ref elements t = .ok (u, t')) :
    ∃ o e, ref.Contents t o ∧ o % 8 = 0 ∧ elements.Loads t e ∧
      t' = t.push (fields o (memoryMappingFields mapping l e)) := by
  obtain ⟨o, t₁, first, rest⟩ := bind_ok run
  obtain ⟨placed, aligned, rfl⟩ := contentsAsPointerOf_ok first
  obtain ⟨e, t₂, second, rest'⟩ := bind_ok rest
  obtain ⟨loads, rfl⟩ := loadAddress_ok second
  cases rest'
  refine ⟨o, e, placed, aligned, loads, ?_⟩
  simp only [push, fields, memoryMappingFields, List.map_cons, List.map_nil, List.append_assoc]
  rfl

theorem storeRegisterSet_ok {arch : Architecture} {set : RegisterSet} {serialized : ByteData}
    {allowEmpty : Bool} (run : storeRegisterSet arch set serialized allowEmpty ref t = .ok (u, t')) :
    ∃ o registers, ref.Contents t o ∧ o % (set.type arch).align = 0 ∧
      registerContents arch set serialized allowEmpty = .ok registers ∧
      t' = t.push [(o, registers)] := by
  obtain ⟨o, t₁, first, rest⟩ := bind_ok run
  obtain ⟨placed, aligned, rfl⟩ := contentsAsPointerOf_ok first
  obtain ⟨registers, t₂, second, rest'⟩ := bind_ok rest
  obtain ⟨read, rfl⟩ := lift_ok second
  cases rest'
  exact ⟨o, registers, placed, aligned, read, rfl⟩

theorem storeRegisterState_ok {refs : RegisterStateRefs}
    (run : storeRegisterState offset refs t = .ok (u, t')) :
    ∃ fpregs gregs, refs.fpregs.Loads t fpregs ∧ refs.gregs.Loads t gregs ∧
      t' = t.push (fields offset [(0, 8, fpregs), (8, 8, gregs)]) := by
  obtain ⟨fpregs, t₁, first, rest⟩ := bind_ok run
  obtain ⟨loads, rfl⟩ := loadAddress_ok first
  obtain ⟨gregs, t₂, second, rest'⟩ := bind_ok rest
  obtain ⟨loads', rfl⟩ := loadAddress_ok second
  cases rest'
  refine ⟨fpregs, gregs, loads, loads', ?_⟩
  simp only [push, fields, List.map_cons, List.map_nil, List.append_assoc]
  rfl

/-- The addresses in a snap. -/
structure SnapAddresses where
  id : Nat
  memoryMappings : Nat
  fpregs : Nat
  gregs : Nat
  endStateFpregs : Nat
  endStateGregs : Nat
  endStateMemoryBytes : Nat

structure SnapAddresses.Of (t : Traversal) (refs : SnapRefs) (a : SnapAddresses) : Prop where
  id : refs.id.Loads t a.id
  memoryMappings : refs.memoryMappings.Loads t a.memoryMappings
  fpregs : refs.registers.fpregs.Loads t a.fpregs
  gregs : refs.registers.gregs.Loads t a.gregs
  endStateFpregs : refs.endStateRegisters.fpregs.Loads t a.endStateFpregs
  endStateGregs : refs.endStateRegisters.gregs.Loads t a.endStateGregs
  endStateMemoryBytes : refs.endStateMemoryBytes.Loads t a.endStateMemoryBytes

def snapFields (snapshot : Snapshot) (endState : EndState) (refs : SnapRefs)
    (registerChecksum : RegisterChecksum) (a : SnapAddresses) : List (Nat × Nat × Nat) :=
  [(0, 8, a.id), (8, 8, snapshot.memoryMappings.length), (16, 8, a.memoryMappings),
    (24, 8, a.fpregs), (32, 8, a.gregs), (40, 8, endState.endpoint.instructionAddress),
    (48, 8, a.endStateFpregs), (56, 8, a.endStateGregs), (64, 8, endState.memoryBytes.length),
    (72, 8, a.endStateMemoryBytes), (80, 8, registerChecksum.registerGroups.toNat),
    (88, 8, registerChecksum.checksum.toNat), (96, 4, refs.registersMemoryChecksum.fpregsChecksum),
    (100, 4, refs.registersMemoryChecksum.gregsChecksum),
    (104, 4, refs.endStateRegistersMemoryChecksum.fpregsChecksum),
    (108, 4, refs.endStateRegistersMemoryChecksum.gregsChecksum)]

theorem storeSnap_ok {arch : Architecture} {snapshot : Snapshot} {endState : EndState}
    {refs : SnapRefs} (run : storeSnap arch snapshot endState refs ref t = .ok (u, t')) :
    ∃ id o registerChecksum a, refs.id.Contents t id ∧ ref.Contents t o ∧ o % 8 = 0 ∧
      deserializeRegisterChecksum arch endState.registerChecksum = some registerChecksum ∧
      a.Of t refs ∧
      t' = t.push ((id, snapshot.id ++ [0]) ::
        fields o (snapFields snapshot endState refs registerChecksum a)) := by
  obtain ⟨id, t₁, first, rest₁⟩ := bind_ok run
  obtain ⟨idPlaced, rfl⟩ := contents_ok first
  obtain ⟨_, t₂, stored, rest₂⟩ := bind_ok rest₁
  cases stored
  obtain ⟨o, t₃, second, rest₃⟩ := bind_ok rest₂
  obtain ⟨placed, aligned, rfl⟩ := contentsAsPointerOf_ok second
  obtain ⟨registerChecksum, t₄, third, rest₄⟩ := bind_ok rest₃
  obtain ⟨deserialized, rfl⟩ := lift_ok third
  obtain ⟨idAddress, t₅, fourth, rest₅⟩ := bind_ok rest₄
  obtain ⟨idLoads, rfl⟩ := loadAddress_ok fourth
  obtain ⟨_, t₆, stored, rest₆⟩ := bind_ok rest₅
  cases stored
  obtain ⟨mappings, t₇, fifth, rest₇⟩ := bind_ok rest₆
  obtain ⟨mappingsLoads, rfl⟩ := loadAddress_ok fifth
  obtain ⟨_, t₈, array, rest₈⟩ := bind_ok rest₇
  rw [storeArray_run] at array
  cases array
  obtain ⟨_, t₉, registers, rest₉⟩ := bind_ok rest₈
  obtain ⟨fpregs, gregs, fpLoads, gLoads, rfl⟩ := storeRegisterState_ok registers
  obtain ⟨_, t₁₀, stored, rest₁₀⟩ := bind_ok rest₉
  cases stored
  obtain ⟨_, t₁₁, registers, rest₁₁⟩ := bind_ok rest₁₀
  obtain ⟨endFpregs, endGregs, endFpLoads, endGLoads, rfl⟩ := storeRegisterState_ok registers
  obtain ⟨bytes, t₁₂, sixth, rest₁₂⟩ := bind_ok rest₁₁
  obtain ⟨bytesLoads, rfl⟩ := loadAddress_ok sixth
  obtain ⟨_, t₁₃, array, rest₁₃⟩ := bind_ok rest₁₂
  rw [storeArray_run] at array
  cases array
  cases rest₁₃
  refine ⟨id, o, registerChecksum,
    ⟨idAddress, mappings, fpregs, gregs, endFpregs, endGregs, bytes⟩, idPlaced, placed, aligned, ?_,
    ⟨idLoads, mappingsLoads, fpLoads, gLoads, endFpLoads, endGLoads, bytesLoads⟩, ?_⟩
  · unfold orFail at deserialized
    cases is : deserializeRegisterChecksum arch endState.registerChecksum with
    | none =>
      rw [is] at deserialized
      cases deserialized
    | some x =>
      rw [is] at deserialized
      cases deserialized
      rfl
  · simp only [push, fields, snapFields, List.map_cons, List.map_nil, List.append_assoc]
    rfl

def corpusFields (arch : Architecture) (numBytes n elements : Nat) : List (Nat × Nat × Nat) :=
  [(0, 8, kSnapCorpusMagic), (8, 4, CType.snapCorpusHeader.size), (12, 4, 0), (16, 8, numBytes),
    (24, 4, CType.snapCorpus.size), (28, 4, CType.snap.size), (32, 4, CType.registerState.size),
    (36, 1, arch.toInt), (37, 3, 0), (40, 8, n), (48, 8, elements)]

theorem storeCorpus_ok {arch : Architecture} {n : Nat} {elements : Ref}
    (run : storeCorpus arch n ref elements t = .ok (u, t')) :
    ∃ o e, ref.Contents t o ∧ elements.Loads t e ∧
      t' = t.push (fields o (corpusFields arch t.mainBlock.size n e)) := by
  obtain ⟨o, t₁, first, rest₁⟩ := bind_ok run
  obtain ⟨placed, rfl⟩ := contents_ok first
  obtain ⟨_, t₂, got, rest₂⟩ := bind_ok rest₁
  cases got
  obtain ⟨_, t₃, stored₁, rest₃⟩ := bind_ok rest₂
  cases stored₁
  obtain ⟨_, t₄, stored₂, rest₄⟩ := bind_ok rest₃
  cases stored₂
  obtain ⟨_, t₅, stored₃, rest₅⟩ := bind_ok rest₄
  cases stored₃
  obtain ⟨_, t₆, stored₄, rest₆⟩ := bind_ok rest₅
  cases stored₄
  obtain ⟨_, t₇, stored₅, rest₇⟩ := bind_ok rest₆
  cases stored₅
  obtain ⟨_, t₈, stored₆, rest₈⟩ := bind_ok rest₇
  cases stored₆
  obtain ⟨_, t₉, stored₇, rest₉⟩ := bind_ok rest₈
  cases stored₇
  obtain ⟨_, t₁₀, stored₈, rest₁₀⟩ := bind_ok rest₉
  cases stored₈
  obtain ⟨_, t₁₁, stored₉, rest₁₁⟩ := bind_ok rest₁₀
  cases stored₉
  obtain ⟨e, t₁₂, second, rest₁₂⟩ := bind_ok rest₁₁
  obtain ⟨loads, rfl⟩ := loadAddress_ok second
  rw [storeArray_run] at rest₁₂
  cases rest₁₂
  refine ⟨o, e, placed, loads, ?_⟩
  simp only [push, fields, corpusFields, List.map_cons, List.map_nil, List.append_assoc]
  rfl

theorem storeSnapPointer_ok {snaps elements : Ref} {i : Nat}
    (run : storeSnapPointer snaps elements i t = .ok (u, t')) :
    ∃ o s, Ref.Contents t ⟨elements.block, elements.byteOffset + i * 8⟩ o ∧ o % 8 = 0 ∧
      Ref.Loads t ⟨snaps.block, snaps.byteOffset + i * 112⟩ s ∧ t' = t.push [(o, encode 8 s)] := by
  obtain ⟨snap, t₁, first, rest₁⟩ := bind_ok run
  obtain ⟨rfl, rfl⟩ := plus_ok first
  obtain ⟨element, t₂, second, rest₂⟩ := bind_ok rest₁
  obtain ⟨rfl, rfl⟩ := plus_ok second
  obtain ⟨o, t₃, third, rest₃⟩ := bind_ok rest₂
  obtain ⟨placed, aligned, rfl⟩ := contentsAsPointerOf_ok third
  obtain ⟨s, t₄, fourth, rest₄⟩ := bind_ok rest₃
  obtain ⟨loads, rfl⟩ := loadAddress_ok fourth
  cases rest₄
  exact ⟨o, s, placed, aligned, loads, rfl⟩

theorem storeChecksum_ok (run : storeChecksum ref t = .ok (u, t')) :
    ∃ o, ref.Contents t o ∧ t' = t.push [(o + 12, encode 4 (crc32cUnaccelerated 0
      (SnapChecksum.skipChecksum (piece t.contents o t.mainBlock.size))).toNat)] := by
  obtain ⟨o, t₁, first, rest₁⟩ := bind_ok run
  obtain ⟨placed, rfl⟩ := contents_ok first
  cases rest₁
  exact ⟨o, placed, rfl⟩

end

/-! ## The passes side by side -/

/-- Blocks of the same size and alignment. -/
def Alike (block block' : RelocatableDataBlock) : Prop :=
  block.size = block'.size ∧ block.requiredAlignment = block'.requiredAlignment

/-- The layout pass at the same point as the generation pass. -/
structure Same (s t : Traversal) : Prop where
  mainBlock : Alike s.mainBlock t.mainBlock
  blocks (b : Block) : Alike (s.blocks b) (t.blocks b)
  refMaps : s.refMaps = t.refMaps
  mainBare : s.mainBlock.contents = none
  bare (b : Block) : (s.blocks b).contents = none
  unstored : s.stores = []

section

variable {α : Type} {options : RelocatableSnapGeneratorOptions} {arch : Architecture}

theorem Same.push {s t : Traversal} (same : Same s t) (new : List (Nat × ByteData)) :
    Same s (t.push new) :=
  ⟨same.mainBlock, same.blocks, same.refMaps, same.mainBare, same.bare, same.unstored⟩

theorem follows_stores {x : Traverse Unit} (h : OnlyStores x) :
    Follows Same (inGeneration .kLayout x) (inGeneration .kGeneration x) Eq :=
  follows_idle fun t b t' run => by
    obtain ⟨new, rfl⟩ := h t b t' run
    exact ⟨rfl, fun s same => same.push new⟩

theorem allocates_alike {block block' grown' : RelocatableDataBlock} {size alignment offset : Nat}
    (alike : Alike block block') (bare : block.contents = none)
    (h : block'.Allocates size alignment offset grown') :
    block.allocate size alignment = .ok (offset, block.grown (offset + size) alignment) ∧
      Alike (block.grown (offset + size) alignment) grown' := by
  obtain ⟨power, rfl, -, rfl⟩ := h
  rw [allocate_bare power bare, alike.1]
  exact ⟨rfl, rfl, congrArg (max · alignment) alike.2⟩

theorem allocate_follows (b : Block) (size alignment : Nat) :
    Follows Same (allocate b size alignment) (allocate b size alignment) Eq := by
  intro s t same ref t' run
  obtain ⟨_, t₁, got, rest⟩ := bind_ok run
  cases got
  obtain ⟨⟨offset, block⟩, t₂, first, rest'⟩ := bind_ok rest
  obtain ⟨allocated, rfl⟩ := lift_ok first
  cases rest'
  obtain ⟨layout, alike⟩ := allocates_alike (same.blocks b) (same.bare b) (allocate_ok allocated)
  refine ⟨⟨b, offset⟩, { s with
      blocks := Function.update s.blocks b ((s.blocks b).grown (offset + size) alignment) }, ?_, rfl,
    same.mainBlock, ?_, same.refMaps, same.mainBare, ?_, same.unstored⟩
  · unfold allocate
    rw [get_bind_run, lift_bind_run layout]
    rfl
  · intro b'
    dsimp only
    by_cases here : b' = b
    · subst here
      rw [Function.update_self, Function.update_self]
      exact alike
    · rw [Function.update_of_ne here, Function.update_of_ne here]
      exact same.blocks b'
  · intro b'
    dsimp only
    by_cases here : b' = b
    · subst here
      rw [Function.update_self]
      exact same.bare b'
    · rw [Function.update_of_ne here]
      exact same.bare b'

theorem find_follows (data : Data) (bytes : ByteData) :
    Follows Same (find data bytes) (find data bytes) Eq := by
  intro s t same ref t' run
  cases run
  exact ⟨_, s, rfl, congrArg (fun maps => (maps data).lookup bytes) same.refMaps, same⟩

theorem insert_follows (data : Data) (bytes : ByteData) (ref : Ref) :
    Follows Same (insert data bytes ref) (insert data bytes ref) Eq := by
  intro s t same u t' run
  cases run
  refine ⟨_, _, rfl, rfl, same.mainBlock, same.blocks, ?_, same.mainBare, same.bare,
    same.unstored⟩
  dsimp only
  rw [same.refMaps]

theorem plus_follows (ref : Ref) (addend : Nat) :
    Follows Same (ref.plus addend) (ref.plus addend) Eq :=
  follows_bind follows_lift fun _ _ _ => follows_pure rfl

theorem forElements_follows {size : Nat} {f g : α → Ref → Traverse Unit}
    (each : ∀ a ref, Follows Same (f a ref) (g a ref) Eq) (l : List α) (ref : Ref) :
    Follows Same (forElements size f l ref) (forElements size g l ref) Eq := by
  induction l generalizing ref with
  | nil => exact follows_pure rfl
  | cons a l ih =>
    refine follows_bind (each a ref) fun _ _ _ => follows_bind (plus_follows _ _) ?_
    rintro next _ rfl
    exact ih next

theorem allocateByteData_follows (b : MemoryBytes) :
    Follows Same (allocateByteData b) (allocateByteData b) Eq := by
  unfold allocateByteData
  split
  · exact allocate_follows _ _ _
  · exact allocate_follows _ _ _

theorem onlyStores_contents (ref : Ref) : OnlyStores ref.contents :=
  onlyStores_bind onlyStores_get fun _ => onlyStores_lift _

/-- Data that is not found is allocated, and its contents are written. -/
theorem deduplicates_follows {data : Data} {bytes : ByteData} {new : Traverse Ref}
    {write : Ref → Traverse Unit} (allocates : Follows Same new new Eq)
    (writes : ∀ ref, OnlyStores (write ref)) :
    let deduplicate (pass : PassType) : Traverse Ref := do
      match ← find data bytes with
      | some ref => return ref
      | none => do
        let ref ← new
        insert data bytes ref
        inGeneration pass (write ref)
        return ref
    Follows Same (deduplicate .kLayout) (deduplicate .kGeneration) Eq := by
  intro deduplicate
  apply follows_bind (find_follows data bytes)
  rintro found _ rfl
  cases found with
  | some ref => exact follows_pure rfl
  | none =>
    apply follows_bind allocates
    rintro ref _ rfl
    exact follows_bind (insert_follows _ _ _) fun _ _ _ =>
      follows_bind (follows_stores (writes ref)) fun _ _ _ => follows_pure rfl

theorem processMemoryBytes_follows (b : MemoryBytes) :
    Follows Same (processMemoryBytes .kLayout b) (processMemoryBytes .kGeneration b) Eq :=
  deduplicates_follows (allocateByteData_follows b) fun ref =>
    onlyStores_bind (onlyStores_contents ref) fun _ => onlyStores_store _ _

theorem processAllocatedMemoryBytes_follows (b : MemoryBytes) (ref : Ref) :
    Follows Same (processAllocatedMemoryBytes .kLayout options b ref)
      (processAllocatedMemoryBytes .kGeneration options b ref) Eq := by
  unfold processAllocatedMemoryBytes
  split
  · apply follows_stores
    intro t u t' run
    obtain ⟨o, -, -, rfl⟩ := storeByteRun_ok run
    exact ⟨_, rfl⟩
  · apply follows_bind (processMemoryBytes_follows b)
    rintro elements _ rfl
    apply follows_stores
    intro t u t' run
    obtain ⟨o, e, -, -, -, rfl⟩ := storeByteValues_ok run
    exact ⟨_, rfl⟩

theorem processMemoryBytesList_follows (l : List MemoryBytes) :
    Follows Same (processMemoryBytesList .kLayout options l)
      (processMemoryBytesList .kGeneration options l) Eq := by
  apply follows_bind (allocate_follows _ _ _)
  rintro ref _ rfl
  exact follows_bind (forElements_follows processAllocatedMemoryBytes_follows l ref)
    fun _ _ _ => follows_pure rfl

theorem processMemoryMapping_follows (mapping : MemoryMapping × List MemoryBytes) (ref : Ref) :
    Follows Same (processMemoryMapping .kLayout options mapping ref)
      (processMemoryMapping .kGeneration options mapping ref) Eq := by
  apply follows_bind (processMemoryBytesList_follows _)
  rintro elements _ rfl
  apply follows_stores
  intro t u t' run
  obtain ⟨o, e, -, -, -, rfl⟩ := storeMemoryMapping_ok run
  exact ⟨_, rfl⟩

theorem processMemoryMappings_follows (mappings : List (MemoryMapping × List MemoryBytes)) :
    Follows Same (processMemoryMappings .kLayout options mappings)
      (processMemoryMappings .kGeneration options mappings) Eq := by
  apply follows_bind (allocate_follows _ _ _)
  rintro ref _ rfl
  exact follows_bind (forElements_follows processMemoryMapping_follows mappings ref)
    fun _ _ _ => follows_pure rfl

theorem processRegisterSet_follows (set : RegisterSet) (serialized : ByteData)
    (allowEmptyRegisterState : Bool) :
    Follows Same (processRegisterSet .kLayout arch set serialized allowEmptyRegisterState)
      (processRegisterSet .kGeneration arch set serialized allowEmptyRegisterState) Eq :=
  deduplicates_follows (allocate_follows _ _ _) fun ref t u t' run => by
    obtain ⟨o, registers, -, -, -, rfl⟩ := storeRegisterSet_ok run
    exact ⟨_, rfl⟩

theorem registerMemoryChecksum_ok {refs : RegisterStateRefs} {t t' : Traversal}
    {checksum : SnapRegisterMemoryChecksum}
    (run : registerMemoryChecksum arch refs t = .ok (checksum, t')) :
    ∃ fpregs gregs, refs.fpregs.Contents t fpregs ∧ refs.gregs.Contents t gregs ∧
      fpregs % 16 = 0 ∧ gregs % 8 = 0 ∧
      checksum = ⟨(crc32cUnaccelerated 0 (piece t.contents fpregs (CType.fpRegSet arch).size)).toNat,
        (crc32cUnaccelerated 0 (piece t.contents gregs (CType.gRegSet arch).size)).toNat⟩ ∧
      t' = t := by
  obtain ⟨gregs, t₁, first, rest₁⟩ := bind_ok run
  obtain ⟨placed, aligned, rfl⟩ := contentsAsPointerOf_ok first
  obtain ⟨fpregs, t₂, second, rest₂⟩ := bind_ok rest₁
  obtain ⟨placed', aligned', rfl⟩ := contentsAsPointerOf_ok second
  cases rest₂
  exact ⟨fpregs, gregs, placed', placed, aligned', aligned, rfl, rfl⟩

theorem processRegisterState_follows (registers : RegisterState) (allowEmptyRegisterState : Bool) :
    Follows Same (processRegisterState .kLayout arch registers allowEmptyRegisterState)
      (processRegisterState .kGeneration arch registers allowEmptyRegisterState)
      fun x y => x.1 = y.1 := by
  apply follows_bind (processRegisterSet_follows _ _ _)
  rintro gregs _ rfl
  apply follows_bind (processRegisterSet_follows _ _ _)
  rintro fpregs _ rfl
  apply follows_idle
  intro t b t' run
  obtain ⟨checksum, t₁, first, rest⟩ := bind_ok run
  obtain ⟨_, _, -, -, -, -, -, rfl⟩ := registerMemoryChecksum_ok first
  cases rest
  exact ⟨rfl, fun _ same => same⟩

theorem processAllocated_follows (snapshot : Snapshot) (ref : Ref) :
    Follows Same (processAllocated .kLayout arch options snapshot ref)
      (processAllocated .kGeneration arch options snapshot ref) Eq := by
  apply follows_bind follows_lift
  rintro _ _ -
  apply follows_bind (allocate_follows _ _ _)
  rintro id _ rfl
  apply follows_bind follows_lift
  rintro bytesPerMapping _ rfl
  apply follows_bind (processMemoryMappings_follows _)
  rintro memoryMappings _ rfl
  apply follows_bind follows_lift
  rintro endState _ rfl
  apply follows_bind (processMemoryBytesList_follows _)
  rintro endStateMemoryBytes _ rfl
  apply follows_bind follows_lift
  rintro registers _ rfl
  apply follows_bind (processRegisterState_follows _ _)
  rintro ⟨refs, layoutChecksum⟩ ⟨_, checksum⟩ rfl
  apply follows_bind (processRegisterState_follows _ _)
  rintro ⟨endRefs, layoutChecksum'⟩ ⟨_, checksum'⟩ rfl
  apply follows_idle
  intro t u t' run
  obtain ⟨id, o, registerChecksum, a, -, -, -, -, -, rfl⟩ := storeSnap_ok run
  exact ⟨rfl, fun s same => same.push _⟩

theorem mergeBlocks_follows {s t : Traversal} (same : Same s t) {main : RelocatableDataBlock}
    (run : mergeBlocks t = .ok main) :
    ∃ main', mergeBlocks s = .ok main' ∧ Alike main' main ∧ main'.contents = none := by
  unfold mergeBlocks at *
  suffices h : ∀ (l : List Block) (m m' : RelocatableDataBlock), Alike m' m → m'.contents = none →
      l.foldlM t.mergeBlock m = .ok main →
      ∃ main', l.foldlM s.mergeBlock m' = .ok main' ∧ Alike main' main ∧ main'.contents = none from
    h _ _ _ same.mainBlock same.mainBare run
  intro l
  induction l with
  | nil =>
    intro m m' alike bare run
    cases run
    exact ⟨m', rfl, alike, bare⟩
  | cons b l ih =>
    intro m m' alike bare run
    rw [List.foldlM_cons] at run ⊢
    obtain ⟨m₁, first, rest⟩ := except_bind_ok run
    obtain ⟨⟨offset, m₂⟩, allocated, done⟩ := except_bind_ok first
    cases done
    obtain ⟨layout, alike'⟩ := allocates_alike alike bare (allocate_ok allocated)
    unfold mergeBlock
    rw [(same.blocks b).1, (same.blocks b).2, layout]
    exact ih _ _ alike' bare rest

theorem allocateBlocks_follows : Follows Same allocateBlocks allocateBlocks Eq := by
  intro s t same u t' run
  obtain ⟨_, t₁, got, rest⟩ := bind_ok run
  cases got
  obtain ⟨main, t₂, merged, rest'⟩ := bind_ok rest
  obtain ⟨merged, rfl⟩ := lift_ok merged
  cases rest'
  obtain ⟨main', layout, alike, bare⟩ := mergeBlocks_follows same merged
  refine ⟨(), { s with mainBlock := main' }, ?_, rfl, alike, same.blocks, same.refMaps, bare,
    same.bare, same.unstored⟩
  unfold allocateBlocks
  rw [get_bind_run, lift_bind_run layout]
  rfl

/-- **What the generation pass allocates is what the layout pass has allocated.** -/
theorem process_follows (snapshots : List Snapshot) :
    Follows Same (process .kLayout arch options snapshots)
      (process .kGeneration arch options snapshots) Eq := by
  apply follows_bind (allocate_follows _ _ _)
  rintro corpus _ rfl
  apply follows_bind (allocate_follows _ _ _)
  rintro elements _ rfl
  apply follows_bind (allocate_follows _ _ _)
  rintro snaps _ rfl
  refine follows_bind (R := Eq) ?_ ?_
  · induction snapshots.zipIdx with
    | nil => exact follows_pure rfl
    | cons x l ih =>
      refine follows_bind (R := Eq) ?_ fun _ _ _ => ih
      apply follows_bind (plus_follows _ _)
      rintro ref _ rfl
      exact processAllocated_follows x.1 ref
  · rintro _ _ -
    apply follows_bind allocateBlocks_follows
    rintro _ _ -
    apply follows_stores
    refine onlyStores_bind ?_ fun _ => onlyStores_bind (onlyStores_forM fun i => ?_) fun _ => ?_
    · intro t u t' run
      obtain ⟨o, e, -, -, rfl⟩ := storeCorpus_ok run
      exact ⟨_, rfl⟩
    · intro t u t' run
      obtain ⟨o, s, -, -, -, rfl⟩ := storeSnapPointer_ok run
      exact ⟨_, rfl⟩
    · intro t u t' run
      obtain ⟨o, -, rfl⟩ := storeChecksum_ok run
      exact ⟨_, rfl⟩

end

/-! ## Where the blocks are -/

/-- A part of the main block that is set aside for a block. -/
def Place (block : RelocatableDataBlock) (base limit : Nat) : Prop :=
  block.loadAddress = some base ∧ block.contents = some base ∧ block.maxContentsSize = limit

/-- The blocks are in parts of their own of a content buffer of `n` bytes. -/
structure Layout (base limit : Block → Nat) (n : Nat) : Prop where
  inside (b : Block) : base b + limit b ≤ n
  apart {b b' : Block} (different : b ≠ b') :
    base b + limit b ≤ base b' ∨ base b' + limit b' ≤ base b

theorem le_alignedOffset (size alignment : Nat) : size ≤ alignedOffset size alignment := by
  unfold alignedOffset
  have mask := Nat.and_le_right (n := size + (alignment - 1)) (m := alignment - 1)
  dsimp only
  omega

/-- What is done for the blocks of a list: they are set aside one after the other. -/
structure SetAside (l : List Block) (t t' : Traversal) : Prop where
  main : ∃ size alignment, t'.mainBlock =
    { t.mainBlock with size := size, requiredAlignment := alignment }
  grows : t.mainBlock.size ≤ t'.mainBlock.size
  fits : t.mainBlock.size ≤ t.mainBlock.maxContentsSize →
    t'.mainBlock.size ≤ t.mainBlock.maxContentsSize
  refMaps : t'.refMaps = t.refMaps
  stores : t'.stores = t.stores
  others (b : Block) (not : b ∉ l) : t'.blocks b = t.blocks b
  reset (b : Block) (mem : b ∈ l) :
    (t'.blocks b).size = 0 ∧ (t'.blocks b).requiredAlignment = 1
  placed (b : Block) (mem : b ∈ l) : ∃ base, Place (t'.blocks b) base (t.blocks b).size ∧
    t.mainBlock.size ≤ base ∧ base + (t.blocks b).size ≤ t'.mainBlock.size
  apart : l.Pairwise fun b b' => ∀ base base', (t'.blocks b).contents = some base →
    (t'.blocks b').contents = some base' → base + (t.blocks b).size ≤ base'

theorem prepareSubDataBlock_ok {t t' : Traversal} {b : Block}
    (loads : t.mainBlock.loadAddress = some 0) (contents : t.mainBlock.contents = some 0)
    (run : prepareSubDataBlock t b = .ok t') : SetAside [b] t t' := by
  obtain ⟨⟨offset, main⟩, allocated, rest₁⟩ := except_bind_ok run
  obtain ⟨power, rfl, fits, rfl⟩ := allocate_ok allocated
  obtain ⟨load, first, rest₂⟩ := except_bind_ok rest₁
  obtain ⟨base, is, -, rfl⟩ := loadAddressAt_ok first
  obtain rfl : base = 0 := Option.some.inj (is.symm.trans loads)
  obtain ⟨content, second, rest₃⟩ := except_bind_ok rest₂
  obtain ⟨base, is', -, rfl⟩ := contentsAt_ok second
  obtain rfl : base = 0 := Option.some.inj (is'.symm.trans contents)
  cases rest₃
  have above := le_alignedOffset t.mainBlock.size (t.blocks b).requiredAlignment
  refine ⟨⟨_, _, rfl⟩, ?_, fun _ => fits 0 contents, rfl, rfl, ?_, ?_, ?_,
    List.pairwise_singleton _ _⟩
  · change t.mainBlock.size ≤ alignedOffset t.mainBlock.size _ + _
    omega
  · intro b' not
    exact Function.update_of_ne (fun same => not (List.mem_singleton.mpr same)) _ _
  · intro b' mem
    rw [List.mem_singleton.mp mem]
    dsimp only
    rw [Function.update_self]
    exact ⟨rfl, rfl⟩
  · intro b' mem
    rw [List.mem_singleton.mp mem]
    refine ⟨alignedOffset t.mainBlock.size (t.blocks b).requiredAlignment, ?_, above,
      Nat.le_refl _⟩
    dsimp only [Place]
    rw [Function.update_self, Nat.zero_add]
    exact ⟨rfl, rfl, rfl⟩

theorem SetAside.cons {t t₁ t' : Traversal} {b : Block} {l : List Block} (new : b ∉ l)
    (first : SetAside [b] t t₁) (rest : SetAside l t₁ t') : SetAside (b :: l) t t' := by
  have same (b' : Block) (mem : b' ∈ l) : t₁.blocks b' = t.blocks b' :=
    first.others b' fun is => new (List.mem_singleton.mp is ▸ mem)
  have kept : t'.blocks b = t₁.blocks b := rest.others b new
  obtain ⟨size, alignment, main⟩ := first.main
  obtain ⟨size', alignment', main'⟩ := rest.main
  have capacity : t₁.mainBlock.maxContentsSize = t.mainBlock.maxContentsSize := by rw [main]
  refine ⟨⟨size', alignment', by rw [main', main]⟩, Nat.le_trans first.grows rest.grows, ?_,
    rest.refMaps.trans first.refMaps, rest.stores.trans first.stores, ?_, ?_, ?_, ?_⟩
  · intro within
    rw [← capacity]
    exact rest.fits (capacity ▸ first.fits within)
  · intro b' not
    obtain ⟨different, later⟩ := not_or.mp fun mem => not (List.mem_cons.mpr mem)
    rw [rest.others b' later, first.others b' fun mem => different (List.mem_singleton.mp mem)]
  · intro b' mem
    rcases List.mem_cons.mp mem with rfl | later
    · rw [kept]
      exact first.reset _ (List.mem_singleton.mpr rfl)
    · exact rest.reset b' later
  · intro b' mem
    rcases List.mem_cons.mp mem with rfl | later
    · obtain ⟨base, place, low, high⟩ := first.placed _ (List.mem_singleton.mpr rfl)
      rw [kept]
      exact ⟨base, place, low, Nat.le_trans high rest.grows⟩
    · obtain ⟨base, place, low, high⟩ := rest.placed b' later
      rw [same b' later] at place high
      exact ⟨base, place, Nat.le_trans first.grows low, high⟩
  · refine List.pairwise_cons.mpr ⟨?_, ?_⟩
    · intro b' mem base base' is is'
      obtain ⟨base₁, place, -, high⟩ := first.placed b (List.mem_singleton.mpr rfl)
      obtain ⟨base₂, place', low, -⟩ := rest.placed b' mem
      obtain rfl : base₁ = base := Option.some.inj (place.2.1.symm.trans (kept ▸ is))
      obtain rfl : base₂ = base' := Option.some.inj (place'.2.1.symm.trans is')
      exact Nat.le_trans high low
    · apply rest.apart.imp_of_mem
      intro b₁ b₂ mem₁ mem₂ h
      rw [same b₁ mem₁] at h
      exact h

theorem prepareSubDataBlocks_ok {l : List Block} (nodup : l.Nodup) {t t' : Traversal}
    (loads : t.mainBlock.loadAddress = some 0) (contents : t.mainBlock.contents = some 0)
    (run : l.foldlM prepareSubDataBlock t = .ok t') : SetAside l t t' := by
  induction l generalizing t with
  | nil =>
    cases run
    exact ⟨⟨_, _, rfl⟩, Nat.le_refl _, id, rfl, rfl, fun _ _ => rfl, fun b mem => absurd mem (by simp),
      fun b mem => absurd mem (by simp), .nil⟩
  | cons b l ih =>
    obtain ⟨new, nodup'⟩ := List.nodup_cons.mp nodup
    rw [List.foldlM_cons] at run
    obtain ⟨t₁, first, rest⟩ := except_bind_ok run
    have aside := prepareSubDataBlock_ok loads contents first
    obtain ⟨size, alignment, main⟩ := aside.main
    exact aside.cons new (ih nodup' (by rw [main]; exact loads) (by rw [main]; exact contents) rest)

/-- A traversal that is ready for the generation pass. -/
structure Ready (base limit : Block → Nat) (n : Nat) (t : Traversal) : Prop where
  mainBlock : t.mainBlock = ⟨0, 1, some 0, some 0, n⟩
  place (b : Block) : Place (t.blocks b) (base b) (limit b)
  reset (b : Block) : (t.blocks b).size = 0 ∧ (t.blocks b).requiredAlignment = 1
  refMaps : t.refMaps = fun _ => []

theorem alignedOffset_zero (alignment : Nat) : alignedOffset 0 alignment = 0 := by
  unfold alignedOffset
  dsimp only
  rw [Nat.zero_add, Nat.and_self, Nat.sub_self]

/-- The first block is at the start of the content buffer. -/
theorem prepareSubDataBlocks_first {b : Block} {l : List Block} (nodup : (b :: l).Nodup)
    {t t' : Traversal} (size : t.mainBlock.size = 0) (loads : t.mainBlock.loadAddress = some 0)
    (contents : t.mainBlock.contents = some 0)
    (run : (b :: l).foldlM prepareSubDataBlock t = .ok t') :
    (t'.blocks b).contents = some 0 := by
  obtain ⟨new, nodup'⟩ := List.nodup_cons.mp nodup
  rw [List.foldlM_cons] at run
  obtain ⟨t₁, first, rest⟩ := except_bind_ok run
  have aside := prepareSubDataBlock_ok loads contents first
  obtain ⟨size', alignment, main⟩ := aside.main
  have later := prepareSubDataBlocks_ok nodup' (by rw [main]; exact loads)
    (by rw [main]; exact contents) rest
  rw [later.others b new]
  obtain ⟨⟨offset, block⟩, allocated, rest₁⟩ := except_bind_ok first
  obtain ⟨-, rfl, -, rfl⟩ := allocate_ok allocated
  obtain ⟨load, loaded, rest₂⟩ := except_bind_ok rest₁
  obtain ⟨content, placed, rest₃⟩ := except_bind_ok rest₂
  obtain ⟨base, is, -, rfl⟩ := contentsAt_ok placed
  obtain rfl : base = 0 := Option.some.inj (is.symm.trans contents)
  cases rest₃
  dsimp only
  rw [Function.update_self, size, alignedOffset_zero]
  rfl

theorem Block.mem_all (b : Block) : b ∈ Block.all := by
  cases b <;> decide

/-- Each block has a part of the content buffer that is as large as it was. -/
theorem prepareSnapGeneration_ok {t t' : Traversal} {n : Nat}
    (run : t.prepareSnapGeneration n 0 = .ok t') :
    ∃ base, base .snap = 0 ∧ Layout base (fun b => (t.blocks b).size) n ∧
      Ready base (fun b => (t.blocks b).size) n t' ∧ t'.stores = t.stores := by
  obtain ⟨t₁, prepared, rest⟩ := except_bind_ok run
  cases rest
  have aside := prepareSubDataBlocks_ok (by decide) rfl rfl prepared
  obtain ⟨size, alignment, main⟩ := aside.main
  have place (b : Block) := aside.placed b (Block.mem_all b)
  have fits : t₁.mainBlock.size ≤ n := aside.fits (Nat.zero_le n)
  have ordered : Block.all.Pairwise fun b b' =>
      (place b).choose + (t.blocks b).size ≤ (place b').choose :=
    aside.apart.imp fun h => h _ _ (place _).choose_spec.1.2.1 (place _).choose_spec.1.2.1
  have zero : (t₁.blocks .snap).contents = some 0 :=
    prepareSubDataBlocks_first (l := Block.all.tail) (by decide) rfl rfl rfl prepared
  refine ⟨fun b => (place b).choose, ?_, ⟨?_, ?_⟩, ⟨?_, ?_, ?_, rfl⟩, aside.stores⟩
  · exact Option.some.inj ((place .snap).choose_spec.1.2.1.symm.trans zero)
  · intro b
    exact Nat.le_trans (place b).choose_spec.2.2 fits
  · intro b b' different
    let Apart (b b' : Block) : Prop := (place b).choose + (t.blocks b).size ≤ (place b').choose ∨
      (place b').choose + (t.blocks b').size ≤ (place b).choose
    have symm : Std.Symm Apart := ⟨fun _ _ => Or.symm⟩
    have either : Block.all.Pairwise Apart := ordered.imp Or.inl
    exact either.forall (Block.mem_all b) (Block.mem_all b') different
  · rw [main]
    rfl
  · exact fun b => (place b).choose_spec.1
  · exact fun b => aside.reset b (Block.mem_all b)

end Traversal

end Silifuzz
