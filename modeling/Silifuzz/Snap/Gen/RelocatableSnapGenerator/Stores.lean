import Silifuzz.Snap.Gen.RelocatableSnapGenerator.Passes
import Silifuzz.Snap.SnapRelocator.Meaning

/-!
# What the generation pass writes

Each function writes to what it was given to fill in and to what it allocates, and to no byte
twice. What has been written for an object stays there, so whoever follows the pointers of the
object in the end finds what it was made of, in parts that are apart from those of the others.
-/

namespace Silifuzz

open LittleEndian Images Triples Crc32c Footprints SnapReader SnapRelocator RelocatableDataBlock

namespace Traversal

/-! ## Parts of the content buffer -/

/-- The blocks without pointers. -/
def Block.holdsData : Block → Bool
  | snap | memoryBytes | memoryMapping => false
  | byteData | string | fpregs | gregs | pageData => true

section

variable (base limit : Block → Nat)

/-- The offset of a reference in the content buffer. -/
def addr (ref : Ref) : Nat := base ref.block + ref.byteOffset

def slot (ref : Ref) (size : Nat) : Set Nat := Region.positions (addr base ref, size)

/-- What has been allocated. -/
def taken (t : Traversal) : Set Nat :=
  {p | ∃ b, base b ≤ p ∧ p < base b + (t.blocks b).size}

/-- What was allocated between two points of the pass. -/
def fresh (t t' : Traversal) : Set Nat := taken base t' \ taken base t

def dataZone : Set Nat := {p | ∃ b, b.holdsData = true ∧ base b ≤ p ∧ p < base b + limit b}

/-- The part of a slot and of what was allocated that has pointers. -/
def zone (slot : Set Nat) (t t' : Traversal) : Set Nat := slot ∪ (fresh base t t' \ dataZone base limit)

end

/-- What is stored for a key of one of the maps. An empty register state is known from an end
state only. -/
def dataContents (arch : Architecture) : Data → ByteData → Except CheckFailure ByteData
  | .byteData, bytes => .ok bytes
  | .fpregs, serialized => registerContents arch .fpregs serialized true
  | .gregs, serialized => registerContents arch .gregs serialized true

/-- The data is in the content buffer, at the reference. -/
structure Known (base : Block → Nat) (arch : Architecture) (t : Traversal) (data : Data)
    (bytes : ByteData) (ref : Ref) : Prop where
  holds : ref.block.holdsData = true
  stored : ∃ contents, dataContents arch data bytes = .ok contents ∧
    (addr base ref, contents) ∈ t.stores ∧
    ref.byteOffset + contents.length ≤ (t.blocks ref.block).size

structure Inv (base limit : Block → Nat) (n : Nat) (arch : Architecture) (t : Traversal) :
    Prop where
  capacity : t.mainBlock.maxContentsSize = n
  place (b : Block) : Place (t.blocks b) (base b) (limit b)
  within (b : Block) : (t.blocks b).size ≤ limit b
  known {data : Data} {bytes : ByteData} {ref : Ref} :
    (t.refMaps data).lookup bytes = some ref → Known base arch t data bytes ref

/-- From one point of the pass to another one: all that is written is in the zone. -/
structure Step (zone : Set Nat) (t t' : Traversal) : Prop where
  sizes (b : Block) : (t.blocks b).size ≤ (t'.blocks b).size
  writes : ∃ new : List Write, t'.stores = t.stores ++ new ∧
    new.Pairwise Write.Apart ∧ ∀ w ∈ new, Write.In w zone

/-- A later point of the pass. -/
structure Later (t t' : Traversal) : Prop where
  sizes (b : Block) : (t.blocks b).size ≤ (t'.blocks b).size
  stores : ∃ new : List Write, t'.stores = t.stores ++ new

/-- An image of `n` bytes that has what was stored so far. Sizes are of 64 bits. -/
structure Final (n : Nat) (t : Traversal) (image : Bytes) : Prop where
  room : n < 256 ^ 8
  separate : Separate n t.stores
  length : image.length = n
  shows : Shows image t.stores

/-- What holds of any image that has what was stored so far. -/
def Lasting (n : Nat) (t : Traversal) (P : Bytes → Prop) : Prop :=
  ∀ image : Bytes, Final n t image → P image

section

variable {base limit : Block → Nat} {arch : Architecture} {n : Nat} {t t₁ t₂ t' : Traversal}
  {z z' : Set Nat} {ref : Ref} {size offset : Nat}

theorem Step.later (h : Step z t t') : Later t t' := by
  obtain ⟨new, grown, -, -⟩ := h.writes
  exact ⟨h.sizes, new, grown⟩

namespace Later

theorem trans (h : Later t t₁) (h' : Later t₁ t₂) : Later t t₂ := by
  obtain ⟨new, grown⟩ := h.stores
  obtain ⟨new', grown'⟩ := h'.stores
  exact ⟨fun b => Nat.le_trans (h.sizes b) (h'.sizes b), new ++ new', by
    rw [grown', grown, List.append_assoc]⟩

theorem subset (h : Later t t') : t.stores ⊆ t'.stores := by
  obtain ⟨new, grown⟩ := h.stores
  rw [grown]
  exact List.subset_append_left _ _

theorem separate (h : Later t t') (separate : Separate n t'.stores) : Separate n t.stores := by
  obtain ⟨new, grown⟩ := h.stores
  rw [grown] at separate
  exact ⟨fun w mem => separate.inside w (List.mem_append_left _ mem),
    (List.pairwise_append.mp separate.apart).1⟩

theorem fits (h : Later t t') (fits : ref.byteOffset + size ≤ (t.blocks ref.block).size) :
    ref.byteOffset + size ≤ (t'.blocks ref.block).size := Nat.le_trans fits (h.sizes _)

theorem taken (h : Later t t') : taken base t ⊆ taken base t' := by
  rintro p ⟨b, low, high⟩
  have := h.sizes b
  exact ⟨b, low, by omega⟩

end Later

theorem Final.within {image : Bytes} (final : Final n t image) (inside : size ≤ n) :
    size ≤ image.length := final.length.symm ▸ inside

theorem Final.small {image : Bytes} (final : Final n t image) : image.length < 256 ^ 8 :=
  final.length.symm ▸ final.room

theorem Lasting.later {P : Bytes → Prop} (h : Lasting n t P) (later : Later t t') :
    Lasting n t' P :=
  fun image final => h image ⟨final.room, later.separate final.separate, final.length,
    final.shows.subset later.subset⟩

theorem Step.refl (t : Traversal) : Step z t t :=
  ⟨fun _ => Nat.le_refl _, [], (List.append_nil _).symm, .nil, fun w mem => absurd mem (by simp)⟩

theorem Step.mono (h : Step z t t') (larger : z ⊆ z') : Step z' t t' := by
  obtain ⟨new, grown, apart, inside⟩ := h.writes
  exact ⟨h.sizes, new, grown, apart, fun w mem => (inside w mem).mono larger⟩

theorem Step.trans (h : Step z t t₁) (h' : Step z' t₁ t₂) (disjoint : Disjoint z z') :
    Step (z ∪ z') t t₂ := by
  obtain ⟨new, grown, apart, inside⟩ := h.writes
  obtain ⟨new', grown', apart', inside'⟩ := h'.writes
  refine ⟨fun b => Nat.le_trans (h.sizes b) (h'.sizes b),
    new ++ new', by rw [grown', grown, List.append_assoc], ?_, ?_⟩
  · refine List.pairwise_append.mpr ⟨apart, apart', fun w mem w' mem' => ?_⟩
    exact disjoint.mono (inside w mem).2 (inside' w' mem').2
  · intro w mem
    rcases List.mem_append.mp mem with first | second
    · exact (inside w first).mono Set.subset_union_left
    · exact (inside' w second).mono Set.subset_union_right

theorem fresh_first (h : Later t₁ t₂) : fresh base t t₁ ⊆ fresh base t t₂ :=
  fun _ here => ⟨h.taken here.1, here.2⟩

theorem fresh_second (h : Later t t₁) : fresh base t₁ t₂ ⊆ fresh base t t₂ :=
  fun _ here => ⟨here.1, fun before => here.2 (h.taken before)⟩

/-- Slots that were allocated before are apart from what is allocated later. -/
theorem zones_disjoint {s s' : Set Nat} (h : Later t t₁) (inside : s ⊆ taken base t)
    (inside' : s' ⊆ taken base t) (disjoint : Disjoint s s') :
    Disjoint (s ∪ fresh base t t₁) (s' ∪ fresh base t₁ t₂) := by
  rw [Set.disjoint_left]
  rintro p (first | first) (second | second)
  · exact Set.disjoint_left.mp disjoint first second
  · exact second.2 (h.taken (inside first))
  · exact first.2 (inside' second)
  · exact second.2 first.1

theorem slot_taken (fits : ref.byteOffset + size ≤ (t.blocks ref.block).size) :
    slot base ref size ⊆ taken base t := by
  rintro p ⟨low, high⟩
  simp only [addr] at low high
  exact ⟨ref.block, by omega, by omega⟩

theorem slot_free (ref : Ref) (size : Nat) (layout : Layout base limit n) (own : ref.block.holdsData = false)
    (fits : ref.byteOffset + size ≤ limit ref.block) :
    Disjoint (slot base ref size) (dataZone base limit) := by
  rw [Set.disjoint_left]
  rintro p ⟨low, high⟩ ⟨b, data, low', high'⟩
  simp only [addr] at low high
  have different : ref.block ≠ b := by
    intro same
    rw [same, data] at own
    cases own
  rcases layout.apart different with before | after <;> omega

theorem slot_data (own : ref.block.holdsData = true) (fits : ref.byteOffset + size ≤ limit ref.block) :
    slot base ref size ⊆ dataZone base limit := by
  rintro p ⟨low, high⟩
  simp only [addr] at low high
  exact ⟨ref.block, own, by omega, by omega⟩

theorem slot_end (layout : Layout base limit n) (fits : ref.byteOffset + size ≤ limit ref.block) :
    addr base ref + size ≤ n := by
  have := layout.inside ref.block
  unfold addr
  omega

namespace Inv

theorem contents (inv : Inv base limit n arch t) (h : ref.Contents t offset) :
    offset = addr base ref := by
  obtain ⟨b, is, -, rfl⟩ := h
  obtain rfl : base ref.block = b := Option.some.inj ((inv.place ref.block).2.1.symm.trans is)
  rfl

theorem loads (inv : Inv base limit n arch t) (h : ref.Loads t offset) :
    offset = addr base ref ∧ ref.byteOffset ≤ (t.blocks ref.block).size := by
  obtain ⟨b, is, inside, rfl⟩ := h
  obtain rfl : base ref.block = b := Option.some.inj ((inv.place ref.block).1.symm.trans is)
  exact ⟨rfl, inside⟩

theorem push (inv : Inv base limit n arch t) (new : List Write) :
    Inv base limit n arch (t.push new) where
  capacity := inv.capacity
  place := inv.place
  within := inv.within
  known found := by
    obtain ⟨data, contents, is, stored, fits⟩ := inv.known found
    exact ⟨data, contents, is, List.mem_append_left _ stored, fits⟩

end Inv

/-! ### Fields -/

/-- Fields one after the other, by offset and size, in a struct. -/
def FieldsOk (size : Nat) (l : List (Nat × Nat)) : Prop :=
  (l.Pairwise fun x y => x.1 + x.2 ≤ y.1) ∧ ∀ x ∈ l, 0 < x.2 ∧ x.1 + x.2 ≤ size

instance (size : Nat) (l : List (Nat × Nat)) : Decidable (FieldsOk size l) :=
  inferInstanceAs (Decidable (_ ∧ _))

def fieldShapes (l : List (Nat × Nat × Nat)) : List (Nat × Nat) := l.map fun x => (x.1, x.2.1)

theorem push_step {new : List Write} (apart : new.Pairwise Write.Apart)
    (inside : ∀ w ∈ new, Write.In w z) : Step z t (t.push new) :=
  ⟨fun _ => Nat.le_refl _, new, rfl, apart, inside⟩

theorem fields_apart (offset : Nat) {l : List (Nat × Nat × Nat)}
    (ok : FieldsOk size (fieldShapes l)) :
    (fields offset l).Pairwise Write.Apart ∧
      ∀ w ∈ fields offset l, Write.In w (Region.positions (offset, size)) := by
  constructor
  · refine List.pairwise_map.mpr ((List.pairwise_map.mp ok.1).imp ?_)
    rintro ⟨field, size, v⟩ ⟨field', size', v'⟩ before
    apply disjoint_of_apart
    refine .inl ?_
    simp only [length_encode] at before ⊢
    omega
  · intro w mem
    obtain ⟨⟨field, width, v⟩, here, rfl⟩ := List.mem_map.mp mem
    obtain ⟨some, inside⟩ := ok.2 (field, width)
      (List.mem_map_of_mem (f := fun x => (x.1, x.2.1)) here)
    refine ⟨by rwa [length_encode], ?_⟩
    rintro p ⟨low, high⟩
    simp only [length_encode] at inside low high
    exact ⟨by omega, by simp only; omega⟩

theorem fields_step {l : List (Nat × Nat × Nat)} (ok : FieldsOk size (fieldShapes l)) :
    Step (Region.positions (offset, size)) t (t.push (fields offset l)) :=
  push_step (fields_apart _ ok).1 (fields_apart _ ok).2

/-- A field that has been stored is read. -/
theorem field_number {image : Bytes} {l : List (Nat × Nat × Nat)} {field v : Nat}
    (shows : Shows image (fields offset l)) (mem : (field, size, v) ∈ l) (small : v < 256 ^ size) :
    number image (offset + field) size = v := by
  rw [shows.number (List.mem_map_of_mem (f := fun x : Nat × Nat × Nat =>
    (offset + x.1, encode x.2.1 x.2.2)) mem), Nat.mod_eq_of_lt small]

/-! ### Allocations -/

/-- What is allocated is new, and nothing else has changed. -/
structure New (base limit : Block → Nat) (n : Nat) (arch : Architecture) (b : Block) (size : Nat)
    (ref : Ref) (t t' : Traversal) : Prop where
  inv : Inv base limit n arch t'
  step : Step ∅ t t'
  block : ref.block = b
  fits : ref.byteOffset + size ≤ (t'.blocks ref.block).size
  slot : slot base ref size ⊆ fresh base t t'

theorem Inv.allocate (layout : Layout base limit n) (inv : Inv base limit n arch t) {b : Block}
    {size alignment : Nat} (run : allocate b size alignment t = .ok (ref, t')) :
    New base limit n arch b size ref t t' := by
  obtain ⟨_, t₁, got, rest⟩ := bind_ok run
  cases got
  obtain ⟨⟨offset, block⟩, t₂, first, rest'⟩ := bind_ok rest
  obtain ⟨allocated, same⟩ := lift_ok first
  rw [same] at rest'
  cases rest'
  obtain ⟨-, placed, fits, rfl⟩ := allocate_ok allocated
  have capacity : offset + size ≤ limit b := (inv.place b).2.2 ▸ fits _ (inv.place b).2.1
  have above : (t.blocks b).size ≤ offset := placed ▸ le_alignedOffset _ _
  have others {b' : Block} (different : b' ≠ b) (block : RelocatableDataBlock) :
      Function.update t.blocks b block b' = t.blocks b' := Function.update_of_ne different _ _
  refine ⟨⟨inv.capacity, ?_, ?_, ?_⟩, ⟨?_, [], (List.append_nil _).symm, .nil, ?_⟩, rfl, ?_, ?_⟩
  · intro b'
    by_cases same : b' = b
    · subst same
      dsimp only
      rw [Function.update_self]
      exact inv.place b'
    · dsimp only
      rw [others same]
      exact inv.place b'
  · intro b'
    by_cases same : b' = b
    · subst same
      dsimp only
      rw [Function.update_self]
      exact capacity
    · dsimp only
      rw [others same]
      exact inv.within b'
  · intro data bytes ref found
    obtain ⟨holds, contents, is, stored, inside⟩ := inv.known found
    refine ⟨holds, contents, is, stored, Nat.le_trans inside ?_⟩
    by_cases same : ref.block = b
    · dsimp only
      rw [same, Function.update_self]
      exact Nat.le_trans above (Nat.le_add_right _ _)
    · dsimp only
      rw [others same]
  · intro b'
    by_cases same : b' = b
    · subst same
      dsimp only
      rw [Function.update_self]
      exact Nat.le_trans above (Nat.le_add_right _ _)
    · dsimp only
      rw [others same]
  · exact fun w mem => absurd mem (by simp)
  · dsimp only
    rw [Function.update_self]
    exact Nat.le_refl _
  · rintro p ⟨low, high⟩
    simp only [addr] at low high
    refine ⟨⟨b, by omega, ?_⟩, ?_⟩
    · dsimp only
      rw [Function.update_self]
      change p < base b + (offset + size)
      omega
    · rintro ⟨b', low', high'⟩
      by_cases same : b' = b
      · subst same
        omega
      · have := inv.within b'
        rcases layout.apart same with before | after <;> omega

/-- The address of what is there is in the corpus, and is a number of 64 bits. -/
theorem Inv.inside (layout : Layout base limit n) (inv : Inv base limit n arch t)
    (fits : ref.byteOffset + size ≤ (t.blocks ref.block).size) : addr base ref + size ≤ n :=
  slot_end layout (Nat.le_trans fits (inv.within _))

/-- Two steps one after the other, of which the second fills in what the first has allocated or
what was there. -/
theorem Step.join {s : Set Nat} (first : Step (fresh base t t₁) t t₁)
    (second : Step (s ∪ fresh base t₁ t₂) t₁ t₂) (inside : s ⊆ taken base t) :
    Step (s ∪ fresh base t t₂) t t₂ := by
  refine (first.trans second ?_).mono ?_
  · rw [Set.disjoint_left]
    rintro p here (there | there)
    · exact here.2 (inside there)
    · exact there.2 here.1
  · rintro p (here | here | here)
    · exact .inr (fresh_first second.later here)
    · exact .inl here
    · exact .inr (fresh_second first.later here)

theorem Step.both (first : Step (fresh base t t₁) t t₁) (second : Step (fresh base t₁ t₂) t₁ t₂) :
    Step (fresh base t t₂) t t₂ := by
  have empty : Step ((∅ : Set Nat) ∪ fresh base t₁ t₂) t₁ t₂ := second.mono (by simp)
  have joined := first.join empty (Set.empty_subset _)
  rwa [Set.empty_union] at joined

/-- What was allocated first is filled in afterwards. -/
theorem Step.fill {s : Set Nat} (first : Step ∅ t t₁)
    (second : Step (s ∪ fresh base t₁ t₂) t₁ t₂) (new : s ⊆ fresh base t t₁) :
    Step (fresh base t t₂) t t₂ := by
  refine (first.trans second (Set.empty_disjoint _)).mono ?_
  rintro p (here | here | here)
  · exact absurd here (Set.notMem_empty p)
  · exact fresh_first second.later (new here)
  · exact fresh_second first.later here

/-! ### Data that is not stored twice -/

theorem Known.later {data : Data} {bytes : ByteData} (h : Known base arch t data bytes ref)
    (later : Later t t') : Known base arch t' data bytes ref := by
  obtain ⟨holds, contents, is, stored, fits⟩ := h
  exact ⟨holds, contents, is, later.subset stored, later.fits fits⟩

/-- Data that was not found is inserted and stored where it was allocated. -/
theorem Inv.deduplicate {data : Data} {bytes contents : ByteData}
    (inv : Inv base limit n arch t) (is : dataContents arch data bytes = .ok contents)
    (holds : ref.block.holdsData = true)
    (fits : ref.byteOffset + contents.length ≤ (t.blocks ref.block).size) :
    let t' : Traversal := Traversal.push { t with
      refMaps := Function.update t.refMaps data ((bytes, ref) :: t.refMaps data) }
        [(addr base ref, contents)]
    Inv base limit n arch t' ∧ Known base arch t' data bytes ref := by
  intro t'
  have known : Known base arch t' data bytes ref :=
    ⟨holds, contents, is, List.mem_append_right _ (List.mem_singleton_self _), fits⟩
  refine ⟨⟨inv.capacity, inv.place, inv.within, ?_⟩, known⟩
  intro data' bytes' ref' found
  have before (found : (t.refMaps data').lookup bytes' = some ref') :
      Known base arch t' data' bytes' ref' := by
    obtain ⟨holds, contents, is, stored, inside⟩ := inv.known found
    exact ⟨holds, contents, is, List.mem_append_left _ stored, inside⟩
  change (Function.update t.refMaps data ((bytes, ref) :: t.refMaps data) data').lookup bytes' =
    some ref' at found
  by_cases same : data' = data
  · subst same
    rw [Function.update_self, List.lookup_cons] at found
    cases here : bytes' == bytes with
    | true =>
      rw [here] at found
      obtain rfl := Option.some.inj found
      rw [eq_of_beq here]
      exact known
    | false =>
      rw [here] at found
      exact before found
  · rw [Function.update_of_ne same] at found
    exact before found

theorem deduplicates_known (size : Nat) (layout : Layout base limit n)
    (inv : Inv base limit n arch t)
    {data : Data} {bytes : ByteData} {new : Traverse Ref} {write : Ref → Traverse Unit}
    (bytesToStore : 0 < size) (allocates : ∀ ref t', new t = .ok (ref, t') →
      ∃ b alignment, b.holdsData = true ∧ allocate b size alignment t = .ok (ref, t'))
    (writes : ∀ ref t u t', write ref t = .ok (u, t') → ∃ o contents, ref.Contents t o ∧
      dataContents arch data bytes = .ok contents ∧ contents.length = size ∧
      t' = t.push [(o, contents)])
    (run : (do
      match ← find data bytes with
      | some ref => return ref
      | none => do
        let ref ← new
        insert data bytes ref
        inGeneration .kGeneration (write ref)
        return ref : Traverse Ref) t = .ok (ref, t')) :
    Inv base limit n arch t' ∧ Step (fresh base t t') t t' ∧ Known base arch t' data bytes ref := by
  obtain ⟨found, t₁, first, rest₁⟩ := bind_ok run
  cases first
  cases is : (t.refMaps data).lookup bytes with
  | some known =>
    rw [is] at rest₁
    cases rest₁
    exact ⟨inv, (Step.refl t).mono (Set.empty_subset _), inv.known is⟩
  | none =>
    rw [is] at rest₁
    obtain ⟨ref', t₂, second, rest₂⟩ := bind_ok rest₁
    obtain ⟨b, alignment, holds, allocated⟩ := allocates ref' t₂ second
    have new := inv.allocate layout allocated
    obtain ⟨_, t₃, inserted, rest₃⟩ := bind_ok rest₂
    cases inserted
    obtain ⟨_, t₄, wrote, rest₄⟩ := bind_ok rest₃
    obtain ⟨o, contents, placed, made, length, rfl⟩ := writes _ _ _ _ wrote
    obtain rfl : o = addr base ref' := new.inv.contents placed
    cases rest₄
    have fits := new.fits
    rw [← length] at fits
    obtain ⟨inv', known⟩ := new.inv.deduplicate made (by rw [new.block, holds]) fits
    refine ⟨inv', ?_, known⟩
    refine new.step.fill (s := slot base ref size) ⟨fun _ => Nat.le_refl _, _, rfl,
      List.pairwise_singleton _ _, ?_⟩ new.slot
    intro w mem
    rw [List.mem_singleton.mp mem]
    subst length
    exact ⟨bytesToStore, Set.subset_union_left⟩

theorem processMemoryBytes_known (layout : Layout base limit n) (inv : Inv base limit n arch t)
    {b : MemoryBytes} (run : processMemoryBytes .kGeneration b t = .ok (ref, t')) :
    Inv base limit n arch t' ∧ Step (fresh base t t') t t' ∧
      Known base arch t' .byteData b.byteValues ref := by
  refine deduplicates_known b.byteValues.length layout inv
    (List.length_pos_of_ne_nil b.nonempty) ?_ ?_ run
  · intro ref t' run
    unfold allocateByteData at run
    split at run
    · exact ⟨.pageData, _, rfl, run⟩
    · exact ⟨.byteData, _, rfl, run⟩
  · intro ref t u t' run
    obtain ⟨o, t₁, first, rest⟩ := bind_ok run
    obtain ⟨placed, rfl⟩ := contents_ok first
    cases rest
    exact ⟨o, b.byteValues, placed, rfl, rfl, rfl⟩

theorem registerContents_of_ok {set : RegisterSet} {serialized registers : ByteData}
    {allowEmpty : Bool} (h : registerContents arch set serialized allowEmpty = .ok registers) :
    registerContents arch set serialized true = .ok registers ∧
      registers.length = (set.type arch).size := by
  unfold registerContents at h ⊢
  split at h
  · next some =>
    rw [if_pos some]
    refine ⟨h, ?_⟩
    cases is : set.deserialize arch serialized with
    | none =>
      rw [is] at h
      cases h
    | some found =>
      rw [is] at h
      cases h
      cases set with
      | fpregs => exact Serialize.length_deserializeFPRegs is
      | gregs => exact Serialize.length_deserializeGRegs is
  · next none =>
    rw [if_neg none, if_pos rfl]
    split at h
    · cases h
      exact ⟨rfl, List.length_replicate⟩
    · cases h

theorem dataContents_register (set : RegisterSet) (serialized : ByteData) :
    dataContents arch set.data serialized = registerContents arch set serialized true := by
  cases set <;> rfl

theorem processRegisterSet_known (layout : Layout base limit n) (inv : Inv base limit n arch t)
    {set : RegisterSet} {serialized : ByteData} {allowEmpty : Bool}
    (run : processRegisterSet .kGeneration arch set serialized allowEmpty t = .ok (ref, t')) :
    Inv base limit n arch t' ∧ Step (fresh base t t') t t' ∧
      Known base arch t' set.data serialized ref := by
  refine deduplicates_known (set.type arch).size layout inv
    (by cases set <;> cases arch <;> decide) ?_ ?_ run
  · intro ref t' run
    refine ⟨set.block, (set.type arch).align, by cases set <;> rfl, ?_⟩
    unfold allocateObjectsOfType at run
    rwa [Nat.mul_one] at run
  · intro ref t u t' run
    obtain ⟨o, registers, placed, -, read, rfl⟩ := storeRegisterSet_ok run
    obtain ⟨allowed, length⟩ := registerContents_of_ok read
    exact ⟨o, registers, placed, (dataContents_register set serialized).trans allowed, length, rfl⟩

/-! ### Registers -/

/-- An object of the type is in the content buffer, in a block without pointers. -/
structure Stored (base : Block → Nat) (t : Traversal) (type : CType) (ref : Ref)
    (contents : ByteData) : Prop where
  holds : ref.block.holdsData = true
  stored : (addr base ref, contents) ∈ t.stores
  length : contents.length = type.size
  fits : ref.byteOffset + type.size ≤ (t.blocks ref.block).size
  aligned : addr base ref % type.align = 0

theorem Stored.later {type : CType} {contents : ByteData} (h : Stored base t type ref contents)
    (later : Later t t') : Stored base t' type ref contents :=
  ⟨h.holds, later.subset h.stored, h.length, later.fits h.fits, h.aligned⟩

theorem Known.registers {set : RegisterSet} {serialized : ByteData}
    (h : Known base arch t set.data serialized ref)
    (aligned : addr base ref % (set.type arch).align = 0) :
    ∃ registers, registerContents arch set serialized true = .ok registers ∧
      Stored base t (set.type arch) ref registers := by
  obtain ⟨holds, contents, is, stored, fits⟩ := h
  rw [dataContents_register] at is
  obtain ⟨-, length⟩ := registerContents_of_ok is
  exact ⟨contents, is, holds, stored, length, length ▸ fits, aligned⟩

theorem Inv.shows (inv : Inv base limit n arch t) (separate : Separate n t.stores) :
    Shows t.contents t.stores := by
  unfold Traversal.contents
  rw [inv.capacity]
  exact shows_written (by rwa [List.length_replicate])

/-- The register sets that a program reads. -/
def snapRegisterStateOf (arch : Architecture) (registers : RegisterState) :
    Except CheckFailure SnapRegisterState := do
  let fpregs ← registerContents arch .fpregs registers.fpregs true
  let gregs ← registerContents arch .gregs registers.gregs true
  return ⟨fpregs, gregs⟩

def snapRegisterMemoryChecksumOf (registers : SnapRegisterState) : SnapRegisterMemoryChecksum :=
  ⟨(crc32cUnaccelerated 0 registers.fpregs).toNat, (crc32cUnaccelerated 0 registers.gregs).toNat⟩

structure RegistersStored (base : Block → Nat) (arch : Architecture) (t : Traversal)
    (refs : RegisterStateRefs) (registers : SnapRegisterState) : Prop where
  fpregs : Stored base t (.fpRegSet arch) refs.fpregs registers.fpregs
  gregs : Stored base t (.gRegSet arch) refs.gregs registers.gregs

/-- The register sets are in the content buffer, and the checksums are theirs. -/
theorem processRegisterState_stored (layout : Layout base limit n)
    (inv : Inv base limit n arch t) {registers : RegisterState} {allowEmpty : Bool}
    {refs : RegisterStateRefs} {checksum : SnapRegisterMemoryChecksum}
    (run : processRegisterState .kGeneration arch registers allowEmpty t =
      .ok ((refs, checksum), t')) :
    Inv base limit n arch t' ∧ Step (fresh base t t') t t' ∧
      ∃ registers', snapRegisterStateOf arch registers = .ok registers' ∧
        RegistersStored base arch t' refs registers' ∧
        (Separate n t'.stores → checksum = snapRegisterMemoryChecksumOf registers') := by
  obtain ⟨gregs, t₁, first, rest₁⟩ := bind_ok run
  obtain ⟨inv₁, step₁, known₁⟩ := processRegisterSet_known layout inv first
  obtain ⟨fpregs, t₂, second, rest₂⟩ := bind_ok rest₁
  obtain ⟨inv₂, step₂, known₂⟩ := processRegisterSet_known layout inv₁ second
  obtain ⟨checksum', t₃, third, rest₃⟩ := bind_ok rest₂
  obtain ⟨o, o', placed, placed', aligned, aligned', rfl, rfl⟩ := registerMemoryChecksum_ok third
  cases rest₃
  obtain rfl : o = addr base fpregs := inv₂.contents placed
  obtain rfl : o' = addr base gregs := inv₂.contents placed'
  obtain ⟨f, isF, storedF⟩ := known₂.registers aligned
  obtain ⟨g, isG, storedG⟩ := (known₁.later step₂.later).registers aligned'
  refine ⟨inv₂, step₁.both step₂, ⟨f, g⟩, ?_, ⟨storedF, storedG⟩, ?_⟩
  · unfold snapRegisterStateOf
    rw [isF, isG]
    rfl
  · intro separate
    have shows := inv₂.shows separate
    have readF := shows _ storedF.stored
    have readG := shows _ storedG.stored
    dsimp only at readF readG
    rw [storedF.length] at readF
    rw [storedG.length] at readG
    change SnapRegisterMemoryChecksum.mk (crc32cUnaccelerated 0 (piece _ _ (CType.fpRegSet arch).size)).toNat
      (crc32cUnaccelerated 0 (piece _ _ (CType.gRegSet arch).size)).toNat = _
    rw [show piece t'.contents (addr base fpregs) (CType.fpRegSet arch).size = f from readF,
      show piece t'.contents (addr base gregs) (CType.gRegSet arch).size = g from readG]
    rfl

end

/-! ## Objects -/

/-- A kind of objects: where they are, where the relocator goes in one at an offset, what is read
beside that, and what it is in the end. -/
structure Kind (β : Type) where
  block : Block
  type : CType
  walk : Nat → Walk
  regions : Bytes → Nat → List Region
  read : Bytes → Nat → β

/-- The object is there, with all that it points to. -/
structure Made {β : Type} (k : Kind β) (value : β) (image : Bytes) (data zone : Set Nat)
    (offset : Nat) : Prop where
  keeps : Keeps (k.walk offset) (k.regions image offset) image data zone
  read : k.read image offset = value

/-- The objects are there, one after the other. -/
structure ListMade {β : Type} (k : Kind β) (values : List β) (image : Bytes) (data zone : Set Nat)
    (first : Nat) : Prop where
  keeps : Keeps (.each k.walk (offsets k.type first values.length))
    ((offsets k.type first values.length).flatMap (k.regions image)) image data zone
  read : (offsets k.type first values.length).map (k.read image) = values

/-- An object has been filled in, at the reference. -/
structure Filled {β : Type} (base limit : Block → Nat) (n : Nat) (arch : Architecture) (k : Kind β)
    (value : β) (ref : Ref) (t t' : Traversal) : Prop where
  inv : Inv base limit n arch t'
  step : Step (slot base ref k.type.size ∪ fresh base t t') t t'
  aligned : addr base ref % k.type.align = 0
  made : Lasting n t' fun image => Made k value image (dataZone base limit)
    (zone base limit (slot base ref k.type.size) t t') (addr base ref)

structure ListFilled {β : Type} (base limit : Block → Nat) (n : Nat) (arch : Architecture)
    (k : Kind β) (values : List β) (ref : Ref) (t t' : Traversal) : Prop where
  inv : Inv base limit n arch t'
  step : Step (slot base ref (values.length * k.type.size) ∪ fresh base t t') t t'
  aligned : values.length = 0 ∨ addr base ref % k.type.align = 0
  made : Lasting n t' fun image => ListMade k values image (dataZone base limit)
    (zone base limit (slot base ref (values.length * k.type.size)) t t') (addr base ref)

/-- The runs for each element, which lie one after the other from `ref` on. -/
inductive Elements {α : Type} (f : α → Ref → Traverse Unit) (size : Nat) :
    List α → Ref → Traversal → Traversal → Prop
  | nil {ref : Ref} {t : Traversal} : Elements f size [] ref t t
  | cons {a : α} {l : List α} {ref : Ref} {t t₁ t' : Traversal} (run : f a ref t = .ok ((), t₁))
    (rest : Elements f size l ⟨ref.block, ref.byteOffset + size⟩ t₁ t') :
    Elements f size (a :: l) ref t t'

section

variable {α β : Type} {base limit : Block → Nat} {arch : Architecture} {n : Nat}
  {t t₁ t' : Traversal} {ref : Ref} {k : Kind β}

theorem forElements_ok {f : α → Ref → Traverse Unit} {size : Nat} {l : List α} {u : Unit}
    (run : forElements size f l ref t = .ok (u, t')) : Elements f size l ref t t' := by
  induction l generalizing ref t with
  | nil =>
    cases run
    exact .nil
  | cons a l ih =>
    obtain ⟨_, t₁, first, rest₁⟩ := bind_ok run
    obtain ⟨next, t₂, plus, rest₂⟩ := bind_ok rest₁
    obtain ⟨rfl, rfl⟩ := plus_ok plus
    exact .cons first (ih rest₂)

theorem offsets_cons (type : CType) (first count : Nat) :
    offsets type first (count + 1) = first :: offsets type (first + type.size) count := by
  unfold offsets
  rw [List.range_succ_eq_map, List.map_cons, List.map_map, Nat.zero_mul, Nat.add_zero]
  congr 2
  funext i
  simp only [Function.comp, Nat.succ_mul]
  omega

theorem slot_split (base : Block → Nat) (ref : Ref) (size rest : Nat) :
    slot base ref (size + rest) =
      slot base ref size ∪ slot base ⟨ref.block, ref.byteOffset + size⟩ rest := by
  ext p
  simp only [slot, Region.positions, addr, Set.mem_Ico, Set.mem_union]
  omega

theorem slot_apart (base : Block → Nat) (ref : Ref) (size rest : Nat) :
    Disjoint (slot base ref size) (slot base ⟨ref.block, ref.byteOffset + size⟩ rest) := by
  rw [Set.disjoint_left]
  rintro p ⟨low, high⟩ ⟨low', high'⟩
  simp only [addr] at low high low' high'
  omega

/-- A zone has nothing of the blocks without pointers. -/
theorem zone_free {s : Set Nat} (free : Disjoint s (dataZone base limit)) :
    Disjoint (zone base limit s t t') (dataZone base limit) :=
  Set.disjoint_union_left.mpr ⟨free, Set.disjoint_sdiff_left⟩

theorem zone_subset (s : Set Nat) : zone base limit s t t' ⊆ s ∪ fresh base t t' :=
  Set.union_subset_union_right _ Set.sdiff_subset

/-- **Elements are filled in one after the other**, each with what is allocated for it. -/
theorem elements_filled (layout : Layout base limit n) (own : k.block.holdsData = false)
    {f : α → Ref → Traverse Unit} {R : α → β → Prop} {l : List α}
    (each : ∀ a ∈ l, ∀ ref t t', Inv base limit n arch t → ref.block = k.block →
      ref.byteOffset + k.type.size ≤ (t.blocks ref.block).size → f a ref t = .ok ((), t') →
      ∃ value, R a value ∧ Filled base limit n arch k value ref t t')
    (run : Elements f k.type.size l ref t t') (inv : Inv base limit n arch t)
    (block : ref.block = k.block)
    (fits : ref.byteOffset + l.length * k.type.size ≤ (t.blocks ref.block).size) :
    ∃ values, List.Forall₂ R l values ∧ ListFilled base limit n arch k values ref t t' := by
  induction run with
  | nil =>
    refine ⟨[], .nil, inv, (Step.refl _).mono (Set.empty_subset _), .inl rfl, ?_⟩
    exact fun image _ => ⟨Keeps.none, rfl⟩
  | @cons a l ref t t₁ t' run rest ih =>
    rw [List.length_cons, Nat.succ_mul] at fits
    obtain ⟨value, of, filled⟩ := each a (List.mem_cons_self) ref t t₁ inv block (by omega) run
    have room : ref.byteOffset + k.type.size + l.length * k.type.size ≤ (t₁.blocks ref.block).size :=
      Nat.le_trans (by omega) (filled.step.sizes ref.block)
    obtain ⟨values, all, rest⟩ := ih (fun a mem => each a (List.mem_cons_of_mem _ mem)) filled.inv
      block room
    have count : values.length = l.length := all.length_eq.symm
    have taken₁ : slot base ref k.type.size ⊆ taken base t := slot_taken (by omega)
    have taken₂ : slot base ⟨ref.block, ref.byteOffset + k.type.size⟩
        (values.length * k.type.size) ⊆ taken base t := slot_taken (by rw [count]; dsimp only; omega)
    have split : slot base ref ((values.length + 1) * k.type.size) = slot base ref k.type.size ∪
        slot base ⟨ref.block, ref.byteOffset + k.type.size⟩ (values.length * k.type.size) := by
      rw [Nat.succ_mul, Nat.add_comm]
      exact slot_split base ref k.type.size (values.length * k.type.size)
    have apart : Disjoint (slot base ref k.type.size ∪ fresh base t t₁)
        (slot base ⟨ref.block, ref.byteOffset + k.type.size⟩ (values.length * k.type.size) ∪
          fresh base t₁ t') := zones_disjoint filled.step.later taken₁ taken₂ (slot_apart base ref _ _)
    refine ⟨value :: values, .cons of all, rest.inv, ?_, .inr filled.aligned, ?_⟩
    · refine (filled.step.trans rest.step apart).mono ?_
      rw [List.length_cons, split]
      rintro p ((here | here) | (here | here))
      · exact .inl (.inl here)
      · exact .inr (fresh_first rest.step.later here)
      · exact .inl (.inr here)
      · exact .inr (fresh_second filled.step.later here)
    · intro image final
      obtain ⟨keeps, read⟩ := filled.made.later rest.step.later image final
      obtain ⟨keeps', read'⟩ := rest.made image final
      have own' : ref.block.holdsData = false := block ▸ own
      have within := inv.within ref.block
      have free₁ := slot_free ref k.type.size layout own' (by omega)
      have free₂ := slot_free ⟨ref.block, ref.byteOffset + k.type.size⟩
        (values.length * k.type.size) layout own' (by rw [count]; dsimp only; omega)
      have both := keeps.seq keeps' (apart.mono (zone_subset _) (zone_subset _)) (zone_free free₁)
        (zone_free free₂)
      have next : addr base ⟨ref.block, ref.byteOffset + k.type.size⟩ =
          addr base ref + k.type.size := (Nat.add_assoc _ _ _).symm
      rw [next] at both read'
      constructor
      · rw [List.length_cons, offsets_cons, List.flatMap_cons]
        refine both.mono ?_
        rw [split]
        rintro p ((here | ⟨here, no⟩) | (here | ⟨here, no⟩))
        · exact .inl (.inl here)
        · exact .inr ⟨fresh_first rest.step.later here, no⟩
        · exact .inl (.inr here)
        · exact .inr ⟨fresh_second filled.step.later here, no⟩
      · rw [List.length_cons, offsets_cons, List.map_cons, read, read']

/-- Objects have been allocated and filled in. -/
structure ListStored {β : Type} (base limit : Block → Nat) (n : Nat) (arch : Architecture)
    (k : Kind β) (values : List β) (ref : Ref) (t t' : Traversal) : Prop where
  inv : Inv base limit n arch t'
  step : Step (fresh base t t') t t'
  inside : addr base ref + values.length * k.type.size ≤ n
  aligned : values.length = 0 ∨ addr base ref % k.type.align = 0
  made : Lasting n t' fun image => ListMade k values image (dataZone base limit)
    (fresh base t t' \ dataZone base limit) (addr base ref)

theorem list_stored (layout : Layout base limit n) (own : k.block.holdsData = false)
    {values : List β} (new : New base limit n arch k.block (k.type.size * values.length) ref t t₁)
    (filled : ListFilled base limit n arch k values ref t₁ t') :
    ListStored base limit n arch k values ref t t' := by
  have fits := new.fits
  have slot := new.slot
  rw [Nat.mul_comm] at fits slot
  have within := filled.step.later.fits fits
  refine ⟨filled.inv, new.step.fill filled.step slot, filled.inv.inside layout within,
    filled.aligned, fun image final => ?_⟩
  obtain ⟨keeps, read⟩ := filled.made image final
  refine ⟨keeps.mono ?_, read⟩
  have free := slot_free ref (values.length * k.type.size) layout (new.block ▸ own)
    (Nat.le_trans within (filled.inv.within _))
  rintro p (here | ⟨here, no⟩)
  · exact ⟨fresh_first filled.step.later (slot here), Set.disjoint_left.mp free here⟩
  · exact ⟨fresh_second new.step.later here, no⟩

end

/-! ### Pointers and arrays -/

section

variable {β : Type} {image : Bytes} {data zone : Set Nat} {k : Kind β} {values : List β}
  {first : Nat}

theorem pointer_keeps {start field : Nat} {type : CType} (inside : field + 8 ≤ image.length)
    (points : PointerOk start type image (number image field 8)) :
    Keeps (pointerWalk start type field) [] image data (Region.positions (field, 8)) :=
  Keeps.single ⟨inside, points⟩ rfl (Nat.succ_pos _) (Set.Subset.refl _)

/-- The elements of an array are there, where a corpus at `start` may have them. -/
structure ElementsThere (start : Nat) (k : Kind β) (values : List β) (image : Bytes)
    (data zone : Set Nat) (first : Nat) : Prop where
  made : ListMade k values image data zone first
  bounds : first + values.length * k.type.size ≤ image.length
  aligned : values.length = 0 ∨ (start + first) % k.type.align = 0
  free : Disjoint zone data

theorem ElementsThere.small {start : Nat}
    (there : ElementsThere start k values image data zone first) (some : 0 < k.type.size)
    (room : image.length < 256 ^ 8) : values.length < 256 ^ 8 ∧ first < 256 ^ 8 := by
  have bounds := there.bounds
  have many := Nat.le_mul_of_pos_right values.length some
  omega

/-- An array of objects that are there. -/
theorem array_made {start : Nat} (array : Nat)
    (there : ElementsThere start k values image data zone first)
    (inside : array + 16 ≤ image.length) (size : arraySize image array = values.length)
    (elements : arrayElements image array = first)
    (disjoint : Disjoint (Region.positions (array, 16)) zone)
    (free : Disjoint (Region.positions (array, 16)) data) :
    Keeps (arrayWalk start k.type array k.walk)
        ((elementOffsets k.type image array).flatMap (k.regions image)) image data
        (Region.positions (array, 16) ∪ zone) ∧
      (SnapReader.elements 0 image k.type array).map (k.read image) = values := by
  have list : elementOffsets k.type image array = offsets k.type first values.length := by
    unfold elementOffsets
    rw [size, elements]
  have ok : ArrayOk start k.type image array := by
    unfold ArrayOk
    rw [size, elements]
    have bounds := there.bounds
    rcases Nat.eq_zero_or_pos values.length with none | some
    · exact .inl none
    · have one := Nat.le_mul_of_pos_left k.type.size some
      exact .inr ⟨⟨by omega, there.aligned.resolve_left (by omega)⟩, bounds⟩
  have header : Keeps (headerWalk start k.type array) [] image data
      (Region.positions (array, 16)) :=
    Keeps.single ⟨inside, ok⟩ rfl (Nat.succ_pos _) (Set.Subset.refl _)
  have keeps := there.made.keeps
  rw [← list] at keeps
  have both := header.seq keeps disjoint free there.free
  refine ⟨⟨both.valid, both.cells, both.apart, both.within, both.beside⟩, ?_⟩
  change (elementOffsets k.type image array).map (k.read image) = values
  rw [list]
  exact there.made.read

/-- What a list of objects is in any image that has what was stored. -/
theorem ListStored.there {base limit : Block → Nat} {n : Nat} {arch : Architecture} {ref : Ref}
    {t t₁ t' : Traversal} (h : ListStored base limit n arch k values ref t t₁)
    (later : Later t₁ t') {start : Nat} (page : start % k.type.align = 0) :
    Lasting n t' fun image => ElementsThere start k values image (dataZone base limit)
      (fresh base t t₁ \ dataZone base limit) (addr base ref) := by
  intro image final
  refine ⟨h.made.later later image final, final.within h.inside, ?_,
    Set.disjoint_sdiff_left⟩
  refine h.aligned.imp_right fun aligned => ?_
  rw [Nat.add_mod, page, aligned, Nat.zero_add, Nat.zero_mod]

end

end Traversal

end Silifuzz
