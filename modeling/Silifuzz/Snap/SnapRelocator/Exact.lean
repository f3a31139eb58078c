import Silifuzz.Library.Footprints
import Silifuzz.Snap.SnapRelocator.Safe

/-!
# What the relocator changes

Where the parts of a corpus that are relocated have no byte in common, the relocator adds the
address of the corpus to each pointer, makes the pointer of an empty array null, and leaves
everything else as it is.
-/

namespace Silifuzz.SnapRelocator

open LittleEndian Images Footprints Triples

/-- An object at the offset, where a corpus at `start` has one. -/
def PointerOk (start : Nat) (t : CType) (image : Bytes) (offset : Nat) : Prop :=
  offset + t.size ≤ image.length ∧ (start + offset) % t.align = 0

def arraySize (image : Bytes) (array : Nat) : Nat := number image (array + Offset.SnapArray.size) 8

def arrayElements (image : Bytes) (array : Nat) : Nat :=
  number image (array + Offset.SnapArray.elements) 8

def ArrayOk (start : Nat) (t : CType) (image : Bytes) (array : Nat) : Prop :=
  arraySize image array = 0 ∨
    PointerOk start t image (arrayElements image array) ∧
      arrayElements image array + arraySize image array * t.size ≤ image.length

/-- The offsets of `count` objects. -/
def offsets (t : CType) (first count : Nat) : List Nat :=
  (List.range count).map fun i => first + i * t.size

/-- Where the elements of an array are before it is relocated. -/
def elementOffsets (t : CType) (image : Bytes) (array : Nat) : List Nat :=
  offsets t (arrayElements image array) (arraySize image array)

def isRepeating (image : Bytes) (memoryBytes : Nat) : Bool :=
  number image (memoryBytes + Offset.SnapMemoryBytes.flags) 1 &&&
    Offset.SnapMemoryBytes.kRepeating ≠ 0

section

variable (start : Nat)

/-! ## The walks -/

def pointerWalk (t : CType) (field : Nat) : Walk where
  cells image := [⟨field, 8, some (field, start + number image field 8)⟩]
  valid image := field + 8 ≤ image.length ∧ PointerOk start t image (number image field 8)

def headerWalk (t : CType) (array : Nat) : Walk where
  cells image := [⟨array, 16, some (array + 8,
    if arraySize image array = 0 then 0 else start + arrayElements image array)⟩]
  valid image := array + 16 ≤ image.length ∧ ArrayOk start t image array

/-- An array, and what is done for the offset of each element. -/
def arrayWalk (t : CType) (array : Nat) (body : Nat → Walk) : Walk where
  cells image :=
    ((headerWalk start t array).seq (.each body (elementOffsets t image array))).cells image
  valid image :=
    ((headerWalk start t array).seq (.each body (elementOffsets t image array))).valid image

def memoryBytesWalk (memoryBytes : Nat) : Walk where
  cells image := [⟨memoryBytes, 32,
    if isRepeating image memoryBytes then none
    else some (memoryBytes + 24, start + number image (memoryBytes + 24) 8)⟩]
  valid image := memoryBytes + 32 ≤ image.length ∧
    (isRepeating image memoryBytes = false →
      PointerOk start .uint8 image (number image (memoryBytes + 24) 8))

def memoryBytesArrayWalk (array : Nat) : Walk :=
  arrayWalk start .snapMemoryBytes array (memoryBytesWalk start)

def mappingsWalk (array : Nat) : Walk :=
  arrayWalk start .snapMemoryMapping array fun mapping =>
    memoryBytesArrayWalk start (mapping + Offset.SnapMemoryMapping.memoryBytes)

def registerStateWalk (arch : Architecture) (registerState : Nat) : Walk :=
  (pointerWalk start (.fpRegSet arch) (registerState + Offset.RegisterState.fpregs)).seq
    (pointerWalk start (.gRegSet arch) (registerState + Offset.RegisterState.gregs))

def snapWalk (arch : Architecture) (snap : Nat) : Walk :=
  (pointerWalk start .char (snap + Offset.Snap.id)).seq
    ((mappingsWalk start (snap + Offset.Snap.memoryMappings)).seq
      ((registerStateWalk start arch (snap + Offset.Snap.registers)).seq
        ((registerStateWalk start arch (snap + Offset.Snap.endStateRegisters)).seq
          (memoryBytesArrayWalk start (snap + Offset.Snap.endStateMemoryBytes)))))

/-- A pointer, and what is done for the object that it has the offset of. -/
def followWalk (t : CType) (field : Nat) (body : Nat → Walk) : Walk where
  cells image := ((pointerWalk start t field).seq (body (number image field 8))).cells image
  valid image := ((pointerWalk start t field).seq (body (number image field 8))).valid image

def corpusWalk (arch : Architecture) : Walk :=
  arrayWalk start .snapPointer Offset.SnapCorpus.snaps fun snapPtr =>
    followWalk start .snap snapPtr (snapWalk start arch)

end

/-! ## The walks depend on their own cells -/

variable {start : Nat} {t : CType} {image image' : Bytes} {array field : Nat} {body : Nat → Walk}

theorem pointerWalk_lawful : (pointerWalk start t field).Lawful where
  fits valid c mem := by
    rw [List.mem_singleton.mp mem]
    refine ⟨?_, valid.1⟩
    intro f v is
    cases is
    exact ⟨Nat.le_refl _, Nat.le_refl _⟩
  same {image image'} agree := by
    have same := agree.number field 8 List.mem_cons_self (Nat.le_refl _)
      (Nat.le_refl _)
    have length := agree.1
    unfold pointerWalk PointerOk
    simp only [← same, ← length]
    exact ⟨trivial, id⟩

theorem headerWalk_same (agree : Agree ((headerWalk start t array).cells image) image image') :
    arraySize image' array = arraySize image array ∧
      arrayElements image' array = arrayElements image array :=
  ⟨(agree.number _ _ List.mem_cons_self (Nat.le_refl _)
    (by change array + 0 + 8 ≤ array + 16; omega)).symm,
    (agree.number _ _ List.mem_cons_self (Nat.le_add_right _ _) (Nat.le_refl _)).symm⟩

theorem headerWalk_lawful : (headerWalk start t array).Lawful where
  fits valid c mem := by
    rw [List.mem_singleton.mp mem]
    refine ⟨?_, valid.1⟩
    intro f v is
    cases is
    exact ⟨Nat.le_add_right _ _, Nat.le_refl _⟩
  same {image image'} agree := by
    obtain ⟨size, elements⟩ := headerWalk_same agree
    have length := agree.1
    unfold headerWalk ArrayOk PointerOk
    simp only [size, elements, ← length]
    exact ⟨trivial, id⟩

theorem arrayWalk_lawful (h : ∀ offset, (body offset).Lawful) :
    (arrayWalk start t array body).Lawful where
  fits valid := (Walk.seq_lawful headerWalk_lawful (Walk.each_lawful fun a _ => h a)).fits valid
  same {image image'} agree := by
    obtain ⟨size, elements⟩ := @headerWalk_same start t image image' array
      ⟨agree.1, fun c mem => agree.2 c (List.mem_append_left _ mem)⟩
    have list : elementOffsets t image' array = elementOffsets t image array := by
      unfold elementOffsets
      rw [size, elements]
    have same := (Walk.seq_lawful (@headerWalk_lawful start t array)
      (Walk.each_lawful (l := elementOffsets t image array) fun a _ => h a)).same agree
    unfold arrayWalk
    simp only [list]
    exact same

theorem memoryBytesWalk_lawful (memoryBytes : Nat) :
    (memoryBytesWalk start memoryBytes).Lawful where
  fits valid c mem := by
    rw [List.mem_singleton.mp mem]
    refine ⟨?_, valid.1⟩
    intro f v is
    dsimp only at is
    split at is
    · cases is
    · cases is
      exact ⟨Nat.le_add_right _ _, Nat.le_refl _⟩
  same {image image'} agree := by
    have flags : isRepeating image' memoryBytes = isRepeating image memoryBytes := by
      unfold isRepeating
      rw [agree.number (memoryBytes + Offset.SnapMemoryBytes.flags) 1 List.mem_cons_self
        (Nat.le_add_right _ _)
        (by change memoryBytes + 8 + 1 ≤ memoryBytes + 32; omega)]
    have elements := agree.number (memoryBytes + 24) 8 List.mem_cons_self
      (Nat.le_add_right _ _) (Nat.le_refl _)
    have length := agree.1
    unfold memoryBytesWalk PointerOk
    simp only [flags, ← elements, ← length]
    exact ⟨trivial, id⟩

theorem memoryBytesArrayWalk_lawful : (memoryBytesArrayWalk start array).Lawful :=
  arrayWalk_lawful memoryBytesWalk_lawful

theorem registerStateWalk_lawful (arch : Architecture) (registerState : Nat) :
    (registerStateWalk start arch registerState).Lawful :=
  Walk.seq_lawful pointerWalk_lawful pointerWalk_lawful

theorem snapWalk_lawful (arch : Architecture) (snap : Nat) :
    (snapWalk start arch snap).Lawful :=
  Walk.seq_lawful pointerWalk_lawful
    (Walk.seq_lawful (arrayWalk_lawful fun _ => memoryBytesArrayWalk_lawful)
      (Walk.seq_lawful (registerStateWalk_lawful arch _)
        (Walk.seq_lawful (registerStateWalk_lawful arch _) memoryBytesArrayWalk_lawful)))

theorem followWalk_lawful (h : ∀ offset, (body offset).Lawful) :
    (followWalk start t field body).Lawful where
  fits valid := (Walk.seq_lawful pointerWalk_lawful (h _)).fits valid
  same {image image'} agree := by
    have same := agree.number field 8 (List.mem_append_left _ List.mem_cons_self)
      (Nat.le_refl _) (Nat.le_refl _)
    have both := (Walk.seq_lawful (@pointerWalk_lawful start t field)
      (h (number image field 8))).same agree
    unfold followWalk
    simp only [← same]
    exact both

/-- The walk through a corpus depends on its own cells. -/
theorem corpusWalk_lawful (arch : Architecture) : (corpusWalk start arch).Lawful :=
  arrayWalk_lawful fun _ => followWalk_lawful fun snap => snapWalk_lawful arch snap

/-! ## The relocator does the walks -/

section

variable {r : Relocator} {n fuel : Nat}

theorem load_run (sized : r.Sized image.length) (offset size : Nat)
    (inside : offset + size ≤ image.length) :
    load r (r.startAddress + offset) size image = .ok (number image offset size, image) := by
  have limit := sized.limit
  change (if r.startAddress ≤ r.startAddress + offset ∧
    r.startAddress + offset + size ≤ r.limitAddress then _ else _ : Relocation Nat) image = _
  rw [if_pos ⟨Nat.le_add_right _ _, by omega⟩, Nat.add_sub_cancel_left]
  rfl

theorem load_outside (sized : r.Sized image.length) (offset size : Nat)
    (outside : image.length < offset + size) :
    ∃ e, load r (r.startAddress + offset) size image = .error e := by
  have limit := sized.limit
  refine ⟨.outside (r.startAddress + offset) size, ?_⟩
  change (if r.startAddress ≤ r.startAddress + offset ∧
    r.startAddress + offset + size ≤ r.limitAddress then _ else _ : Relocation Nat) image = _
  rw [if_neg (by omega)]
  rfl

theorem store_run {offset size v : Nat} (sized : r.Sized image.length)
    (inside : offset + size ≤ image.length) :
    store r (r.startAddress + offset) size v image = .ok ((), put image offset size v) := by
  have limit := sized.limit
  change (if r.startAddress ≤ r.startAddress + offset ∧
    r.startAddress + offset + size ≤ r.limitAddress then _ else _ : Relocation Unit) image = _
  rw [if_pos ⟨Nat.le_add_right _ _, by omega⟩, Nat.add_sub_cancel_left]
  rfl

theorem validateRelocatedAddress_run (t : CType) (offset : Nat) (sized : r.Sized image.length) :
    (PointerOk r.startAddress t image offset →
      validateRelocatedAddress r t (r.startAddress + offset) image = .ok ((), image)) ∧
    (¬ PointerOk r.startAddress t image offset →
      ∃ e, validateRelocatedAddress r t (r.startAddress + offset) image = .error e) := by
  have limit := sized.limit
  have fits := sized.fits
  unfold PointerOk validateRelocatedAddress
  constructor
  · rintro ⟨inside, aligned⟩
    rw [if_neg (by omega), if_neg (not_not.mpr aligned)]
    rfl
  · intro wrong
    by_cases bounds : offset + t.size ≤ image.length
    · rw [if_neg (by omega), if_pos fun aligned => wrong ⟨bounds, aligned⟩]
      exact ⟨_, rfl⟩
    · rw [if_pos (by omega)]
      exact ⟨_, rfl⟩

theorem store_outside {offset size v : Nat} (sized : r.Sized image.length)
    (outside : image.length < offset + size) :
    ∃ e, store r (r.startAddress + offset) size v image = .error e := by
  have limit := sized.limit
  refine ⟨.outside (r.startAddress + offset) size, ?_⟩
  change (if r.startAddress ≤ r.startAddress + offset ∧
    r.startAddress + offset + size ≤ r.limitAddress then _ else _ : Relocation Unit) image = _
  rw [if_neg (by omega)]
  rfl

theorem adjustPointer_run (t : CType) (field : Nat) (sized : r.Sized image.length) :
    ((pointerWalk r.startAddress t field).valid image →
      adjustPointer r t (r.startAddress + field) image =
        .ok ((), put image field 8 (r.startAddress + number image field 8))) ∧
    (¬ (pointerWalk r.startAddress t field).valid image →
      ∃ e, adjustPointer r t (r.startAddress + field) image = .error e) := by
  have limit := sized.limit
  have fits := sized.fits
  unfold adjustPointer
  by_cases inside : field + 8 ≤ image.length
  · rw [bind_run (load_run sized _ _ inside)]
    obtain ⟨checked, refused⟩ := validateRelocatedAddress_run t
      (number image field 8) sized
    constructor
    · rintro ⟨-, pointer⟩
      rw [if_neg (by have := pointer.1; omega), bind_run (checked pointer)]
      exact store_run sized inside
    · intro wrong
      split
      · exact ⟨_, rfl⟩
      · obtain ⟨e, run⟩ := refused fun pointer => wrong ⟨inside, pointer⟩
        exact ⟨e, bind_error run _⟩
  · obtain ⟨e, run⟩ := load_outside sized _ _ (Nat.lt_of_not_le inside)
    exact ⟨fun valid => absurd valid.1 inside, fun _ => ⟨e, bind_error run _⟩⟩

theorem adjustPointer_does {field : Nat} (sized : r.Sized image.length) :
    Does (adjustPointer r t (r.startAddress + field)) (pointerWalk r.startAddress t field) image :=
  fun _ => adjustPointer_run t field sized

/-! ### Arrays -/

/-- The words of an array that has been adjusted. -/
def adjusted (start : Nat) (image : Bytes) (array : Nat) : Nat :=
  if arraySize image array = 0 then 0 else start + arrayElements image array

theorem arraySize_put {v : Nat} (inside : array + 16 ≤ image.length) :
    arraySize (put image (array + Offset.SnapArray.elements) 8 v) array = arraySize image array :=
  number_put_apart inside (.inr (Nat.le_refl _))

theorem arrayElements_put {v : Nat} (inside : array + 16 ≤ image.length) (small : v < 2 ^ 64) :
    arrayElements (put image (array + Offset.SnapArray.elements) 8 v) array = v :=
  number_put_same inside small

theorem ArrayOk.adjusted_lt (sized : r.Sized image.length)
    (ok : ArrayOk r.startAddress t image array) :
    adjusted r.startAddress image array < 2 ^ 64 := by
  have limit := sized.limit
  have fits := sized.fits
  unfold adjusted
  split
  · decide
  · next some =>
    have := (ok.resolve_left some).1.1
    omega

/-- What is checked when the pointer of an array has been adjusted. -/
theorem arrayBounds_run {offset : Nat} (sized : r.Sized image.length)
    (inside : array + 16 ≤ image.length)
    (placed : arrayElements image array = r.startAddress + offset) :
    let bounds : Relocation Unit := do
      let size ← load r (r.startAddress + (array + Offset.SnapArray.size)) 8
      if 2 ^ 64 ≤ size * t.size then fail .kOutOfBound
      else do
        let elements ← load r (r.startAddress + (array + Offset.SnapArray.elements)) 8
        if 2 ^ 64 ≤ elements + size * t.size ∨ r.limitAddress < elements + size * t.size then
          fail .kOutOfBound
        else pure ()
    (offset + arraySize image array * t.size ≤ image.length → bounds image = .ok ((), image)) ∧
      (¬ offset + arraySize image array * t.size ≤ image.length →
        ∃ e, bounds image = .error e) := by
  intro bounds
  have limit := sized.limit
  have fits := sized.fits
  have size : number image (array + Offset.SnapArray.size) 8 = arraySize image array := rfl
  have elements : number image (array + Offset.SnapArray.elements) 8 = r.startAddress + offset :=
    placed
  have first : array + Offset.SnapArray.size + 8 ≤ image.length := Nat.le_trans
    (by change array + 0 + 8 ≤ array + 16; omega) inside
  have second : array + Offset.SnapArray.elements + 8 ≤ image.length := inside
  have run : bounds image = (if 2 ^ 64 ≤ arraySize image array * t.size then fail .kOutOfBound
      else do
        let elements ← load r (r.startAddress + (array + Offset.SnapArray.elements)) 8
        if 2 ^ 64 ≤ elements + arraySize image array * t.size ∨
            r.limitAddress < elements + arraySize image array * t.size then
          fail .kOutOfBound
        else pure () : Relocation Unit) image := by
    rw [← size]
    exact bind_run (load_run sized _ _ first) _
  rw [run]
  constructor
  · intro within
    rw [if_neg (by omega), bind_run (load_run sized _ _ second), elements, if_neg (by omega)]
    rfl
  · intro beyond
    split
    · exact ⟨_, rfl⟩
    · rw [bind_run (load_run sized _ _ second), elements, if_pos (by omega)]
      exact ⟨_, rfl⟩

theorem adjustArray_does (sized : r.Sized image.length) :
    Does (adjustArray r t (r.startAddress + array)) (headerWalk r.startAddress t array) image := by
  intro _
  have limit := sized.limit
  have fits := sized.fits
  have word : adjusted r.startAddress image array =
    if arraySize image array = 0 then 0 else r.startAddress + arrayElements image array := rfl
  change (_ → _ = Except.ok ((), put image (array + 8) 8 (adjusted r.startAddress image array))) ∧ _
  unfold adjustArray
  rw [Nat.add_assoc, Nat.add_assoc]
  by_cases first : array + 8 ≤ image.length
  · rw [bind_run (load_run sized (array + Offset.SnapArray.size) _ first)]
    have size : number image (array + Offset.SnapArray.size) 8 = arraySize image array := rfl
    rw [size]
    by_cases empty : arraySize image array = 0
    · rw [if_neg (by omega), word, if_pos empty]
      by_cases inside : array + Offset.SnapArray.elements + 8 ≤ image.length
      · rw [store_run sized inside]
        exact ⟨fun _ => rfl, fun wrong => absurd ⟨inside, .inl empty⟩ wrong⟩
      · exact ⟨fun valid => absurd valid.1 inside,
          fun _ => store_outside sized (Nat.lt_of_not_le inside)⟩
    · rw [if_pos (Nat.pos_of_ne_zero empty), word, if_neg empty]
      obtain ⟨done, stopped⟩ := adjustPointer_run t
        (array + Offset.SnapArray.elements) sized
      by_cases valid : (pointerWalk r.startAddress t
          (array + Offset.SnapArray.elements)).valid image
      · have inside : array + 16 ≤ image.length := valid.1
        have pointer : PointerOk r.startAddress t image (arrayElements image array) := valid.2
        have small : r.startAddress + arrayElements image array < 2 ^ 64 := by
          have := pointer.1
          omega
        have length : (put image (array + Offset.SnapArray.elements) 8
            (r.startAddress + arrayElements image array)).length = image.length :=
          length_put inside
        obtain ⟨within, beyond⟩ := arrayBounds_run (t := t) (length.symm ▸ sized)
          (length.symm ▸ inside) (arrayElements_put inside small)
        rw [length, arraySize_put inside] at within beyond
        rw [bind_run (done valid)]
        refine ⟨fun ok => within (ok.2.resolve_left empty).2, fun wrong => beyond fun fits => ?_⟩
        exact wrong ⟨inside, .inr ⟨pointer, fits⟩⟩
      · obtain ⟨e, run⟩ := stopped valid
        exact ⟨fun ok => absurd ⟨ok.1, (ok.2.resolve_left empty).1⟩ valid,
          fun _ => ⟨e, bind_error run _⟩⟩
  · obtain ⟨e, run⟩ := load_outside sized (array + Offset.SnapArray.size) _
      (Nat.lt_of_not_le first)
    refine ⟨fun ok => absurd ok.1 ?_, fun _ => ⟨e, bind_error run _⟩⟩
    intro inside
    exact first (Nat.le_trans (by omega) inside)

/-- A loop does for each element what its body does. -/
theorem forElements_does {w : Nat → Walk} {body : Nat → Relocation Unit} {first count : Nat}
    (sized : r.Sized n) (some : 0 < t.size) (enough : count < fuel)
    (lawful : ∀ offset, (w offset).Lawful)
    (each : ∀ offset image, offset + t.size ≤ n → image.length = n →
      Does (body (r.startAddress + offset)) (w offset) image)
    (length : image.length = n) (inside : first + count * t.size ≤ n) :
    Does (forElements t body fuel (r.startAddress + first)
      (r.startAddress + first + count * t.size)) (.each w (offsets t first count)) image := by
  induction count generalizing fuel first image with
  | zero =>
    obtain ⟨fuel, rfl⟩ := Nat.exists_eq_succ_of_ne_zero (n := fuel) (by omega)
    rw [forElements, Nat.zero_mul, Nat.add_zero, if_pos rfl]
    exact does_none
  | succ count ih =>
    obtain ⟨fuel, rfl⟩ := Nat.exists_eq_succ_of_ne_zero (n := fuel) (by omega)
    have limit := sized.limit
    have fits := sized.fits
    rw [Nat.succ_mul] at inside ⊢
    have next : (r.startAddress + first + t.size) % 2 ^ 64 = r.startAddress + (first + t.size) := by
      rw [Nat.mod_eq_of_lt (by omega), Nat.add_assoc]
    have last : r.startAddress + first + (count * t.size + t.size) =
        r.startAddress + (first + t.size) + count * t.size := by
      omega
    have list : offsets t first (count + 1) = first :: offsets t (first + t.size) count := by
      unfold offsets
      rw [List.range_succ_eq_map, List.map_cons, List.map_map, Nat.zero_mul, Nat.add_zero]
      congr 2
      funext i
      simp only [Function.comp, Nat.succ_mul]
      omega
    rw [forElements, if_neg (by omega), next, last, list]
    apply Does.seq (each first image (by omega) length) (lawful first)
      (Walk.each_lawful fun offset _ => lawful offset)
    intro valid
    apply ih (by omega) _ (by omega)
    rw [length_patch ((lawful first).fits valid), length]

theorem relocationIterator_run (sized : r.Sized image.length)
    (inside : array + 16 ≤ image.length) :
    relocationIterator r t (r.startAddress + array) image =
      .ok ((arrayElements image array,
        (arrayElements image array + arraySize image array * t.size) % 2 ^ 64), image) := by
  have first : array + Offset.SnapArray.size + 8 ≤ image.length := Nat.le_trans
    (by change array + 0 + 8 ≤ array + 16; omega) inside
  have second : array + Offset.SnapArray.elements + 8 ≤ image.length := inside
  unfold relocationIterator
  rw [Nat.add_assoc, Nat.add_assoc, bind_run (load_run sized _ _ second),
    bind_run (load_run sized _ _ first)]
  rfl

/-- An array is adjusted, and for each element that it had is done what the body does. -/
theorem relocateArray_does {w : Nat → Walk} {body : Nat → Relocation Unit} (sized : r.Sized n)
    (some : 0 < t.size) (enough : n < fuel) (lawful : ∀ offset, (w offset).Lawful)
    (each : ∀ offset image, offset + t.size ≤ n → image.length = n →
      Does (body (r.startAddress + offset)) (w offset) image)
    (length : image.length = n) :
    Does (relocateArray r fuel t (r.startAddress + array) body)
      (arrayWalk r.startAddress t array w) image := by
  subst length
  have limit := sized.limit
  have fits := sized.fits
  change Does _ ((headerWalk r.startAddress t array).seq
    (.each w (elementOffsets t image array))) image
  unfold relocateArray
  apply Does.seq (adjustArray_does sized) headerWalk_lawful
    (Walk.each_lawful fun offset _ => lawful offset)
  intro valid
  obtain ⟨inside, ok⟩ := valid
  have changed : patch image ((headerWalk r.startAddress t array).cells image) =
      put image (array + Offset.SnapArray.elements) 8 (adjusted r.startAddress image array) := rfl
  rw [changed]
  have length : (put image (array + Offset.SnapArray.elements) 8
      (adjusted r.startAddress image array)).length = image.length := length_put inside
  have small := ok.adjusted_lt sized
  have iterator := relocationIterator_run (t := t) (length.symm ▸ sized) (length.symm ▸ inside)
  rw [arraySize_put inside, arrayElements_put inside small] at iterator
  apply Does.congr (bind_run iterator _)
  unfold elementOffsets
  by_cases empty : arraySize image array = 0
  · have null : adjusted r.startAddress image array = 0 := if_pos empty
    obtain ⟨fuel, rfl⟩ := Nat.exists_eq_succ_of_ne_zero (n := fuel) (by omega)
    rw [empty, null]
    exact Does.congr (by rw [Nat.zero_mul]; rfl) does_none
  · have placed : adjusted r.startAddress image array =
      r.startAddress + arrayElements image array := if_neg empty
    have whole := (ok.resolve_left empty).2
    have many := Nat.le_mul_of_pos_right (arraySize image array) some
    rw [placed] at length ⊢
    rw [Nat.mod_eq_of_lt (by omega)]
    exact forElements_does sized some (by omega) lawful each length whole

/-! ### A snap -/

theorem relocateMemoryBytes_does {memoryByte : Nat} (sized : r.Sized image.length)
    (inside : memoryByte + 32 ≤ image.length) :
    Does (relocateMemoryBytes r (r.startAddress + memoryByte))
      (memoryBytesWalk r.startAddress memoryByte) image := by
  intro _
  have first : memoryByte + Offset.SnapMemoryBytes.flags + 1 ≤ image.length :=
    Nat.le_trans (by change memoryByte + 8 + 1 ≤ memoryByte + 32; omega) inside
  unfold relocateMemoryBytes
  rw [Nat.add_assoc, bind_run (load_run sized _ _ first), Nat.add_assoc, Nat.add_assoc]
  by_cases single : number image (memoryByte + Offset.SnapMemoryBytes.flags) 1 &&&
      Offset.SnapMemoryBytes.kRepeating = 0
  · have repeating : isRepeating image memoryByte = false := decide_eq_false (not_not.mpr single)
    obtain ⟨done, stopped⟩ := adjustPointer_run .uint8 (memoryByte + 24) sized
    rw [if_pos single]
    constructor
    · intro valid
      have changed : (memoryBytesWalk r.startAddress memoryByte).cells image =
          [⟨memoryByte, 32, some (memoryByte + 24,
            r.startAddress + number image (memoryByte + 24) 8)⟩] := by
        change [Cell.mk memoryByte 32 (if isRepeating image memoryByte then _ else _)] = _
        rw [repeating]
        rfl
      rw [changed]
      exact done ⟨inside, valid.2 repeating⟩
    · exact fun wrong => stopped fun valid => wrong ⟨inside, fun _ => valid.2⟩
  · have repeating : isRepeating image memoryByte = true := decide_eq_true single
    rw [if_neg single]
    constructor
    · intro _
      have unchanged : (memoryBytesWalk r.startAddress memoryByte).cells image =
          [⟨memoryByte, 32, none⟩] := by
        change [Cell.mk memoryByte 32 (if isRepeating image memoryByte then _ else _)] = _
        rw [repeating]
        rfl
      rw [unchanged]
      rfl
    · refine fun wrong => absurd ⟨inside, fun single => ?_⟩ wrong
      rw [repeating] at single
      cases single

theorem relocateMemoryBytesArray_does (sized : r.Sized image.length)
    (enough : image.length < fuel) :
    Does (relocateMemoryBytesArray r fuel (r.startAddress + array))
      (memoryBytesArrayWalk r.startAddress array) image := by
  apply relocateArray_does sized (by decide) enough memoryBytesWalk_lawful _ rfl
  intro offset image' inside length
  exact relocateMemoryBytes_does (length.symm ▸ sized) (length.symm ▸ inside)

theorem relocateRegisterState_does {registerState : Nat} (sized : r.Sized image.length) :
    Does (relocateRegisterState r (r.startAddress + registerState))
      (registerStateWalk r.startAddress r.arch registerState) image := by
  unfold relocateRegisterState
  rw [Nat.add_assoc, Nat.add_assoc]
  apply Does.andThen (adjustPointer_does sized) pointerWalk_lawful pointerWalk_lawful
  exact fun image' length => adjustPointer_does (length.symm ▸ sized)

/-- What is done with the snap that a pointer of the array points to. -/
theorem relocateSnap_does {snapPtr : Nat} (sized : r.Sized image.length)
    (enough : image.length < fuel) :
    Does (relocateSnap r fuel (r.startAddress + snapPtr))
      (followWalk r.startAddress .snap snapPtr (snapWalk r.startAddress r.arch)) image := by
  have limit := sized.limit
  have fits := sized.fits
  change Does _ ((pointerWalk r.startAddress .snap snapPtr).seq
    (snapWalk r.startAddress r.arch (number image snapPtr 8))) image
  unfold relocateSnap
  apply Does.seq (adjustPointer_does sized) pointerWalk_lawful (snapWalk_lawful _ _)
  rintro ⟨inside, pointer⟩
  have changed : patch image ((pointerWalk r.startAddress .snap snapPtr).cells image) =
      put image snapPtr 8 (r.startAddress + number image snapPtr 8) := rfl
  rw [changed]
  generalize number image snapPtr 8 = snap at pointer ⊢
  have small : r.startAddress + snap < 2 ^ 64 := by
    have := pointer.1
    omega
  have length : (put image snapPtr 8 (r.startAddress + snap)).length = image.length :=
    length_put inside
  have read := load_run (length.symm ▸ sized) snapPtr 8 (length.symm ▸ inside)
  rw [number_put_same inside small] at read
  apply Does.congr (bind_run read _)
  simp only [Nat.add_assoc]
  rw [← length] at sized enough
  apply Does.andThen (adjustPointer_does sized) pointerWalk_lawful
    (Walk.seq_lawful (arrayWalk_lawful fun _ => memoryBytesArrayWalk_lawful)
      (Walk.seq_lawful (registerStateWalk_lawful _ _)
        (Walk.seq_lawful (registerStateWalk_lawful _ _) memoryBytesArrayWalk_lawful)))
  intro image₁ length₁
  apply Does.andThen _ (arrayWalk_lawful fun _ => memoryBytesArrayWalk_lawful)
    (Walk.seq_lawful (registerStateWalk_lawful _ _)
      (Walk.seq_lawful (registerStateWalk_lawful _ _) memoryBytesArrayWalk_lawful))
  · intro image₂ length₂
    rw [← length₁, ← length₂] at sized enough
    apply Does.andThen (relocateRegisterState_does sized) (registerStateWalk_lawful _ _)
      (Walk.seq_lawful (registerStateWalk_lawful _ _) memoryBytesArrayWalk_lawful)
    intro image₃ length₃
    rw [← length₃] at sized enough
    apply Does.andThen (relocateRegisterState_does sized) (registerStateWalk_lawful _ _)
      memoryBytesArrayWalk_lawful
    intro image₄ length₄
    rw [← length₄] at sized enough
    exact relocateMemoryBytesArray_does sized enough
  · rw [← length₁] at sized enough
    apply relocateArray_does sized (by decide) enough
      (fun _ => memoryBytesArrayWalk_lawful) _ rfl
    intro offset image' inside length
    rw [← length] at sized enough
    rw [Nat.add_assoc]
    exact relocateMemoryBytesArray_does sized enough

/-! ### The header -/

theorem checkHeader_guards {field size expected : Nat} (sized : r.Sized image.length)
    (inside : field + size ≤ image.length) :
    Guards (checkHeader r field size expected) image (number image field size = expected) := by
  unfold Guards checkHeader
  rw [bind_run (load_run sized _ _ inside)]
  constructor
  · intro same
    rw [if_neg (not_not.mpr same)]
    rfl
  · intro different
    rw [if_pos different]
    exact ⟨_, rfl⟩

theorem verifyChecksum_guards (sized : r.Sized image.length) (header : 56 ≤ image.length)
    (all : number image Offset.SnapCorpus.numBytes 8 = image.length) (verify : Bool) :
    Guards (verifyChecksum r verify) image (verify = true →
      number image Offset.SnapCorpus.checksum 4 =
        (SnapChecksum.castagnoli (SnapChecksum.skipChecksum image)).toNat) := by
  unfold Guards verifyChecksum
  cases verify with
  | false => exact ⟨fun _ => rfl, fun wrong => absurd (fun h => nomatch h) wrong⟩
  | true =>
    have read (offset size : Nat) (inside : offset + size ≤ 56) :=
      load_run sized offset size (Nat.le_trans inside header)
    rw [if_pos rfl, bind_run (read Offset.SnapCorpus.checksum 4 (by decide)),
      bind_run (read Offset.SnapCorpus.numBytes 8 (by decide)), all,
      bind_run (corpusChecksum_run sized rfl)]
    constructor
    · intro same
      rw [if_neg (not_not.mpr (same rfl))]
      rfl
    · intro different
      rw [if_pos fun same => different fun _ => same]
      exact ⟨_, rfl⟩

/-- The header of a corpus that may be at `start`. -/
structure HeaderOk (start : Nat) (arch : Architecture) (verify : Bool) (image : Bytes) : Prop where
  whole : CType.snapCorpus.size ≤ image.length
  aligned : start % CType.snapCorpus.align = 0
  magic : number image Offset.SnapCorpus.magic 8 = kSnapCorpusMagic
  headerSize : number image Offset.SnapCorpus.headerSize 4 = CType.snapCorpusHeader.size
  numBytes : number image Offset.SnapCorpus.numBytes 8 = image.length
  checksum : verify = true → number image Offset.SnapCorpus.checksum 4 =
    (SnapChecksum.castagnoli (SnapChecksum.skipChecksum image)).toNat
  architectureId : number image Offset.SnapCorpus.architectureId 1 = arch.toInt
  corpusTypeSize : number image Offset.SnapCorpus.corpusTypeSize 4 = CType.snapCorpus.size
  snapTypeSize : number image Offset.SnapCorpus.snapTypeSize 4 = CType.snap.size
  registerStateTypeSize :
    number image Offset.SnapCorpus.registerStateTypeSize 4 = CType.registerState.size

theorem pointerOk_corpus {start : Nat} : PointerOk start .snapCorpus image 0 ↔
    CType.snapCorpus.size ≤ image.length ∧ start % CType.snapCorpus.align = 0 := by
  rw [PointerOk, Nat.zero_add, Nat.add_zero]

theorem checkCorpus_guards (sized : r.Sized image.length) (verify : Bool) :
    Guards (checkCorpus r verify) image (HeaderOk r.startAddress r.arch verify image) := by
  have limit := sized.limit
  have pointer : Guards (validateRelocatedAddress r .snapCorpus r.startAddress) image
      (PointerOk r.startAddress .snapCorpus image 0) := validateRelocatedAddress_run _ 0 sized
  have check (field size expected : Nat) (within : field + size ≤ 56)
      (header : PointerOk r.startAddress .snapCorpus image 0) :
      Guards (checkHeader r field size expected) image (number image field size = expected) :=
    checkHeader_guards sized (Nat.le_trans within (pointerOk_corpus.mp header).1)
  unfold checkCorpus
  refine Guards.congr (pointer.seq fun header =>
    (check _ _ _ (by decide) header).seq fun _ => (check _ _ _ (by decide) header).seq fun _ =>
    (check _ _ _ (by decide) header).seq fun all =>
    (verifyChecksum_guards sized (pointerOk_corpus.mp header).1 ?_ verify).seq fun _ =>
    (check _ _ _ (by decide) header).seq fun _ => (check _ _ _ (by decide) header).seq fun _ =>
    (check _ _ _ (by decide) header).seq fun _ => check _ _ _ (by decide) header) ?_
  · rw [all]
    omega
  · have length : r.limitAddress - r.startAddress = image.length := by omega
    rw [length, pointerOk_corpus]
    constructor
    · rintro ⟨whole, aligned, magic, headerSize, numBytes, checksum, arch, corpus, snap, registers⟩
      exact ⟨⟨whole, aligned⟩, magic, headerSize, numBytes, checksum, arch, corpus, snap, registers⟩
    · rintro ⟨⟨whole, aligned⟩, magic, headerSize, numBytes, checksum, arch, corpus, snap, registers⟩
      exact ⟨whole, aligned, magic, headerSize, numBytes, checksum, arch, corpus, snap, registers⟩

/-! ### The corpus -/

theorem relocate_exact (sized : r.Sized image.length) (enough : image.length < fuel)
    (verify : Bool)
    (apart : ((corpusWalk r.startAddress r.arch).cells image).Pairwise Cell.Apart)
    (image' : Bytes) :
    relocate r fuel verify image = .ok ((), image') ↔
      HeaderOk r.startAddress r.arch verify image ∧
        (corpusWalk r.startAddress r.arch).valid image ∧
        image' = patch image ((corpusWalk r.startAddress r.arch).cells image) := by
  obtain ⟨checked, refused⟩ := checkCorpus_guards sized verify
  have walk : Does (relocateArray r fuel .snapPointer (r.startAddress + Offset.SnapCorpus.snaps)
      (relocateSnap r fuel)) (corpusWalk r.startAddress r.arch) image := by
    apply relocateArray_does sized (by decide) enough
      (fun _ => followWalk_lawful fun snap => snapWalk_lawful _ snap) _ rfl
    intro offset image' inside length
    rw [← length] at sized enough
    exact relocateSnap_does sized enough
  unfold relocate
  constructor
  · intro run
    by_cases header : HeaderOk r.startAddress r.arch verify image
    · rw [bind_run (checked header)] at run
      exact ⟨header, walk.ended apart run⟩
    · obtain ⟨e, stopped⟩ := refused header
      rw [bind_error stopped] at run
      cases run
  · rintro ⟨header, valid, rfl⟩
    rw [bind_run (checked header)]
    exact (walk apart).1 valid

end

/-- What a corpus has to be like to be relocated, where it is. -/
structure Relocatable (arch : Architecture) (relocatable : Mmapped) (verify : Bool) : Prop where
  header : HeaderOk relocatable.address arch verify relocatable.bytes
  valid : (corpusWalk relocatable.address arch).valid relocatable.bytes

/-- The parts of a corpus that are relocated. -/
def relocatedCells (arch : Architecture) (relocatable : Mmapped) : List Cell :=
  (corpusWalk relocatable.address arch).cells relocatable.bytes

/-- A relocation ends as its relocator does, when the memory can be protected. -/
theorem relocateCorpus_run {arch : Architecture} {machine : Crc32c.Machine}
    {best : Crc32c.Implementation} {mprotects : Bool} {fuel : Nat} {relocatable : Mmapped}
    {verify : Bool} (some : relocatable.bytes.length ≠ 0) (bytes : Bytes) :
    relocateCorpus arch machine best mprotects fuel relocatable verify = .ok bytes ↔
      mprotects = true ∧ relocate ⟨arch, relocatable.address,
        relocatable.address + relocatable.bytes.length, machine, best⟩ fuel verify
          relocatable.bytes = .ok ((), bytes) := by
  unfold relocateCorpus
  rw [if_neg some]
  dsimp only
  cases relocate _ fuel verify relocatable.bytes with
  | error stop =>
    constructor
    · intro ended
      cases ended
    · rintro ⟨-, ended⟩
      cases ended
  | ok x =>
    obtain ⟨⟨⟩, image⟩ := x
    cases mprotects with
    | false =>
      constructor
      · intro ended
        cases ended
      · rintro ⟨ended, -⟩
        cases ended
    | true =>
      constructor
      · intro ended
        cases ended
        exact ⟨rfl, rfl⟩
      · rintro ⟨-, ended⟩
        cases ended
        rfl

theorem some_of_relocateCorpus {arch : Architecture} {machine : Crc32c.Machine}
    {best : Crc32c.Implementation} {mprotects : Bool} {fuel : Nat} {relocatable : Mmapped}
    {verify : Bool} {bytes : Bytes}
    (run : relocateCorpus arch machine best mprotects fuel relocatable verify = .ok bytes) :
    relocatable.bytes.length ≠ 0 := by
  intro empty
  unfold relocateCorpus at run
  rw [if_pos empty] at run
  cases run

/-- **A corpus whose parts are apart is relocated if and only if its header is right and its
pointers and arrays are those of objects inside of it**, and then just these pointers have changed:
the address of the corpus is added to each, and that of an empty array is null. -/
theorem relocateCorpus_exact (arch : Architecture) (machine : Crc32c.Machine)
    (best : Crc32c.Implementation) (mprotects : Bool) (relocatable : Mmapped) (verify : Bool)
    {fuel : Nat} (enough : relocatable.bytes.length < fuel)
    (apart : (relocatedCells arch relocatable).Pairwise Cell.Apart) (bytes : Bytes) :
    relocateCorpus arch machine best mprotects fuel relocatable verify = .ok bytes ↔
      mprotects = true ∧ Relocatable arch relocatable verify ∧
        bytes = patch relocatable.bytes (relocatedCells arch relocatable) := by
  have exactly := relocate_exact
    (r := ⟨arch, relocatable.address, relocatable.address + relocatable.bytes.length, machine, best⟩)
    ⟨rfl, relocatable.fits⟩ enough verify apart bytes
  constructor
  · intro run
    obtain ⟨protects, ended⟩ := (relocateCorpus_run (some_of_relocateCorpus run) bytes).mp run
    obtain ⟨header, valid, patched⟩ := exactly.mp ended
    exact ⟨protects, ⟨header, valid⟩, patched⟩
  · rintro ⟨protects, ⟨header, valid⟩, patched⟩
    have some : relocatable.bytes.length ≠ 0 := by
      have whole : 56 ≤ relocatable.bytes.length := header.whole
      omega
    exact (relocateCorpus_run some bytes).mpr ⟨protects, exactly.mpr ⟨header, valid, patched⟩⟩

end Silifuzz.SnapRelocator
