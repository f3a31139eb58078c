import Silifuzz.Snap.SnapRelocator

/-!
# The accesses of the relocator

Whatever bytes a corpus has, every access is to its bytes and every loop ends: a pointer is only
used after it was checked, an array is walked from where it was then and as far as it went then.
-/

namespace Silifuzz.SnapRelocator

open LittleEndian Images Triples

/-- A run is stopped by an error code only. -/
def Reports (stop : Stop) : Prop := ∃ error, stop = .error error

variable {r : Relocator} {n fuel : Nat} {t : CType}

/-- The relocator is that of a corpus of `n` bytes. -/
structure Relocator.Sized (r : Relocator) (n : Nat) : Prop where
  limit : r.limitAddress = r.startAddress + n
  fits : r.limitAddress < 2 ^ 64

/-- An object that is inside of the corpus. -/
def Relocator.Inside (r : Relocator) (address size : Nat) : Prop :=
  r.startAddress ≤ address ∧ address + size ≤ r.limitAddress

theorem Relocator.Inside.field {address size offset size' : Nat}
    (h : r.Inside address size) (within : offset + size' ≤ size) :
    r.Inside (address + offset) size' := by
  unfold Relocator.Inside at *
  omega

/-- Bytes of the corpus, of which there are `n`. -/
def Bounded (n : Nat) (image : Bytes) : Prop := image.length = n

theorem fail_reports {P : Bytes → Prop} {Q : Unit → Bytes → Prop} (error : SnapRelocatorError) :
    Triple P (fail error) Q Reports := triple_throw ⟨error, rfl⟩

theorem load_safe {address size : Nat} (inside : r.Inside address size) (P : Bytes → Prop) :
    Triple P (load r address size)
      (fun v image => v = number image (address - r.startAddress) size ∧ P image) Reports := by
  intro image known
  have both : r.startAddress ≤ address ∧ address + size ≤ r.limitAddress := inside
  have run : load r address size image =
      .ok (number image (address - r.startAddress) size, image) := by
    change (if r.startAddress ≤ address ∧ address + size ≤ r.limitAddress then _ else _ :
      Relocation Nat) image = _
    rw [if_pos both]
    rfl
  rw [run]
  exact ⟨rfl, known⟩

theorem store_safe {address size v : Nat} (inside : r.Inside address size) (P : Bytes → Prop) :
    Triple (fun image => P (put image (address - r.startAddress) size v))
      (store r address size v) (fun _ => P) Reports := by
  intro image known
  have both : r.startAddress ≤ address ∧ address + size ≤ r.limitAddress := inside
  have run : store r address size v image =
      .ok ((), put image (address - r.startAddress) size v) := by
    change (if r.startAddress ≤ address ∧ address + size ≤ r.limitAddress then _ else _ :
      Relocation Unit) image = _
    rw [if_pos both]
    rfl
  rw [run]
  exact known

theorem validateRelocatedAddress_safe (P : Bytes → Prop) (t : CType) (address : Nat) :
    Triple P (validateRelocatedAddress r t address)
      (fun _ image => r.Inside address t.size ∧ P image) Reports := by
  unfold validateRelocatedAddress
  apply triple_ite
  · exact fun _ => fail_reports _
  · intro bounds
    apply triple_ite
    · exact fun _ => fail_reports _
    · intro _
      apply triple_pure
      intro image known
      refine ⟨?_, known⟩
      unfold Relocator.Inside
      omega

/-- A pointer that has been adjusted is the address of an object of the corpus. -/
theorem adjustPointer_safe (sized : r.Sized n) {ptr : Nat} (inside : r.Inside ptr 8) :
    Triple (Bounded n) (adjustPointer r t ptr)
      (fun _ image => r.Inside (number image (ptr - r.startAddress) 8) t.size ∧ Bounded n image)
      Reports := by
  unfold adjustPointer
  apply triple_bind (load_safe inside (Bounded n))
  intro offset
  apply triple_ite
  · exact fun _ => fail_reports _
  · intro small
    apply triple_bind (Q := fun _ image =>
      r.Inside (r.startAddress + offset) t.size ∧ Bounded n image)
    · exact triple_pre (validateRelocatedAddress_safe _ t _) fun _ known => known.2
    · intro _
      apply triple_pre (store_safe inside _)
      rintro image ⟨valid, bounded⟩
      have fits : ptr - r.startAddress + 8 ≤ image.length := by
        have limit := sized.limit
        unfold Relocator.Inside Bounded at *
        omega
      refine ⟨?_, ?_⟩
      · rw [number_put_same fits (by omega)]
        exact valid
      · exact (length_put fits).trans bounded

/-- Where an array is, that has been adjusted: nowhere without elements. -/
def Relocator.ArrayInside (r : Relocator) (t : CType) (elements size : Nat) : Prop :=
  (size = 0 ∧ elements = 0) ∨ r.Inside elements (size * t.size)

theorem adjustArray_safe (sized : r.Sized n) {array : Nat} (inside : r.Inside array 16) :
    Triple (Bounded n) (adjustArray r t array)
      (fun _ image => r.ArrayInside t (number image (array + 8 - r.startAddress) 8)
        (number image (array - r.startAddress) 8) ∧ Bounded n image) Reports := by
  have sizeInside : r.Inside (array + Offset.SnapArray.size) 8 := inside.field (by decide)
  have elementsInside : r.Inside (array + Offset.SnapArray.elements) 8 := inside.field (by decide)
  unfold adjustArray
  apply triple_bind (load_safe sizeInside (Bounded n))
  intro size
  apply triple_ite
  · intro _
    apply triple_bind
    · exact triple_pre (adjustPointer_safe sized elementsInside) fun _ known => known.2
    intro _
    apply triple_bind (load_safe sizeInside _)
    intro size
    apply triple_ite
    · exact fun _ => fail_reports _
    intro _
    apply triple_bind (load_safe elementsInside _)
    intro elements
    apply triple_ite
    · exact fun _ => fail_reports _
    intro bounds
    apply triple_pure
    rintro image ⟨rfl, rfl, pointer, bounded⟩
    exact ⟨.inr ⟨pointer.1, Nat.le_of_not_lt (not_or.mp bounds).2⟩, bounded⟩
  · intro empty
    apply triple_pre (store_safe elementsInside _)
    rintro image ⟨rfl, bounded⟩
    have fits : array + Offset.SnapArray.elements - r.startAddress + 8 ≤ image.length := by
      have limit := sized.limit
      unfold Relocator.Inside Bounded at *
      omega
    have first : Apart (array + Offset.SnapArray.elements - r.startAddress) 8 (array - r.startAddress) 8 := by
      unfold Relocator.Inside at inside
      exact .inr (by change array - r.startAddress + 8 ≤ array + 8 - r.startAddress; omega)
    refine ⟨.inl ⟨?_, ?_⟩, (length_put fits).trans bounded⟩
    · rw [number_put_apart fits first]
      exact Nat.eq_zero_of_not_pos empty
    · exact number_put_same fits (by decide)

/-! ## Arrays -/

/-- What a loop goes through: `count` elements of the corpus. -/
def Relocator.Span (r : Relocator) (t : CType) (first last : Nat) : Prop :=
  ∃ count, last = first + count * t.size ∧ (count = 0 ∨ r.Inside first (count * t.size))

theorem relocationIterator_safe (sized : r.Sized n) {array : Nat} (inside : r.Inside array 16) :
    Triple (fun image => r.ArrayInside t (number image (array + 8 - r.startAddress) 8)
        (number image (array - r.startAddress) 8) ∧ Bounded n image)
      (relocationIterator r t array) (fun x image => r.Span t x.1 x.2 ∧ Bounded n image)
      Reports := by
  have sizeInside : r.Inside (array + Offset.SnapArray.size) 8 := inside.field (by decide)
  have elementsInside : r.Inside (array + Offset.SnapArray.elements) 8 := inside.field (by decide)
  unfold relocationIterator
  apply triple_bind (load_safe elementsInside _)
  intro elements
  apply triple_bind (load_safe sizeInside _)
  intro size
  apply triple_pure
  rintro image ⟨rfl, rfl, placed, bounded⟩
  refine ⟨?_, bounded⟩
  rcases placed with ⟨none, null⟩ | some
  · refine ⟨0, ?_, .inl rfl⟩
    change (number image (array + 8 - r.startAddress) 8 +
      number image (array - r.startAddress) 8 * t.size) % 2 ^ 64 =
        number image (array + 8 - r.startAddress) 8 + 0 * t.size
    rw [none, null, Nat.zero_mul]
    rfl
  · exact ⟨_, Nat.mod_eq_of_lt (Nat.lt_of_le_of_lt some.2 sized.fits), .inr some⟩

theorem forElements_safe (sized : r.Sized n) (some : 0 < t.size) {body : Nat → Relocation Unit}
    (each : ∀ it, r.Inside it t.size → Triple (Bounded n) (body it) (fun _ => Bounded n) Reports)
    {count first : Nat} (enough : count < fuel)
    (inside : count = 0 ∨ r.Inside first (count * t.size)) :
    Triple (Bounded n) (forElements t body fuel first (first + count * t.size))
      (fun _ => Bounded n) Reports := by
  induction count generalizing fuel first with
  | zero =>
    obtain ⟨fuel, rfl⟩ := Nat.exists_eq_succ_of_ne_zero (n := fuel) (by omega)
    rw [forElements, Nat.zero_mul, Nat.add_zero, if_pos rfl]
    exact triple_pure fun _ => id
  | succ count ih =>
    obtain ⟨fuel, rfl⟩ := Nat.exists_eq_succ_of_ne_zero (n := fuel) (by omega)
    have here : r.Inside first ((count + 1) * t.size) := inside.resolve_left (Nat.succ_ne_zero _)
    rw [Nat.succ_mul] at here ⊢
    obtain ⟨low, high⟩ := here
    have fits := sized.fits
    have next : (first + t.size) % 2 ^ 64 = first + t.size := Nat.mod_eq_of_lt (by omega)
    have end' : first + (count * t.size + t.size) = first + t.size + count * t.size := by omega
    rw [forElements, if_neg (by omega), next, end']
    apply triple_bind (each first ⟨low, by omega⟩)
    intro _
    exact ih (by omega) (.inr ⟨by omega, by omega⟩)

/-- An array is adjusted and walked. -/
theorem relocateArray_safe (sized : r.Sized n) (enough : n < fuel) (some : 0 < t.size)
    {body : Nat → Relocation Unit} {array : Nat} (inside : r.Inside array 16)
    (each : ∀ it, r.Inside it t.size →
      Triple (Bounded n) (body it) (fun _ => Bounded n) Reports) :
    Triple (Bounded n) (relocateArray r fuel t array body) (fun _ => Bounded n) Reports := by
  unfold relocateArray
  apply triple_bind (adjustArray_safe sized inside)
  intro _
  apply triple_bind (relocationIterator_safe sized inside)
  rintro ⟨first, last⟩
  apply triple_given
  rintro ⟨count, end', placed⟩
  obtain rfl : last = first + count * t.size := end'
  apply forElements_safe sized some each _ placed
  rcases placed with rfl | ⟨low, high⟩
  · omega
  · have limit := sized.limit
    have many := Nat.le_mul_of_pos_right count some
    change first + count * t.size ≤ r.limitAddress at high
    omega

theorem adjustPointer_bounded (sized : r.Sized n) {ptr : Nat} (inside : r.Inside ptr 8) :
    Triple (Bounded n) (adjustPointer r t ptr) (fun _ => Bounded n) Reports :=
  triple_post (adjustPointer_safe sized inside) fun _ _ known => known.2

theorem relocateMemoryBytesArray_safe (sized : r.Sized n) (enough : n < fuel) {array : Nat}
    (inside : r.Inside array 16) :
    Triple (Bounded n) (relocateMemoryBytesArray r fuel array) (fun _ => Bounded n) Reports := by
  apply relocateArray_safe sized enough (by decide) inside
  intro memoryByte within
  unfold relocateMemoryBytes
  apply triple_bind (load_safe (within.field (by decide)) _)
  intro flags
  apply triple_ite
  · intro _
    have pointer : r.Inside (memoryByte + (Offset.SnapMemoryBytes.byteValues + Offset.SnapArray.elements)) 8 :=
      within.field (by decide)
    exact triple_pre (adjustPointer_bounded sized pointer) fun _ known => known.2
  · exact fun _ => triple_pure fun _ known => known.2

theorem relocateRegisterState_safe (sized : r.Sized n) {registerState : Nat}
    (inside : r.Inside registerState 16) :
    Triple (Bounded n) (relocateRegisterState r registerState) (fun _ => Bounded n) Reports := by
  unfold relocateRegisterState
  apply triple_bind (adjustPointer_bounded sized (inside.field (by decide)))
  intro _
  exact adjustPointer_bounded sized (inside.field (by decide))

theorem relocateSnap_safe (sized : r.Sized n) (enough : n < fuel) {snapPtr : Nat}
    (inside : r.Inside snapPtr 8) :
    Triple (Bounded n) (relocateSnap r fuel snapPtr) (fun _ => Bounded n) Reports := by
  unfold relocateSnap
  apply triple_bind (adjustPointer_safe (t := .snap) sized inside)
  intro _
  apply triple_bind (Q := fun snap image => r.Inside snap CType.snap.size ∧ Bounded n image)
  · apply triple_post (load_safe inside _)
    rintro snap image ⟨rfl, object⟩
    exact object
  intro snap
  apply triple_given
  intro object
  apply triple_bind (adjustPointer_bounded sized (object.field (by decide)))
  intro _
  apply triple_bind (Q := fun _ => Bounded n)
  · apply relocateArray_safe sized enough (by decide) (object.field (by decide))
    intro mapping within
    exact relocateMemoryBytesArray_safe sized enough (within.field (by decide))
  intro _
  apply triple_bind (relocateRegisterState_safe sized (object.field (by decide)))
  intro _
  apply triple_bind (relocateRegisterState_safe sized (object.field (by decide)))
  intro _
  exact relocateMemoryBytesArray_safe sized enough (object.field (by decide))

/-! ## The whole corpus -/

theorem checkHeader_safe {field size expected : Nat}
    (inside : r.Inside (r.startAddress + field) size) (P : Bytes → Prop) :
    Triple P (checkHeader r field size expected)
      (fun _ image => number image field size = expected ∧ P image) Reports := by
  unfold checkHeader
  apply triple_bind (load_safe inside _)
  intro v
  apply triple_ite
  · exact fun _ => fail_reports _
  · intro same
    apply triple_pure
    rintro image ⟨rfl, known⟩
    rw [Nat.add_sub_cancel_left] at same
    exact ⟨not_not.mp same, known⟩

/-- The checksum of a whole corpus. -/
theorem corpusChecksum_run (sized : r.Sized n) {image : Bytes} (bounded : Bounded n image) :
    corpusChecksum r n image = .ok ((SnapChecksum.castagnoli
      (SnapChecksum.skipChecksum image)).toNat, image) := by
  have whole : image.take n = image := List.take_of_length_le (Nat.le_of_eq bounded)
  have limit := sized.limit
  have small := sized.fits
  have fits : r.startAddress + (image.take n).length < 2 ^ 64 := by
    rw [whole, bounded]
    omega
  have sum : ((SnapChecksum.CorpusChecksumCalculator.checksumOf r.machine
      [⟨r.startAddress, image.take n, fits⟩]).run r.best).1 =
        some (SnapChecksum.castagnoli (SnapChecksum.skipChecksum (image.take n))) :=
    SnapChecksum.CorpusChecksumCalculator.checksumOf_exact r.machine ⟨image.take n, by omega⟩
      (by simp) r.best
  change (if fits : r.startAddress + (image.take n).length < 2 ^ 64 then _ else _ :
    Relocation Nat) image = _
  rw [dif_pos fits, if_pos (by omega)]
  rw [sum, whole]
  rfl

theorem verifyChecksum_safe (sized : r.Sized n) (header : r.Inside r.startAddress 56)
    (verify : Bool) :
    Triple (fun image => number image Offset.SnapCorpus.numBytes 8 = n ∧ Bounded n image)
      (verifyChecksum r verify) (fun _ => Bounded n) Reports := by
  unfold verifyChecksum
  split
  · apply triple_bind (load_safe (header.field (by decide)) _)
    intro expected
    apply triple_bind (load_safe (header.field (by decide)) _)
    intro numBytes
    apply triple_bind (Q := fun _ => Bounded n)
    · rintro image ⟨read, -, all, bounded⟩
      rw [Nat.add_sub_cancel_left, all] at read
      subst read
      rw [corpusChecksum_run sized bounded]
      exact bounded
    · intro actual
      apply triple_ite
      · exact fun _ => fail_reports _
      · exact fun _ => triple_pure fun _ => id
  · exact triple_pure fun _ known => known.2

theorem checkCorpus_safe (sized : r.Sized n) (verify : Bool) :
    Triple (Bounded n) (checkCorpus r verify)
      (fun _ image => r.Inside r.startAddress CType.snapCorpus.size ∧ Bounded n image)
      Reports := by
  unfold checkCorpus
  apply triple_bind (validateRelocatedAddress_safe _ _ _)
  intro _
  apply triple_given
  intro header
  have limit := sized.limit
  apply triple_bind (checkHeader_safe (header.field (by decide)) _)
  intro _
  apply triple_bind (checkHeader_safe (header.field (by decide)) _)
  intro _
  apply triple_bind (checkHeader_safe (header.field (by decide)) _)
  intro _
  apply triple_bind (Q := fun _ => Bounded n)
  · apply triple_pre (verifyChecksum_safe sized header verify)
    rintro image ⟨all, -, -, bounded⟩
    exact ⟨by rw [all]; omega, bounded⟩
  intro _
  apply triple_bind (checkHeader_safe (header.field (by decide)) _)
  intro _
  apply triple_bind (checkHeader_safe (header.field (by decide)) _)
  intro _
  apply triple_bind (checkHeader_safe (header.field (by decide)) _)
  intro _
  apply triple_post (checkHeader_safe (header.field (by decide)) _)
  exact fun _ _ known => ⟨header, known.2.2.2.2⟩

theorem relocate_safe (sized : r.Sized n) (enough : n < fuel) (verify : Bool) :
    Triple (Bounded n) (relocate r fuel verify) (fun _ => Bounded n) Reports := by
  unfold relocate
  apply triple_bind (checkCorpus_safe sized verify)
  intro _
  apply triple_given
  intro header
  apply relocateArray_safe sized enough (by decide) (header.field (by decide))
  exact fun it within => relocateSnap_safe sized enough within

/-- **Whatever bytes a corpus has, its relocation ends, with the corpus or with an error code**:
no access is outside of it, and no loop takes more turns than it has bytes. -/
theorem relocateCorpus_safe (arch : Architecture) (machine : Crc32c.Machine)
    (best : Crc32c.Implementation) (mprotects : Bool) (relocatable : Mmapped) (verify : Bool)
    {fuel : Nat} (enough : relocatable.bytes.length < fuel) :
    Yields (relocateCorpus arch machine best mprotects fuel relocatable verify)
      (fun bytes => bytes.length = relocatable.bytes.length) Reports := by
  unfold relocateCorpus
  split
  · exact ⟨_, rfl⟩
  · have sized : Relocator.Sized ⟨arch, relocatable.address,
        relocatable.address + relocatable.bytes.length, machine, best⟩ relocatable.bytes.length :=
      ⟨rfl, relocatable.fits⟩
    have run := relocate_safe sized enough verify relocatable.bytes rfl
    apply yields_bind (Q := fun x => Bounded relocatable.bytes.length x.2)
    · revert run
      cases relocate _ fuel verify relocatable.bytes with
      | error stop => exact id
      | ok x => exact id
    · rintro ⟨_, bytes⟩ bounded
      dsimp only
      split
      · exact bounded
      · exact ⟨_, rfl⟩

/-- A corpus whose array of snaps is its own header. -/
def selfCorpus : Bytes :=
  encode 8 kSnapCorpusMagic ++ encode 4 40 ++ encode 4 0 ++ encode 8 56 ++
    encode 4 56 ++ encode 4 112 ++ encode 4 16 ++ [1, 0, 0, 0] ++ encode 8 7 ++ encode 8 0

theorem selfCorpus_fits : 4096 + selfCorpus.length < 2 ^ 64 := by decide

theorem relocateCorpus_safe_self :
    Yields (relocateCorpus .kX86_64 ⟨.other, false⟩ .init true 57 ⟨4096, selfCorpus, selfCorpus_fits⟩ false)
      (fun bytes => bytes.length = selfCorpus.length) Reports :=
  relocateCorpus_safe _ _ _ _ _ _ (by decide)

end Silifuzz.SnapRelocator
