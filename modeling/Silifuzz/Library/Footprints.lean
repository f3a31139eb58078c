import Silifuzz.Library.Images
import Mathlib.Order.CompletePartialOrder
import Mathlib.Order.Interval.Set.Basic
import Mathlib.Data.Set.Lattice

/-!
# Programs with footprints

A program that changes words of an image, some of them according to what it reads there. Its
footprint is the list of the cells that it goes to, each with the word that it is to change. When
the cells have no byte in common, the program leaves the image with just these words changed, in
whatever order its parts go to them: no part sees what another has changed.
-/

namespace Footprints

open LittleEndian Images

/-- A range of an image, and the word in it that gets a new value, if any. -/
structure Cell where
  offset : Nat
  size : Nat
  word : Option (Nat × Nat)

namespace Cell

def Apart (c d : Cell) : Prop := Images.Apart c.offset c.size d.offset d.size

instance (c d : Cell) : Decidable (c.Apart d) := inferInstanceAs (Decidable (Images.Apart _ _ _ _))

/-- The word is one of the cell. -/
def Sound (c : Cell) : Prop := ∀ f v, c.word = some (f, v) → c.offset ≤ f ∧ f + 8 ≤ c.offset + c.size

def apply (image : Bytes) (c : Cell) : Bytes :=
  match c.word with
  | some (f, v) => put image f 8 v
  | none => image

end Cell

/-- The image with the words of the cells changed. -/
def patch (image : Bytes) (cells : List Cell) : Bytes := cells.foldl Cell.apply image

/-- The cells are inside of the image, and have words of their own. -/
def Fits (image : Bytes) (cells : List Cell) : Prop :=
  ∀ c ∈ cells, c.Sound ∧ c.offset + c.size ≤ image.length

variable {image image' : Bytes} {cells cells' : List Cell} {c : Cell} {offset size : Nat}

theorem length_apply (sound : c.Sound) (inside : c.offset + c.size ≤ image.length) :
    (c.apply image).length = image.length := by
  unfold Cell.apply
  cases is : c.word with
  | none => rfl
  | some x =>
    have := sound x.1 x.2 is
    exact length_put (by omega)

theorem Fits.tail (fits : Fits image (c :: cells)) : Fits (c.apply image) cells := by
  intro d mem
  obtain ⟨sound, inside⟩ := fits c List.mem_cons_self
  rw [length_apply sound inside]
  exact fits d (List.mem_cons_of_mem c mem)

@[simp] theorem patch_nil : patch image [] = image := rfl

@[simp] theorem patch_cons : patch image (c :: cells) = patch (c.apply image) cells := rfl

theorem patch_append : patch image (cells ++ cells') = patch (patch image cells) cells' :=
  List.foldl_append

theorem length_patch (fits : Fits image cells) : (patch image cells).length = image.length := by
  induction cells generalizing image with
  | nil => rfl
  | cons c cells ih =>
    obtain ⟨sound, inside⟩ := fits c List.mem_cons_self
    rw [patch_cons, ih fits.tail, length_apply sound inside]

theorem piece_apply (sound : c.Sound) (inside : c.offset + c.size ≤ image.length)
    (apart : Apart c.offset c.size offset size) :
    piece (c.apply image) offset size = piece image offset size := by
  unfold Cell.apply
  cases is : c.word with
  | none => rfl
  | some x =>
    obtain ⟨low, high⟩ := sound x.1 x.2 is
    apply piece_put_apart (by omega)
    rcases apart with before | after
    · exact .inl (by omega)
    · exact .inr (by omega)

/-- What has no byte in common with the cells is left as it is. -/
theorem piece_patch (fits : Fits image cells)
    (apart : ∀ c ∈ cells, Apart c.offset c.size offset size) :
    piece (patch image cells) offset size = piece image offset size := by
  induction cells generalizing image with
  | nil => rfl
  | cons c cells ih =>
    obtain ⟨sound, inside⟩ := fits c List.mem_cons_self
    rw [patch_cons, ih fits.tail fun d mem => apart d (List.mem_cons_of_mem c mem),
      piece_apply sound inside (apart c List.mem_cons_self)]

/-- The rest of a cell, beside its word, is left as it is. -/
theorem piece_patch_beside (fits : Fits image cells) (disjoint : cells.Pairwise Cell.Apart)
    (mem : c ∈ cells) (low : c.offset ≤ offset) (high : offset + size ≤ c.offset + c.size)
    (beside : ∀ f v, c.word = some (f, v) → Apart f 8 offset size) :
    piece (patch image cells) offset size = piece image offset size := by
  induction cells generalizing image with
  | nil => cases mem
  | cons d cells ih =>
    obtain ⟨sound, inside⟩ := fits d List.mem_cons_self
    obtain ⟨first, rest⟩ := List.pairwise_cons.mp disjoint
    rw [patch_cons]
    rcases List.mem_cons.mp mem with rfl | later
    · rw [piece_patch fits.tail]
      · unfold Cell.apply
        cases is : c.word with
        | none => rfl
        | some x =>
          have := sound x.1 x.2 is
          exact piece_put_apart (by omega) (beside x.1 x.2 is)
      · intro e mem
        rcases first e mem with before | after
        · exact .inr (by omega)
        · exact .inl (by omega)
    · rw [ih fits.tail rest later, piece_apply sound inside]
      rcases first c later with before | after
      · exact .inl (by omega)
      · exact .inr (by omega)

/-- The word of a cell has its new value. -/
theorem number_patch (fits : Fits image cells) (disjoint : cells.Pairwise Cell.Apart)
    (mem : c ∈ cells) {f v : Nat} (is : c.word = some (f, v)) (small : v < 256 ^ 8) :
    number (patch image cells) f 8 = v := by
  induction cells generalizing image with
  | nil => cases mem
  | cons d cells ih =>
    obtain ⟨sound, inside⟩ := fits d List.mem_cons_self
    obtain ⟨first, rest⟩ := List.pairwise_cons.mp disjoint
    rw [patch_cons]
    rcases List.mem_cons.mp mem with rfl | later
    · have within := sound f v is
      rw [number, piece_patch fits.tail]
      · unfold Cell.apply
        rw [is]
        exact number_put_same (by omega) small
      · intro e mem
        rcases first e mem with before | after
        · exact .inr (by omega)
        · exact .inl (by omega)
    · exact ih fits.tail rest later

/-! ## Walks -/

/-- Where a program goes in an image, and when it comes to its end. -/
structure Walk where
  cells : Bytes → List Cell
  valid : Bytes → Prop

/-- The images are the same in the cells. -/
def Agree (cells : List Cell) (image image' : Bytes) : Prop :=
  image.length = image'.length ∧
    ∀ c ∈ cells, piece image c.offset c.size = piece image' c.offset c.size

theorem Agree.symm (agree : Agree cells image image') : Agree cells image' image :=
  ⟨agree.1.symm, fun c mem => (agree.2 c mem).symm⟩

theorem Agree.number (agree : Agree cells image image') (offset size : Nat) (mem : c ∈ cells)
    (low : c.offset ≤ offset) (high : offset + size ≤ c.offset + c.size) :
    number image offset size = number image' offset size := by
  have inner (image : Bytes) : piece image offset size =
      piece (piece image c.offset c.size) (offset - c.offset) size := by
    unfold piece
    rw [List.drop_take, List.drop_drop, List.take_take]
    congr 1
    · omega
    · congr 1
      omega
  unfold Images.number
  rw [inner, inner image', agree.2 c mem]

/-- The walk depends on its own cells only. -/
structure Walk.Lawful (w : Walk) : Prop where
  fits {image : Bytes} : w.valid image → Fits image (w.cells image)
  same {image image' : Bytes} : Agree (w.cells image) image image' →
    w.cells image' = w.cells image ∧ (w.valid image → w.valid image')

theorem Walk.Lawful.valid_iff {w : Walk} (h : w.Lawful)
    (agree : Agree (w.cells image) image image') : w.valid image' ↔ w.valid image := by
  obtain ⟨cells, valid⟩ := h.same agree
  have back : Agree (w.cells image') image' image := cells ▸ agree.symm
  exact ⟨(h.same back).2, valid⟩

/-- Cells that are apart from those that are changed are as they were. -/
theorem agree_patch (fits : Fits image cells) (apart : ∀ c ∈ cells, ∀ d ∈ cells', c.Apart d) :
    Agree cells' image (patch image cells) :=
  ⟨(length_patch fits).symm, fun d mem => (piece_patch fits fun c here => apart c here d mem).symm⟩

section

variable {ε : Type} {x y : StateT Bytes (Except ε) Unit}

/-- On an image whose cells are apart, the program changes the words of the walk, or it stops. -/
def Does (x : StateT Bytes (Except ε) Unit) (w : Walk) (image : Bytes) : Prop :=
  (w.cells image).Pairwise Cell.Apart →
    (w.valid image → x image = .ok ((), patch image (w.cells image))) ∧
      (¬ w.valid image → ∃ e, x image = .error e)

namespace Walk

def none : Walk := ⟨fun _ => [], fun _ => True⟩

def seq (w w' : Walk) : Walk :=
  ⟨fun image => w.cells image ++ w'.cells image, fun image => w.valid image ∧ w'.valid image⟩

/-- The walk of a loop. -/
def each {α : Type} (w : α → Walk) (l : List α) : Walk := l.foldr (fun a rest => (w a).seq rest) none

theorem none_lawful : none.Lawful where
  fits _ := fun _ mem => nomatch mem
  same _ := ⟨rfl, id⟩

theorem seq_lawful {w w' : Walk} (h : w.Lawful) (h' : w'.Lawful) : (w.seq w').Lawful where
  fits valid c mem := by
    rcases List.mem_append.mp mem with first | second
    · exact h.fits valid.1 c first
    · exact h'.fits valid.2 c second
  same {image image'} agree := by
    have first := @Lawful.same w h image image'
      ⟨agree.1, fun c mem => agree.2 c (List.mem_append_left _ mem)⟩
    have second := @Lawful.same w' h' image image'
      ⟨agree.1, fun c mem => agree.2 c (List.mem_append_right _ mem)⟩
    refine ⟨?_, fun valid => ⟨first.2 valid.1, second.2 valid.2⟩⟩
    change w.cells image' ++ w'.cells image' = w.cells image ++ w'.cells image
    rw [first.1, second.1]

theorem each_lawful {α : Type} {w : α → Walk} {l : List α} (h : ∀ a ∈ l, (w a).Lawful) :
    (each w l).Lawful := by
  induction l with
  | nil => exact none_lawful
  | cons a l ih => exact seq_lawful (h a (by simp)) (ih fun b mem => h b (by simp [mem]))

theorem each_cells {α : Type} (w : α → Walk) (l : List α) (image : Bytes) :
    (each w l).cells image = l.flatMap fun a => (w a).cells image := by
  induction l with
  | nil => rfl
  | cons a l ih =>
    rw [List.flatMap_cons, ← ih]
    rfl

theorem each_valid {α : Type} (w : α → Walk) (l : List α) (image : Bytes) :
    (each w l).valid image ↔ ∀ a ∈ l, (w a).valid image := by
  induction l with
  | nil => simp [each, none]
  | cons a l ih =>
    rw [List.forall_mem_cons, ← ih]
    rfl

end Walk

theorem does_none : Does (pure () : StateT Bytes (Except ε) Unit) .none image :=
  fun _ => ⟨fun _ => rfl, fun not => absurd trivial not⟩

theorem Does.congr {w : Walk} (same : x image = y image) (h : Does y w image) : Does x w image := by
  unfold Does
  rw [same]
  exact h

/-- Two walks one after the other. -/
theorem Does.seq {w w' : Walk} (first : Does x w image) (h : w.Lawful) (h' : w'.Lawful)
    (second : w.valid image → Does y w' (patch image (w.cells image))) :
    Does (do x; y) (w.seq w') image := by
  intro disjoint
  obtain ⟨own, own', apart⟩ := List.pairwise_append.mp disjoint
  obtain ⟨done, stopped⟩ := first own
  have bind (r : Except ε (Unit × Bytes)) (run : x image = r) :
      (do x; y : StateT Bytes (Except ε) Unit) image = r.bind fun p => y p.2 := by
    rw [← run]
    rfl
  by_cases valid : w.valid image
  · have fits := h.fits valid
    have agree := agree_patch fits apart
    obtain ⟨cells, -⟩ := h'.same agree
    have run := second valid (cells.symm ▸ own')
    rw [cells, h'.valid_iff agree] at run
    rw [bind _ (done valid)]
    change (w.valid image ∧ w'.valid image → y (patch image (w.cells image)) =
      .ok ((), patch image (w.cells image ++ w'.cells image))) ∧
        (¬ (w.valid image ∧ w'.valid image) → ∃ e, y (patch image (w.cells image)) = .error e)
    rw [patch_append]
    exact ⟨fun both => run.1 both.2, fun not => run.2 fun valid' => not ⟨valid, valid'⟩⟩
  · obtain ⟨e, run⟩ := stopped valid
    refine ⟨fun both => absurd both.1 valid, fun _ => ⟨e, ?_⟩⟩
    rw [bind _ run]
    rfl

/-- The second part of a program is seen on any image of that length. -/
theorem Does.andThen {w w' : Walk} (first : Does x w image) (h : w.Lawful) (h' : w'.Lawful)
    (second : ∀ image', image'.length = image.length → Does y w' image') :
    Does (do x; y) (w.seq w') image :=
  first.seq h h' fun valid => second _ (length_patch (h.fits valid))

/-- A run that comes to its end was valid, and has changed the words of the walk. -/
theorem Does.ended {w : Walk} (h : Does x w image) (disjoint : (w.cells image).Pairwise Cell.Apart)
    {image' : Bytes} (run : x image = .ok ((), image')) :
    w.valid image ∧ image' = patch image (w.cells image) := by
  obtain ⟨done, stopped⟩ := h disjoint
  by_cases valid : w.valid image
  · rw [done valid] at run
    cases run
    exact ⟨valid, rfl⟩
  · obtain ⟨e, error⟩ := stopped valid
    rw [error] at run
    cases run

end

/-! ## Ranges -/

/-- A range of an image, by its offset and size. -/
abbrev Region := Nat × Nat

def Region.positions (r : Region) : Set Nat := Set.Ico r.1 (r.1 + r.2)

/-- No cell has a byte in the region. -/
def Beside (cells : List Cell) (region : Region) : Prop :=
  ∀ c ∈ cells, Images.Apart c.offset c.size region.1 region.2

instance (cells : List Cell) (region : Region) : Decidable (Beside cells region) :=
  inferInstanceAs (Decidable (∀ _ ∈ _, _))

theorem apart_of_disjoint {r r' : Region} (some : 0 < r.2) (some' : 0 < r'.2)
    (disjoint : Disjoint r.positions r'.positions) : Images.Apart r.1 r.2 r'.1 r'.2 := by
  by_contra overlap
  obtain ⟨before, after⟩ := not_or.mp overlap
  have first : max r.1 r'.1 ∈ r.positions := ⟨Nat.le_max_left _ _, by omega⟩
  have second : max r.1 r'.1 ∈ r'.positions := ⟨Nat.le_max_right _ _, by omega⟩
  exact Set.disjoint_left.mp disjoint first second

theorem disjoint_of_apart {r r' : Region} (apart : Images.Apart r.1 r.2 r'.1 r'.2) :
    Disjoint r.positions r'.positions := by
  rw [Set.disjoint_left]
  rintro p ⟨low, high⟩ ⟨low', high'⟩
  rcases apart with before | after <;> omega

/-! ## Writes that are apart -/

section

/-- A write to an image. -/
abbrev Write := Nat × Bytes

def Write.positions (w : Write) : Set Nat := Region.positions (w.1, w.2.length)

def Write.Apart (w w' : Write) : Prop := Disjoint w.positions w'.positions

/-- The write has bytes, all of them in the zone. -/
def Write.In (w : Write) (zone : Set Nat) : Prop := 0 < w.2.length ∧ w.positions ⊆ zone

theorem Write.In.mono {w : Write} {zone zone' : Set Nat} (h : w.In zone) (larger : zone ⊆ zone') :
    w.In zone' := ⟨h.1, h.2.trans larger⟩

def written (image : Bytes) (writes : List Write) : Bytes :=
  writes.foldl (fun image w => Buffers.write image w.1 w.2) image

/-- The writes are in the image, and no two have a byte in common. -/
structure Separate (n : Nat) (writes : List Write) : Prop where
  inside : ∀ w ∈ writes, w.1 + w.2.length ≤ n
  apart : writes.Pairwise Write.Apart

variable {image : Bytes} {writes : List Write} {n : Nat}

theorem length_written (inside : ∀ w ∈ writes, w.1 + w.2.length ≤ image.length) :
    (written image writes).length = image.length := by
  induction writes generalizing image with
  | nil => rfl
  | cons w writes ih =>
    have here := Buffers.length_write (inside w List.mem_cons_self)
    change (written (Buffers.write image w.1 w.2) writes).length = _
    rw [ih, here]
    rw [here]
    exact fun w' mem => inside w' (List.mem_cons_of_mem w mem)

theorem getElem?_written_outside (inside : ∀ w ∈ writes, w.1 + w.2.length ≤ image.length)
    {p : Nat} (outside : ∀ w ∈ writes, p ∉ Write.positions w) :
    (written image writes)[p]? = image[p]? := by
  induction writes generalizing image with
  | nil => rfl
  | cons w writes ih =>
    have fits := inside w List.mem_cons_self
    change (written (Buffers.write image w.1 w.2) writes)[p]? = _
    rw [ih _ fun w' mem => outside w' (List.mem_cons_of_mem w mem)]
    · apply Buffers.getElem?_write_outside fits
      have := outside w List.mem_cons_self
      change ¬ (w.1 ≤ p ∧ p < w.1 + w.2.length) at this
      omega
    · rw [Buffers.length_write fits]
      exact fun w' mem => inside w' (List.mem_cons_of_mem w mem)

/-- The bytes of each write are where it put them. -/
def Shows (image : Bytes) (writes : List Write) : Prop :=
  ∀ w ∈ writes, piece image w.1 w.2.length = w.2

theorem Shows.subset {writes' : List Write} (h : Shows image writes) (some : writes' ⊆ writes) :
    Shows image writes' := fun w mem => h w (some mem)

theorem piece_eq_of_getElem? {offset : Nat} {bytes : Bytes}
    (same : ∀ i < bytes.length, image[offset + i]? = bytes[i]?) :
    piece image offset bytes.length = bytes := by
  apply List.ext_getElem?
  intro i
  by_cases inside : i < bytes.length
  · rw [getElem?_piece inside, same i inside]
  · rw [List.getElem?_eq_none, List.getElem?_eq_none (by omega)]
    rw [piece, List.length_take]
    omega

theorem shows_written (separate : Separate image.length writes) :
    Shows (written image writes) writes := by
  induction writes generalizing image with
  | nil => exact fun w mem => absurd mem (by simp)
  | cons w writes ih =>
    obtain ⟨apart, rest⟩ := List.pairwise_cons.mp separate.apart
    have fits := separate.inside w List.mem_cons_self
    have length := Buffers.length_write fits
    have inside : ∀ w' ∈ writes, w'.1 + w'.2.length ≤ (Buffers.write image w.1 w.2).length := by
      rw [length]
      exact fun w' mem => separate.inside w' (List.mem_cons_of_mem w mem)
    intro w' mem
    rcases List.mem_cons.mp mem with rfl | later
    · apply piece_eq_of_getElem?
      intro i below
      change (written (Buffers.write image _ _) writes)[_]? = _
      rw [getElem?_written_outside inside, Buffers.getElem?_write_inside fits below]
      intro w mem here
      exact Set.disjoint_left.mp (apart w mem) ⟨Nat.le_add_right _ _, by
        dsimp only
        omega⟩ here
    · exact ih ⟨inside, rest⟩ w' later

/-- One more write leaves what it does not go to. -/
theorem shows_written_then (separate : Separate image.length writes) {last : Write}
    (inside : last.1 + last.2.length ≤ image.length) {w : Write} (mem : w ∈ writes)
    (apart : Write.Apart w last) :
    piece (written image (writes ++ [last])) w.1 w.2.length = w.2 := by
  have length := length_written separate.inside
  apply piece_eq_of_getElem?
  intro i below
  have shown : (written image writes)[w.1 + i]? = w.2[i]? := by
    rw [← getElem?_piece below, shows_written separate w mem]
  rw [← shown, written, List.foldl_append]
  refine Buffers.getElem?_write_outside (by rwa [← length] at inside) ?_
  by_contra within
  have here : w.1 + i ∈ Write.positions w := ⟨Nat.le_add_right _ _, Nat.add_lt_add_left below _⟩
  have there : w.1 + i ∈ Write.positions last := by
    constructor <;> dsimp only <;> omega
  exact Set.disjoint_left.mp apart here there

theorem Shows.number {field size v : Nat} (h : Shows image writes)
    (mem : (field, encode size v) ∈ writes) : number image field size = v % 256 ^ size := by
  have same := h _ mem
  rw [length_encode] at same
  rw [Images.number, same, decode_encode]

end

/-! ## Walks in a zone -/

/-- The walk comes to its end, with its cells apart from each other and in the zone. What is read
beside them is in the zone too, or in the data. -/
structure Keeps (w : Walk) (regions : List Region) (image : Bytes) (data zone : Set Nat) :
    Prop where
  valid : w.valid image
  cells : ∀ c ∈ w.cells image, 0 < c.size ∧ Region.positions (c.offset, c.size) ⊆ zone
  apart : (w.cells image).Pairwise Cell.Apart
  within : ∀ r ∈ regions, 0 < r.2 ∧ r.positions ⊆ zone ∪ data
  beside : ∀ r ∈ regions, Beside (w.cells image) r

namespace Keeps

variable {w w' : Walk} {regions regions' : List Region} {data zone zone' : Set Nat}

theorem none : Keeps .none [] image data zone :=
  ⟨trivial, fun c mem => absurd mem (by simp [Walk.none]), .nil, fun r mem => absurd mem (by simp),
    fun r mem => absurd mem (by simp)⟩

theorem mono (h : Keeps w regions image data zone) (larger : zone ⊆ zone') :
    Keeps w regions image data zone' where
  valid := h.valid
  cells c mem := ⟨(h.cells c mem).1, fun _ here => larger ((h.cells c mem).2 here)⟩
  apart := h.apart
  within r mem := ⟨(h.within r mem).1, fun _ here =>
    ((h.within r mem).2 here).imp (fun inside => larger inside) id⟩
  beside := h.beside

theorem narrow (h : Keeps w regions image data zone) (some : regions' ⊆ regions) :
    Keeps w regions' image data zone :=
  ⟨h.valid, h.cells, h.apart, fun r mem => h.within r (some mem), fun r mem => h.beside r (some mem)⟩

/-- A walk with one cell only. -/
theorem single {c : Cell} (valid : w.valid image) (cells : w.cells image = [c]) (some : 0 < c.size)
    (inside : Region.positions (c.offset, c.size) ⊆ zone) : Keeps w [] image data zone where
  valid := valid
  cells d mem := by
    rw [cells] at mem
    rw [List.mem_singleton.mp mem]
    exact ⟨some, inside⟩
  apart := by
    rw [cells]
    exact List.pairwise_singleton _ _
  within r mem := absurd mem (by simp)
  beside r mem := absurd mem (by simp)

/-- A region beside the zone is read too. -/
theorem cons {r : Region} (h : Keeps w regions image data zone) (some : 0 < r.2)
    (within : r.positions ⊆ zone' ∪ data) (apart : Disjoint r.positions zone)
    (larger : zone ⊆ zone') : Keeps w (r :: regions) image data zone' where
  valid := h.valid
  cells := (h.mono larger).cells
  apart := h.apart
  within := List.forall_mem_cons.mpr ⟨⟨some, within⟩, (h.mono larger).within⟩
  beside := by
    refine List.forall_mem_cons.mpr ⟨fun c mem => ?_, h.beside⟩
    obtain ⟨some', inside⟩ := h.cells c mem
    exact @apart_of_disjoint (c.offset, c.size) r some' some (apart.symm.mono_left inside)

/-- What is read in one zone or in the data is beside the cells of another zone. -/
theorem beside_other (h : Keeps w regions image data zone) (h' : Keeps w' regions' image data zone')
    (disjoint : Disjoint zone zone') (free : Disjoint zone' data) :
    ∀ r ∈ regions, Beside (w'.cells image) r := by
  intro r mem c here
  obtain ⟨some, placed⟩ := h.within r mem
  obtain ⟨some', placed'⟩ := h'.cells c here
  apply apart_of_disjoint (r := (c.offset, c.size)) some' some
  rw [Set.disjoint_left]
  intro p inCell inRegion
  rcases placed inRegion with other | shared
  · exact Set.disjoint_left.mp disjoint other (placed' inCell)
  · exact Set.disjoint_left.mp free (placed' inCell) shared

/-- Two walks in zones of their own, which have nothing of the data. -/
theorem seq (h : Keeps w regions image data zone) (h' : Keeps w' regions' image data zone')
    (disjoint : Disjoint zone zone') (free : Disjoint zone data) (free' : Disjoint zone' data) :
    Keeps (w.seq w') (regions ++ regions') image data (zone ∪ zone') where
  valid := ⟨h.valid, h'.valid⟩
  cells c mem := by
    rcases List.mem_append.mp mem with first | second
    · exact ⟨(h.cells c first).1, fun _ here => .inl ((h.cells c first).2 here)⟩
    · exact ⟨(h'.cells c second).1, fun _ here => .inr ((h'.cells c second).2 here)⟩
  apart := by
    refine List.pairwise_append.mpr ⟨h.apart, h'.apart, fun c mem d mem' => ?_⟩
    obtain ⟨some, within⟩ := h.cells c mem
    obtain ⟨some', within'⟩ := h'.cells d mem'
    exact @apart_of_disjoint (c.offset, c.size) (d.offset, d.size) some some'
      (disjoint.mono within within')
  within r mem := by
    rcases List.mem_append.mp mem with first | second
    · exact ⟨(h.within r first).1, fun _ here =>
        ((h.within r first).2 here).imp Or.inl id⟩
    · exact ⟨(h'.within r second).1, fun _ here =>
        ((h'.within r second).2 here).imp Or.inr id⟩
  beside r mem c here := by
    rcases List.mem_append.mp mem with first | second <;>
      rcases List.mem_append.mp here with own | other
    · exact h.beside r first c own
    · exact h.beside_other h' disjoint free' r first c other
    · exact h'.beside_other h disjoint.symm free r second c own
    · exact h'.beside r second c other

end Keeps

end Footprints
