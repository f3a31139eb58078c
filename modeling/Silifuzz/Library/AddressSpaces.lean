import Mathlib.Data.List.Basic
import Mathlib.Data.Option.Basic

/-!
# Address spaces

What is mapped at the addresses of a process. A range is mapped in the place of what was there, and
data is stored where the protection allows it: what the process holds at an address afterwards is
the last datum that was stored there, and elsewhere nothing changes.
-/

namespace AddressSpaces

variable {π β : Type}

/-- What is mapped at an address. -/
structure Mapped (π β : Type) where
  prot : π
  value : β

abbrev Space (π β : Type) := Nat → Option (Mapped π β)

/-- The address is one of `size` addresses from `start` on. -/
def Within (start size p : Nat) : Prop := start ≤ p ∧ p < start + size

instance (start size p : Nat) : Decidable (Within start size p) :=
  inferInstanceAs (Decidable (_ ∧ _))

/-- A range is mapped, whatever was there. -/
def mapRange (m : Space π β) (start size : Nat) (prot : π) (contents : Nat → β) : Space π β :=
  fun p => if Within start size p then some ⟨prot, contents (p - start)⟩ else m p

def unmapRange (m : Space π β) (start size : Nat) : Space π β :=
  fun p => if Within start size p then none else m p

def protectRange (m : Space π β) (start size : Nat) (prot : π) : Space π β :=
  fun p => if Within start size p then (m p).map fun x => { x with prot := prot } else m p

section

variable {m : Space π β} {start size p : Nat} {prot prot' : π} {contents : Nat → β}

theorem mapRange_within (within : Within start size p) :
    mapRange m start size prot contents p = some ⟨prot, contents (p - start)⟩ := if_pos within

theorem mapRange_outside (outside : ¬Within start size p) :
    mapRange m start size prot contents p = m p := if_neg outside

theorem protectRange_mapRange :
    protectRange (mapRange m start size prot contents) start size prot' =
      mapRange m start size prot' contents := by
  funext p
  unfold protectRange mapRange
  split <;> rfl

end

/-- Data that is to be stored from an address on. -/
structure Datum (β : Type) where
  start : Nat
  values : List β

namespace Datum

/-- The datum covers the address. -/
def Covers (d : Datum β) (p : Nat) : Prop := Within d.start d.values.length p

def valueAt (d : Datum β) (p : Nat) : Option β :=
  if d.start ≤ p then d.values[p - d.start]? else none

theorem valueAt_covers {d : Datum β} {p : Nat} (inside : d.Covers p) :
    ∃ v, d.valueAt p = some v := by
  obtain ⟨low, high⟩ := inside
  have short : p - d.start < d.values.length := by omega
  exact ⟨d.values[p - d.start], by rw [Datum.valueAt, if_pos low, List.getElem?_eq_getElem short]⟩

theorem valueAt_outside {d : Datum β} {p : Nat} (outside : ¬d.Covers p) :
    d.valueAt p = none := by
  unfold Datum.valueAt
  split
  · next low =>
    apply List.getElem?_eq_none
    by_contra short
    exact outside ⟨low, by omega⟩
  · rfl

end Datum

section

-- Where a store does not fault.
variable (writable : π → Bool)

def storable (m : Space π β) (d : Datum β) : Bool :=
  (List.range d.values.length).all fun i => (m (d.start + i)).any fun x => writable x.prot

/-- A store, or the fault. -/
def store (m : Space π β) (d : Datum β) : Option (Space π β) :=
  if storable writable m d then
    some fun p => (m p).map fun x => { x with value := (d.valueAt p).getD x.value }
  else none

def stores (m : Space π β) (l : List (Datum β)) : Option (Space π β) := l.foldlM (store writable) m

/-- The datum that is stored last of those at an address. -/
def lastAt (l : List (Datum β)) (p : Nat) : Option β :=
  l.foldl (fun v d => (d.valueAt p).or v) none

/-- The space with these data in it. -/
def written (m : Space π β) (l : List (Datum β)) : Space π β :=
  fun p => (m p).map fun x => { x with value := (lastAt l p).getD x.value }

variable {writable} {m : Space π β} {d : Datum β} {l : List (Datum β)} {p : Nat}

theorem foldl_or (l : List (Datum β)) (p : Nat) (v : Option β) :
    l.foldl (fun v d => (d.valueAt p).or v) v = (lastAt l p).or v := by
  unfold lastAt
  induction l generalizing v with
  | nil => rfl
  | cons d l ih =>
    simp only [List.foldl_cons]
    rw [ih, ih ((d.valueAt p).or none), Option.or_none, Option.or_assoc]

theorem lastAt_cons (d : Datum β) (l : List (Datum β)) (p : Nat) :
    lastAt (d :: l) p = (lastAt l p).or (d.valueAt p) := by
  rw [lastAt, List.foldl_cons, foldl_or, Option.or_none]

theorem lastAt_append (l l' : List (Datum β)) (p : Nat) :
    lastAt (l ++ l') p = (lastAt l' p).or (lastAt l p) := by
  rw [lastAt, List.foldl_append, foldl_or]
  rfl

/-- Where no datum is, none is last. -/
theorem lastAt_outside (outside : ∀ d ∈ l, ¬d.Covers p) : lastAt l p = none := by
  induction l with
  | nil => rfl
  | cons d l ih =>
    rw [lastAt_cons, ih fun d mem => outside d (List.mem_cons_of_mem _ mem),
      Datum.valueAt_outside (outside d List.mem_cons_self)]
    rfl

theorem lastAt_within (mem : d ∈ l) (inside : d.Covers p) : ∃ v, lastAt l p = some v := by
  induction l with
  | nil => cases mem
  | cons c l ih =>
    rw [lastAt_cons]
    cases List.mem_cons.mp mem with
    | inl here =>
      subst here
      obtain ⟨v, is⟩ := Datum.valueAt_covers inside
      cases last : lastAt l p with
      | none => exact ⟨v, is⟩
      | some w => exact ⟨w, rfl⟩
    | inr there =>
      obtain ⟨v, is⟩ := ih there
      exact ⟨v, by rw [is, Option.some_or]⟩

/-- What is last of the data of many, at an address that only one of them covers. -/
theorem lastAt_flatMap {α : Type} {xs : List α} {data : α → List (Datum β)} {x : α} (mem : x ∈ xs)
    (others : ∀ y ∈ xs, y = x ∨ ∀ d ∈ data y, ¬d.Covers p) :
    lastAt (xs.flatMap data) p = lastAt (data x) p := by
  have only : lastAt (xs.flatMap data) p = lastAt (data x) p ∨
      lastAt (xs.flatMap data) p = none ∧ x ∉ xs := by
    clear mem
    induction xs with
    | nil => exact .inr ⟨rfl, List.not_mem_nil⟩
    | cons y xs ih =>
      rw [List.flatMap_cons, lastAt_append]
      have rest := ih fun z mem => others z (List.mem_cons_of_mem _ mem)
      cases others y List.mem_cons_self with
      | inl same =>
        subst same
        rcases rest with is | ⟨nothing, -⟩
        · rw [is, Option.or_self]
          exact .inl rfl
        · rw [nothing, Option.none_or]
          exact .inl rfl
      | inr outside =>
        rw [lastAt_outside outside, Option.or_none]
        by_cases here : x = y
        · subst here
          rw [lastAt_outside outside] at rest ⊢
          exact .inl (rest.elim id And.left)
        · exact rest.imp_right fun ⟨nothing, absent⟩ => ⟨nothing, by simp [here, absent]⟩
  exact only.elim id fun ⟨_, absent⟩ => absurd mem absent

theorem storable_iff : storable writable m d = true ↔
    ∀ p, d.Covers p → ∃ x, m p = some x ∧ writable x.prot = true := by
  unfold storable
  rw [List.all_eq_true]
  simp only [List.mem_range, Option.any_eq_true]
  constructor
  · rintro all p ⟨low, high⟩
    have here := all (p - d.start) (by omega)
    rwa [Nat.add_sub_cancel' low] at here
  · intro all i below
    exact all (d.start + i) ⟨Nat.le_add_right _ _, Nat.add_lt_add_left below _⟩

theorem store_ok {m' : Space π β} (run : store writable m d = some m') : m' = written m [d] := by
  unfold store at run
  split at run
  · cases run
    funext p
    rw [written, lastAt_cons]
    rfl
  · cases run

theorem prot_written : (written m l p).map Mapped.prot = (m p).map Mapped.prot := by
  rw [written, Option.map_map, Function.comp_def]

theorem written_append {l l' : List (Datum β)} : written (written m l) l' = written m (l ++ l') := by
  funext p
  unfold written
  rw [Option.map_map, lastAt_append]
  congr 1
  funext x
  cases lastAt l' p <;> rfl

theorem stores_ok {m' : Space π β} (run : stores writable m l = some m') : m' = written m l := by
  unfold stores at run
  induction l generalizing m with
  | nil =>
    obtain rfl := Option.some.inj run
    funext p
    unfold written
    cases m p <;> rfl
  | cons d l ih =>
    obtain ⟨m₁, first, rest⟩ := Option.bind_eq_some_iff.mp run
    rw [ih rest, store_ok first, written_append]
    rfl

/-- A range that is mapped, and filled. -/
theorem written_mapRange {start size : Nat} {prot : π} {v : β}
    (inside : ∀ d ∈ l, ∀ p, d.Covers p → Within start size p) :
    written (mapRange m start size prot fun _ => v) l =
      mapRange m start size prot fun i => (lastAt l (start + i)).getD v := by
  funext p
  unfold written
  by_cases within : Within start size p
  · rw [mapRange_within within, mapRange_within within, Option.map_some,
      Nat.add_sub_cancel' within.1]
  · rw [mapRange_outside within, mapRange_outside within,
      lastAt_outside fun d mem here => within (inside d mem p here)]
    cases m p <;> rfl

/-- Data are stored that all are where stores are allowed. -/
theorem stores_some (allowed : ∀ d ∈ l, storable writable m d = true) :
    stores writable m l = some (written m l) := by
  suffices runs : ∃ m', stores writable m l = some m' by
    obtain ⟨m', run⟩ := runs
    rw [run, stores_ok run]
  unfold stores
  induction l generalizing m with
  | nil => exact ⟨m, rfl⟩
  | cons d l ih =>
    have first : store writable m d = some (written m [d]) := by
      cases run : store writable m d with
      | none =>
        rw [store, if_pos (allowed d List.mem_cons_self)] at run
        cases run
      | some m₁ => rw [store_ok run]
    obtain ⟨m', rest⟩ := @ih (written m [d]) fun c mem => storable_iff.mpr fun p inside => by
      obtain ⟨x, is, writes⟩ := storable_iff.mp (allowed c (List.mem_cons_of_mem _ mem)) p inside
      exact ⟨{ x with value := (lastAt [d] p).getD x.value },
        by rw [written, is, Option.map_some], writes⟩
    exact ⟨m', by rw [List.foldlM_cons, first]; exact rest⟩

end

/-! ## Loads -/

section

-- Where a load does not fault.
variable (readable : π → Bool)

/-- What is loaded, or the fault. -/
def load (m : Space π β) : Nat → Nat → Option (List β)
  | _, 0 => some []
  | start, size + 1 => do
    let x ← m start
    guard (readable x.prot)
    let rest ← load m (start + 1) size
    return x.value :: rest

variable {readable} {m : Space π β} {start size : Nat} {data : List β} {f : Nat → β}

/-- A load sees what is there. -/
theorem load_ok (run : load readable m start size = some data)
    (holds : ∀ p, Within start size p → ∃ prot, m p = some ⟨prot, f p⟩) :
    data = (List.range size).map fun i => f (start + i) := by
  induction size generalizing start data with
  | zero =>
    cases run
    rfl
  | succ size ih =>
    obtain ⟨x, first, rest₁⟩ := Option.bind_eq_some_iff.mp run
    obtain ⟨_, -, rest₂⟩ := Option.bind_eq_some_iff.mp rest₁
    obtain ⟨l, rest, done⟩ := Option.bind_eq_some_iff.mp rest₂
    obtain rfl := Option.some.inj done
    obtain ⟨prot, is⟩ := holds start ⟨Nat.le_refl _, by omega⟩
    obtain rfl := Option.some.inj (first.symm.trans is)
    have inside : ∀ p, Within (start + 1) size p → Within start (size + 1) p :=
      fun p ⟨low, high⟩ => ⟨by omega, by omega⟩
    rw [ih rest fun p within => holds p (inside p within), List.range_succ_eq_map, List.map_cons,
      List.map_map]
    simp only [Function.comp_def, Nat.add_zero, Nat.succ_eq_add_one, Nat.add_assoc, Nat.add_comm 1]

theorem load_some (holds : ∀ p, Within start size p →
      ∃ prot, readable prot = true ∧ m p = some ⟨prot, f p⟩) :
    load readable m start size = some ((List.range size).map fun i => f (start + i)) := by
  suffices runs : ∃ data, load readable m start size = some data by
    obtain ⟨data, run⟩ := runs
    rw [run, load_ok run fun p within => (holds p within).imp fun _ => And.right]
  induction size generalizing start with
  | zero => exact ⟨[], rfl⟩
  | succ size ih =>
    obtain ⟨rest, run⟩ := @ih (start + 1) fun p ⟨low, high⟩ => holds p ⟨by omega, by omega⟩
    obtain ⟨prot, allowed, is⟩ := holds start ⟨Nat.le_refl _, by omega⟩
    exact ⟨f start :: rest, Option.bind_eq_some_iff.mpr ⟨_, is,
      Option.bind_eq_some_iff.mpr ⟨(), if_pos allowed,
        Option.bind_eq_some_iff.mpr ⟨rest, run, rfl⟩⟩⟩⟩

/-- A load depends on nothing else. -/
theorem load_congr {m' : Space π β} (same : ∀ p, Within start size p → m p = m' p) :
    load readable m start size = load readable m' start size := by
  induction size generalizing start with
  | zero => rfl
  | succ size ih =>
    rw [load, load, same start ⟨Nat.le_refl _, by omega⟩,
      @ih (start + 1) fun p ⟨low, high⟩ => same p ⟨by omega, by omega⟩]

end

end AddressSpaces
