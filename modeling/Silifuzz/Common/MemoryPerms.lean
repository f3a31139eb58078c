import Mathlib.Data.BitVec

/-!
# MemoryPerms

The permissions of a range of memory, a binary-or of `Permission` bits in an
`int` (`common/memory_perms.h`). `Proper` says that no other bits are set, which
the class keeps for every value not read from a proto.
-/

namespace Silifuzz

inductive Permission where
  | kReadable
  | kWritable
  | kExecutable
  | kMapped
  deriving DecidableEq, Repr

def Permission.toInt : Permission → BitVec 32
  | kReadable => 1
  | kWritable => 2
  | kExecutable => 4
  | kMapped => 8

/-- The position of a permission's bit. -/
def Permission.bit : Permission → Nat
  | kReadable => 0
  | kWritable => 1
  | kExecutable => 2
  | kMapped => 3

@[ext] structure MemoryPerms where
  permissionBits : BitVec 32
  deriving DecidableEq, Repr

inductive JoinMode where
  | kOr
  | kAnd
  deriving DecidableEq, Repr

namespace MemoryPerms

/-- `MemoryPerms({p})`. -/
def of (p : Permission) : MemoryPerms := ⟨p.toInt⟩

def none : MemoryPerms := ⟨0⟩
def all : MemoryPerms := ⟨1 ||| 2 ||| 4⟩
def allPlusMapped : MemoryPerms := ⟨1 ||| 2 ||| 4 ||| 8⟩
def r : MemoryPerms := of .kReadable
def rw : MemoryPerms := ⟨1 ||| 2⟩
def xr : MemoryPerms := ⟨1 ||| 4⟩

def add (x y : MemoryPerms) : MemoryPerms := ⟨x.permissionBits ||| y.permissionBits⟩

/-- `Plus`, for one permission or several. -/
def plus (x y : MemoryPerms) : MemoryPerms := x.add y

def intersect (x y : MemoryPerms) : MemoryPerms := ⟨x.permissionBits &&& y.permissionBits⟩

def clear (x y : MemoryPerms) : MemoryPerms := ⟨x.permissionBits &&& ~~~y.permissionBits⟩

def join (x y : MemoryPerms) : JoinMode → MemoryPerms
  | .kOr => x.add y
  | .kAnd => x.intersect y

def isEmpty (x : MemoryPerms) : Bool := x.permissionBits == 0

def has (x : MemoryPerms) (p : Permission) : Bool := x.permissionBits &&& p.toInt != 0

def hasAllOf (x y : MemoryPerms) : Bool :=
  x.permissionBits &&& y.permissionBits == y.permissionBits

def hasSomeOf (x y : MemoryPerms) : Bool := x.permissionBits &&& y.permissionBits != 0

/-- Only `Permission` bits are set. -/
def Proper (x : MemoryPerms) : Prop := x.clear allPlusMapped = none

instance (x : MemoryPerms) : Decidable x.Proper := inferInstanceAs (Decidable (_ = _))

theorem ext_bits {x y : MemoryPerms}
    (h : ∀ i < 32, x.permissionBits.getLsbD i = y.permissionBits.getLsbD i) : x = y :=
  MemoryPerms.ext (BitVec.eq_of_getLsbD_eq fun i hi => h i hi)

@[simp] theorem isEmpty_iff {x : MemoryPerms} : x.isEmpty = true ↔ x = none := by
  simp [isEmpty, none, MemoryPerms.ext_iff]

@[simp] theorem none_add (x : MemoryPerms) : none.add x = x := by simp [none, add]

@[simp] theorem add_none (x : MemoryPerms) : x.add none = x := by simp [none, add]

@[simp] theorem none_clear (x : MemoryPerms) : none.clear x = none := by simp [none, clear]

theorem add_assoc (x y z : MemoryPerms) : (x.add y).add z = x.add (y.add z) := by
  simp [add, BitVec.or_assoc]

@[simp] theorem add_self (x : MemoryPerms) : x.add x = x := by simp [add]

@[simp] theorem clear_self (x : MemoryPerms) : x.clear x = none := by simp [clear, none]

@[simp] theorem clear_clear (x y : MemoryPerms) : (x.clear y).clear y = x.clear y := by
  simp [clear, BitVec.and_assoc]

@[simp] theorem clear_none (x : MemoryPerms) : x.clear none = x := by
  have ones : ~~~(0 : BitVec 32) = BitVec.allOnes 32 := by decide
  simp only [clear, none, ones, BitVec.and_allOnes]

/-- Clearing what is shared clears as much as clearing everything. -/
theorem clear_intersect (x y : MemoryPerms) : x.clear (x.intersect y) = x.clear y := by
  refine ext_bits fun i hi => ?_
  simp only [clear, intersect, BitVec.getLsbD_and, BitVec.getLsbD_not]
  grind

theorem clear_of_disjoint {x y : MemoryPerms} (h : x.intersect y = none) : x.clear y = x := by
  rw [← clear_intersect, h, clear_none]

theorem clear_add_intersect (x y : MemoryPerms) :
    (x.clear (x.intersect y)).add (x.intersect y) = x := by
  refine ext_bits fun i hi => ?_
  simp only [add, clear, intersect, BitVec.getLsbD_and, BitVec.getLsbD_or, BitVec.getLsbD_not]
  grind

theorem Proper.all_intersect {x : MemoryPerms} (h : x.Proper) : allPlusMapped.intersect x = x := by
  refine ext_bits fun i hi => ?_
  have := congrArg (·.permissionBits.getLsbD i) h
  simp only [clear, intersect, none, BitVec.getLsbD_and, BitVec.getLsbD_not] at this ⊢
  grind

@[simp] theorem intersect_self (x : MemoryPerms) : x.intersect x = x := by simp [intersect]

theorem add_eq_none {x y : MemoryPerms} : x.add y = none ↔ x = none ∧ y = none := by
  simp [add, none, MemoryPerms.ext_iff, BitVec.or_eq_zero_iff]

theorem has_bit (x : MemoryPerms) (p : Permission) :
    x.has p = x.permissionBits.getLsbD p.bit := by
  have one : p.toInt = BitVec.twoPow 32 p.bit := by cases p <;> rfl
  have nonzero : BitVec.twoPow 32 p.bit ≠ 0#32 := by cases p <;> decide
  rw [has, one, BitVec.and_twoPow]
  cases x.permissionBits.getLsbD p.bit
  · rfl
  · simpa using nonzero

theorem bit_lt (p : Permission) : p.bit < 32 := by cases p <;> decide

theorem has_add (x y : MemoryPerms) (p : Permission) :
    (x.add y).has p = (x.has p || y.has p) := by
  simp [has_bit, add]

theorem has_clear (x y : MemoryPerms) (p : Permission) :
    (x.clear y).has p = (x.has p && !y.has p) := by
  simp [has_bit, clear, bit_lt]

theorem has_intersect (x y : MemoryPerms) (p : Permission) :
    (x.intersect y).has p = (x.has p && y.has p) := by
  simp [has_bit, intersect]

theorem ne_none_of_has {x : MemoryPerms} {p : Permission} (h : x.has p = true) : x ≠ none := by
  rintro rfl
  simp [has_bit, none] at h

/-- A permission that is there may be cleared and added again. -/
theorem clear_plus {x : MemoryPerms} {p : Permission} (h : x.has p = true) :
    (x.clear (of p)).plus (of p) = x := by
  have one : x.intersect (of p) = of p := by
    have one : p.toInt = BitVec.twoPow 32 p.bit := by cases p <;> rfl
    rw [has_bit] at h
    simp only [intersect, of, one, BitVec.and_twoPow, h, if_true]
  have := clear_add_intersect x (of p)
  rwa [one] at this

/-- A permission that is not there may be added and cleared again. -/
theorem plus_clear {x : MemoryPerms} {p : Permission} (h : x.has p = false) :
    (x.plus (of p)).clear (of p) = x := by
  have one : p.toInt = BitVec.twoPow 32 p.bit := by cases p <;> rfl
  rw [has_bit] at h
  refine ext_bits fun i hi => ?_
  simp only [clear, plus, add, of, one, BitVec.getLsbD_and, BitVec.getLsbD_or, BitVec.getLsbD_not,
    BitVec.getLsbD_twoPow]
  by_cases same : p.bit = i
  · simp [← same, h]
  · simp [same, hi]

theorem clear_absent {x : MemoryPerms} {p : Permission} (h : x.has p = false) :
    x.clear (of p) = x := by
  have added := plus_clear h
  rw [← added, clear_clear]

theorem proper_none : Proper none := by decide

theorem proper_rw : rw.Proper := by decide

theorem proper_xr : xr.Proper := by decide

theorem proper_all : all.Proper := by decide

theorem unmapped_rw : rw.has .kMapped = false := by decide

theorem unmapped_xr : xr.has .kMapped = false := by decide

theorem unmapped_all : all.has .kMapped = false := by decide

theorem Proper.add {x y : MemoryPerms} (hx : x.Proper) (hy : y.Proper) : (x.add y).Proper := by
  refine ext_bits fun i hi => ?_
  have hx := congrArg (·.permissionBits.getLsbD i) hx
  have hy := congrArg (·.permissionBits.getLsbD i) hy
  simp only [clear, MemoryPerms.add, none, BitVec.getLsbD_and, BitVec.getLsbD_or] at hx hy ⊢
  rw [Bool.and_or_distrib_right, hx, hy, Bool.or_self]

theorem Proper.clear {x : MemoryPerms} (hx : x.Proper) (y : MemoryPerms) : (x.clear y).Proper := by
  simp only [Proper, MemoryPerms.ext_iff, MemoryPerms.clear, none] at hx ⊢
  rw [BitVec.and_assoc, BitVec.and_comm (~~~y.permissionBits), ← BitVec.and_assoc, hx]
  simp

theorem Proper.intersect {x : MemoryPerms} (hx : x.Proper) (y : MemoryPerms) :
    (x.intersect y).Proper := by
  simp only [Proper, MemoryPerms.ext_iff, MemoryPerms.clear, MemoryPerms.intersect, none] at hx ⊢
  rw [BitVec.and_assoc, BitVec.and_comm y.permissionBits, ← BitVec.and_assoc, hx]
  simp

end MemoryPerms

end Silifuzz
