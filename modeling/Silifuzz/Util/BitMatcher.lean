import Mathlib.Data.BitVec

/-!
# Bit matchers

`util/bit_matcher.h`: patterns of bits in an instruction word. A matcher is blind
to a field, within a class of words that another matcher picks out, when it reads
no bit of the field or asks for a bit that no word of the class has.
-/

namespace Silifuzz

structure BitMatcher (w : Nat) where
  mask : BitVec w
  bits : BitVec w

structure RequiredBits (w : Nat) where
  pattern : BitMatcher w
  expect : BitMatcher w

variable {w : Nat}

/-- `BitMatcher::matches` -/
def BitMatcher.isMatch (m : BitMatcher w) (insn : BitVec w) : Bool := insn &&& m.mask == m.bits

def RequiredBits.violatesRequirements (r : RequiredBits w) (insn : BitVec w) : Bool :=
  r.pattern.isMatch insn && !r.expect.isMatch insn

/-- The two words differ in the field at most. -/
def AgreeOutside (field insn insn' : BitVec w) : Prop :=
  insn &&& ~~~field = insn' &&& ~~~field

theorem AgreeOutside.symm {field insn insn' : BitVec w} (h : AgreeOutside field insn insn') :
    AgreeOutside field insn' insn :=
  Eq.symm h

theorem AgreeOutside.and_mask {field insn insn' mask : BitVec w}
    (h : AgreeOutside field insn insn') (apart : mask &&& field = 0) :
    insn &&& mask = insn' &&& mask := by
  have outside : ~~~field &&& mask = mask := by
    ext i hi
    have bit := congrArg (·.getLsbD i) apart
    simp only [BitVec.getLsbD_and, BitVec.ofNat_eq_ofNat, BitVec.getLsbD_zero] at bit
    simp only [← BitVec.getLsbD_eq_getElem, BitVec.getLsbD_and, BitVec.getLsbD_not, hi]
    cases hm : mask.getLsbD i <;> cases hf : field.getLsbD i <;> simp_all
  have masked : ∀ x : BitVec w, x &&& mask = (x &&& ~~~field) &&& mask := by
    intro x
    rw [BitVec.and_assoc, outside]
  rw [masked insn, masked insn', h]

namespace BitMatcher

/-- No word matches both. -/
def conflicts (m n : BitMatcher w) : Bool := m.mask &&& n.mask &&& (m.bits ^^^ n.bits) != 0

theorem not_isMatch_of_conflicts {m n : BitMatcher w} {insn : BitVec w} (h : m.conflicts n = true)
    (hm : m.isMatch insn = true) : n.isMatch insn = false := by
  rw [Bool.eq_false_iff]
  intro hn
  simp only [isMatch, beq_iff_eq] at hm hn
  simp only [conflicts, ← hm, ← hn, bne_iff_ne] at h
  apply h
  ext i hi
  simp only [BitVec.getElem_and, BitVec.getElem_xor, BitVec.ofNat_eq_ofNat, BitVec.getElem_zero]
  cases insn[i] <;> cases m.mask[i] <;> cases n.mask[i] <;> rfl

/-- On the words of `cls`, what the field holds does not matter to `m`. -/
def blind (cls : BitMatcher w) (field : BitVec w) (m : BitMatcher w) : Bool :=
  m.mask &&& field == 0 || cls.conflicts m

theorem isMatch_of_blind {cls m : BitMatcher w} {field insn insn' : BitVec w}
    (h : blind cls field m = true) (hi : cls.isMatch insn = true)
    (hi' : cls.isMatch insn' = true) (agree : AgreeOutside field insn insn') :
    m.isMatch insn = m.isMatch insn' := by
  rcases Bool.or_eq_true _ _ ▸ h with apart | conflict
  · unfold isMatch
    rw [agree.and_mask (by simpa using apart)]
  · rw [not_isMatch_of_conflicts conflict hi, not_isMatch_of_conflicts conflict hi']

end BitMatcher

/-- A requirement is blind if its pattern conflicts with the class or both of its
matchers are. -/
def RequiredBits.blind (cls : BitMatcher w) (field : BitVec w) (r : RequiredBits w) : Bool :=
  cls.conflicts r.pattern ||
    (BitMatcher.blind cls field r.pattern && BitMatcher.blind cls field r.expect)

theorem RequiredBits.violatesRequirements_of_blind {cls : BitMatcher w} {r : RequiredBits w}
    {field insn insn' : BitVec w} (h : r.blind cls field = true) (hi : cls.isMatch insn = true)
    (hi' : cls.isMatch insn' = true) (agree : AgreeOutside field insn insn') :
    r.violatesRequirements insn = r.violatesRequirements insn' := by
  unfold violatesRequirements
  rcases Bool.or_eq_true _ _ ▸ h with conflict | both
  · rw [BitMatcher.not_isMatch_of_conflicts conflict hi,
      BitMatcher.not_isMatch_of_conflicts conflict hi']
    rfl
  · obtain ⟨pattern, expect⟩ := Bool.and_eq_true _ _ ▸ both
    rw [BitMatcher.isMatch_of_blind pattern hi hi' agree,
      BitMatcher.isMatch_of_blind expect hi hi' agree]

end Silifuzz
