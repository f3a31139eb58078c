import Silifuzz.Fuzzer.Program.Parse

/-!
# Random boundaries

Whatever is drawn, a random index is below the size it is drawn for, and a boundary
that is drawn for an instruction is one of the program.
-/

namespace Silifuzz

open Triples

theorem surely_check {ρ : Type} {E : Fault → Prop} {c : Prop} [Decidable c] (h : c) :
    Surely (liftM (check c) : Rand ρ Unit) (fun _ => True) E :=
  surely_lift_ok ⟨(), check_ok_iff.mpr h, trivial⟩

variable {ρ : Type} (rng : MutatorRng ρ)

theorem randomIndex_surely {E : Fault → Prop} {size : Nat} (h : 0 < size) :
    Surely (randomIndex rng size) (· < size) E := by
  unfold randomIndex
  apply surely_bind (surely_check h)
  intro _ _
  apply surely_modifyGet
  intro r
  have le := rng.uniform_le (size - 1) r
  omega

theorem randomizeInstructionDisplacementBoundary_within {E : Fault → Prop}
    (branch : InstructionDisplacementInfo)
    (absent : branch.valid = false → branch.instructionBoundary = none) {n : Nat} (hn : 0 < n) :
    Surely (randomizeInstructionDisplacementBoundary rng branch n) (·.Within n) E := by
  unfold randomizeInstructionDisplacementBoundary
  apply surely_ite
  · intro hv
    apply surely_bind (randomIndex_surely rng hn)
    intro b lt
    exact surely_pure ⟨fun _ => ⟨b, rfl, lt⟩, fun h => absurd (h.symm.trans hv) nofun⟩
  · intro hv
    exact surely_pure ⟨fun h => absurd h hv, absent⟩
variable {info : ArchInstructionInfo}

theorem randomizeInstructionDisplacementBoundaries_fits {E : Fault → Prop}
    (insn : Instruction info) (pos : 0 < insn.encoded.size)
    (absent : insn.directBranch.valid = false → insn.directBranch.instructionBoundary = none)
    {n : Nat} (hn : 0 < n) :
    Surely (randomizeInstructionDisplacementBoundaries rng insn n) (·.Fits n) E := by
  unfold randomizeInstructionDisplacementBoundaries
  apply surely_ite
  · intro _
    apply surely_bind (randomizeInstructionDisplacementBoundary_within rng _ absent hn)
    intro branch within
    exact surely_pure ⟨pos, within⟩
  · intro hv
    exact surely_pure ⟨pos, fun h => absurd h hv, absent⟩

/-- A generator whose state counts the draws. -/
def countingRng : MutatorRng Nat where
  next r := (BitVec.ofNat 64 r, r + 1)
  uniform n r := (r % (n + 1), r + 1)
  uniform_le n r := Nat.le_of_lt_succ (Nat.mod_lt r (Nat.succ_pos n))
  comesUp n r i hi := by
    have counted : ∀ turns r, (fun r => r + 1)^[turns] r = r + turns := by
      intro turns
      induction turns with
      | zero => simp
      | succ turns ih =>
        intro r
        rw [Function.iterate_succ_apply, ih]
        omega
    refine ⟨i + n * r, ?_⟩
    have whole : r + (i + n * r) = i + (n + 1) * r := by
      rw [Nat.add_mul]
      omega
    simp only [counted, whole, Nat.add_mul_mod_self_left]
    exact Nat.mod_eq_of_lt (by omega)

end Silifuzz
