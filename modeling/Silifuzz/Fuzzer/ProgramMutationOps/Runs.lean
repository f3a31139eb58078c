import Silifuzz.Fuzzer.Program.Fixup
import Silifuzz.Fuzzer.ProgramAArch64
import Silifuzz.Fuzzer.ProgramMutationOps.Consistent

/-!
# Runs of mutations

A fuzzer mutates a program again and again, each time with some other program or
with the program itself as the donor.
-/

namespace Silifuzz.Program

open LittleEndian Triples

variable {A : Arch} {ρ : Type}

/-- Mutations one after another; where there is no donor the program is its own. -/
def mutateAll (rng : MutatorRng ρ) :
    List (Mutation × Option (Program A.info)) → Program A.info → Rand ρ (Program A.info)
  | [], program => return program
  | (m, donor) :: rest, program => do
    let (_, program) ← program.mutate rng (donor.getD program) m
    mutateAll rng rest program

/-- Programs as the code makes them. -/
inductive Built (rng : MutatorRng ρ) : Program A.info → Prop where
  | empty : Built rng {}
  | parsed {bytes config strict p} : parse A bytes config strict = .ok p → Built rng p
  | mutated {p other m r done q r'} : Built rng p → Built rng other →
      p.mutate rng other m r = .ok ((done, q), r') → Built rng q
  | fixedUp {p fuel r modified q r'} : Built rng p →
      p.fixupEncodedDisplacements A rng fuel r = .ok ((modified, q), r') → Built rng q

theorem built_consistent (hA : A.Lawful) {rng : MutatorRng ρ} {p : Program A.info}
    (h : Built rng p) : p.Consistent := by
  induction h with
  | empty => exact consistent_empty
  | parsed run =>
    have yields := parse_yields hA ‹_› ‹_› ‹_›
    rw [run] at yields
    exact yields
  | mutated _ _ run hp ho => exact surely_value (mutate_kept _ hA hp ho _) run
  | fixedUp _ run hp => exact surely_value (fixupEncodedDisplacements_consistent hA hp _ _) run

/-- **No check fails in any sequence of mutations, and programs stay consistent**: of
any programs that the code makes, with any donors and whatever is drawn. -/
theorem mutateAll_consistent (hA : A.Lawful) (rng : MutatorRng ρ) {p : Program A.info}
    (hp : Built rng p) (ms : List (Mutation × Option (Program A.info)))
    (donors : ∀ m ∈ ms, ∀ donor ∈ m.2, Built rng donor) (r : ρ) :
    ∃ q r', mutateAll rng ms p r = .ok (q, r') ∧ q.Consistent ∧
      q.checkConsistency = .ok () := by
  induction ms generalizing p r with
  | nil =>
    have consistent := built_consistent hA hp
    exact ⟨p, r, rfl, consistent, checkConsistency_ok consistent⟩
  | cons m ms ih =>
    obtain ⟨m, donor⟩ := m
    have other : Built rng (donor.getD p) := by
      cases donor with
      | none => exact hp
      | some donor => exact donors (m, some donor) (by simp) donor rfl
    obtain ⟨⟨done, q⟩, r', run, -⟩ := surely_ok
      (mutate_kept rng hA (built_consistent hA hp) (built_consistent hA other) m) r
    obtain ⟨q', r'', rest, consistent, checked⟩ := ih (Built.mutated hp other run)
      (fun m hm => donors m (by simp [hm])) r'
    refine ⟨q', r'', ?_, consistent, checked⟩
    unfold mutateAll
    rw [← rest]
    change ((p.mutate rng (donor.getD p) m r).bind fun a => mutateAll rng ms a.1.2 a.2) = _
    rw [run]
    rfl

theorem mutateAll_consistent_branches : ∃ p,
    parse (aarch64 fun _ => true) [0, 0, 0, 0x14, 0xff, 0xff, 0xff, 0x17] = .ok p ∧
    ∃ q r', mutateAll countingRng
      [(.swap, none), (.crossoverInsert, none), (.crossoverOverwrite, some {}),
        (.insertGenerated, none), (.mutate, none), (.delete 2, none),
        (.limitProgramLength 4, none)] p 7 = .ok (q, r') ∧
      q.Consistent ∧ q.checkConsistency = .ok () := by
  obtain ⟨p, run, -⟩ := parse_ok (aarch64_lawful fun _ => true)
    [0, 0, 0, 0x14, 0xff, 0xff, 0xff, 0x17] {}
  refine ⟨p, run, ?_⟩
  apply mutateAll_consistent (aarch64_lawful _) countingRng (Built.parsed run)
  intro m hm donor hd
  simp only [List.mem_cons, List.not_mem_nil, or_false] at hm
  rcases hm with rfl | rfl | rfl | rfl | rfl | rfl | rfl <;> cases hd
  exact Built.empty

end Silifuzz.Program
