import Silifuzz.Fuzzer.ProgramArch

/-!
# Finalizing a mutant

`FinalizeProgram` of `fuzzer/program_batch_mutator.cc` limits the length and fixes up the
displacements in turns. Only a fixup that modifies the program is followed by another
limit, and only a limit that deletes an instruction by another fixup.
-/

namespace Silifuzz

open LittleEndian Triples Fuel

variable {ρ : Type}

/-- Centipede expects no outputs of zero bytes. -/
def addInstructionIfZeroLength (A : Arch) (rng : MutatorRng ρ) :
    Nat → Program A.info → Rand ρ (Program A.info)
  | 0, _ => throw .outOfFuel
  | fuel + 1, program =>
    if program.byteLen = 0 then do
      let (_, program) ← program.insertGeneratedInstruction rng
      addInstructionIfZeroLength A rng fuel program
    else return program

/-- `while (true)` of `FinalizeProgram`. -/
def finalizeLoop (A : Arch) (rng : MutatorRng ρ) (maxLen : Nat) :
    Nat → Program A.info → Rand ρ (Program A.info)
  | 0, _ => throw .outOfFuel
  | fuel + 1, program => do
    let (modified, program) ← program.fixupEncodedDisplacements A rng fuel
    if !modified then return program
    let (modified, program) ← program.limitProgramLength rng maxLen
    if !modified then return program
    finalizeLoop A rng maxLen fuel program

def finalizeProgram (A : Arch) (rng : MutatorRng ρ) (maxLen fuel : Nat)
    (program : Program A.info) : Rand ρ (Program A.info) := do
  let program ← addInstructionIfZeroLength A rng fuel program
  let (_, program) ← program.limitProgramLength rng maxLen
  finalizeLoop A rng maxLen fuel program

/-- The buffer that is filled after `n` others from `r` on is an instruction. -/
def DecodesIn (A : Arch) (rng : MutatorRng ρ) : Nat → ρ → Prop
  | 0, r => ∃ bytes r', randomizeBuffer rng A.info.bufferSize r = .ok (bytes, r') ∧
      ∀ insn, ∃ insn', A.instructionFromBytes bytes insn {} false = .ok (true, insn')
  | n + 1, r => ∃ bytes r', randomizeBuffer rng A.info.bufferSize r = .ok (bytes, r') ∧
      DecodesIn A rng n r'

/-- A random buffer is an instruction sooner or later. -/
def MutatorRng.Decodes (rng : MutatorRng ρ) (A : Arch) : Prop := ∀ r, ∃ n, DecodesIn A rng n r

variable {A : Arch} {E : Reencoding A} {rng : MutatorRng ρ} {maxLen : Nat}

/-! ## Adding an instruction -/

/-- The tries that fail bring the buffer nearer that is an instruction. -/
theorem generateLoop_run (hA : A.Lawful) (tries : Nat) (insn : Instruction A.info) {n : Nat}
    {r : ρ} (decodes : DecodesIn A rng n r) :
    ∃ success insn' r', generateLoop A rng tries insn r = .ok ((success, insn'), r') ∧
      (success = false → tries ≤ n ∧ DecodesIn A rng (n - tries) r') := by
  induction tries generalizing insn n r with
  | zero => exact ⟨false, insn, r, rfl, fun _ => ⟨Nat.zero_le n, decodes⟩⟩
  | succ tries ih =>
    unfold generateLoop
    cases n with
    | zero =>
      obtain ⟨bytes, r', filled, accepted⟩ := decodes
      obtain ⟨insn', run⟩ := accepted insn
      refine ⟨true, insn', r', ?_, Bool.noConfusion⟩
      rw [bind_run filled, lift_bind_run run]
      rfl
    | succ n =>
      obtain ⟨bytes, r', filled, later⟩ := decodes
      obtain ⟨⟨decoded, insn'⟩, run, -⟩ := yields_ok (hA.decodes bytes insn {} false)
      rw [bind_run filled, lift_bind_run run]
      cases decoded with
      | true => exact ⟨true, insn', r', rfl, Bool.noConfusion⟩
      | false =>
        obtain ⟨success, insn'', r'', rest, failed⟩ := ih insn' later
        refine ⟨success, insn'', r'', rest, fun no => ?_⟩
        obtain ⟨le, decodes⟩ := failed no
        rw [Nat.add_sub_add_right]
        exact ⟨Nat.succ_le_succ le, decodes⟩

namespace Program

variable {p : Program A.info}

theorem insertInstructionBlock_count {info : ArchInstructionInfo} (p : Program info)
    (boundary : Nat) (steal : Bool) (insns : List (Instruction info)) :
    Yields (p.insertInstructionBlock boundary steal insns)
      (fun q => insns.length ≤ q.numInstructions) (fun _ => True) := by
  unfold insertInstructionBlock
  apply yields_bind (check_yields _ fun _ => trivial)
  intro _ _
  apply yields_bind (Q := fun _ => True)
  · cases p.adjustInstructionIndexes _ _ <;> trivial
  intro q _
  apply yields_pure
  simp only [numInstructions, Program.fixupInvariants, length_layout, List.length_append]
  omega

theorem insertGeneratedInstruction_inserts {insn : Instruction A.info} {r r₁ r' : ρ}
    {result : Bool × Program A.info}
    (generated : generateSingleInstruction A rng r = .ok ((true, insn), r₁))
    (run : p.insertGeneratedInstruction rng r = .ok (result, r')) :
    result.1 = true ∧ 0 < result.2.numInstructions := by
  unfold insertGeneratedInstruction at run
  rw [bind_run generated] at run
  let Q (result : Bool × Program A.info) := result.1 = true ∧ 0 < result.2.numInstructions
  refine surely_value (Q := Q) (E := fun _ => True) ?_ run
  apply surely_bind (surely_any _)
  intro insn _
  apply surely_bind (surely_any _)
  intro boundary _
  apply surely_bind (surely_any _)
  intro steal _
  apply surely_bind (surely_lift (insertInstructionBlock_count p _ _ [insn]))
  intro q some
  exact surely_pure ⟨rfl, some⟩

theorem byteLen_pos (h : p.Consistent) (some : 0 < p.numInstructions) : 0 < p.byteLen := by
  rw [h.byteLen]
  cases insns : p.instructions with
  | nil => simp [numInstructions, insns] at some
  | cons insn rest =>
    have pos := (h.insns insn (by simp [insns])).nonempty
    rw [totalSize_cons]
    omega

variable (hA : A.Lawful) (marks : A.Marks E.Has)
include hA marks

/-- An instruction is added, or the rest of the random numbers is nearer to one. -/
theorem insertGeneratedInstruction_run (h : p.Encodable E) {n : Nat} {r : ρ}
    (decodes : DecodesIn A rng n r) :
    ∃ success q r', p.insertGeneratedInstruction rng r = .ok ((success, q), r') ∧
      q.Encodable E ∧ (success = true → 0 < q.byteLen) ∧
      (success = false → q = p ∧ ∃ m < n, DecodesIn A rng m r') := by
  obtain ⟨success, insn, r₁, generated, failed⟩ := generateLoop_run hA 64 {} decodes
  cases success with
  | false =>
    refine ⟨false, p, r₁, ?_, h, nofun, fun _ => ⟨rfl, ?_⟩⟩
    · unfold insertGeneratedInstruction generateSingleInstruction
      rw [bind_run generated]
      rfl
    · obtain ⟨le, decodes⟩ := failed rfl
      exact ⟨n - 64, by omega, decodes⟩
  | true =>
    obtain ⟨⟨success, q⟩, r', run, consistent, has⟩ := surely_ok
      (surely_and (insertGeneratedInstruction_kept rng hA h.toConsistent)
        (insertGeneratedInstruction_each marks rng h.has)) r
    have ⟨inserted, nonempty⟩ := insertGeneratedInstruction_inserts generated run
    refine ⟨success, q, r', run, ⟨consistent, has⟩, fun _ => byteLen_pos consistent nonempty, ?_⟩
    intro failed
    exact absurd (inserted.symm.trans failed) nofun

omit hA marks in
theorem addInstructionIfZeroLength_done (h : p.Encodable E) (long : p.byteLen ≠ 0) (r : ρ) :
    SettlesAt (fun fuel => addInstructionIfZeroLength A rng fuel p) r (Encodable E) := by
  have last : ∀ fuel, addInstructionIfZeroLength A rng (fuel + 1) p r = .ok (p, r) := by
    intro fuel
    rw [addInstructionIfZeroLength, if_neg long]
    rfl
  exact settlesAt_done last h

theorem addInstructionIfZeroLength_ends (h : p.Encodable E) {n : Nat} {r : ρ}
    (decodes : DecodesIn A rng n r) :
    SettlesAt (fun fuel => addInstructionIfZeroLength A rng fuel p) r (Encodable E) := by
  induction n using Nat.strong_induction_on generalizing r with
  | h n ih =>
    by_cases empty : p.byteLen = 0
    · obtain ⟨success, q, r', run, hq, long, failed⟩ :=
        insertGeneratedInstruction_run hA marks h decodes
      have turn : ∀ fuel, addInstructionIfZeroLength A rng (fuel + 1) p r =
          addInstructionIfZeroLength A rng fuel q r' := by
        intro fuel
        rw [addInstructionIfZeroLength, if_pos empty, bind_run run]
      apply settlesAt_turn turn
      cases success with
      | true => exact addInstructionIfZeroLength_done hq (Nat.ne_of_gt (long rfl)) r'
      | false =>
        obtain ⟨rfl, m, less, nearer⟩ := failed rfl
        exact ih m less nearer
    · exact addInstructionIfZeroLength_done h empty r

omit hA in
/-- What the limit leaves, and that it has deleted instructions if it has modified the
program. -/
theorem limitProgramLength_run (h : p.Encodable E) (maxLen : Nat) :
    Surely (p.limitProgramLength rng maxLen) (fun r => r.2.Encodable E ∧ r.2.byteLen ≤ maxLen ∧
      (r.1 = false → r.2 = p) ∧ (r.1 = true → r.2.numInstructions < p.numInstructions)) := by
  unfold limitProgramLength
  apply surely_post (surely_and
    (limitLoop_limited rng maxLen h.toConsistent (Nat.le_refl _) false)
    (limitLoop_each marks rng maxLen _ h.has false))
  rintro ⟨modified, q⟩ ⟨limited, has⟩
  refine ⟨⟨limited.kept, has⟩, limited.short, ?_⟩
  rcases limited.fewer with same | ⟨yes, fewer⟩
  · cases same
    exact ⟨fun _ => rfl, nofun⟩
  · refine ⟨fun no => ?_, fun _ => fewer⟩
    exact absurd (no.symm.trans yes) nofun

omit hA in
/-- **Limits and fixups come to an end**: every limit that is not the last one deletes an
instruction. -/
theorem finalizeLoop_ends (h : p.Encodable E) (short : p.byteLen ≤ maxLen) :
    Settles (fun fuel => finalizeLoop A rng maxLen fuel p)
      (fun q => Synced E q ∧ q.byteLen ≤ maxLen) := by
  induction count : p.numInstructions using Nat.strong_induction_on generalizing p with
  | h n ih =>
    apply settles_succ
    unfold finalizeLoop
    apply settles_bind (fixupEncodedDisplacements_ends h.toConsistent h.has)
    rintro ⟨modified, q⟩ ⟨synced, same, kept⟩
    cases modified with
    | false => exact settles_pure ⟨synced, (kept rfl).trans_le short⟩
    | true =>
      apply settles_bind (settles_of_surely
        (limitProgramLength_run marks ⟨synced.toConsistent, synced.has⟩ maxLen))
      rintro ⟨modified, q'⟩ ⟨encodable, short, unmodified, fewer⟩
      cases modified with
      | false =>
        obtain rfl := unmodified rfl
        exact settles_pure ⟨synced, short⟩
      | true =>
        have less : q'.numInstructions < n := by
          rw [← count, ← same]
          exact fewer rfl
        exact ih _ less encodable short rfl

omit hA marks in
theorem toBytes_packed {q : Program A.info} (packed : q.Packed)
    (valid : q.encodingsMayBeInvalid = false) :
    ∃ bytes, q.toBytes = .ok bytes ∧ bytes.length = totalSize q.instructions := by
  unfold toBytes
  rw [check_ok_iff.mpr valid]
  apply yields_ok
  apply yields_foldlM (fun (done : List (Instruction A.info)) (output : Bytes) =>
    output.length = totalSize done) rfl
  intro done insn rest output hl size
  have here : insn.offset = output.length := by
    rw [packed done.length insn (by simp [hl]), hl, List.take_left, size]
  rw [check_ok_iff.mpr here]
  apply yields_pure
  rw [List.length_append, size, totalSize_append, totalSize_cons, totalSize_nil, Nat.add_zero]
  rfl

end Program

/-- `FinalizeProgram` ends, with a program in sync that is short enough, and that
`ToBytes` writes. -/
def Finalizes (E : Reencoding A) (rng : MutatorRng ρ) (maxLen : Nat) (p : Program A.info) : Prop :=
  Settles (fun fuel => finalizeProgram A rng maxLen fuel p) fun q =>
    Program.Synced E q ∧ q.byteLen ≤ maxLen ∧
      ∃ bytes, q.toBytes = .ok bytes ∧ bytes.length = q.byteLen

theorem finalizes_encodable (hA : A.Lawful) (marks : A.Marks E.Has) {p : Program A.info}
    (h : p.Encodable E) (decodes : p.byteLen = 0 → rng.Decodes A) :
    Finalizes E rng maxLen p := by
  unfold Finalizes finalizeProgram
  apply settles_bind (Q := Program.Encodable E)
  · intro r
    by_cases empty : p.byteLen = 0
    · obtain ⟨n, decodes⟩ := decodes empty r
      exact Program.addInstructionIfZeroLength_ends hA marks h decodes
    · exact Program.addInstructionIfZeroLength_done h empty r
  intro p h
  apply settles_bind (settles_of_surely (Program.limitProgramLength_run marks h maxLen))
  rintro ⟨_, p⟩ ⟨h, short, -⟩
  apply settles_post (Program.finalizeLoop_ends marks h short)
  rintro q ⟨synced, short⟩
  obtain ⟨bytes, run, size⟩ := Program.toBytes_packed synced.packed synced.valid
  exact ⟨synced, short, bytes, run, size.trans synced.byteLen.symm⟩

/-- **A mutant is finalized to a program in sync within the maximum length**, for both
architectures, whatever the length. An empty program needs a random buffer that is an
instruction. Programs as the code makes them have branches that can be encoded again. -/
theorem finalizeProgram_synced {ρ : Type} (rng : MutatorRng ρ) :
    (∀ disassemble : Bytes → Bool,
      (∀ (maxLen : Nat) (p : Program AArch64.kInstructionInfo),
        p.Encodable (AArch64.reencoding disassemble) →
        (p.byteLen = 0 → rng.Decodes (aarch64 disassemble)) →
        Finalizes (AArch64.reencoding disassemble) rng maxLen p) ∧
      ∀ p : Program AArch64.kInstructionInfo, Program.Built (A := aarch64 disassemble) rng p →
        p.Encodable (AArch64.reencoding disassemble)) ∧
    ∀ (xed : Xed) (_ : xed.Lawful) (hx : xed.Reencodes),
      (∀ (maxLen : Nat) (p : Program X8664.kInstructionInfo), p.Encodable (X8664.reencoding hx) →
        (p.byteLen = 0 → rng.Decodes (x8664 xed)) →
        Finalizes (X8664.reencoding hx) rng maxLen p) ∧
      ∀ p : Program X8664.kInstructionInfo, Program.Built (A := x8664 xed) rng p →
        p.Encodable (X8664.reencoding hx) := by
  constructor
  · intro disassemble
    have hA := aarch64_lawful disassemble
    have marks := AArch64.reencoding_marks disassemble
    constructor
    · intro maxLen p h decodes
      exact finalizes_encodable hA marks h decodes
    · intro p built
      exact Program.built_encodable hA marks built
  · intro xed lawful hx
    have hA := x8664_lawful lawful
    have marks := X8664.reencoding_marks hx lawful
    constructor
    · intro maxLen p h decodes
      exact finalizes_encodable hA marks h decodes
    · intro p built
      exact Program.built_encodable hA marks built

/-- All buffers begin with a branch of AArch64 and with a short jump of x86-64. -/
def branchingRng : MutatorRng Nat :=
  { countingRng with next := fun r => (0x140000eb, r + 1) }

theorem branchingRng_aarch64 : branchingRng.Decodes (aarch64 fun _ => true) := by
  intro r
  refine ⟨0, [0xeb, 0, 0, 0x14], r + 1, rfl, fun insn => ?_⟩
  obtain ⟨⟨decoded, insn'⟩, run, h⟩ := yields_ok
    (AArch64.instructionFromBytes_yields (fun _ => true) [0xeb, 0, 0, 0x14] insn {} false)
  have accepted : decoded = true :=
    h.accepted.mpr ⟨by decide, fun _ => rfl, nofun, fun _ => by decide +kernel⟩
  subst accepted
  exact ⟨insn', run⟩

theorem branchingRng_x8664 : branchingRng.Decodes (x8664 shortJumps) := by
  intro r
  refine ⟨0, [0xeb, 0, 0, 0x14, 0, 0, 0, 0, 0xeb, 0, 0, 0x14, 0, 0, 0, 0], r + 2, rfl, fun insn => ?_⟩
  refine ⟨{ insn with
    encoded := ⟨[0xeb, 0], by decide⟩
    directBranch := { encodedByteDisplacement := some 2 } }, ?_⟩
  rfl

/-- Three branches to themselves. -/
def threeBranches : Bytes := [0, 0, 0, 0x14, 0, 0, 0, 0x14, 0, 0, 0, 0x14]

def threeJumps : Bytes := [0xeb, 0xfe, 0xeb, 0xfe, 0xeb, 0xfe]

theorem parsed_of_any {info} {x : Except Fault (Program info)} {size : Nat}
    (h : x.toOption.any (fun p => p.byteLen == size) = true) :
    ∃ p, x = .ok p ∧ p.byteLen = size := by
  cases x with
  | ok p => exact ⟨p, rfl, beq_iff_eq.mp h⟩
  | error e => cases h

theorem finalizeProgram_synced_branches :
    Finalizes (AArch64.reencoding fun _ => true) branchingRng 64 {} ∧
      Finalizes (X8664.reencoding shortJumps_reencodes) branchingRng 64 {} ∧
      (∃ p, Program.parse (aarch64 fun _ => true) threeBranches = .ok p ∧ p.byteLen = 12 ∧
        Finalizes (AArch64.reencoding fun _ => true) branchingRng 8 p) ∧
      ∃ p, Program.parse (x8664 shortJumps) threeJumps = .ok p ∧ p.byteLen = 6 ∧
        Finalizes (X8664.reencoding shortJumps_reencodes) branchingRng 5 p := by
  obtain ⟨arm, intel⟩ := finalizeProgram_synced branchingRng
  obtain ⟨finalizes, encodable⟩ := arm fun _ => true
  obtain ⟨finalizes', encodable'⟩ := intel shortJumps shortJumps_lawful shortJumps_reencodes
  refine ⟨?_, ?_, ?_, ?_⟩
  · exact finalizes 64 {} (encodable {} .empty) fun _ => branchingRng_aarch64
  · exact finalizes' 64 {} (encodable' {} .empty) fun _ => branchingRng_x8664
  · obtain ⟨p, parsed, size⟩ : ∃ p, Program.parse (aarch64 fun _ => true) threeBranches = .ok p ∧
        p.byteLen = 12 := parsed_of_any (by decide +kernel)
    exact ⟨p, parsed, size, finalizes 8 p (encodable p (.parsed parsed)) fun _ =>
      branchingRng_aarch64⟩
  · obtain ⟨p, parsed, size⟩ : ∃ p, Program.parse (x8664 shortJumps) threeJumps = .ok p ∧
        p.byteLen = 6 := parsed_of_any (by decide +kernel)
    exact ⟨p, parsed, size, finalizes' 5 p (encodable' p (.parsed parsed)) fun _ =>
      branchingRng_x8664⟩

end Silifuzz
