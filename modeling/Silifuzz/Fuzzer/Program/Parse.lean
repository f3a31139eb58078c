import Silifuzz.Fuzzer.Program.Consistent
import Silifuzz.Library.Loops

/-!
# Parsing

The constructor that disassembles accepts every byte string. Displacements of the
instructions it keeps are resolved to the closest boundary, which is one of the
program, so that the program is consistent.
-/

namespace Silifuzz

open LittleEndian Triples

/-- An instruction that has just been decoded from the beginning of `bytes`. -/
structure Instruction.Decoded {info : ArchInstructionInfo} (insn : Instruction info)
    (bytes : Bytes) : Prop where
  nonempty : 0 < insn.encoded.size
  consumed : insn.encoded.size ≤ bytes.length
  unresolved : insn.directBranch.instructionBoundary = none
  near : ∀ displacement ∈ insn.directBranch.encodedByteDisplacement,
    (displacement.natAbs : Int) < kInt64Max

/-- `InstructionFromBytes` runs to its end, and only accepts what it has decoded. A new
encoding has bytes and leaves the displacement as it is. -/
structure Arch.Lawful (A : Arch) : Prop where
  minSize_pos : 0 < A.info.minSize
  decodes : ∀ bytes insn config mustDecodeEverything,
    Yields (A.instructionFromBytes bytes insn config mustDecodeEverything)
      (fun r => r.1 = true → r.2.Decoded bytes) (fun _ => False)
  reencodes : ∀ insn, Yields (A.tryToReencodeInstructionDisplacements insn)
    (fun r => (0 < insn.encoded.size → 0 < r.2.encoded.size) ∧
      r.2.directBranch = insn.directBranch) (fun _ => True)

namespace Program

variable {info : ArchInstructionInfo}

/-- The offset of a boundary of a program that has instructions. -/
def boundaryOffset (p : Program info) (boundary : Nat) : Int :=
  match p.instructions[boundary]? with
  | some insn => insn.offset
  | none =>
    match p.instructions.getLast? with
    | some insn => insn.offset + insn.encoded.size
    | none => 0

theorem instructionBoundaryToProgramByteOffset_ok {p : Program info} (hp : p.instructions ≠ [])
    {boundary : Nat} (hb : boundary < p.numInstructionBoundaries) :
    p.instructionBoundaryToProgramByteOffset boundary = .ok (p.boundaryOffset boundary) := by
  unfold instructionBoundaryToProgramByteOffset boundaryOffset
  rw [check_ok_iff.mpr hb]
  cases p.instructions[boundary]? with
  | some insn => rfl
  | none =>
    rw [List.getLast?_eq_some_getLast hp]
    rfl

def distance (p : Program info) (programOffset : Int) (boundary : Nat) : Int :=
  (p.boundaryOffset boundary - programOffset).natAbs

/-- What the search has found after the boundaries `done`: a closest one and its
distance, or nothing. -/
structure Closest (p : Program info) (programOffset : Int) (done : List Nat)
    (closest : Option Nat × Int) : Prop where
  found : ∀ b, closest.1 = some b →
    b < p.numInstructionBoundaries ∧ closest.2 = p.distance programOffset b
  missing : closest.1 = none → closest.2 = kInt64Max
  least : ∀ j ∈ done, closest.2 ≤ p.distance programOffset j

theorem Closest.next {p : Program info} {programOffset : Int} {done : List Nat}
    {closest : Option Nat × Int} (h : p.Closest programOffset done closest) {i : Nat}
    (hi : i < p.numInstructionBoundaries) :
    p.Closest programOffset (done ++ [i])
      (if p.distance programOffset i < closest.2 then (some i, p.distance programOffset i)
        else closest) := by
  split
  · next closer =>
    refine ⟨fun b hb => ?_, nofun, fun j hj => ?_⟩
    · cases hb
      exact ⟨hi, rfl⟩
    · rcases List.mem_append.mp hj with hj | hj
      · have := h.least j hj
        dsimp only
        omega
      · rw [List.mem_singleton.mp hj]
  · next farther =>
    refine ⟨h.found, h.missing, fun j hj => ?_⟩
    rcases List.mem_append.mp hj with hj | hj
    · exact h.least j hj
    · rw [List.mem_singleton.mp hj]
      omega

theorem findClosestInstructionBoundary_spec {p : Program info} (hp : p.instructions ≠ [])
    (programOffset : Int) {i : Nat} (hi : i < p.numInstructionBoundaries)
    (near : p.distance programOffset i < kInt64Max) :
    ∃ b, p.findClosestInstructionBoundary programOffset = .ok (some b) ∧
      b < p.numInstructionBoundaries ∧
      p.distance programOffset b ≤ p.distance programOffset i := by
  have search : Yields ((List.range p.numInstructionBoundaries).foldlM
      (fun (closest : Option Nat × Int) i => do
        let boundaryOffset ← p.instructionBoundaryToProgramByteOffset i
        let diff : Int := (boundaryOffset - programOffset).natAbs
        return if diff < closest.2 then (some i, diff) else closest) (none, kInt64Max))
      (p.Closest programOffset (List.range p.numInstructionBoundaries)) (fun _ => False) := by
    apply yields_foldlM (p.Closest programOffset) ⟨by simp, fun _ => rfl, by simp⟩
    intro done i rest closest hl h
    have hi : i < p.numInstructionBoundaries := by
      have mem : i ∈ List.range p.numInstructionBoundaries := by simp [hl]
      exact List.mem_range.mp mem
    rw [instructionBoundaryToProgramByteOffset_ok hp hi]
    exact h.next hi
  obtain ⟨⟨found, diff⟩, run, closest⟩ := yields_ok search
  unfold findClosestInstructionBoundary
  rw [run]
  have le := closest.least i (List.mem_range.mpr hi)
  cases found with
  | none =>
    have := closest.missing rfl
    omega
  | some b =>
    obtain ⟨lt, eq⟩ := closest.found b rfl
    exact ⟨b, rfl, lt, eq ▸ le⟩

/-! ## Resolving -/

/-- What a freshly decoded instruction of a program is. -/
structure Unresolved (insn : Instruction info) : Prop where
  nonempty : 0 < insn.encoded.size
  unresolved : insn.directBranch.instructionBoundary = none
  near : ∀ displacement ∈ insn.directBranch.encodedByteDisplacement,
    (displacement.natAbs : Int) < kInt64Max

/-- An instruction and what `ResolveDisplacements` makes of it: only the boundary is
new, and none is closer. -/
structure Resolved (p : Program info) (insn resolved : Instruction info) : Prop where
  same : ∃ b, resolved =
    { insn with directBranch := { insn.directBranch with instructionBoundary := b } }
  branch : resolved.directBranch.Within p.numInstructionBoundaries
  closest : ∀ displacement ∈ insn.directBranch.encodedByteDisplacement,
    ∀ b ∈ resolved.directBranch.instructionBoundary, ∀ i < p.numInstructionBoundaries,
      p.distance (insn.offset + displacement) i < kInt64Max →
      p.distance (insn.offset + displacement) b ≤ p.distance (insn.offset + displacement) i

/-- No boundary is where the displacement of `insn` points. -/
def Misses (p : Program info) (insn : Instruction info) : Prop :=
  ∃ displacement ∈ insn.directBranch.encodedByteDisplacement,
    ∀ b < p.numInstructionBoundaries, p.boundaryOffset b ≠ insn.offset + displacement

theorem distance_own {p : Program info} {i : Nat} (hi : i < p.instructions.length)
    (displacement : Int) :
    p.distance (p.instructions[i].offset + displacement) i = displacement.natAbs := by
  simp only [distance, boundaryOffset, List.getElem?_eq_getElem hi]
  omega

theorem resolveDisplacements_spec {p : Program info} (strict : Bool)
    (h : ∀ insn ∈ p.instructions, Unresolved insn) :
    Yields (p.resolveDisplacements strict)
      (fun q => ∃ insns, q = { p with instructions := insns } ∧
        List.Forall₂ p.Resolved p.instructions insns)
      (fun e => strict = true ∧ e = .check ∧ ∃ insn ∈ p.instructions, p.Misses insn) := by
  unfold resolveDisplacements
  refine yields_bind (Q := List.Forall₂ p.Resolved p.instructions) (yields_mapM fun insn mem => ?_)
    fun insns hi => yields_pure ⟨insns, rfl, hi⟩
  have fresh := h insn mem
  cases hd : insn.directBranch.encodedByteDisplacement with
  | none =>
    have invalid : insn.directBranch.valid = false := by
      simp [InstructionDisplacementInfo.valid, hd]
    refine yields_pure ⟨⟨insn.directBranch.instructionBoundary, rfl⟩, ⟨?_, ?_⟩, ?_⟩
    · simp [invalid]
    · exact fun _ => fresh.unresolved
    · simp [hd]
  | some displacement =>
    rw [fresh.unresolved]
    obtain ⟨i, hi, rfl⟩ := List.mem_iff_getElem.mp mem
    have own := distance_own hi displacement
    have small := fresh.near displacement hd
    have search : ∀ j < p.numInstructionBoundaries,
        p.distance (p.instructions[i].offset + displacement) j < kInt64Max →
        ∃ b, p.findClosestInstructionBoundary (p.instructions[i].offset + displacement) =
            .ok (some b) ∧ b < p.numInstructionBoundaries ∧
          p.distance (p.instructions[i].offset + displacement) b ≤
            p.distance (p.instructions[i].offset + displacement) j :=
      fun j => findClosestInstructionBoundary_spec (List.ne_nil_of_mem mem) _
    obtain ⟨b, run, lt, -⟩ := search i (by simp only [numInstructionBoundaries]; omega)
      (by rw [own]; exact small)
    have resolved : p.Resolved p.instructions[i] { p.instructions[i] with directBranch :=
        { p.instructions[i].directBranch with instructionBoundary := some b } } := by
      refine ⟨⟨some b, rfl⟩, ⟨fun _ => ⟨b, rfl, lt⟩, ?_⟩, ?_⟩
      · simp [InstructionDisplacementInfo.valid, hd]
      · intro d hd' b' hb' j hj near
        cases hb'
        rw [hd] at hd'
        cases hd'
        obtain ⟨b', run', -, le⟩ := search j hj near
        rw [run] at run'
        cases run'
        exact le
    simp only [run]
    cases strict with
    | false => exact yields_pure resolved
    | true =>
      simp only [bind, Except.bind, if_true]
      rw [instructionBoundaryToProgramByteOffset_ok (List.ne_nil_of_mem mem) lt]
      by_cases hits : p.boundaryOffset b = p.instructions[i].offset + displacement
      · simp only [check_ok_iff.mpr hits]
        exact resolved
      · dsimp only
        rw [check_error_iff.mpr hits]
        refine ⟨trivial, rfl, _, mem, displacement, hd, fun j hj eq => hits ?_⟩
        have there : p.distance (p.instructions[i].offset + displacement) j = 0 := by
          simp [distance, eq]
        have le := resolved.closest displacement hd b rfl j hj (by rw [there]; decide)
        rw [there] at le
        unfold distance at le
        omega

theorem Resolved.fits {p : Program info} {insn resolved : Instruction info}
    (h : p.Resolved insn resolved) (pos : 0 < insn.encoded.size) :
    resolved.Fits p.numInstructionBoundaries where
  nonempty := by
    obtain ⟨b, rfl⟩ := h.same
    exact pos
  branch := h.branch

/-! ## The constructor -/

variable {A : Arch}

/-- Every turn of the loop consumes a byte at least. -/
theorem parseLoop_from (hA : A.Lawful) {bytes : Bytes} {config : InstructionConfig}
    {strict : Bool} (I : Nat → List (Instruction A.info) → Prop)
    (decoded : ∀ offset insns insn, offset < bytes.length → I offset insns →
      A.instructionFromBytes (bytes.drop offset) {} config false = .ok (true, insn) →
      insn.Decoded (bytes.drop offset) →
      I (offset + insn.encoded.size) (insns ++ [{ insn with offset := offset }]))
    (skipped : ∀ offset insns n, I offset insns → I (offset + n) insns)
    {fuel offset : Nat} {insns : List (Instruction A.info)}
    (enough : bytes.length ≤ offset + fuel) (start : I offset insns) :
    Yields (parseLoop A bytes config strict fuel offset insns) (fun insns => ∃ o, I o insns)
      (fun e => strict = true ∧ e = .check) := by
  induction fuel generalizing offset insns with
  | zero =>
    unfold parseLoop
    rw [if_neg (by omega)]
    exact yields_pure ⟨offset, start⟩
  | succ fuel ih =>
    unfold parseLoop
    split
    · next more =>
      obtain ⟨⟨success, insn⟩, run, hd⟩ := yields_ok (hA.decodes (bytes.drop offset) {} config false)
      rw [run]
      cases success with
      | true =>
        have fresh := hd rfl
        have pos : 0 < insn.encoded.size := fresh.nonempty
        exact ih (by omega) (decoded offset insns insn more start run fresh)
      | false =>
        cases strict with
        | true => exact ⟨rfl, rfl⟩
        | false =>
          have pos := hA.minSize_pos
          refine ih ?_ (skipped offset insns _ start)
          split <;> omega
    · exact yields_pure ⟨offset, start⟩

/-- The rule for the loop of the constructor, with what holds of the offset it is at and
the instructions it has. -/
theorem parseLoop_yields (hA : A.Lawful) (bytes : Bytes) (config : InstructionConfig)
    (strict : Bool) (I : Nat → List (Instruction A.info) → Prop) (start : I 0 [])
    (decoded : ∀ offset insns insn, offset < bytes.length → I offset insns →
      A.instructionFromBytes (bytes.drop offset) {} config false = .ok (true, insn) →
      insn.Decoded (bytes.drop offset) →
      I (offset + insn.encoded.size) (insns ++ [{ insn with offset := offset }]))
    (skipped : ∀ offset insns n, I offset insns → I (offset + n) insns) :
    Yields (parseLoop A bytes config strict bytes.length 0 []) (fun insns => ∃ o, I o insns)
      (fun e => strict = true ∧ e = .check) :=
  parseLoop_from hA I decoded skipped (by omega) start

theorem parseLoop_unresolved (hA : A.Lawful) (bytes : Bytes) (config : InstructionConfig)
    (strict : Bool) :
    Yields (parseLoop A bytes config strict bytes.length 0 [])
      (fun insns => ∀ insn ∈ insns, Unresolved insn) (fun e => strict = true ∧ e = .check) := by
  apply yields_post (parseLoop_yields hA bytes config strict
    (fun _ insns => ∀ insn ∈ insns, Unresolved insn) (by simp) ?_ ?_)
  · rintro insns ⟨_, h⟩
    exact h
  · intro offset insns insn _ h _ fresh x hx
    rcases List.mem_append.mp hx with hx | hx
    · exact h x hx
    · rw [List.mem_singleton.mp hx]
      exact ⟨fresh.nonempty, fresh.unresolved, fresh.near⟩
  · intro _ _ _ h
    exact h

/-- The constructor, when the loop and the resolving have run. -/
theorem parse_run {bytes : Bytes} {config : InstructionConfig} {strict : Bool}
    {insns : List (Instruction A.info)} {q : Program A.info}
    (loop : parseLoop A bytes config strict bytes.length 0 [] = .ok insns)
    (resolve : resolveDisplacements ⟨insns, 0, true⟩ strict = .ok q) :
    parse A bytes config strict = .ok q.fixupInvariants := by
  unfold parse
  rw [loop]
  change (resolveDisplacements _ _).bind _ = _
  rw [resolve]
  rfl

/-- What is parsed is consistent, and what a strict parse does not accept fails a check. -/
theorem parse_yields (hA : A.Lawful) (bytes : Bytes) (config : InstructionConfig)
    (strict : Bool) :
    Yields (parse A bytes config strict) Consistent (fun e => strict = true ∧ e = .check) := by
  unfold parse
  refine yields_bind (parseLoop_unresolved hA bytes config strict)
    fun insns fresh => ?_
  refine yields_bind (yields_mono (resolveDisplacements_spec strict fresh) (fun _ => id)
    fun e he => ⟨he.1, he.2.1⟩) ?_
  rintro _ ⟨resolved, rfl, rel⟩
  refine yields_pure (fixupInvariants_consistent (congrArg (· + 1) rel.length_eq.symm) ?_)
  intro insn mem
  obtain ⟨old, mem, rel⟩ := Loops.forall₂_mem rel mem
  exact rel.fits (fresh old mem).nonempty

/-- **Every byte string is accepted, and gives a consistent program.** -/
theorem parse_ok (hA : A.Lawful) (bytes : Bytes) (config : InstructionConfig) :
    ∃ p, parse A bytes config = .ok p ∧ p.Consistent :=
  yields_ok (yields_mono (parse_yields hA bytes config false) (fun _ => id)
    fun _ h => absurd h.1 nofun)

end Program

end Silifuzz
