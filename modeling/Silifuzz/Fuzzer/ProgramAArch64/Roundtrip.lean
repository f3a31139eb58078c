import Silifuzz.Fuzzer.ProgramAArch64.Fixup

/-!
# Round trips of AArch64 programs

Parsing, fixing up and writing give bytes that parse again, strictly, to a program
in which every branch already goes to its boundary: the second fixup has nothing
to do, and the second writing gives the same bytes.
-/

namespace Silifuzz

open LittleEndian Triples Fuel

namespace AArch64

variable {disassemble : Bytes → Bool} {config : InstructionConfig}

/-! ## What the parser gives -/

/-- An instruction as the parser makes it. -/
structure Parsed (disassemble : Bytes → Bool) (config : InstructionConfig)
    (insn : Instruction kInstructionInfo) : Prop where
  accepted : Accepted disassemble config insn
  branch : insn.directBranch = getDirectBranchInfo (insnWord insn) config.displacementFixupLimit

theorem FromBytes.parsed (hd : Disassembles disassemble) {bytes : Bytes}
    {insn : Instruction kInstructionInfo}
    (h : FromBytes disassemble bytes config false true insn) :
    Parsed disassemble config insn ∧ 4 ≤ bytes.length := by
  obtain ⟨long, valid, -, filter⟩ := h.accepted.mp rfl
  have encoded := h.encoded
  rw [if_neg (by omega)] at encoded
  refine ⟨⟨⟨?_, fun required => ?_, fun required => ?_⟩, h.branch rfl⟩, long⟩
  · rw [InstructionData.size, encoded, List.length_take_of_le long]
  · rw [encoded, ← hd.word bytes long]
    exact valid required
  · rw [encoded]
    exact filter required

theorem getDirectBranchInfo_encoded {word : BitVec 32} {limit : Nat} {d : Int}
    (h : (getDirectBranchInfo word limit).encodedByteDisplacement = some d) :
    ∃ info, branchInstructionInfo word = some info ∧
      (extractBranchDisplacement word info.displacement.lsb info.displacement.width).toInt = d := by
  unfold getDirectBranchInfo at h
  cases hi : branchInstructionInfo word with
  | none =>
    rw [hi] at h
    cases h
  | some info =>
    rw [hi] at h
    dsimp only at h
    split at h
    · exact ⟨info, rfl, Option.some.inj h⟩
    · cases h

/-- Resolving makes a parsed instruction one that the fixup can start from. -/
theorem Parsed.resolved {p : Program kInstructionInfo} {insn resolved : Instruction kInstructionInfo}
    (h : Parsed disassemble config insn) (rel : p.Resolved insn resolved) :
    Sound disassemble config p.numInstructionBoundaries resolved ∧ Encoded resolved := by
  obtain ⟨b, rfl⟩ := rel.same
  have displacement : insn.directBranch.encodedByteDisplacement =
      (getDirectBranchInfo (insnWord insn) config.displacementFixupLimit).encodedByteDisplacement :=
    congrArg (·.encodedByteDisplacement) h.branch
  refine ⟨⟨⟨h.accepted.size, h.accepted.valid, h.accepted.filter⟩, rel.branch, fun valid => ?_,
    fun invalid => ?_⟩, fun d hd info hi => ?_⟩
  · obtain ⟨d, hd⟩ := Option.isSome_iff_exists.mp valid
    obtain ⟨info, hi, -⟩ := getDirectBranchInfo_encoded (displacement.symm.trans hd)
    exact ⟨info, hi⟩
  · exact (congrArg Option.isSome displacement).symm.trans invalid
  · obtain ⟨info', hi', extracted⟩ := getDirectBranchInfo_encoded (displacement.symm.trans hd)
    cases hi'.symm.trans hi
    exact extracted

theorem instructionFromBytes_parsed (hd : Disassembles disassemble) {bytes : Bytes}
    {fresh insn : Instruction kInstructionInfo}
    (run : instructionFromBytes disassemble bytes fresh config false = .ok (true, insn)) :
    Parsed disassemble config insn ∧ 4 ≤ bytes.length :=
  FromBytes.parsed hd (yields_value (instructionFromBytes_yields disassemble bytes fresh config false) run)

/-- What parsing gives can be fixed up, and has a word for each four bytes at most. -/
theorem parse_sound (hd : Disassembles disassemble) (config : InstructionConfig) (bytes : Bytes) :
    ∃ p, Program.parse (aarch64 disassemble) bytes config = .ok p ∧
      (∀ insn ∈ p.instructions, Sound disassemble config p.numInstructionBoundaries insn) ∧
      (∀ insn ∈ p.instructions, Encoded insn) ∧ 4 * p.numInstructions ≤ bytes.length := by
  have loop := Program.parseLoop_yields (aarch64_lawful disassemble) bytes config false
    (fun offset insns => 4 * insns.length ≤ offset ∧
      4 * insns.length ≤ bytes.length ∧ ∀ insn ∈ insns, Parsed disassemble config insn)
    (by simp)
    (by
      rintro offset insns insn more ⟨before, _, parsed⟩ run fresh
      obtain ⟨new, long⟩ := instructionFromBytes_parsed hd run
      have size := new.accepted.size
      rw [List.length_drop] at long
      rw [size, List.length_append, List.length_singleton]
      refine ⟨by omega, by omega, fun x hx => ?_⟩
      rcases List.mem_append.mp hx with hx | hx
      · exact parsed x hx
      · rw [List.mem_singleton.mp hx]
        exact ⟨⟨size, new.accepted.valid, new.accepted.filter⟩, new.branch⟩)
    (fun offset insns n h => ⟨by omega, h.2⟩)
  obtain ⟨insns, run, _, _, words, parsed⟩ := yields_ok (yields_mono loop (fun _ => id)
    fun _ h => absurd h.1 nofun)
  have fresh := yields_value (Program.parseLoop_unresolved (aarch64_lawful disassemble) bytes config
    false) run
  obtain ⟨q, resolve, resolved, rfl, rel⟩ := yields_ok (yields_mono
    (Program.resolveDisplacements_spec (p := ⟨insns, 0, true⟩) false fresh) (fun _ => id)
    fun _ h => absurd h.1 nofun)
  have same : resolved.length = insns.length := rel.length_eq.symm
  have each : ∀ insn ∈ resolved, Sound disassemble config (resolved.length + 1) insn ∧
      Encoded insn := by
    intro insn mem
    obtain ⟨old, ho, rel⟩ := Loops.forall₂_mem rel mem
    rw [same]
    exact (parsed old ho).resolved rel
  refine ⟨Program.fixupInvariants ⟨resolved, 0, true⟩, Program.parse_run run resolve,
    fun insn mem => ?_, fun insn mem => ?_, ?_⟩
  · obtain ⟨old, ho, o, rfl⟩ := Program.mem_layout mem
    have h := (each old ho).1
    simp only [Program.numInstructionBoundaries, Program.fixupInvariants, Program.length_layout]
    exact ⟨⟨h.accepted.size, h.accepted.valid, h.accepted.filter⟩, h.branch, h.isBranch, h.noBranch⟩
  · obtain ⟨old, ho, o, rfl⟩ := Program.mem_layout mem
    exact (each old ho).2
  · simp only [Program.numInstructions, Program.fixupInvariants, Program.length_layout]
    omega

/-! ## Writing -/

theorem flatten_words {insns : List (Instruction kInstructionInfo)}
    (h : ∀ insn ∈ insns, insn.encoded.size = 4) :
    (insns.map (·.encoded.bytes)).flatten.length = 4 * insns.length := by
  induction insns with
  | nil => rfl
  | cons insn insns ih =>
    have size : insn.encoded.bytes.length = 4 := h insn (by simp)
    rw [List.map_cons, List.flatten_cons, List.length_append, size,
      ih fun x hx => h x (by simp [hx]), List.length_cons]
    omega

theorem toBytes_ok {p : Program kInstructionInfo} (laid : Laid p)
    (valid : p.encodingsMayBeInvalid = false) :
    p.toBytes = .ok (p.instructions.map (·.encoded.bytes)).flatten := by
  have packed : Yields p.toBytes
      (fun bytes => bytes = (p.instructions.map (·.encoded.bytes)).flatten) (fun _ => False) := by
    unfold Program.toBytes
    rw [check_ok_iff.mpr valid]
    apply yields_foldlM (fun (done : List (Instruction kInstructionInfo)) output =>
      output = (done.map (·.encoded.bytes)).flatten) rfl
    intro done insn rest output hl ho
    have size : ∀ x ∈ done, x.encoded.size = 4 := by
      intro x hx
      obtain ⟨j, hj⟩ := List.getElem?_of_mem (show x ∈ p.instructions by simp [hl, hx])
      exact (laid j x hj).1
    have offset := (laid done.length insn (by simp [hl])).2
    have here : insn.offset = output.length := by rw [ho, flatten_words size, offset]
    rw [check_ok_iff.mpr here]
    apply yields_pure
    simp [ho]
  obtain ⟨bytes, run, rfl⟩ := yields_ok packed
  exact run

/-! ## Parsing again -/

/-- What the parser makes of the words of a program, from `offset` on. -/
def reparsed (config : InstructionConfig) :
    Nat → List (Instruction kInstructionInfo) → List (Instruction kInstructionInfo)
  | _, [] => []
  | offset, insn :: rest =>
    ⟨insn.encoded, getDirectBranchInfo (insnWord insn) config.displacementFixupLimit, offset⟩ ::
      reparsed config (offset + 4) rest

theorem reparsed_getElem {offset i : Nat} {insns : List (Instruction kInstructionInfo)}
    {x : Instruction kInstructionInfo} (h : (reparsed config offset insns)[i]? = some x) :
    ∃ insn, insns[i]? = some insn ∧ x = ⟨insn.encoded,
      getDirectBranchInfo (insnWord insn) config.displacementFixupLimit, offset + 4 * i⟩ := by
  induction insns generalizing offset i with
  | nil => simp [reparsed] at h
  | cons insn rest ih =>
    cases i with
    | zero =>
      simp only [reparsed, List.getElem?_cons_zero, Option.some.injEq] at h
      exact ⟨insn, rfl, h.symm⟩
    | succ i =>
      simp only [reparsed, List.getElem?_cons_succ] at h
      obtain ⟨insn, hi, rfl⟩ := ih h
      refine ⟨insn, hi, ?_⟩
      rw [show offset + 4 + 4 * i = offset + 4 * (i + 1) by omega]

@[simp] theorem length_reparsed (offset : Nat) (insns : List (Instruction kInstructionInfo)) :
    (reparsed config offset insns).length = insns.length := by
  induction insns generalizing offset with
  | nil => rfl
  | cons insn rest ih => simp [reparsed, ih]

/-- An accepted word is decoded from any bytes that it begins. -/
theorem instructionFromBytes_word (hd : Disassembles disassemble)
    {insn : Instruction kInstructionInfo} (h : Accepted disassemble config insn)
    (fresh : Instruction kInstructionInfo) (rest : Bytes) :
    ∃ x, instructionFromBytes disassemble (insn.encoded.bytes ++ rest) fresh config false =
        .ok (true, x) ∧ x.encoded = insn.encoded ∧
      x.directBranch = getDirectBranchInfo (insnWord insn) config.displacementFixupLimit := by
  have size : insn.encoded.bytes.length = 4 := h.size
  have first : (insn.encoded.bytes ++ rest).take 4 = insn.encoded.bytes := by
    rw [← size, List.take_left]
  have long : 4 ≤ (insn.encoded.bytes ++ rest).length := by
    rw [List.length_append]
    omega
  obtain ⟨⟨decoded, x⟩, run, from_bytes⟩ := yields_ok
    (instructionFromBytes_yields disassemble (insn.encoded.bytes ++ rest) fresh config false)
  have accepted : decoded = true := by
    refine from_bytes.accepted.mpr ⟨long, fun required => ?_, nofun, fun required => ?_⟩
    · rw [hd.word _ long, first]
      exact h.valid required
    · rw [first]
      exact h.filter required
  subst accepted
  have encoded := from_bytes.encoded
  rw [if_neg (by omega), first] at encoded
  have same : x.encoded = insn.encoded := InstructionData.ext encoded
  refine ⟨x, run, same, ?_⟩
  rw [from_bytes.branch rfl]
  unfold insnWord
  rw [same]

/-- The words of a program parse to its instructions, without a gap. -/
theorem parseLoop_words (hd : Disassembles disassemble) (bytes : Bytes)
    (insns done : List (Instruction kInstructionInfo)) (offset fuel : Nat)
    (accepted : ∀ insn ∈ insns, Accepted disassemble config insn)
    (here : bytes.drop offset = (insns.map (·.encoded.bytes)).flatten)
    (enough : bytes.length ≤ offset + fuel) :
    Program.parseLoop (aarch64 disassemble) bytes config true fuel offset done =
      .ok (done ++ reparsed config offset insns) := by
  have left : bytes.length - offset = 4 * insns.length := by
    rw [← List.length_drop, here, flatten_words fun insn mem => (accepted insn mem).size]
  induction insns generalizing done offset fuel with
  | nil =>
    have all : ¬ offset < bytes.length := by
      rw [List.length_nil] at left
      omega
    cases fuel with
    | zero =>
      rw [Program.parseLoop, if_neg all]
      simp [reparsed, pure, Except.pure]
    | succ fuel =>
      rw [Program.parseLoop, if_neg all]
      simp [reparsed, pure, Except.pure]
  | cons insn rest ih =>
    rw [List.length_cons] at left
    have more : offset < bytes.length := by omega
    have first := accepted insn (by simp)
    obtain ⟨x, run, encoded, branch⟩ := instructionFromBytes_word hd first {}
      (rest.map (·.encoded.bytes)).flatten
    obtain ⟨fuel, rfl⟩ := Nat.exists_eq_succ_of_ne_zero (n := fuel) (by omega)
    have size : x.encoded.size = 4 := encoded ▸ first.size
    have there : bytes.drop (offset + 4) = (rest.map (·.encoded.bytes)).flatten := by
      rw [← List.drop_drop, here, List.map_cons, List.flatten_cons]
      exact List.drop_left' first.size
    have made : ({ x with offset := offset } : Instruction kInstructionInfo) = ⟨insn.encoded,
        getDirectBranchInfo (insnWord insn) config.displacementFixupLimit, offset⟩ := by
      rw [← encoded, ← branch]
    have next := ih (done ++ [{ x with offset := offset }]) (offset + 4) fuel
      (fun y hy => accepted y (by simp [hy])) there (by omega) (by omega)
    rw [Program.parseLoop, if_pos more, here, List.map_cons, List.flatten_cons]
    change ((instructionFromBytes _ _ _ _ _).bind _) = _
    rw [run]
    change Program.parseLoop _ _ _ _ _ (offset + x.encoded.size) _ = _
    rw [size, next, made, reparsed, List.append_assoc, List.singleton_append]

/-- A program that has been fixed up. -/
abbrev FixedUp (disassemble : Bytes → Bool) (config : InstructionConfig)
    (p : Program kInstructionInfo) : Prop :=
  Pass disassemble config p.numInstructionBoundaries p.numInstructions
    ⟨p, 4 * p.numInstructions, true, false⟩

/-- A displacement that the parser finds again goes to a boundary of the program. -/
theorem FixedUp.target {p : Program kInstructionInfo} (h : FixedUp disassemble config p) {i : Nat}
    {insn : Instruction kInstructionInfo} (hi : p.instructions[i]? = some insn) {d : Int}
    (hd : (getDirectBranchInfo (insnWord insn)
      config.displacementFixupLimit).encodedByteDisplacement = some d) :
    ∃ b < p.numInstructionBoundaries, d = (4 * b : Nat) - ((4 * i : Nat) : Int) := by
  have mem := List.mem_of_getElem? hi
  have sound := h.sound insn mem
  have inside : i < p.numInstructions := (List.getElem?_eq_some_iff.mp hi).1
  cases valid : insn.directBranch.valid with
  | false =>
    have none := sound.noBranch valid
    simp [InstructionDisplacementInfo.valid, hd] at none
  | true =>
    obtain ⟨d', hd'⟩ := Option.isSome_iff_exists.mp valid
    obtain ⟨b, hb, lt⟩ := sound.branch.target valid
    obtain ⟨info, hinfo, extracted⟩ := getDirectBranchInfo_encoded hd
    have same : d = d' := extracted.symm.trans (h.encoded insn mem d' hd' info hinfo)
    have target := h.targeted i inside insn hi d' hd' b hb
    rw [(h.laid i insn hi).2] at target
    exact ⟨b, lt, same.trans target⟩

theorem map_bytes_reparsed (offset : Nat) (insns : List (Instruction kInstructionInfo)) :
    (reparsed config offset insns).map (·.encoded.bytes) = insns.map (·.encoded.bytes) := by
  induction insns generalizing offset with
  | nil => rfl
  | cons insn rest ih => simp [reparsed, ih]

theorem layout_laid {insns : List (Instruction kInstructionInfo)} (start : Nat)
    (h : ∀ i insn, insns[i]? = some insn → insn.encoded.size = 4 ∧ insn.offset = start + 4 * i) :
    (Program.layout start insns).1 = insns := by
  induction insns generalizing start with
  | nil => rfl
  | cons insn rest ih =>
    obtain ⟨size, offset⟩ := h 0 insn rfl
    have tail := ih (start + 4) fun i x hi => by
      obtain ⟨size, offset⟩ := h (i + 1) x hi
      exact ⟨size, by omega⟩
    simp only [Program.layout, size, tail]
    rw [show start = insn.offset by omega]

theorem syncByteDisplacements_unchanged {p : Program kInstructionInfo} (laid : Laid p)
    (nonempty : 0 < p.numInstructions) {insn : Instruction kInstructionInfo}
    (within : insn.directBranch.Within p.numInstructionBoundaries) (targeted : Targeted insn) :
    p.syncByteDisplacements insn = .ok (false, insn) := by
  unfold Program.syncByteDisplacements
  cases hd : insn.directBranch.encodedByteDisplacement with
  | none => rfl
  | some d =>
    have valid : insn.directBranch.valid = true := by simp [InstructionDisplacementInfo.valid, hd]
    obtain ⟨b, hb, lt⟩ := within.target valid
    rw [hb]
    dsimp only
    rw [Program.instructionBoundaryToProgramByteOffset_ok
      (List.ne_nil_of_length_pos nonempty) lt, laid.boundaryOffset nonempty lt]
    simp only [bind, Except.bind, ← targeted d hd b hb, if_true]
    rfl

/-- What a strict parse makes of a program that has been fixed up. -/
theorem parse_fixedUp (hd : Disassembles disassemble) {p : Program kInstructionInfo}
    (h : FixedUp disassemble config p) :
    ∃ q, Program.parse (aarch64 disassemble) (p.instructions.map (·.encoded.bytes)).flatten config
        true = .ok q ∧ Laid q ∧
      q.instructions.map (·.encoded.bytes) = p.instructions.map (·.encoded.bytes) ∧
      ∀ insn ∈ q.instructions,
        insn.directBranch.Within q.numInstructionBoundaries ∧ Targeted insn := by
  let raw : Program kInstructionInfo := ⟨reparsed config 0 p.instructions, 0, true⟩
  have accepted := fun insn mem => (h.sound insn mem).accepted
  have run := parseLoop_words hd _ p.instructions [] 0 _ accepted rfl (Nat.le_add_left _ 0)
  have fresh := yields_value (Program.parseLoop_unresolved (aarch64_lawful disassemble) _ config
    true) run
  have count : raw.numInstructions = p.numInstructions := length_reparsed 0 p.instructions
  have boundaries : raw.numInstructionBoundaries = p.numInstructionBoundaries :=
    congrArg (· + 1) count
  have laid : Laid raw := by
    intro i x hx
    obtain ⟨insn, hi, rfl⟩ := reparsed_getElem hx
    exact ⟨(h.laid i insn hi).1, Nat.zero_add _⟩
  have target : ∀ x ∈ raw.instructions, ∀ d ∈ x.directBranch.encodedByteDisplacement,
      ∃ b < raw.numInstructionBoundaries, raw.boundaryOffset b = x.offset + d := by
    intro x mem d hd
    obtain ⟨i, hx⟩ := List.getElem?_of_mem mem
    have nonempty : 0 < raw.numInstructions := List.length_pos_of_mem mem
    obtain ⟨insn, hi, rfl⟩ := reparsed_getElem hx
    obtain ⟨b, lt, eq⟩ := h.target hi hd
    refine ⟨b, boundaries ▸ lt, ?_⟩
    rw [laid.boundaryOffset nonempty (boundaries ▸ lt), eq]
    dsimp only
    omega
  obtain ⟨q, resolve, resolved, rfl, rel⟩ := yields_ok (yields_mono
    (Program.resolveDisplacements_spec (p := raw) true fresh) (fun _ => id) (by
      rintro e ⟨-, -, x, mem, d, hd, misses⟩
      obtain ⟨b, lt, eq⟩ := target x mem d hd
      exact misses b lt eq))
  have same : resolved.length + 1 = raw.numInstructionBoundaries :=
    congrArg (· + 1) rel.length_eq.symm
  have laid' : ∀ i x, resolved[i]? = some x → x.encoded.size = 4 ∧ x.offset = 0 + 4 * i := by
    intro i x hx
    obtain ⟨y, hy, rel⟩ := Loops.forall₂_getElem? rel hx
    obtain ⟨b, rfl⟩ := rel.same
    rw [Nat.zero_add]
    exact laid i y hy
  have layout := layout_laid 0 laid'
  refine ⟨Program.fixupInvariants ⟨resolved, 0, true⟩, Program.parse_run run resolve, ?_, ?_, ?_⟩
  · intro i x hx
    simp only [Program.fixupInvariants, layout] at hx
    rw [← Nat.zero_add (4 * i)]
    exact laid' i x hx
  · simp only [Program.fixupInvariants, layout]
    rw [← map_bytes_reparsed 0 p.instructions]
    refine (Loops.forall₂_map_eq (fun rel => ?_) rel).symm
    obtain ⟨b, rfl⟩ := rel.same
    rfl
  · intro x hx
    simp only [Program.fixupInvariants, layout] at hx
    simp only [Program.numInstructionBoundaries, Program.fixupInvariants, layout, same]
    obtain ⟨y, hy, rel⟩ := Loops.forall₂_mem rel hx
    refine ⟨rel.branch, fun d hd b hb => ?_⟩
    obtain ⟨b', rfl⟩ := rel.same
    obtain ⟨c, lt, eq⟩ := target y hy d hd
    have nonempty : 0 < raw.numInstructions := List.length_pos_of_mem hy
    have there : raw.distance (y.offset + d) c = 0 := by simp [Program.distance, eq]
    have le := rel.closest d hd b hb c lt (by rw [there]; decide)
    obtain ⟨b'', hb'', lt'⟩ := rel.branch.target (by
      simp [InstructionDisplacementInfo.valid, show y.directBranch.encodedByteDisplacement = some d from hd])
    cases hb''.symm.trans hb
    rw [there, Program.distance, laid.boundaryOffset nonempty lt'] at le
    change d = _ - (y.offset : Int)
    omega

/-- A program that is laid out and goes to its boundaries is not modified. -/
theorem fixupEncodedDisplacements_laid {q : Program kInstructionInfo} (laid : Laid q)
    (synced : ∀ insn ∈ q.instructions,
      insn.directBranch.Within q.numInstructionBoundaries ∧ Targeted insn)
    {ρ : Type} (rng : MutatorRng ρ) (fuel : Nat) :
    Quietly (q.fixupEncodedDisplacements (aarch64 disassemble) rng fuel)
      ((false, { q.fixupInvariants with encodingsMayBeInvalid := false }) = ·) := by
  have layout : q.fixupInvariants.instructions = q.instructions := by
    apply layout_laid 0
    intro i insn hi
    rw [Nat.zero_add]
    exact laid i insn hi
  have laid' : Laid q.fixupInvariants := by
    intro i insn hi
    rw [layout] at hi
    exact laid i insn hi
  apply Program.fixupEncodedDisplacements_noop
  intro insn mem
  rw [layout] at mem
  obtain ⟨within, targeted⟩ := synced insn mem
  apply syncByteDisplacements_unchanged laid' _ _ targeted
  · rw [Program.numInstructions, layout]
    exact List.length_pos_of_mem mem
  · rw [Program.numInstructionBoundaries, layout]
    exact within

end AArch64

/-- The round trip of the fuzz test: what the first writing gives, whether the second
fixup modifies anything, and what the second writing gives. -/
def roundtrip {ρ : Type} (A : Arch) (rng : MutatorRng ρ) (config : InstructionConfig)
    (data : Bytes) (fuel : Nat) : Rand ρ (Bytes × Bool × Bytes) := do
  let program1 ← Program.parse A data config
  let (_, program1) ← program1.fixupEncodedDisplacements A rng fuel
  let first ← program1.toBytes
  let program2 ← Program.parse A first config true
  let (modified, program2) ← program2.fixupEncodedDisplacements A rng fuel
  let second ← program2.toBytes
  return (first, modified, second)

open AArch64

/-- **Every byte string makes a round trip**: what is parsed, fixed up and written parses
again without anything to fix, to the same bytes, which are no more than there were. -/
theorem roundtrip_settles {disassemble : Bytes → Bool} (hd : Disassembles disassemble)
    (config : InstructionConfig) {ρ : Type} (rng : MutatorRng ρ) (data : Bytes) :
    Settles (roundtrip (aarch64 disassemble) rng config data) (fun r =>
      r.2.1 = false ∧ r.2.2 = r.1 ∧ r.1.length ≤ data.length) := by
  obtain ⟨program1, parse1, sound, encoded, short⟩ := parse_sound hd config data
  unfold roundtrip
  apply settles_bind (settles_lift_ok ⟨program1, parse1, rfl⟩ (Q := (program1 = ·)))
  rintro _ rfl
  apply settles_bind (fixupEncodedDisplacements_settles hd sound encoded)
  rintro ⟨modified, fixed⟩ ⟨pass, valid⟩
  have count : fixed.numInstructions = program1.numInstructions := Nat.succ.inj pass.boundaries
  have fixedUp : FixedUp disassemble config fixed := by
    unfold FixedUp
    rw [count]
    exact pass.boundaries ▸ pass
  have first := toBytes_ok fixedUp.laid valid
  apply settles_bind (settles_lift_ok ⟨_, first, rfl⟩ (Q := (_ = ·)))
  rintro _ rfl
  obtain ⟨program2, parse2, laid, words, synced⟩ := parse_fixedUp hd fixedUp
  apply settles_bind (settles_lift_ok ⟨program2, parse2, rfl⟩ (Q := (program2 = ·)))
  rintro _ rfl
  have layout : program2.fixupInvariants.instructions = program2.instructions := by
    apply layout_laid 0
    intro i insn hi
    rw [Nat.zero_add]
    exact laid i insn hi
  apply settles_bind (settles_of_quietly fun fuel =>
    fixupEncodedDisplacements_laid laid synced rng fuel)
  rintro _ rfl
  have laid' : Laid { program2.fixupInvariants with encodingsMayBeInvalid := false } := by
    intro i insn hi
    rw [layout] at hi
    exact laid i insn hi
  have second := toBytes_ok laid' rfl
  rw [layout, words] at second
  apply settles_bind (settles_lift_ok ⟨_, second, rfl⟩ (Q := (_ = ·)))
  rintro _ rfl
  refine settles_pure ⟨rfl, rfl, ?_⟩
  dsimp only
  rw [flatten_words fun insn mem => (fixedUp.sound insn mem).accepted.size]
  exact (congrArg (4 * ·) count).trans_le short

/-- A branch to itself, one forwards out of the program, and three bytes more. -/
theorem roundtrip_settles_branches : Settles
    (roundtrip (aarch64 fun _ => true) countingRng {}
      [0, 0, 0, 0x14, 0xff, 0xff, 0xff, 0x15, 1, 2, 3])
    (fun r => r.2.1 = false ∧ r.2.2 = r.1 ∧ r.1.length ≤ 11) :=
  roundtrip_settles ⟨fun _ _ => rfl, fun _ _ _ _ _ => rfl⟩ {} countingRng _

end Silifuzz
