import Silifuzz.Fuzzer.Program.Fixup
import Silifuzz.Library.Fuel

/-!
# How the fixup ends

A pass over the instructions is the last one when it changes no size. An encoding that
has been encoded again keeps its size from then on, so that each pass but the last one
takes away from the encodings that have not, and the passes that the `CHECK` allows are
enough. The draws inside of a pass end with the branch itself, if not before.
-/

namespace Silifuzz

open Triples Fuel

/-- What the fixup relies on. `Branch` is an encoding of a direct branch, `Shows` tells the
displacement that it has, and a `Canonical` encoding is encoded again in the same size. -/
structure Reencoding (A : Arch) where
  Branch : InstructionData A.info → Prop
  Canonical : InstructionData A.info → Prop
  Shows : InstructionData A.info → Int → Prop
  run : ∀ (insn : Instruction A.info) (d : Int),
    insn.directBranch.encodedByteDisplacement = some d → Branch insn.encoded →
    ∃ success e, A.tryToReencodeInstructionDisplacements insn =
        .ok (success, { insn with encoded := e }) ∧
      0 < e.size ∧ Branch e ∧ Canonical e ∧ (success = true → Shows e d) ∧
      (d = 0 → success = true) ∧ (Canonical insn.encoded → e.size = insn.encoded.size)

namespace Reencoding

variable {A : Arch} (E : Reencoding A)

/-- A displacement is that of a direct branch, and in its encoding. -/
structure Has (insn : Instruction A.info) : Prop where
  branch : insn.directBranch.valid = true → E.Branch insn.encoded
  shows : ∀ d ∈ insn.directBranch.encodedByteDisplacement, E.Shows insn.encoded d

/-- What a pass does to the encoding of an instruction. -/
structure Turned (x y : Instruction A.info) : Prop where
  canonical : E.Canonical x.encoded → E.Canonical y.encoded
  size : y.encoded.size = x.encoded.size ∨ ¬ E.Canonical x.encoded ∧ E.Canonical y.encoded

open Classical in
/-- The number of instructions whose size may change. -/
noncomputable def rough (insns : List (Instruction A.info)) : Nat :=
  insns.countP fun insn => ¬ E.Canonical insn.encoded

variable {E}

theorem Turned.same {x y : Instruction A.info} (same : y.encoded = x.encoded) : E.Turned x y :=
  ⟨fun h => same ▸ h, .inl (by rw [same])⟩

open Classical in
theorem rough_cons (insn : Instruction A.info) (insns : List (Instruction A.info)) :
    E.rough (insn :: insns) =
      E.rough insns + if E.Canonical insn.encoded then 0 else 1 := by
  unfold rough
  rw [List.countP_cons]
  by_cases canonical : E.Canonical insn.encoded
  · simp [canonical]
  · simp [canonical]

/-- A pass that changes a size leaves fewer instructions whose size may change. -/
theorem rough_turned {P L : List (Instruction A.info)} (h : List.Forall₂ E.Turned P L) :
    E.rough L < E.rough P ∨
      (E.rough L ≤ E.rough P ∧
        ∀ k, Program.totalSize (L.take k) = Program.totalSize (P.take k)) := by
  induction h with
  | nil => exact .inr ⟨le_rfl, fun _ => by simp⟩
  | @cons x y P L turned _ ih =>
    rw [rough_cons, rough_cons]
    have fewer : E.rough L ≤ E.rough P := ih.elim le_of_lt And.left
    have kept : E.Canonical x.encoded → E.Canonical y.encoded := turned.canonical
    rcases turned.size with same | ⟨before, after⟩
    · rcases ih with less | ⟨-, sums⟩
      · left
        split_ifs <;> first | omega | exact absurd (kept ‹_›) ‹_›
      · right
        constructor
        · split_ifs <;> first | omega | exact absurd (kept ‹_›) ‹_›
        · intro k
          cases k with
          | zero => simp
          | succ k => rw [List.take_succ_cons, List.take_succ_cons, Program.totalSize_cons,
              Program.totalSize_cons, same, sums k]
    · left
      rw [if_pos after, if_neg before]
      omega

theorem rough_le (insns : List (Instruction A.info)) : E.rough insns ≤ insns.length :=
  List.countP_le_length

end Reencoding

namespace Program

variable {A : Arch} {E : Reencoding A} {ρ : Type} {rng : MutatorRng ρ}

section
variable {info : ArchInstructionInfo} {p : Program info} {i : Nat}

/-- What `SyncByteDisplacements` does to an instruction with a boundary of the program. -/
theorem syncByteDisplacements_run (nonempty : p.instructions ≠ []) (insn : Instruction info)
    (within : insn.directBranch.Within p.numInstructionBoundaries) :
    ∃ changed d, p.syncByteDisplacements insn = .ok (changed, { insn with
        directBranch := { insn.directBranch with encodedByteDisplacement := d } }) ∧
      d.isSome = insn.directBranch.valid ∧ (changed = true → insn.directBranch.valid = true) ∧
      (changed = false → d = insn.directBranch.encodedByteDisplacement) ∧
      ∀ d' ∈ d, ∀ b ∈ insn.directBranch.instructionBoundary,
        d' = p.boundaryOffset b - insn.offset := by
  unfold syncByteDisplacements
  cases hd : insn.directBranch.encodedByteDisplacement with
  | none =>
    refine ⟨false, insn.directBranch.encodedByteDisplacement, rfl, rfl, Bool.noConfusion, fun _ => hd, ?_⟩
    simp [hd]
  | some d =>
    have valid : insn.directBranch.valid = true := by simp [InstructionDisplacementInfo.valid, hd]
    obtain ⟨b, hb, lt⟩ := within.target valid
    rw [hb]
    dsimp only
    rw [instructionBoundaryToProgramByteOffset_ok nonempty lt]
    by_cases same : p.boundaryOffset b - insn.offset = d
    · refine ⟨false, insn.directBranch.encodedByteDisplacement, ?_, rfl, Bool.noConfusion, fun _ => hd, ?_⟩
      · simp only [bind, Except.bind, same, if_true]
        rfl
      · rw [hd]
        rintro _ ⟨⟩ _ ⟨⟩
        exact same.symm
    · refine ⟨true, some (p.boundaryOffset b - insn.offset), ?_, ?_, fun _ => valid, Bool.noConfusion, ?_⟩
      · simp only [bind, Except.bind, same, if_false]
        rw [hb]
        rfl
      · simp [valid]
      · rintro _ ⟨⟩ _ ⟨⟩
        rfl

theorem boundaryOffset_own (hi : i < p.numInstructions) (x : Instruction info) :
    (p.put i x).boundaryOffset i = x.offset := by
  unfold boundaryOffset put
  rw [List.getElem?_set_self hi]

/-- Only offsets and sizes matter. -/
theorem boundaryOffset_congr {p q : Program info}
    (same : p.instructions.map (fun insn => (insn.offset, insn.encoded.size)) =
      q.instructions.map fun insn => (insn.offset, insn.encoded.size)) (b : Nat) :
    p.boundaryOffset b = q.boundaryOffset b := by
  have placed : ∀ p : Program info, p.boundaryOffset b =
      match (p.instructions.map fun insn => (insn.offset, insn.encoded.size))[b]?,
        (p.instructions.map fun insn => (insn.offset, insn.encoded.size)).getLast? with
      | some here, _ => (here.1 : Int)
      | none, some last => last.1 + last.2
      | none, none => 0 := by
    intro p
    rw [List.getElem?_map, List.getLast?_map]
    unfold boundaryOffset
    cases p.instructions[b]? with
    | some insn => rfl
    | none => cases p.instructions.getLast? <;> rfl
  rw [placed p, placed q, same]

theorem boundaryOffset_put {x y : Instruction info} (offset : x.offset = y.offset)
    (size : x.encoded.size = y.encoded.size) (b : Nat) :
    (p.put i x).boundaryOffset b = (p.put i y).boundaryOffset b := by
  apply boundaryOffset_congr
  simp only [put, List.map_set, offset, size]

/-- The offset of each boundary, where each instruction is where the one before it ends. -/
theorem boundaryOffset_of {T : Nat → Nat} (nonempty : p.instructions ≠ [])
    (placed : ∀ k insn, p.instructions[k]? = some insn →
      insn.offset = T k ∧ insn.offset + insn.encoded.size = T (k + 1)) {b : Nat}
    (hb : b < p.numInstructionBoundaries) : p.boundaryOffset b = T b := by
  unfold boundaryOffset
  cases at_b : p.instructions[b]? with
  | some insn =>
    dsimp only
    rw [(placed b insn at_b).1]
  | none =>
    have past := List.getElem?_eq_none_iff.mp at_b
    have pos := List.length_pos_iff.mpr nonempty
    have last : b = p.instructions.length - 1 + 1 := by
      simp only [numInstructionBoundaries] at hb
      omega
    rw [List.getLast?_eq_some_getLast nonempty]
    have ends := (placed (p.instructions.length - 1) (p.instructions.getLast nonempty) (by
      rw [List.getLast_eq_getElem nonempty, List.getElem?_eq_getElem])).2
    dsimp only
    rw [last, ← ends, Nat.cast_add]

end

/-! ## Encoding a branch -/

/-- A branch at `i` of `q` whose displacement is to be encoded. -/
structure Ready (E : Reencoding A) (q : Program A.info) (i : Nat) (insn : Instruction A.info) :
    Prop where
  fits : insn.Fits q.numInstructionBoundaries
  valid : insn.directBranch.valid = true
  branch : E.Branch insn.encoded
  aimed : ∀ d ∈ insn.directBranch.encodedByteDisplacement,
    ∀ b ∈ insn.directBranch.instructionBoundary, d = (q.put i insn).boundaryOffset b - insn.offset

/-- The branch in a new encoding. If it has another size it may miss its boundary. -/
structure Done (E : Reencoding A) (q : Program A.info) (i : Nat) (insn x : Instruction A.info) :
    Prop where
  fits : x.Fits q.numInstructionBoundaries
  has : E.Has x
  offset : x.offset = insn.offset
  canonical : E.Canonical x.encoded
  size : E.Canonical insn.encoded → x.encoded.size = insn.encoded.size
  aimed : x.encoded.size = insn.encoded.size → ∀ d ∈ x.directBranch.encodedByteDisplacement,
    ∀ b ∈ x.directBranch.instructionBoundary, d = (q.put i x).boundaryOffset b - x.offset

variable {q : Program A.info} {i : Nat} {insn : Instruction A.info}

/-- One turn: either the displacement fits, or a boundary has been drawn. -/
theorem reencodeLoop_step (hi : i < q.numInstructions) (ready : Ready E q i insn) (r : ρ) :
    ∃ success x z, (∀ fuel, reencodeLoop A rng i (fuel + 1) (q.put i insn) r =
        if success then .ok (q.put i x, r)
        else reencodeLoop A rng i fuel (q.put i z) (rng.uniform q.numInstructions r).2) ∧
      (success = true → Done E q i insn x) ∧
      Ready E q i z ∧ E.Canonical z.encoded ∧ z.offset = insn.offset ∧
      (E.Canonical insn.encoded → z.encoded.size = insn.encoded.size) ∧
      z.directBranch.instructionBoundary = some (rng.uniform q.numInstructions r).1 ∧
      (insn.directBranch.instructionBoundary = some i → success = true) := by
  obtain ⟨d, hd⟩ := Option.isSome_iff_exists.mp ready.valid
  obtain ⟨success, e, run, pos, branch, canonical, shows, zero, size⟩ := E.run insn d hd ready.branch
  let drawn := (rng.uniform q.numInstructions r).1
  have lt : drawn < q.numInstructionBoundaries :=
    Nat.lt_succ_of_le (rng.uniform_le q.numInstructions r)
  let y : Instruction A.info := { insn with
    encoded := e
    directBranch := { insn.directBranch with instructionBoundary := some drawn } }
  have nonempty : (q.put i y).instructions ≠ [] := by
    apply List.ne_nil_of_length_pos
    rw [put, List.length_set]
    exact Nat.zero_lt_of_lt hi
  have within : y.directBranch.Within (q.put i y).numInstructionBoundaries := by
    rw [numInstructionBoundaries_put]
    exact ⟨fun _ => ⟨drawn, rfl, lt⟩, fun none => absurd (none.symm.trans ready.valid) Bool.false_ne_true⟩
  obtain ⟨changed, d', sync, hs, -, -, aimed⟩ := syncByteDisplacements_run nonempty y within
  have still : d'.isSome = true := hs.trans ready.valid
  refine ⟨success, { insn with encoded := e }, { y with
    directBranch := { y.directBranch with encodedByteDisplacement := d' } },
    fun fuel => reencodeLoop_succ hi run ready.valid sync fuel, ?_, ?_, canonical, rfl, size, rfl, ?_⟩
  · intro h
    refine ⟨⟨pos, ready.fits.branch⟩, ⟨fun _ => branch, ?_⟩, rfl, canonical, size, ?_⟩
    · intro d₁ hd₁
      have same : d = d₁ := Option.some.inj (hd.symm.trans hd₁)
      exact same ▸ shows h
    · intro same d₁ hd₁ b hb
      have kept : (q.put i { insn with encoded := e }).boundaryOffset b =
          (q.put i insn).boundaryOffset b := by
        apply boundaryOffset_put
        · rfl
        · exact same
      rw [kept]
      exact ready.aimed d₁ hd₁ b hb
  · refine ⟨⟨pos, fun _ => ⟨drawn, rfl, lt⟩, fun none => absurd (none.symm.trans still) Bool.false_ne_true⟩,
      still, branch, ?_⟩
    intro d₁ hd₁ b hb
    rw [aimed d₁ hd₁ b hb]
    congr 1
    apply boundaryOffset_put
    · rfl
    · rfl
  · intro own
    have here := ready.aimed d hd i own
    rw [boundaryOffset_own hi, Int.sub_self] at here
    exact zero here

theorem Done.after {x z : Instruction A.info} (h : Done E q i z x) (canonical : E.Canonical z.encoded)
    (offset : z.offset = insn.offset)
    (size : E.Canonical insn.encoded → z.encoded.size = insn.encoded.size) :
    Done E q i insn x where
  fits := h.fits
  has := h.has
  offset := h.offset.trans offset
  canonical := h.canonical
  size before := (h.size canonical).trans (size before)
  aimed _ := h.aimed (h.size canonical)

/-- **Sooner or later the displacement fits**: a draw of the branch itself is enough. -/
theorem reencodeLoop_ends (hi : i < q.numInstructions) (ready : Ready E q i insn) :
    Settles (fun fuel => reencodeLoop A rng i fuel (q.put i insn))
      (fun q' => ∃ x, q' = q.put i x ∧ Done E q i insn x) := by
  intro r
  obtain ⟨turns, own⟩ := rng.comesUp q.numInstructions r i (Nat.le_of_lt hi)
  induction turns generalizing insn r with
  | zero =>
    obtain ⟨success, x, z, turn, done, ready', canonical, offset, size, boundary, -⟩ :=
      reencodeLoop_step hi ready r
    cases success with
    | true => exact settlesAt_done turn ⟨x, rfl, done rfl⟩
    | false =>
      apply settlesAt_turn turn
      obtain ⟨success, x', _, turn', done', -, -, -, -, -, fits⟩ :=
        reencodeLoop_step hi ready' (rng.uniform q.numInstructions r).2
      have success := fits (boundary.trans (congrArg some own))
      subst success
      exact settlesAt_done turn' ⟨x', rfl, (done' rfl).after canonical offset size⟩
  | succ turns ih =>
    obtain ⟨success, x, z, turn, done, ready', canonical, offset, size, -⟩ :=
      reencodeLoop_step hi ready r
    cases success with
    | true => exact settlesAt_done turn ⟨x, rfl, done rfl⟩
    | false =>
      apply settlesAt_turn turn
      apply settlesAt_mono (ih ready' _ own)
      rintro q' ⟨x, rfl, h⟩
      exact ⟨x, rfl, h.after canonical offset size⟩

/-! ## The pass over the instructions -/

/-- Each instruction starts where the one before it ends. -/
def Packed (p : Program A.info) : Prop :=
  ∀ k insn, p.instructions[k]? = some insn → insn.offset = totalSize (p.instructions.take k)

/-- The sizes before `k` add up to what they did in `P`. -/
def Level (P L : List (Instruction A.info)) (k : Nat) : Prop :=
  totalSize (L.take k) = totalSize (P.take k)

/-- The state after the instructions before `i`, of a pass over `P`. Before the pass the
program was `modified` or not. -/
structure Passed (E : Reencoding A) (P : List (Instruction A.info)) (modified : Bool) (i : Nat)
    (s : FixupState A.info) : Prop where
  length : s.program.instructions.length = P.length
  byteLen : s.program.byteLen = totalSize P
  rest : ∀ k ≥ i, s.program.instructions[k]? = P[k]?
  fits : ∀ insn ∈ s.program.instructions, insn.Fits (P.length + 1)
  has : ∀ insn ∈ s.program.instructions, E.Has insn
  turned : List.Forall₂ E.Turned P s.program.instructions
  offsets : ∀ k < i, ∀ insn, s.program.instructions[k]? = some insn →
    insn.offset = totalSize (s.program.instructions.take k)
  offset : s.offset = totalSize (s.program.instructions.take i)
  stable : s.stable = true ↔ ∀ k < i, Level P s.program.instructions k
  quiet : s.modified = false → modified = false ∧ totalSize s.program.instructions = totalSize P
  aimed : (∀ k ≤ i, Level P s.program.instructions k) →
    ∀ k < i, ∀ insn, s.program.instructions[k]? = some insn →
      ∀ d ∈ insn.directBranch.encodedByteDisplacement,
        ∀ b ∈ insn.directBranch.instructionBoundary,
          d = (totalSize (P.take b) : Int) - totalSize (P.take k)

/-- What the turn for `insn` at `i` makes of it. -/
structure Turn (E : Reencoding A) (q : Program A.info) (i : Nat) (insn x : Instruction A.info) :
    Prop where
  fits : x.Fits q.numInstructionBoundaries
  has : E.Has x
  turned : E.Turned insn x
  aimed : x.encoded.size = insn.encoded.size → ∀ d ∈ x.directBranch.encodedByteDisplacement,
    ∀ b ∈ x.directBranch.instructionBoundary, d = (q.put i x).boundaryOffset b - x.offset

theorem forall₂_set {R : Instruction A.info → Instruction A.info → Prop}
    {P L : List (Instruction A.info)} (h : List.Forall₂ R P L) {i : Nat}
    {x y : Instruction A.info} (hx : P[i]? = some x) (rel : R x y) :
    List.Forall₂ R P (L.set i y) := by
  induction h generalizing i with
  | nil => simp at hx
  | cons first rest ih =>
    cases i with
    | zero =>
      obtain rfl := Option.some.inj hx
      exact .cons rel rest
    | succ i => exact .cons first (ih hx)

theorem take_succ_set {l : List (Instruction A.info)} {i : Nat} (hi : i < l.length)
    (x : Instruction A.info) : (l.set i x).take (i + 1) = l.take i ++ [x] := by
  rw [List.take_succ_eq_append_getElem (by simpa using hi), List.take_set_of_le (Nat.le_refl i),
    List.getElem_set_self]

theorem totalSize_take_succ {l : List (Instruction A.info)} {k : Nat} {insn : Instruction A.info}
    (h : l[k]? = some insn) :
    totalSize (l.take (k + 1)) = totalSize (l.take k) + insn.encoded.size := by
  obtain ⟨inside, rfl⟩ := List.getElem?_eq_some_iff.mp h
  rw [List.take_succ_eq_append_getElem inside, totalSize_append, totalSize_cons, totalSize_nil,
    Nat.add_zero]

theorem totalSize_set {l : List (Instruction A.info)} {i : Nat} (at_i : l[i]? = some insn)
    {x : Instruction A.info} (same : x.encoded = insn.encoded) :
    totalSize (l.set i x) = totalSize l := by
  obtain ⟨inside, rfl⟩ := List.getElem?_eq_some_iff.mp at_i
  have kept : (l.set i x).map (·.encoded.size) = l.map (·.encoded.size) := by
    rw [List.map_set, same, ← List.getElem_map (fun y : Instruction A.info => y.encoded.size)
      (h := by simpa using inside), List.set_getElem_self]
  rw [totalSize, totalSize, kept]

/-- Where nothing has changed its size, boundaries are where they were in `P`. -/
theorem boundaryOffset_level {P : List (Instruction A.info)} {q : Program A.info}
    (packed : ∀ k insn, P[k]? = some insn → insn.offset = totalSize (P.take k))
    (rest : ∀ k ≥ i, q.instructions[k]? = P[k]?)
    (offsets : ∀ k < i, ∀ insn, q.instructions[k]? = some insn →
      insn.offset = totalSize (q.instructions.take k))
    (level : ∀ k ≤ i, Level P q.instructions k) (nonempty : q.instructions ≠ []) {b : Nat}
    (hb : b < q.numInstructionBoundaries) : q.boundaryOffset b = totalSize (P.take b) := by
  apply boundaryOffset_of (T := fun k => totalSize (P.take k)) nonempty _ hb
  intro k y hy
  by_cases done : k < i
  · have here : totalSize (q.instructions.take k) = totalSize (P.take k) := level k done.le
    have next : totalSize (q.instructions.take (k + 1)) = totalSize (P.take (k + 1)) :=
      level (k + 1) done
    rw [totalSize_take_succ hy] at next
    constructor
    · rw [offsets k done y hy, here]
    · rw [offsets k done y hy, next]
  · have old : P[k]? = some y := by rw [← rest k (not_lt.mp done), hy]
    constructor
    · exact packed k y old
    · rw [packed k y old, ← totalSize_take_succ old]

/-- The instruction at `i` is done. -/
theorem Passed.next {P : List (Instruction A.info)} {before : Bool} {s : FixupState A.info}
    (h : Passed E P before i s)
    (packed : ∀ k insn, P[k]? = some insn → insn.offset = totalSize (P.take k))
    (at_i : P[i]? = some insn) {x : Instruction A.info} (offset : x.offset = s.offset)
    (turn : Turn E s.program i insn x) {modified : Bool}
    (quiet : modified = false → s.modified = false ∧ x.encoded = insn.encoded) :
    Passed E P before (i + 1) ⟨s.program.put i x, s.offset + x.encoded.size,
      s.stable && insn.offset == s.offset, modified⟩ := by
  obtain ⟨inside, -⟩ := List.getElem?_eq_some_iff.mp at_i
  have inL : i < s.program.instructions.length := h.length ▸ inside
  have early : ∀ k ≤ i, (s.program.instructions.set i x).take k =
      s.program.instructions.take k := fun k hk => List.take_set_of_le hk
  have grown := take_succ_set inL x
  have boundaries : s.program.numInstructionBoundaries = P.length + 1 := by
    rw [numInstructionBoundaries, h.length]
  have here : insn.offset = totalSize (P.take i) := packed i insn at_i
  have first : s.program.instructions[i]? = some insn := by rw [h.rest i le_rfl, at_i]
  have kept : ∀ k ≤ i, Level P (s.program.instructions.set i x) k ↔
      Level P s.program.instructions k := by
    intro k hk
    rw [Level, Level, early k hk]
  have placed : ∀ k < i + 1, ∀ y, (s.program.instructions.set i x)[k]? = some y →
      y.offset = totalSize ((s.program.instructions.set i x).take k) := by
    intro k hk y hy
    rw [early k (Nat.le_of_lt_succ hk)]
    rw [List.getElem?_set] at hy
    split at hy
    · next same =>
      subst same
      obtain rfl := Option.some.inj hy
      rw [offset, h.offset]
    · exact h.offsets k (by omega) y hy
  have after : ∀ k ≥ i + 1, (s.program.instructions.set i x)[k]? = P[k]? := by
    intro k hk
    rw [List.getElem?_set_ne (by omega)]
    exact h.rest k (by omega)
  exact {
    length := by simpa [put] using h.length
    byteLen := h.byteLen
    rest := after
    fits := by
      intro y hy
      rcases List.mem_or_eq_of_mem_set hy with hy | rfl
      · exact h.fits y hy
      · exact boundaries ▸ turn.fits
    has := by
      intro y hy
      rcases List.mem_or_eq_of_mem_set hy with hy | rfl
      · exact h.has y hy
      · exact turn.has
    turned := forall₂_set h.turned at_i turn.turned
    offsets := placed
    offset := by
      change s.offset + x.encoded.size = totalSize ((s.program.instructions.set i x).take (i + 1))
      rw [grown, totalSize_append, totalSize_cons, totalSize_nil, Nat.add_zero, h.offset]
    stable := by
      rw [Bool.and_eq_true, beq_iff_eq, h.stable, here, h.offset]
      constructor
      · rintro ⟨done, last⟩ k hk
        apply (kept k (Nat.le_of_lt_succ hk)).mpr
        rcases Nat.lt_succ_iff_lt_or_eq.mp hk with hk | rfl
        · exact done k hk
        · exact last.symm
      · intro all
        have last : Level P s.program.instructions i := (kept i le_rfl).mp (all i (Nat.lt_succ_self i))
        exact ⟨fun k hk => (kept k hk.le).mp (all k (Nat.lt_succ_of_lt hk)), last.symm⟩
    quiet := by
      intro unmodified
      obtain ⟨old, same⟩ := quiet unmodified
      obtain ⟨start, size⟩ := h.quiet old
      exact ⟨start, (totalSize_set first same).trans size⟩
    aimed := by
      intro level k hk y hy d hd b hb
      have old : ∀ k ≤ i, Level P s.program.instructions k :=
        fun k hk => (kept k hk).mp (level k (Nat.le_succ_of_le hk))
      have here' : ∀ k < i, ∀ y, (s.program.instructions.set i x)[k]? = some y →
          s.program.instructions[k]? = some y := by
        intro k hk y hy
        rwa [List.getElem?_set_ne (by omega)] at hy
      rcases Nat.lt_succ_iff_lt_or_eq.mp hk with hk | rfl
      · exact h.aimed old k hk y (here' k hk y hy) d hd b hb
      · rw [put, List.getElem?_set_self inL] at hy
        obtain rfl := Option.some.inj hy
        have ends : totalSize ((s.program.instructions.set k x).take (k + 1)) =
            totalSize (P.take (k + 1)) := level (k + 1) le_rfl
        have starts : totalSize (s.program.instructions.take k) = totalSize (P.take k) :=
          old k le_rfl
        have size : x.encoded.size = insn.encoded.size := by
          rw [grown, totalSize_append, totalSize_cons, totalSize_nil, Nat.add_zero, starts,
            totalSize_take_succ at_i] at ends
          omega
        have target := turn.aimed size d hd b hb
        have lt : b < (s.program.put k x).numInstructionBoundaries := by
          rw [numInstructionBoundaries_put]
          have valid : x.directBranch.valid = true := Option.isSome_of_mem hd
          obtain ⟨b', hb', lt⟩ := turn.fits.branch.target valid
          rw [hb'] at hb
          exact (Option.some.inj hb) ▸ lt
        have there : (s.program.put k x).boundaryOffset b = totalSize (P.take b) :=
          boundaryOffset_level packed after placed level
            (List.ne_nil_of_length_pos (by simpa [put] using Nat.zero_lt_of_lt inL)) lt
        rw [target, there, offset, h.offset, starts] }

theorem fixupInstruction_ends {P : List (Instruction A.info)} {before : Bool}
    {s : FixupState A.info} (h : Passed E P before i s)
    (packed : ∀ k insn, P[k]? = some insn → insn.offset = totalSize (P.take k))
    (at_i : P[i]? = some insn) :
    Settles (fun fuel => fixupInstruction A rng fuel s i) (Passed E P before (i + 1)) := by
  obtain ⟨inside, -⟩ := List.getElem?_eq_some_iff.mp at_i
  have hi : i < s.program.numInstructions := by
    rw [numInstructions, h.length]
    exact inside
  have first : s.program.instructions[i]? = some insn := by rw [h.rest i le_rfl, at_i]
  have mem : insn ∈ s.program.instructions := List.mem_of_getElem? first
  have boundaries : s.program.numInstructionBoundaries = P.length + 1 := by
    rw [numInstructionBoundaries, h.length]
  have get : s.program.getInstruction i = .ok insn := by
    unfold getInstruction
    rw [first]
  let placed : Instruction A.info := { insn with offset := s.offset }
  have nonempty : (s.program.put i placed).instructions ≠ [] := by
    apply List.ne_nil_of_length_pos
    rw [put, List.length_set]
    exact Nat.zero_lt_of_lt hi
  have fits := h.fits insn mem
  have within : placed.directBranch.Within (s.program.put i placed).numInstructionBoundaries := by
    rw [numInstructionBoundaries_put, boundaries]
    exact fits.branch
  obtain ⟨changed, d, sync, hs, isBranch, same, aimed⟩ :=
    syncByteDisplacements_run nonempty placed within
  unfold fixupInstruction
  apply settles_bind (settles_lift_ok ⟨insn, get, rfl⟩ (Q := (insn = ·)))
  rintro _ rfl
  apply settles_bind (settles_lift_ok ⟨_, sync, rfl⟩ (Q := (_ = ·)))
  rintro _ rfl
  apply settles_bind (Q := fun q => ∃ x, q = s.program.put i x ∧ x.offset = s.offset ∧
    Turn E s.program i insn x ∧ (changed = false → x.encoded = insn.encoded))
  · cases changed with
    | false =>
      have unchanged := same rfl
      subst unchanged
      have has := h.has insn mem
      refine settles_pure ⟨placed, rfl, rfl, ⟨?_, ⟨has.branch, has.shows⟩, .same rfl, ?_⟩, fun _ => rfl⟩
      · exact ⟨fits.nonempty, boundaries ▸ fits.branch⟩
      · intro _
        exact aimed
    | true =>
      have valid : insn.directBranch.valid = true := isBranch rfl
      have still : d.isSome = true := hs.trans valid
      have ready : Ready E s.program i { placed with
          directBranch := { placed.directBranch with encodedByteDisplacement := d } } := by
        refine ⟨⟨fits.nonempty, ?_⟩, still, (h.has insn mem).branch valid, ?_⟩
        · rw [boundaries]
          exact ⟨fun _ => fits.branch.target valid, fun none => absurd (none.symm.trans still) Bool.false_ne_true⟩
        · intro d' hd' b hb
          rw [aimed d' hd' b hb]
          congr 1
          apply boundaryOffset_put
          · rfl
          · rfl
      simp only [if_true, put_put]
      apply settles_post (reencodeLoop_ends hi ready)
      rintro q ⟨x, rfl, done⟩
      refine ⟨x, rfl, done.offset, ⟨done.fits, done.has, ⟨fun _ => done.canonical, ?_⟩, done.aimed⟩, Bool.noConfusion⟩
      by_cases canonical : E.Canonical insn.encoded
      · exact .inl (done.size canonical)
      · exact .inr ⟨canonical, done.canonical⟩
  · rintro _ ⟨x, rfl, offset, turn, unchanged⟩
    apply settles_bind (settles_lift_ok ⟨x, getInstruction_put hi x, rfl⟩ (Q := (x = ·)))
    rintro _ rfl
    apply settles_pure
    apply h.next packed at_i offset turn
    intro unmodified
    rw [Bool.or_eq_false_iff] at unmodified
    exact ⟨unmodified.1, unchanged unmodified.2⟩

/-- The offsets and the displacements of a program are those of its instructions. -/
structure Synced (E : Reencoding A) (p : Program A.info) : Prop extends p.Consistent where
  packed : p.Packed
  targets : ∀ insn ∈ p.instructions, ∀ d ∈ insn.directBranch.encodedByteDisplacement,
    ∀ b ∈ insn.directBranch.instructionBoundary,
      d = (totalSize (p.instructions.take b) : Int) - insn.offset
  has : ∀ insn ∈ p.instructions, E.Has insn
  valid : p.encodingsMayBeInvalid = false

/-- The end of a pass that has changed no size. -/
theorem Passed.synced {P : List (Instruction A.info)} {before : Bool} {s : FixupState A.info}
    (h : Passed E P before P.length s) (stable : s.stable = true) (size : s.offset = totalSize P) :
    Synced E { s.program with byteLen := s.offset, encodingsMayBeInvalid := false } := by
  have whole : s.program.instructions.take P.length = s.program.instructions :=
    List.take_of_length_le h.length.le
  have level : ∀ k ≤ P.length, Level P s.program.instructions k := by
    intro k hk
    rcases Nat.lt_or_eq_of_le hk with hk | rfl
    · exact h.stable.mp stable k hk
    · rw [Level, ← h.offset, size, List.take_length]
  have every : ∀ k, Level P s.program.instructions k := by
    intro k
    rcases Nat.le_total k P.length with hk | hk
    · exact level k hk
    · have last := level P.length le_rfl
      rw [Level, List.take_of_length_le le_rfl, whole] at last
      rw [Level, List.take_of_length_le hk, List.take_of_length_le (h.length.trans_le hk), last]
  refine { insns := ?_, byteLen := ?_, packed := ?_, targets := ?_, has := h.has, valid := rfl }
  · rw [numInstructionBoundaries, h.length]
    exact h.fits
  · rw [h.offset, whole]
  · intro k insn hk
    have inside : k < P.length := h.length ▸ (List.getElem?_eq_some_iff.mp hk).1
    exact h.offsets k inside insn hk
  · intro insn mem d hd b hb
    obtain ⟨k, hk⟩ := List.getElem?_of_mem mem
    have inside : k < P.length := h.length ▸ (List.getElem?_eq_some_iff.mp hk).1
    rw [h.aimed level k inside insn hk d hd b hb, h.offsets k inside insn hk, every b, every k]

/-- What a program is before a pass. -/
structure Arranged (E : Reencoding A) (p : Program A.info) : Prop extends p.Consistent where
  packed : p.Packed
  has : ∀ insn ∈ p.instructions, E.Has insn

theorem fixupLoop_ends {p : Program A.info} (h : Arranged E p) {iterations : Nat}
    (enough : E.rough p.instructions < iterations) (modified : Bool) :
    Settles (fun fuel => fixupLoop A rng fuel iterations p modified)
      (fun r => Synced E r.2 ∧ r.2.numInstructions = p.numInstructions ∧
        (r.1 = false → modified = false ∧ r.2.byteLen = p.byteLen)) := by
  induction iterations generalizing p modified with
  | zero => exact absurd enough (Nat.not_lt_zero _)
  | succ iterations ih =>
    have count : p.numInstructions = p.instructions.length := rfl
    have start : Passed E p.instructions modified 0 { program := p, modified := modified } := by
      refine ⟨rfl, h.byteLen, fun _ _ => rfl, h.insns, h.has, ?_, nofun, rfl, by simp, fun m => ⟨m, rfl⟩, nofun⟩
      exact List.forall₂_same.mpr fun _ _ => .same rfl
    unfold fixupLoop
    apply settles_bind (settles_foldlM
      (fun done s => Passed E p.instructions modified done.length s) start ?_)
    · intro s hs
      rw [List.length_range, count] at hs
      have whole : s.program.instructions.take p.instructions.length = s.program.instructions :=
        List.take_of_length_le hs.length.le
      have offset : s.offset = totalSize s.program.instructions := by rw [hs.offset, whole]
      have same : s.program.numInstructions = p.numInstructions := hs.length
      have byteLen := hs.byteLen
      cases stable : s.stable && s.program.byteLen == s.offset with
      | true =>
        rw [Bool.and_eq_true, beq_iff_eq] at stable
        simp only [if_true]
        apply settles_pure
        refine ⟨hs.synced stable.1 (stable.2.symm.trans byteLen), same, fun unmodified => ?_⟩
        obtain ⟨before, size⟩ := hs.quiet unmodified
        exact ⟨before, by rw [offset, size, h.byteLen]⟩
      | false =>
        simp only [Bool.false_eq_true, if_false]
        have arranged : Arranged E { s.program with byteLen := s.offset } := by
          refine { insns := ?_, byteLen := offset, packed := ?_, has := hs.has }
          · rw [numInstructionBoundaries, hs.length]
            exact hs.fits
          · intro k insn hk
            have inside : k < p.instructions.length :=
              hs.length ▸ (List.getElem?_eq_some_iff.mp hk).1
            exact hs.offsets k inside insn hk
        have fewer : E.rough s.program.instructions < iterations := by
          rcases Reencoding.rough_turned hs.turned with less | ⟨_, level⟩
          · omega
          · have sums : s.stable = true := hs.stable.mpr fun k _ => level k
            have last := level p.instructions.length
            rw [whole, List.take_length, ← offset, ← byteLen] at last
            simp [sums, last] at stable
        apply settles_post (ih arranged fewer s.modified)
        rintro r ⟨synced, count', kept⟩
        refine ⟨synced, count'.trans same, fun unmodified => ?_⟩
        obtain ⟨before, size⟩ := kept unmodified
        obtain ⟨before, sizes⟩ := hs.quiet before
        refine ⟨before, size.trans ?_⟩
        change s.offset = p.byteLen
        rw [offset, sizes, h.byteLen]
    · intro done i rest s hl hs
      obtain ⟨rfl, inside⟩ := Loops.range_at hl
      rw [List.length_append, List.length_singleton]
      exact fixupInstruction_ends hs h.packed (List.getElem?_eq_getElem inside)

/-- **The fixup ends, with all displacements in sync**, before its `CHECK` can fail. -/
theorem fixupEncodedDisplacements_ends {p : Program A.info} (consistent : p.Consistent)
    (has : ∀ insn ∈ p.instructions, E.Has insn) :
    Settles (fun fuel => p.fixupEncodedDisplacements A rng fuel)
      (fun r => Synced E r.2 ∧ r.2.numInstructions = p.numInstructions ∧
        (r.1 = false → r.2.byteLen = p.byteLen)) := by
  have count : p.fixupInvariants.instructions.length = p.instructions.length := by
    simp [fixupInvariants]
  have size : p.fixupInvariants.byteLen = p.byteLen := by
    simp [fixupInvariants, consistent.byteLen]
  have arranged : Arranged E p.fixupInvariants := by
    refine { toConsistent := fixupInvariants_consistent rfl consistent.insns, packed := ?_, has := ?_ }
    · intro k insn hk
      have offset := layout_getElem hk
      rw [offset, Nat.zero_add]
      exact (totalSize_take_layout 0 k p.instructions).symm
    · intro insn mem
      obtain ⟨old, ho, o, rfl⟩ := mem_layout mem
      exact ⟨(has old ho).branch, (has old ho).shows⟩
  have enough : E.rough p.fixupInvariants.instructions < p.numInstructions + 1 := by
    have le := E.rough_le p.fixupInvariants.instructions
    rw [count] at le
    exact Nat.lt_succ_of_le le
  apply settles_post (fixupLoop_ends arranged enough false)
  rintro r ⟨synced, same, kept⟩
  exact ⟨synced, same.trans count, fun unmodified => (kept unmodified).2.trans size⟩

/-! ## More fuel for the fixup -/

theorem reencodeLoop_extends (i fuel : Nat) (p : Program A.info) :
    Extends (reencodeLoop A rng i fuel p) (reencodeLoop A rng i (fuel + 1) p) := by
  induction fuel generalizing p with
  | zero =>
    intro s v run
    cases run
  | succ fuel ih =>
    unfold reencodeLoop
    apply extends_bind (extends_refl _)
    intro insn
    apply extends_bind (extends_refl _)
    rintro ⟨encoded, insn⟩
    apply extends_ite (extends_refl _)
    apply extends_bind (extends_refl _)
    intro insn
    apply extends_bind (extends_refl _)
    rintro ⟨_, insn⟩
    exact ih _

theorem fixupInstruction_extends (fuel : Nat) (s : FixupState A.info) (i : Nat) :
    Extends (fixupInstruction A rng fuel s i) (fixupInstruction A rng (fuel + 1) s i) := by
  unfold fixupInstruction
  apply extends_bind (extends_refl _)
  intro insn
  apply extends_bind (extends_refl _)
  rintro ⟨changed, insn⟩
  apply extends_bind
  · apply extends_ite
    · exact reencodeLoop_extends i fuel _
    · exact extends_refl _
  · intro p
    exact extends_refl _

theorem fixupLoop_extends (fuel iterations : Nat) (p : Program A.info) (modified : Bool) :
    Extends (fixupLoop A rng fuel iterations p modified)
      (fixupLoop A rng (fuel + 1) iterations p modified) := by
  induction iterations generalizing p modified with
  | zero => exact extends_refl _
  | succ iterations ih =>
    unfold fixupLoop
    apply extends_bind (extends_foldlM _ (fixupInstruction_extends fuel) _)
    intro s
    apply extends_ite (extends_refl _)
    exact ih _ _

theorem fixupEncodedDisplacements_extends (p : Program A.info) (fuel : Nat) :
    Extends (p.fixupEncodedDisplacements A rng fuel)
      (p.fixupEncodedDisplacements A rng (fuel + 1)) :=
  fixupLoop_extends fuel _ _ _

end Program

end Silifuzz
