import Mathlib.Data.List.Find
import Silifuzz.Fuzzer.Program.Fixup
import Silifuzz.Fuzzer.ProgramAArch64

/-!
# The filter and the displacement fields

No rule of the static instruction filter reads the displacement of a direct branch:
whatever displacement is written into a branch, the filter says the same of it.
-/

namespace Silifuzz

open LittleEndian Triples

theorem rewriteBranchDisplacement_agrees (insn : BitVec 32) (lsb width : Nat)
    (displacement : BitVec 32) :
    AgreeOutside (displacementMask lsb width)
      (rewriteBranchDisplacement insn lsb width displacement) insn := by
  unfold AgreeOutside rewriteBranchDisplacement
  ext i hi
  simp only [BitVec.getElem_and, BitVec.getElem_or, BitVec.getElem_not]
  cases (displacementMask lsb width)[i] <;> simp

theorem any_congr_mem {α : Type} {l : List α} {p q : α → Bool} (h : ∀ a ∈ l, p a = q a) :
    l.any p = l.any q := by
  rw [Bool.eq_iff_iff, List.any_eq_true, List.any_eq_true]
  apply exists_congr
  intro a
  apply and_congr_right
  intro ha
  rw [h a ha]

namespace BranchInstructionInfo

def field (info : BranchInstructionInfo) : BitVec 32 :=
  displacementMask info.displacement.lsb info.displacement.width

/-- No matcher of the branches reads the displacement of a branch. -/
theorem branches_blind : ∀ info ∈ kBranchInstructionInfo, ∀ other ∈ kBranchInstructionInfo,
    BitMatcher.blind info.matcher info.field other.matcher = true := by
  decide

theorem matcher_apart : ∀ info ∈ kBranchInstructionInfo,
    info.matcher.mask &&& info.field = 0 := by
  decide

theorem banned_blind : ∀ info ∈ kBranchInstructionInfo, ∀ m ∈ kBannedInstructions,
    BitMatcher.blind info.matcher info.field m = true := by
  decide

theorem required_blind : ∀ info ∈ kBranchInstructionInfo, ∀ r ∈ kRequiredInstructionBits,
    r.blind info.matcher info.field = true := by
  decide

theorem config_blind : ∀ info ∈ kBranchInstructionInfo,
    ∀ m ∈ [kLoadStoreInstruction, kSMEMemoryOperationInstruction, kSVEMemoryOperationInstruction,
      kSVEInstruction, kScalarFpAndAdvancedSIMDInstruction, kFpSimdLoadStoreInstruction,
      kBranchToRegisterInstructions, kSystemInstruction],
    BitMatcher.blind info.matcher info.field m = true := by
  decide

theorem sysreg_conflicts : ∀ info ∈ kBranchInstructionInfo,
    info.matcher.conflicts kSysregInstruction = true := by
  decide

variable {info : BranchInstructionInfo} (mem : info ∈ kBranchInstructionInfo)
  {insn insn' : BitVec 32} (hi : info.matcher.isMatch insn = true)
  (agree : AgreeOutside info.field insn insn')

include mem agree in
theorem isMatch_of_agree : info.matcher.isMatch insn = info.matcher.isMatch insn' := by
  unfold BitMatcher.isMatch
  rw [agree.and_mask (matcher_apart info mem)]

include mem hi agree

theorem branchInstructionInfo_of_agree :
    branchInstructionInfo insn = branchInstructionInfo insn' := by
  have hi' := isMatch_of_agree mem agree ▸ hi
  apply List.find?_congr
  intro other ho
  exact BitMatcher.isMatch_of_blind (branches_blind info mem other ho) hi hi' agree

theorem instructionIsOK_of_agree (config : InstructionFilterConfig) :
    instructionIsOK insn config = instructionIsOK insn' config := by
  have hi' := isMatch_of_agree mem agree ▸ hi
  have same : ∀ m : BitMatcher 32, BitMatcher.blind info.matcher info.field m = true →
      m.isMatch insn = m.isMatch insn' :=
    fun m h => BitMatcher.isMatch_of_blind h hi hi' agree
  have banned : kBannedInstructions.any (·.isMatch insn) =
      kBannedInstructions.any (·.isMatch insn') :=
    any_congr_mem fun m hm => same m (banned_blind info mem m hm)
  have required : kRequiredInstructionBits.any (·.violatesRequirements insn) =
      kRequiredInstructionBits.any (·.violatesRequirements insn') :=
    any_congr_mem fun r hr =>
      RequiredBits.violatesRequirements_of_blind (required_blind info mem r hr) hi hi' agree
  have sysreg : kSysregInstruction.isMatch insn = false ∧
      kSysregInstruction.isMatch insn' = false :=
    ⟨BitMatcher.not_isMatch_of_conflicts (sysreg_conflicts info mem) hi,
      BitMatcher.not_isMatch_of_conflicts (sysreg_conflicts info mem) hi'⟩
  have rest := fun m hm => same m (config_blind info mem m hm)
  unfold instructionIsOK isLoadStoreInsn isIndirectBranchInsn isSystemInsn
  simp only [banned, required, sysreg.1, sysreg.2, rest kLoadStoreInstruction (by simp),
    rest kSMEMemoryOperationInstruction (by simp), rest kSVEMemoryOperationInstruction (by simp),
    rest kSVEInstruction (by simp), rest kScalarFpAndAdvancedSIMDInstruction (by simp),
    rest kFpSimdLoadStoreInstruction (by simp), rest kBranchToRegisterInstructions (by simp),
    rest kSystemInstruction (by simp), Bool.false_eq_true, if_false]

end BranchInstructionInfo

theorem branchInstructionInfo_mem {insn : BitVec 32} {info : BranchInstructionInfo}
    (h : branchInstructionInfo insn = some info) :
    info ∈ kBranchInstructionInfo ∧ info.matcher.isMatch insn = true := by
  unfold branchInstructionInfo at h
  exact ⟨List.mem_of_find?_eq_some h, by simpa using List.find?_some h⟩

theorem insnWords_append {xs : Bytes} (ys : Bytes) (h : xs.length % 4 = 0) :
    insnWords (xs ++ ys) = insnWords xs ++ insnWords ys := by
  fun_induction insnWords xs with
  | case1 b0 b1 b2 b3 rest ih =>
    simp only [List.length_cons] at h
    simp only [List.cons_append, insnWords]
    rw [ih (by omega)]
  | case2 xs short =>
    match xs, short, h with
    | [], _, _ => rfl
    | [_], _, h | [_, _], _, h | [_, _, _], _, h => simp at h
    | b0 :: b1 :: b2 :: b3 :: rest, short, _ => exact absurd rfl (short b0 b1 b2 b3 rest)

theorem staticInstructionFilter_iff (code : Bytes) (config : InstructionFilterConfig) :
    staticInstructionFilter code config = true ↔
      code.length % 4 = 0 ∧ ∀ insn ∈ insnWords code, instructionIsOK insn config = true := by
  unfold staticInstructionFilter
  split <;> simp_all

theorem staticInstructionFilter_append {xs ys : Bytes} {config : InstructionFilterConfig}
    (hx : staticInstructionFilter xs config = true)
    (hy : staticInstructionFilter ys config = true) :
    staticInstructionFilter (xs ++ ys) config = true := by
  rw [staticInstructionFilter_iff] at *
  rw [insnWords_append ys hx.1, List.length_append]
  refine ⟨by omega, fun insn mem => ?_⟩
  rcases List.mem_append.mp mem with mem | mem
  · exact hx.2 insn mem
  · exact hy.2 insn mem

namespace AArch64

theorem insnWords_encoded {insn : Instruction kInstructionInfo} (size : insn.encoded.size = 4) :
    insnWords insn.encoded.bytes = [insnWord insn] := by
  unfold insnWord
  match hb : insn.encoded.bytes, size with
  | [b0, b1, b2, b3], _ => rfl
  | [], size | [_], size | [_, _], size | [_, _, _], size => simp [InstructionData.size, hb] at size
  | _ :: _ :: _ :: _ :: _ :: _, size => simp [InstructionData.size, hb] at size

theorem staticInstructionFilter_encoded {insn : Instruction kInstructionInfo}
    (size : insn.encoded.size = 4) (config : InstructionFilterConfig) :
    staticInstructionFilter insn.encoded.bytes config = instructionIsOK (insnWord insn) config := by
  rw [Bool.eq_iff_iff, staticInstructionFilter_iff, insnWords_encoded size]
  simp [show insn.encoded.bytes.length = 4 from size]

/-- Rewriting stays in the class of the instruction and outside what the filter reads. -/
theorem Reencoded.agrees {insn result : Instruction kInstructionInfo}
    {info : BranchInstructionInfo} {success : Bool} (h : Reencoded insn info success result) :
    AgreeOutside info.field (insnWord result) (insnWord insn) := by
  rw [h.word]
  exact rewriteBranchDisplacement_agrees _ _ _ _

theorem filter_keeps (disassemble : Bytes → Bool) (config : InstructionFilterConfig) (n : Nat) :
    FixupKeeps (aarch64 disassemble) n
      (fun insn => staticInstructionFilter insn.encoded.bytes config = true) where
  offset _ h := h
  displacement _ _ h := h
  boundary _ _ _ h := h
  reencode {insn} h := by
    apply yields_post (tryToReencodeInstructionDisplacements_yields insn)
    rintro r ⟨size, info, hi, reencoded⟩
    obtain ⟨mem, isMatch⟩ := branchInstructionInfo_mem hi
    change staticInstructionFilter insn.encoded.bytes config = true at h
    rw [staticInstructionFilter_encoded size] at h
    change staticInstructionFilter r.2.encoded.bytes config = true
    rw [staticInstructionFilter_encoded reencoded.size, ← h]
    exact (BranchInstructionInfo.instructionIsOK_of_agree mem isMatch reencoded.agrees.symm
      config).symm

end AArch64

namespace Program

variable {info : ArchInstructionInfo}

theorem toBytes_flatten {p : Program info} {bytes : Bytes} (h : p.toBytes = .ok bytes) :
    bytes = (p.instructions.map (·.encoded.bytes)).flatten := by
  have packed : Yields p.toBytes
      (fun bytes => bytes = (p.instructions.map (·.encoded.bytes)).flatten) (fun _ => True) := by
    unfold toBytes
    apply yields_bind (check_yields _ fun _ => trivial)
    intro _ _
    apply yields_foldlM (fun (done : List (Instruction info)) output =>
      output = (done.map (·.encoded.bytes)).flatten) rfl
    intro done insn rest output _ ho
    apply yields_bind (check_yields _ fun _ => trivial)
    intro _ _
    apply yields_pure
    simp [ho]
  exact yields_value packed h

theorem staticInstructionFilter_flatten {insns : List (Instruction info)}
    {config : InstructionFilterConfig}
    (h : ∀ insn ∈ insns, staticInstructionFilter insn.encoded.bytes config = true) :
    staticInstructionFilter (insns.map (·.encoded.bytes)).flatten config = true := by
  induction insns with
  | nil => rfl
  | cons insn insns ih =>
    simp only [List.map_cons, List.flatten_cons]
    exact staticInstructionFilter_append (h insn (by simp)) (ih fun x hx => h x (by simp [hx]))

/-- **The fixup never makes an instruction that the filter rejects**, whatever boundaries
are drawn and however often branches are encoded again. -/
theorem fixupEncodedDisplacements_filter (disassemble : Bytes → Bool)
    (config : InstructionFilterConfig) {p : Program (aarch64 disassemble).info}
    (h : ∀ insn ∈ p.instructions, staticInstructionFilter insn.encoded.bytes config = true)
    {ρ : Type} (rng : MutatorRng ρ) (fuel : Nat) (r : ρ) {modified : Bool}
    {q : Program (aarch64 disassemble).info} {r' : ρ}
    (run : p.fixupEncodedDisplacements (aarch64 disassemble) rng fuel r =
      .ok ((modified, q), r')) :
    (∀ insn ∈ q.instructions, staticInstructionFilter insn.encoded.bytes config = true) ∧
      ∀ bytes, q.toBytes = .ok bytes → staticInstructionFilter bytes config = true := by
  have kept := (surely_value (fixupEncodedDisplacements_keeps
    (AArch64.filter_keeps disassemble config _) h rng fuel) run).1.each
  refine ⟨kept, fun bytes hb => ?_⟩
  rw [toBytes_flatten hb]
  exact staticInstructionFilter_flatten kept

/-- A program of one branch that goes to itself and should go behind itself. -/
def staleBranch : Program AArch64.kInstructionInfo :=
  ⟨[⟨⟨[0, 0, 0, 0x14], by decide⟩, ⟨some 0, some 1⟩, 0⟩], 4, true⟩

theorem fixupEncodedDisplacements_filter_staleBranch : ∃ q,
    staleBranch.fixupEncodedDisplacements (aarch64 fun _ => true) countingRng 1 0 =
      .ok ((true, q), 0) ∧
    (∀ insn ∈ q.instructions, staticInstructionFilter insn.encoded.bytes {} = true) ∧
      ∀ bytes, q.toBytes = .ok bytes → staticInstructionFilter bytes {} = true :=
  ⟨⟨[⟨⟨[1, 0, 0, 0x14], by decide⟩, ⟨some 4, some 1⟩, 0⟩], 4, false⟩, rfl,
    fixupEncodedDisplacements_filter (fun _ => true) {} (p := staleBranch) (by decide) countingRng 1
      0 rfl⟩

end Program

end Silifuzz
