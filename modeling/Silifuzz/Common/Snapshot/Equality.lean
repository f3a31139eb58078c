import Silifuzz.Common.Snapshot.Full
import Mathlib.Data.Finset.Card

/-!
# Equality of Snapshots

`operator==` of `Snapshot` and of its end states. The end states and the trace data
have no order: their lists are compared by looking each element of one up in the
other.

* `vectorsEqualAsSet_iff`: what that comparison says, by what is compared;
* `vectorsEqualAsSet_symm_iff`: when it can be turned round;
* `eq_equivalence`: what this leaves of an equivalence relation.
-/

namespace Silifuzz

section
variable {α κ : Type}

/-- `VectorsEqualAsSet`. -/
def vectorsEqualAsSet (eq : α → α → Bool) (a b : List α) : Bool :=
  a.length == b.length && a.all fun x => b.any fun y => eq y x

variable [DecidableEq κ] {eq : α → α → Bool} {key : α → κ} {a b c : List α}

/-- The number of different elements, by what is compared. -/
def distinct (key : α → κ) (a : List α) : Nat := (a.map key).toFinset.card

theorem vectorsEqualAsSet_iff (h : ∀ x y, eq x y = true ↔ key x = key y) :
    vectorsEqualAsSet eq a b = true ↔
      a.length = b.length ∧ (a.map key).toFinset ⊆ (b.map key).toFinset := by
  simp only [vectorsEqualAsSet, Bool.and_eq_true, beq_iff_eq, List.all_eq_true, List.any_eq_true, h]
  constructor
  · rintro ⟨size, each⟩
    refine ⟨size, fun k hk => ?_⟩
    obtain ⟨x, hx, rfl⟩ := List.mem_map.mp (List.mem_toFinset.mp hk)
    obtain ⟨y, hy, same⟩ := each x hx
    exact List.mem_toFinset.mpr (List.mem_map.mpr ⟨y, hy, same⟩)
  · rintro ⟨size, sub⟩
    refine ⟨size, fun x hx => ?_⟩
    exact List.mem_map.mp (List.mem_toFinset.mp
      (sub (List.mem_toFinset.mpr (List.mem_map_of_mem hx))))

theorem vectorsEqualAsSet_refl (h : ∀ x y, eq x y = true ↔ key x = key y) (a : List α) :
    vectorsEqualAsSet eq a a = true :=
  (vectorsEqualAsSet_iff h).mpr ⟨rfl, fun _ => id⟩

theorem vectorsEqualAsSet_trans (h : ∀ x y, eq x y = true ↔ key x = key y)
    (ab : vectorsEqualAsSet eq a b = true) (bc : vectorsEqualAsSet eq b c = true) :
    vectorsEqualAsSet eq a c = true := by
  obtain ⟨size, sub⟩ := (vectorsEqualAsSet_iff h).mp ab
  obtain ⟨size', sub'⟩ := (vectorsEqualAsSet_iff h).mp bc
  exact (vectorsEqualAsSet_iff h).mpr ⟨size.trans size', sub.trans sub'⟩

/-- Equal lists are equal the other way round when neither has more different elements. -/
theorem vectorsEqualAsSet_symm_iff (h : ∀ x y, eq x y = true ↔ key x = key y)
    (ab : vectorsEqualAsSet eq a b = true) :
    vectorsEqualAsSet eq b a = true ↔ distinct key a = distinct key b := by
  obtain ⟨size, sub⟩ := (vectorsEqualAsSet_iff h).mp ab
  rw [vectorsEqualAsSet_iff h]
  constructor
  · rintro ⟨_, sup⟩
    rw [distinct, sub.antisymm sup, distinct]
  · intro count
    have same := Finset.eq_of_subset_of_card_le sub count.ge
    exact ⟨size.symm, same.ge⟩

/-- A list without duplicates has as many different elements as it is long. -/
theorem distinct_of_nodup (nodup : (a.map key).Nodup) : distinct key a = a.length := by
  rw [distinct, List.toFinset_card_of_nodup nodup, List.length_map]

end

theorem memoryBytesListEq_iff {x y : List MemoryBytes} :
    memoryBytesListEq x y = true ↔ sortedMemoryBytes x = sortedMemoryBytes y := by
  simp only [memoryBytesListEq, Bool.and_eq_true, beq_iff_eq, and_iff_right_iff_imp]
  intro same
  have size := congrArg List.length same
  simpa only [sortedMemoryBytes, List.length_insertionSort] using size

namespace EndState

/-- What `operator==` compares of an end state: the changed memory is that of the bytes. -/
def compared (e : EndState) : EndState :=
  { e with changedMemorySet := .empty, memoryBytes := sortedMemoryBytes e.memoryBytes }

theorem eq_iff (x y : EndState) : x.eq y = true ↔ x.compared = y.compared := by
  simp only [eq, dataEquals, Bool.and_eq_true, beq_iff_eq, memoryBytesListEq_iff, compared,
    EndState.mk.injEq, true_and]
  tauto

end EndState

theorem TraceData.eq_iff (x y : TraceData) : (x == y) = true ↔ id x = id y := by simp

/-- The numbers of different end states and of different trace data. -/
def distinctStates (l : List EndState) : Nat := distinct EndState.compared l
def distinctTraces (l : List TraceData) : Nat := distinct id l

namespace Snapshot

/-- `EqualsButEndStates`. `none` is the use of a null pointer: the registers of `y`
are read when only `x` has registers. -/
def equalsButEndStates (x y : Snapshot) : Option Bool :=
  if x.id == y.id && x.architecture == y.architecture && x.mappedMemoryMap == y.mappedMemoryMap &&
      memoryBytesListEq x.memoryBytes y.memoryBytes then
    match x.registers, y.registers with
    | none, registers => some registers.isNone
    | some r, some r' => some (r == r')
    | some _, none => none
  else some false

/-- `operator==`. -/
def eq (x y : Snapshot) : Option Bool := do
  let expectedEndStatesEq := vectorsEqualAsSet EndState.eq x.expectedEndStates y.expectedEndStates
  let metadataEq := x.metadata == y.metadata
  let traceMetadataEq := vectorsEqualAsSet (· == ·) x.traceMetadata y.traceMetadata
  let rest ← x.equalsButEndStates y
  return rest && x.negativeMappedMemoryMap == y.negativeMappedMemoryMap && expectedEndStatesEq &&
    metadataEq && traceMetadataEq

/-- What is compared before the registers. -/
def beforeRegisters (s : Snapshot) : Id × Architecture × MappedMemoryMap × List MemoryBytes :=
  (s.id, s.architecture, s.mappedMemoryMap, sortedMemoryBytes s.memoryBytes)

/-- What is compared and is not a list without order. -/
def ordered (s : Snapshot) : (Id × Architecture × MappedMemoryMap × List MemoryBytes) ×
    Option RegisterState × MappedMemoryMap × Metadata :=
  (s.beforeRegisters, s.registers, s.negativeMappedMemoryMap, s.metadata)

theorem beforeRegisters_iff (x y : Snapshot) :
    (x.id == y.id && x.architecture == y.architecture && x.mappedMemoryMap == y.mappedMemoryMap &&
      memoryBytesListEq x.memoryBytes y.memoryBytes) = true ↔
        x.beforeRegisters = y.beforeRegisters := by
  simp only [Bool.and_eq_true, beq_iff_eq, memoryBytesListEq_iff, beforeRegisters, Prod.mk.injEq,
    and_assoc]

theorem equalsButEndStates_iff (x y : Snapshot) : x.equalsButEndStates y = some true ↔
    x.beforeRegisters = y.beforeRegisters ∧ x.registers = y.registers := by
  rw [← beforeRegisters_iff, equalsButEndStates]
  split
  · next before =>
    simp only [before, true_and]
    cases x.registers with
    | none => cases y.registers <;> simp
    | some r => cases y.registers <;> simp
  · next before => simp [before]

theorem eq_iff (x y : Snapshot) : x.eq y = some true ↔ x.ordered = y.ordered ∧
    vectorsEqualAsSet EndState.eq x.expectedEndStates y.expectedEndStates = true ∧
      vectorsEqualAsSet (· == ·) x.traceMetadata y.traceMetadata = true := by
  have rest := equalsButEndStates_iff x y
  unfold eq
  cases h : x.equalsButEndStates y with
  | none =>
    rw [h] at rest
    simp only [ordered, Prod.mk.injEq, ← and_assoc, ← rest]
    simp
  | some b =>
    rw [h, Option.some.injEq] at rest
    simp only [ordered, Prod.mk.injEq, ← and_assoc, ← rest]
    simp only [Option.bind_eq_bind, Option.bind_some, Option.pure_def, Option.some.injEq,
      Bool.and_eq_true, beq_iff_eq]
    tauto

/-- As many different end states, and as many different trace data. -/
def SameDistinct (x y : Snapshot) : Prop :=
  distinctStates x.expectedEndStates = distinctStates y.expectedEndStates ∧
    distinctTraces x.traceMetadata = distinctTraces y.traceMetadata

/-- Snapshots of which neither has duplicates. -/
theorem sameDistinct_of_nodup {x y : Snapshot} (h : x.eq y = some true)
    (states : ∀ s ∈ [x, y], (s.expectedEndStates.map EndState.compared).Nodup)
    (traces : ∀ s ∈ [x, y], s.traceMetadata.Nodup) : x.SameDistinct y := by
  obtain ⟨-, hs, ht⟩ := (eq_iff x y).mp h
  constructor
  · rw [distinctStates, distinctStates, distinct_of_nodup (states x (by simp)),
      distinct_of_nodup (states y (by simp))]
    exact ((vectorsEqualAsSet_iff EndState.eq_iff).mp hs).1
  · rw [distinctTraces, distinctTraces,
      distinct_of_nodup ((List.map_id x.traceMetadata).symm ▸ traces x (by simp)),
      distinct_of_nodup ((List.map_id y.traceMetadata).symm ▸ traces y (by simp))]
    exact ((vectorsEqualAsSet_iff TraceData.eq_iff).mp ht).1

/-- **What is left of an equivalence relation.** Equality is reflexive and transitive.
Snapshots that are equal are equal the other way round exactly when they have as many
different end states and as many different trace data; and the comparison ends unless
everything before the registers agrees and only the left snapshot has registers. -/
theorem eq_equivalence (a b c : EndState) (x y z : Snapshot) :
    a.eq a = true ∧ (a.eq b = true → b.eq a = true) ∧
    (a.eq b = true → b.eq c = true → a.eq c = true) ∧
    x.eq x = some true ∧ (x.eq y = some true → y.eq z = some true → x.eq z = some true) ∧
    (x.eq y = some true → (y.eq x = some true ↔ x.SameDistinct y)) ∧
    (x.eq y = none ↔
      x.beforeRegisters = y.beforeRegisters ∧ x.registers.isSome ∧ y.registers = none) := by
  refine ⟨?_, fun h => ?_, fun hab hbc => ?_, ?_, fun hxy hyz => ?_, fun h => ?_, ?_⟩
  · exact (EndState.eq_iff a a).mpr rfl
  · exact (EndState.eq_iff b a).mpr ((EndState.eq_iff a b).mp h).symm
  · exact (EndState.eq_iff a c).mpr
      (((EndState.eq_iff a b).mp hab).trans ((EndState.eq_iff b c).mp hbc))
  · exact (eq_iff x x).mpr ⟨rfl, vectorsEqualAsSet_refl EndState.eq_iff _,
      vectorsEqualAsSet_refl TraceData.eq_iff _⟩
  · obtain ⟨same, states, traces⟩ := (eq_iff x y).mp hxy
    obtain ⟨same', states', traces'⟩ := (eq_iff y z).mp hyz
    exact (eq_iff x z).mpr ⟨same.trans same', vectorsEqualAsSet_trans EndState.eq_iff states states',
      vectorsEqualAsSet_trans TraceData.eq_iff traces traces'⟩
  · obtain ⟨same, states, traces⟩ := (eq_iff x y).mp h
    rw [eq_iff, vectorsEqualAsSet_symm_iff EndState.eq_iff states,
      vectorsEqualAsSet_symm_iff TraceData.eq_iff traces]
    constructor
    · intro back
      exact back.2
    · intro counts
      exact ⟨same.symm, counts⟩
  · rw [← beforeRegisters_iff, eq, equalsButEndStates]
    split
    · next before =>
      cases hx : x.registers with
      | none => simp
      | some r => cases hy : y.registers <;> simp [before]
    · next before => simp [before]

/-- A trace of three instructions, and one of four. -/
def shortTrace : TraceData := ⟨3, [], [1]⟩
def longTrace : TraceData := ⟨4, [], [1]⟩

/-- A new snapshot after `set_trace_data`. -/
def withTraces (traces : List TraceData) : Snapshot :=
  { Snapshot.new .kX86_64 unsetId with traceMetadata := traces }

def twoShort : Snapshot := withTraces [shortTrace, shortTrace]
def shortAndLong : Snapshot := withTraces [shortTrace, longTrace]
def longAndShort : Snapshot := withTraces [longTrace, shortTrace]

/-- A new end state. -/
def startState : EndState := .new (.kInstruction 0x1000) ⟨[], []⟩

/-- The order of the traces does not matter, as there are two of them on both sides. -/
theorem eq_equivalence_reordered : shortAndLong.eq longAndShort = some true ∧
    (longAndShort.eq shortAndLong = some true ↔ shortAndLong.SameDistinct longAndShort) ∧
    shortAndLong.SameDistinct longAndShort := by
  have all := eq_equivalence startState startState startState shortAndLong longAndShort shortAndLong
  exact ⟨rfl, all.2.2.2.2.2.1 rfl, by decide, by decide⟩

/-- The duplicate is found twice in a list that has another element too. -/
theorem eq_not_symmetric : twoShort.eq shortAndLong = some true ∧
    shortAndLong.eq twoShort = some false := ⟨rfl, rfl⟩

end Snapshot

end Silifuzz
