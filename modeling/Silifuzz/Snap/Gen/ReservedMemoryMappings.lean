import Silifuzz.Common.Snapshot.Mappings

/-!
# Reserved memory mappings

The memory that no snap may use (`snap/gen/reserved_memory_mappings.cc`), which depends on
the architecture that the code is compiled for.
-/

namespace Silifuzz

open Loops

namespace ReservedMemoryMappings

/-- `SILIFUZZ_RUNNER_BASE_ADDRESS` -/
def runnerBaseAddress : Address := 0x456700000000

/-- The ranges that are added, in order. The first ones are the first 64k, the page of the
exit sequence and the runner; then stack and VDSO, and what is not user space. -/
def reservedRanges (host : Architecture) : List (Address × Address) :=
  [(0x0, 0x10000), (0xabcd0000, 0xabcd0000 + 2 ^ 12),
    (runnerBaseAddress, runnerBaseAddress + 2 ^ 32)] ++
  match host with
  | .kX86_64 => [(0x7f0000000000, 0x800000000000), (0x800000000000, 0xffffffffffffffff)]
  | .kAArch64 => [(0x0000ffff80000000, 0x0001000000000000), (0x0001000000000000, 0xffffffffffffffff)]

def reservedMemoryMappings (host : Architecture) : Option MappedMemoryMap :=
  (reservedRanges host).foldlM (fun m r => m.add r.1 r.2 .all) .empty

def overlapsSome (reserved : MappedMemoryMap) : List MemoryMapping → Option Bool
  | [] => some false
  | m :: mappings => do
    if ← reserved.overlaps m.startAddress m.limitAddress then return true
    overlapsSome reserved mappings

def overlapReservedMemoryMappings (host : Architecture) (mappings : List MemoryMapping) :
    Option Bool := do
  overlapsSome (← reservedMemoryMappings host) mappings

/-- The address is in a reserved range. -/
def Reserved (host : Architecture) (k : Address) : Prop :=
  ∃ r ∈ reservedRanges host, r.1 ≤ k ∧ k < r.2

variable {host : Architecture}

theorem reservedRanges_forward (host : Architecture) : ∀ r ∈ reservedRanges host, r.1 < r.2 := by
  cases host <;> decide

/-- The map is that of the ranges. -/
theorem reservedMemoryMappings_represents (host : Architecture) :
    ∃ m f, reservedMemoryMappings host = some m ∧ m.Represents f ∧
      ∀ k, (f k).isSome ↔ Reserved host k := by
  obtain ⟨m, run, f, hm, all⟩ := foldlM_run (l := reservedRanges host)
    (f := fun (m : MappedMemoryMap) r => m.add r.1 r.2 .all) (s := .empty)
    (P := fun done m => ∃ f, MappedMemoryMap.Represents m f ∧
      ∀ k, (f k).isSome ↔ ∃ r ∈ done, r.1 ≤ k ∧ k < r.2)
    ⟨_, MappedMemoryMap.empty_represents, by simp [PermsMap.empty]⟩
    fun done r rest m hl ⟨f, hm, all⟩ => by
      have forward := reservedRanges_forward host r (by simp [hl])
      obtain ⟨m', run, hm'⟩ := hm.add_represents forward .all
      refine ⟨m', run, _, hm', fun k => ?_⟩
      by_cases inside : r.1 ≤ k ∧ k < r.2
      · rw [PermsMap.add_inside inside]
        exact ⟨fun _ => ⟨r, by simp, inside⟩, fun _ => rfl⟩
      · rw [PermsMap.add_outside inside, all]
        constructor
        · rintro ⟨q, hq, cover⟩
          exact ⟨q, by simp [hq], cover⟩
        · rintro ⟨q, hq, cover⟩
          rcases List.mem_append.mp hq with hq | hq
          · exact ⟨q, hq, cover⟩
          · obtain rfl := List.mem_singleton.mp hq
            exact absurd cover inside
  exact ⟨m, f, run, hm, all⟩

theorem overlapsSome_eq {m : MappedMemoryMap} {f : PermsMap} (hm : m.Represents f)
    (mappings : List MemoryMapping) : ∃ b, overlapsSome m mappings = some b ∧
      (b = true ↔ ∃ x ∈ mappings, ∃ k, x.Covers k ∧ (f k).isSome) := by
  induction mappings with
  | nil => exact ⟨false, rfl, by simp⟩
  | cons x mappings ih =>
    obtain ⟨b, overlaps, iff⟩ := MappedMemoryMap.overlaps_eq hm x.start_lt_limit
    obtain ⟨c, rest, iff'⟩ := ih
    cases b with
    | true =>
      obtain ⟨k, low, high, known⟩ := iff.mp rfl
      refine ⟨true, by simp [overlapsSome, overlaps], fun _ => ?_, fun _ => rfl⟩
      exact ⟨x, by simp, k, ⟨low, high⟩, known⟩
    | false =>
      have apart : ¬ ∃ k, x.Covers k ∧ (f k).isSome := by
        rintro ⟨k, cover, known⟩
        have := iff.mpr ⟨k, cover.1, cover.2, known⟩
        cases this
      refine ⟨c, by simp [overlapsSome, overlaps, rest], ?_⟩
      rw [iff', List.exists_mem_cons_iff]
      exact ⟨.inr, fun either => either.resolve_left apart⟩

/-- Mappings overlap the reserved ones exactly if they map a reserved address. -/
theorem overlapReservedMemoryMappings_eq (host : Architecture) {mappings : List MemoryMapping}
    {f : PermsMap} (h : Describes mappings f) : ∃ b, overlapReservedMemoryMappings host mappings = some b ∧
      (b = true ↔ ∃ k, (f k).isSome ∧ Reserved host k) := by
  obtain ⟨m, g, made, hm, reserved⟩ := reservedMemoryMappings_represents host
  obtain ⟨b, run, iff⟩ := overlapsSome_eq hm mappings
  refine ⟨b, by simp [overlapReservedMemoryMappings, made, run], iff.trans ?_⟩
  constructor
  · rintro ⟨x, hx, k, cover, known⟩
    exact ⟨k, Option.isSome_of_mem (h.covered x hx k cover), (reserved k).mp known⟩
  · rintro ⟨k, mapped, known⟩
    obtain ⟨x, hx, cover⟩ := h.exists_mapping mapped
    exact ⟨x, hx, k, cover, (reserved k).mpr known⟩

/-- Two lists of mappings that describe the same memory are alike. -/
theorem overlapReservedMemoryMappings_congr {l l' : List MemoryMapping} {f : PermsMap}
    (h : Describes l f) (h' : Describes l' f) :
    overlapReservedMemoryMappings host l = overlapReservedMemoryMappings host l' := by
  obtain ⟨b, run, iff⟩ := overlapReservedMemoryMappings_eq host h
  obtain ⟨b', run', iff'⟩ := overlapReservedMemoryMappings_eq host h'
  rw [run, run', Option.some.injEq, Bool.eq_iff_iff, iff, iff']

end ReservedMemoryMappings

end Silifuzz
