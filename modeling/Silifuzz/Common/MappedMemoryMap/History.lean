import Silifuzz.Common.MappedMemoryMap.RemoveRanges

/-!
# Histories of a map

Every map a program can hold, as the operations that made it. The maps an
operation reads were made the same way and are other objects. `run` is what the
class does, `meaning` what the operations are documented to do address by
address, and `history_run` says that they agree and the map is canonical.
-/

namespace Silifuzz

open Segments RangeMap

inductive History where
  | empty
  | add (h : History) (start limit : Address) (perms : MemoryPerms)
  | addMap (h y : History)
  | addNew (h : History) (start limit : Address) (perms : MemoryPerms)
  | set (h : History) (start limit : Address) (perms : MemoryPerms)
  | remove (h : History) (start limit : Address) (perms : MemoryPerms)
  | removeRangesOf (h y : History) (perms : MemoryPerms)
  | addIntersectionOf (h x y : History)
  | addDifferenceOf (h : History) (start limit : Address) (perms : MemoryPerms) (y : History)
  | addDifferenceOfMaps (h x y : History)

namespace History

def run : History → Option MappedMemoryMap
  | empty => some .empty
  | add h start limit p => do (← h.run).add start limit p
  | addMap h y => do (← h.run).addMap (← y.run)
  | addNew h start limit p => do (← h.run).addNew start limit p
  | set h start limit p => do (← h.run).set start limit p
  | remove h start limit p => do (← h.run).remove start limit p
  | removeRangesOf h y p => do (← h.run).removeRangesOf (← y.run) p
  | addIntersectionOf h x y => do (← h.run).addIntersectionOf (← x.run) (← y.run)
  | addDifferenceOf h start limit p y => do (← h.run).addDifferenceOf start limit p (← y.run)
  | addDifferenceOfMaps h x y => do (← h.run).addDifferenceOfMaps (← x.run) (← y.run)

def meaning : History → PermsMap
  | empty => .empty
  | add h start limit p => h.meaning.add start limit p
  | addMap h y => h.meaning.addMap y.meaning
  | addNew h start limit p => h.meaning.add start limit p
  | set h start limit p => h.meaning.set start limit p
  | remove h start limit p => h.meaning.remove start limit p
  | removeRangesOf h y p => h.meaning.removeRangesOf y.meaning p
  | addIntersectionOf h x y => h.meaning.addMap (x.meaning.inter y.meaning)
  | addDifferenceOf h start limit p y =>
    h.meaning.addMap ((PermsMap.single start limit p).diff y.meaning)
  | addDifferenceOfMaps h x y => h.meaning.addMap (x.meaning.diff y.meaning)

/-- Every range runs forward, and permissions are made of `Permission` bits. -/
def WellFormed : History → Prop
  | empty => True
  | add h start limit p => h.WellFormed ∧ start < limit ∧ p.Proper
  | addMap h y => h.WellFormed ∧ y.WellFormed
  | addNew h start limit p => h.WellFormed ∧ start < limit ∧ p.Proper
  | set h start limit p => h.WellFormed ∧ start < limit ∧ p.Proper
  | remove h start limit p => h.WellFormed ∧ start < limit ∧ p.Proper
  | removeRangesOf h y p => h.WellFormed ∧ y.WellFormed ∧ p.Proper
  | addIntersectionOf h x y => h.WellFormed ∧ x.WellFormed ∧ y.WellFormed
  | addDifferenceOf h start limit p y =>
    h.WellFormed ∧ start < limit ∧ p.Proper ∧ y.WellFormed
  | addDifferenceOfMaps h x y => h.WellFormed ∧ x.WellFormed ∧ y.WellFormed

end History

namespace History

/-- Every history runs through, to a canonical map of its meaning. -/
theorem represents {h : History} (wf : h.WellFormed) :
    ∃ m, h.run = some m ∧ m.Represents h.meaning ∧ h.meaning.Proper := by
  induction h with
  | empty =>
    refine ⟨.empty, rfl, MappedMemoryMap.empty_represents, fun k v hv => ?_⟩
    simp [meaning, PermsMap.empty] at hv
  | add h start limit p ih =>
    obtain ⟨m, run, hm, proper⟩ := ih wf.1
    obtain ⟨m', run', hm'⟩ := hm.add_represents wf.2.1 p
    exact ⟨m', by simp [History.run, run, run'], hm', proper.add wf.2.2⟩
  | addMap h y ih ihy =>
    obtain ⟨m, run, hm, proper⟩ := ih wf.1
    obtain ⟨y, runy, hy, properY⟩ := ihy wf.2
    obtain ⟨m', run', hm'⟩ := hm.addMap_represents hy
    exact ⟨m', by simp [History.run, run, runy, run'], hm', proper.addMap properY⟩
  | addNew h start limit p ih =>
    obtain ⟨m, run, hm, proper⟩ := ih wf.1
    obtain ⟨m', run', hm'⟩ := hm.add_represents wf.2.1 p
    exact ⟨m', by simp [History.run, run, MappedMemoryMap.addNew, run'], hm', proper.add wf.2.2⟩
  | set h start limit p ih =>
    obtain ⟨m, run, hm, proper⟩ := ih wf.1
    obtain ⟨m', run', hm'⟩ := hm.set_represents proper wf.2.1 p
    exact ⟨m', by simp [History.run, run, run'], hm', proper.set wf.2.2⟩
  | remove h start limit p ih =>
    obtain ⟨m, run, hm, proper⟩ := ih wf.1
    obtain ⟨m', run', hm'⟩ := hm.remove_represents wf.2.1 p
    exact ⟨m', by simp [History.run, run, run'], hm', proper.remove⟩
  | removeRangesOf h y p ih ihy =>
    obtain ⟨m, run, hm, proper⟩ := ih wf.1
    obtain ⟨y, runy, hy, _⟩ := ihy wf.2.1
    obtain ⟨m', run', hm'⟩ := hm.removeRangesOf_represents hy p
    exact ⟨m', by simp [History.run, run, runy, run'], hm', proper.removeRangesOf⟩
  | addIntersectionOf h x y ih ihx ihy =>
    obtain ⟨m, run, hm, proper⟩ := ih wf.1
    obtain ⟨x, runx, hx, properX⟩ := ihx wf.2.1
    obtain ⟨y, runy, hy, _⟩ := ihy wf.2.2
    obtain ⟨m', run', hm'⟩ := hm.addIntersectionOf_represents hx hy
    exact ⟨m', by simp [History.run, run, runx, runy, run'], hm', proper.addMap properX.inter⟩
  | addDifferenceOf h start limit p y ih ihy =>
    obtain ⟨m, run, hm, proper⟩ := ih wf.1
    obtain ⟨y, runy, hy, _⟩ := ihy wf.2.2.2
    obtain ⟨m', run', hm'⟩ := hm.addDifferenceOf_represents wf.2.1 p hy
    exact ⟨m', by simp [History.run, run, runy, run'], hm',
      proper.addMap (PermsMap.Proper.single wf.2.2.1).diff⟩
  | addDifferenceOfMaps h x y ih ihx ihy =>
    obtain ⟨m, run, hm, proper⟩ := ih wf.1
    obtain ⟨x, runx, hx, properX⟩ := ihx wf.2.1
    obtain ⟨y, runy, hy, _⟩ := ihy wf.2.2
    obtain ⟨m', run', hm'⟩ := hm.addDifferenceOfMaps_represents hx hy
    exact ⟨m', by simp [History.run, run, runx, runy, run'], hm', proper.addMap properX.diff⟩

/-- **The class is its specification.** No check fails in any history, the entries
are sorted, non-empty and disjoint, no two touching ones are equal, and the map
reads at every address what the operations say there. -/
theorem history_run (h : History) (wf : h.WellFormed) :
    ∃ m, h.run = some m ∧ Separated m.rep ∧
      (∀ a ∈ m.rep, ∀ b ∈ m.rep, a.limit = b.start → a.value ≠ b.value) ∧
      ∀ k, m.read k = h.meaning k := by
  obtain ⟨m, run, hm, _⟩ := represents wf
  refine ⟨m, run, hm.separated, fun a ha b hb touch => ?_, fun k => by rw [hm.read_eq]⟩
  simpa [memoryPermsMethods] using hm.canonical a ha b hb touch

/-- A range set across two that touch, and one address of it removed. -/
theorem history_run_split :
    let h := removeRangesOf (set (add (add empty 0 10 .r) 10 20 .rw) 5 15 .xr)
      (add empty 7 8 .r) .allPlusMapped
    ∃ m, h.run = some m ∧ Separated m.rep ∧
      (∀ a ∈ m.rep, ∀ b ∈ m.rep, a.limit = b.start → a.value ≠ b.value) ∧
      ∀ k, m.read k = h.meaning k :=
  history_run _ <| by
    refine ⟨⟨⟨⟨trivial, ?_, ?_⟩, ?_, ?_⟩, ?_, ?_⟩, ⟨trivial, ?_, ?_⟩, ?_⟩ <;> decide

end History

end Silifuzz
