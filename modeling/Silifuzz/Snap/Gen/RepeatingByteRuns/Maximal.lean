import Silifuzz.Snap.Gen.RepeatingByteRuns

/-!
# Maximal runs

* `MaximalRun`: a run of equal bytes between two multiples of the alignment that cannot
  be continued by as many bytes again, on either side;
* `Scanned`: what the loop has found when it stands at `offset`, kept by each turn;
* `getRepeatingByteRuns_exact`: the elements that are returned, for one `MemoryBytes`
  and for a list.
-/

namespace Silifuzz

open Checked Loops

namespace RepeatingByteRuns

/-- The `s` bytes from `o` on are there, and all are `v`. -/
def Run (data : ByteData) (o s : Nat) (v : BitVec 8) : Prop :=
  ∀ i, o ≤ i → i < o + s → data[i]? = some v

/-- As many equal bytes as there are in whole words. -/
structure MaximalRun (data : ByteData) (o s : Nat) : Prop where
  aligned : o % kByteRunAlignmentSize = 0
  words : s % kByteRunAlignmentSize = 0
  long : kMinRepeatingByteRunSize ≤ s
  equal : ∃ v, Run data o s v ∧
    (kByteRunAlignmentSize ≤ o → ¬ Run data (o - kByteRunAlignmentSize) kByteRunAlignmentSize v) ∧
    ¬ Run data (o + s) kByteRunAlignmentSize v

variable {data : ByteData} {o s offset size : Nat} {v u : BitVec 8} {infos : List ByteRunInfo}
  {b : MemoryBytes} {l : List MemoryBytes} {previousLimit : Option Address}

theorem Run.value (h : Run data o s v) (h' : Run data o size u) (pos : 0 < s) (pos' : 0 < size) :
    v = u := by
  have first := h o le_rfl (by lia)
  have second := h' o le_rfl (by lia)
  exact Option.some.inj (first.symm.trans second)

theorem Run.part (h : Run data o s v) (low : o ≤ offset) (high : offset + size ≤ o + s) :
    Run data offset size v := by
  intro i first last
  exact h i (by lia) (by lia)

theorem takeWhile_run (bytes : ByteData) (first : BitVec 8) :
    (∀ i < (bytes.takeWhile (· == first)).length, bytes[i]? = some first) ∧
      bytes[(bytes.takeWhile (· == first)).length]? ≠ some first := by
  induction bytes with
  | nil => simp
  | cons byte bytes ih =>
    by_cases same : byte = first
    · subst same
      simp only [List.takeWhile_cons, beq_self_eq_true, if_true, List.length_cons]
      constructor
      · intro i hi
        cases i with
        | zero => rfl
        | succ i => simpa using ih.1 i (by lia)
      · simpa using ih.2
    · simp [same]

/-- The run found at an offset goes as far as the bytes are equal. -/
theorem runSize_run (h : offset < data.length) : ∃ v,
    Run data offset (runSize (data.drop offset)) v ∧
      data[offset + runSize (data.drop offset)]? ≠ some v := by
  obtain ⟨first, bytes, rest⟩ : ∃ first bytes, data.drop offset = first :: bytes :=
    List.exists_cons_of_ne_nil (by simpa using h)
  have same : ∀ i, data[offset + i]? = (first :: bytes)[i]? := by
    intro i
    rw [← rest, List.getElem?_drop]
  obtain ⟨equal, after⟩ := takeWhile_run bytes first
  rw [rest]
  refine ⟨first, fun i low high => ?_, ?_⟩
  · obtain ⟨j, rfl⟩ := Nat.exists_eq_add_of_le low
    rw [same]
    simp only [runSize] at high
    cases j with
    | zero => rfl
    | succ j => simpa using equal j (by lia)
  · rw [same, runSize, Nat.add_comm 1]
    simpa using after

/-- What the loop has found when it stands at `offset`. -/
structure Scanned (data : ByteData) (infos : List ByteRunInfo) (offset : Nat) : Prop where
  words : ∀ i ∈ infos, i.size % kByteRunAlignmentSize = 0
  runs : ∀ o s, ⟨o, s, true⟩ ∈ infos ↔ MaximalRun data o s ∧ o < offset
  short : ∀ i ∈ infos, i.repeating = false → ∀ v, ¬ Run data i.offset kMinRepeatingByteRunSize v
  apart : infos.IsChain fun i j => i.repeating = true ∨ j.repeating = true
  edge : kByteRunAlignmentSize ≤ offset → ∀ v,
    Run data (offset - kByteRunAlignmentSize) kByteRunAlignmentSize v →
      ¬ Run data offset kByteRunAlignmentSize v

theorem scanned_nil : Scanned data [] 0 where
  words := by simp
  runs := by simp
  short := by simp
  apart := .nil
  edge := by simp [kByteRunAlignmentSize]

theorem mem_pushUncompressed {i : ByteRunInfo} (h : i ∈ pushUncompressed infos offset size) :
    i ∈ infos ∨ i = ⟨offset, size, false⟩ ∨
      ∃ back ∈ infos, back.repeating = false ∧ i = { back with size := back.size + size } := by
  unfold pushUncompressed at h
  cases last : infos.getLast? with
  | none =>
    simp only [last, List.mem_append, List.mem_singleton] at h
    exact h.imp_right .inl
  | some back =>
    simp only [last] at h
    split at h
    · simp only [List.mem_append, List.mem_singleton] at h
      exact h.imp_right .inl
    · next other =>
      rcases List.mem_append.mp h with h | h
      · exact .inl (List.mem_of_mem_dropLast h)
      · exact .inr (.inr ⟨back, List.mem_of_getLast? last, by simpa using other,
          List.mem_singleton.mp h⟩)

/-- The runs that repeat stay as they are. -/
theorem repeating_pushUncompressed :
    ⟨o, s, true⟩ ∈ pushUncompressed infos offset size ↔ ⟨o, s, true⟩ ∈ infos := by
  constructor
  · intro h
    rcases mem_pushUncompressed h with h | h | ⟨back, _, other, h⟩
    · exact h
    · cases h
    · have repeats : true = back.repeating := congrArg ByteRunInfo.repeating h
      rw [other] at repeats
      cases repeats
  · intro h
    unfold pushUncompressed
    cases last : infos.getLast? with
    | none => simp [h]
    | some back =>
      simp only
      split
      · simp [h]
      · next other =>
        rw [← List.dropLast_append_getLast? back last] at h
        rcases List.mem_append.mp h with h | h
        · simp [h]
        · obtain rfl := List.mem_singleton.mp h
          exact absurd rfl other

theorem pushUncompressed_apart
    (h : infos.IsChain fun i j => i.repeating = true ∨ j.repeating = true) :
    (pushUncompressed infos offset size).IsChain fun i j =>
      i.repeating = true ∨ j.repeating = true := by
  unfold pushUncompressed
  cases last : infos.getLast? with
  | none => simp [List.getLast?_eq_none_iff.mp last]
  | some back =>
    have eq := List.dropLast_append_getLast? back last
    simp only
    split
    · next repeats =>
      refine List.isChain_append.mpr ⟨h, .singleton _, fun x hx y hy => .inl ?_⟩
      obtain rfl : back = x := by simpa [last] using hx
      exact repeats
    · rw [← eq] at h
      obtain ⟨before, -, across⟩ := List.isChain_append.mp h
      refine List.isChain_append.mpr ⟨before, .singleton _, fun x hx y hy => ?_⟩
      obtain rfl : _ = y := by simpa using hy
      exact across x hx back (by simp)

section
variable (h : Scanned data infos offset) (aligned : offset % kByteRunAlignmentSize = 0)
  (more : offset < data.length)
include h aligned more

/-- A long run at the offset, rounded down, is a maximal one. -/
theorem Scanned.push (long : kMinRepeatingByteRunSize ≤ runSize (data.drop offset))
    (hsize : size = runSize (data.drop offset) -
      runSize (data.drop offset) % kByteRunAlignmentSize) :
    Scanned data (infos ++ [⟨offset, size, true⟩]) (offset + size) := by
  obtain ⟨v, run, after⟩ := runSize_run more
  simp only [kByteRunAlignmentSize, kMinRepeatingByteRunSize] at aligned long hsize
  have stops : ∀ o n, o ≤ offset + runSize (data.drop offset) →
      offset + runSize (data.drop offset) < o + n → ¬ Run data o n v := fun o n high past h =>
    after (h _ high past)
  have new : MaximalRun data offset size := by
    refine ⟨aligned, ?_, ?_, v, run.part le_rfl (by lia), fun far before => ?_, ?_⟩
    · simp only [kByteRunAlignmentSize]
      lia
    · simp only [kMinRepeatingByteRunSize]
      lia
    · exact h.edge far v before (run.part le_rfl (by simp only [kByteRunAlignmentSize]; lia))
    · exact stops _ _ (by lia) (by simp only [kByteRunAlignmentSize]; lia)
  refine ⟨fun i hi => ?_, fun o s => ?_, fun i hi other => ?_, ?_, fun far w before => ?_⟩
  · rcases List.mem_append.mp hi with hi | hi
    · exact h.words i hi
    · obtain rfl := List.mem_singleton.mp hi
      exact new.words
  · rw [List.mem_append, List.mem_singleton, h.runs]
    constructor
    · rintro (⟨maximal, before⟩ | same)
      · exact ⟨maximal, by lia⟩
      · cases same
        exact ⟨new, by lia⟩
    · rintro ⟨maximal, before⟩
      by_cases old : o < offset
      · exact .inl ⟨maximal, old⟩
      obtain ⟨aligned', words, long', u, run', left, right⟩ := maximal
      simp only [kByteRunAlignmentSize, kMinRepeatingByteRunSize] at aligned' words long' left right
      obtain rfl : u = v := run'.value (run.part (by lia) (by lia : o + 1 ≤ _)) (by lia) (by lia)
      have first : o = offset := by
        by_contra later
        exact left (by lia) (run.part (by lia) (by lia))
      subst first
      have most : s ≤ runSize (data.drop o) := by
        by_contra past
        exact stops o s (by lia) (by lia) run'
      have least : size < s + 8 := by
        by_contra fits
        exact right (run.part (by lia) (by lia))
      obtain rfl : s = size := by lia
      exact .inr rfl
  · rcases List.mem_append.mp hi with hi | hi
    · exact h.short i hi other
    · obtain rfl := List.mem_singleton.mp hi
      cases other
  · refine List.isChain_append.mpr ⟨h.apart, .singleton _, fun x hx y hy => .inr ?_⟩
    obtain rfl : _ = y := by simpa using hy
    rfl
  · simp only [kByteRunAlignmentSize] at before ⊢
    obtain rfl : w = v := before.value (run.part (by lia) (by lia : _ + 1 ≤ _)) (by lia) (by lia)
    exact stops _ _ (by lia) (by lia)

/-- A short run at the offset, rounded up, has no maximal one in it. -/
theorem Scanned.skip (short : runSize (data.drop offset) < kMinRepeatingByteRunSize)
    (hsize : size = runSize (data.drop offset) + (kByteRunAlignmentSize -
      runSize (data.drop offset) % kByteRunAlignmentSize) % kByteRunAlignmentSize) :
    Scanned data (pushUncompressed infos offset size) (offset + size) := by
  obtain ⟨v, run, after⟩ := runSize_run more
  have left : data.drop offset ≠ [] := by simpa using more
  obtain ⟨pos, -⟩ := runSize_bounds left
  simp only [kByteRunAlignmentSize, kMinRepeatingByteRunSize] at aligned short hsize
  have stops : ∀ o n, o ≤ offset + runSize (data.drop offset) →
      offset + runSize (data.drop offset) < o + n → ¬ Run data o n v := fun o n high past h =>
    after (h _ high past)
  have whole : size % 8 = 0 := by lia
  refine ⟨fun i hi => ?_, fun o s => ?_, fun i hi other => ?_, pushUncompressed_apart h.apart,
    fun far w before => ?_⟩
  · rcases mem_pushUncompressed hi with hi | rfl | ⟨back, hback, -, rfl⟩
    · exact h.words i hi
    · exact whole
    · have := h.words back hback
      simp only [kByteRunAlignmentSize] at this ⊢
      lia
  · rw [repeating_pushUncompressed, h.runs]
    constructor
    · rintro ⟨maximal, before⟩
      exact ⟨maximal, by lia⟩
    · rintro ⟨maximal, before⟩
      refine ⟨maximal, ?_⟩
      by_contra new
      obtain ⟨aligned', words, long, u, run', left, -⟩ := maximal
      simp only [kByteRunAlignmentSize, kMinRepeatingByteRunSize] at aligned' words long left
      obtain rfl : u = v := run'.value (run.part (by lia) (by lia : o + 1 ≤ _)) (by lia) (by lia)
      by_cases first : o = offset
      · subst first
        exact stops o s (by lia) (by lia) run'
      · exact left (by lia) (run.part (by lia) (by lia))
  · rcases mem_pushUncompressed hi with hi | rfl | ⟨back, hback, uncompressed, rfl⟩
    · exact h.short i hi other
    · intro w equal
      simp only [kMinRepeatingByteRunSize] at equal
      obtain rfl : w = v := equal.value run (by lia) pos
      exact stops _ _ (by lia) (by lia) equal
    · exact h.short back hback uncompressed
  · intro further
    simp only [kByteRunAlignmentSize] at before further
    -- the last word has a byte of the run
    obtain rfl : w = v := before.value (run.part (by lia) (by lia : _ + 1 ≤ _)) (by lia) (by lia)
    by_cases round : runSize (data.drop offset) % 8 = 0
    · exact stops _ _ (by lia) (by lia) further
    · exact stops _ _ (by lia) (by lia) before

end

theorem findRuns_scanned (aligned : data.length % kByteRunAlignmentSize = 0) :
    ∃ found, findRuns data data.length 0 [] = .ok found ∧
      Tile found data.length ∧ Scanned data found data.length := by
  apply findRuns_run (I := fun infos offset => Tile infos offset ∧ Scanned data infos offset)
    ?_ ?_ aligned ⟨.nil, scanned_nil⟩ (Nat.zero_mod _) (Nat.zero_le _) (Nat.le_add_left _ 0)
  · rintro infos offset ⟨tile, scanned⟩ start more long size hsize
    refine ⟨tile.snoc true ?_, scanned.push start more long hsize⟩
    simp only [kByteRunAlignmentSize, kMinRepeatingByteRunSize] at long hsize
    lia
  · rintro infos offset ⟨tile, scanned⟩ start more short size hsize
    have left : data.drop offset ≠ [] := by simpa using more
    have pos := (runSize_bounds left).1
    exact ⟨tile.pushUncompressed (by lia), scanned.skip start more short hsize⟩

/-- `IsRepeatingByteRun` of a part of the bytes. -/
theorem isRepeatingByteRun_part (length : ((data.drop o).take s).length = s) :
    isRepeatingByteRun ((data.drop o).take s) = true ↔
      kMinRepeatingByteRunSize ≤ s ∧ s % kByteRunAlignmentSize = 0 ∧ ∃ v, Run data o s v := by
  have part : ∀ j < s, ((data.drop o).take s)[j]? = data[o + j]? := by
    intro j hj
    rw [List.getElem?_take_of_lt hj, List.getElem?_drop]
  generalize hbytes : (data.drop o).take s = bytes at part length
  simp only [isRepeatingByteRun, length, Bool.and_eq_true, decide_eq_true_eq, beq_iff_eq,
    List.all_eq_true, and_assoc]
  apply and_congr_right
  intro long
  apply and_congr_right
  intro _
  constructor
  · intro equal
    refine ⟨bytes.getD 0 0, fun i low high => ?_⟩
    obtain ⟨j, rfl⟩ := Nat.exists_eq_add_of_le low
    have hj : j < bytes.length := by lia
    rw [← part j (by lia), List.getElem?_eq_getElem hj, equal _ (List.getElem_mem hj)]
  · rintro ⟨v, run⟩
    have at_j : ∀ j < s, bytes[j]? = some v := by
      intro j hj
      rw [part j hj]
      exact run _ (by lia) (by lia)
    have first : bytes.getD 0 0 = v := by
      simp only [kMinRepeatingByteRunSize] at long
      rw [List.getD_eq_getElem?_getD, at_j 0 (by lia)]
      rfl
    intro byte hbyte
    obtain ⟨j, hj, rfl⟩ := List.mem_iff_getElem.mp hbyte
    have here := at_j j (by lia)
    rw [List.getElem?_eq_getElem hj, Option.some.injEq] at here
    rw [first, here]

/-- A run is flagged as repeating exactly when its bytes should be encoded as one. -/
theorem Scanned.repeating_iff (h : Scanned data infos offset) {i : ByteRunInfo} (hi : i ∈ infos)
    (length : ((data.drop i.offset).take i.size).length = i.size) :
    isRepeatingByteRun ((data.drop i.offset).take i.size) = true ↔ i.repeating = true := by
  rw [isRepeatingByteRun_part length]
  constructor
  · rintro ⟨long, -, v, run⟩
    by_contra other
    exact h.short i hi (by simpa using other) v (run.part le_rfl (by lia))
  · intro repeats
    have listed : (⟨i.offset, i.size, true⟩ : ByteRunInfo) ∈ infos := by
      rw [← repeats]
      exact hi
    obtain ⟨⟨-, words, long, v, run, -⟩, -⟩ := (h.runs i.offset i.size).mp listed
    exact ⟨long, words, v, run⟩

/-- What is returned for bytes whose number is a multiple of the alignment. -/
structure Split (b : MemoryBytes) (cs : List MemoryBytes) : Prop where
  contiguous : MemoryBytes.Contiguous b.startAddress cs b.limitAddress
  bytes : (cs.map MemoryBytes.byteValues).flatten = b.byteValues
  words : ∀ c ∈ cs, c.byteValues.length % kByteRunAlignmentSize = 0
  runs : ∀ o s, MaximalRun b.byteValues o s ↔ ∃ c ∈ cs, c.startAddress = b.startAddress + o ∧
    c.byteValues.length = s ∧ isRepeatingByteRun c.byteValues = true
  apart : cs.IsChain fun c d =>
    isRepeatingByteRun c.byteValues = true ∨ isRepeatingByteRun d.byteValues = true

theorem isChain_forall₂ {α β : Type} {R : α → β → Prop} {P : α → α → Prop} {Q : β → β → Prop}
    {as : List α} {bs : List β} (rel : List.Forall₂ R as bs)
    (step : ∀ a a' b b', R a b → R a' b' → P a a' → Q b b') (h : as.IsChain P) : bs.IsChain Q := by
  induction rel with
  | nil => exact .nil
  | @cons a b as bs first rest ih =>
    cases rest with
    | nil => exact .singleton _
    | cons second rest =>
      obtain ⟨next, more⟩ := List.isChain_cons_cons.mp h
      exact List.isChain_cons_cons.mpr ⟨step _ _ _ _ first second next, ih more⟩

theorem getRepeatingByteRuns_split (aligned : b.byteValues.length % kByteRunAlignmentSize = 0) :
    ∃ cs, getRepeatingByteRuns b = .ok cs ∧ Split b cs := by
  obtain ⟨infos, found, tile, scanned⟩ := findRuns_scanned aligned
  obtain ⟨cs, run, -, -, -, contiguous, bytes, each⟩ := runBytes_run (b := b) tile le_rfl
  have both : List.Forall₂ (fun info c => (c.startAddress = b.startAddress + info.offset ∧
      c.byteValues.length = info.size) ∧ info ∈ infos ∧
      (isRepeatingByteRun c.byteValues = true ↔ info.repeating = true)) infos cs := by
    refine List.forall₂_iff_get.mpr ⟨each.length_eq, fun i hi hc => ?_⟩
    obtain ⟨start, values, length⟩ := each.get hi hc
    have listed : infos.get ⟨i, hi⟩ ∈ infos := List.get_mem _ _
    refine ⟨⟨start, length⟩, listed, ?_⟩
    rw [values] at length ⊢
    exact scanned.repeating_iff listed length
  refine ⟨cs, by rw [getRepeatingByteRuns, found]; exact run, contiguous, ?_, ?_, ?_, ?_⟩
  · rw [bytes, List.take_length]
  · intro c hc
    obtain ⟨info, _, ⟨-, length⟩, listed, -⟩ := forall₂_mem both hc
    rw [length]
    exact scanned.words info listed
  · intro o s
    constructor
    · intro maximal
      have inside : o < b.byteValues.length := by
        obtain ⟨-, -, long, v, equal, -⟩ := maximal
        simp only [kMinRepeatingByteRunSize] at long
        have here := equal o le_rfl (by lia)
        by_contra out
        rw [List.getElem?_eq_none (not_lt.mp out)] at here
        cases here
      obtain ⟨c, hc, ⟨start, length⟩, -, repeats⟩ :=
        forall₂_mem_left both ((scanned.runs o s).mpr ⟨maximal, inside⟩)
      exact ⟨c, hc, start, length, repeats.mpr rfl⟩
    · rintro ⟨c, hc, start, length, repeats⟩
      obtain ⟨info, hinfo, ⟨start', length'⟩, -, iff⟩ := forall₂_mem both hc
      have offset : info.offset = o := by lia
      have size : info.size = s := by lia
      have flag := iff.mp repeats
      refine ((scanned.runs o s).mp ?_).1
      rw [← offset, ← size, ← flag]
      exact hinfo
  · refine isChain_forall₂ both ?_ scanned.apart
    rintro i j c d ⟨-, -, first⟩ ⟨-, -, second⟩ apart
    rwa [first, second]

/-- What the list version requires of an element. -/
def Aligned (b : MemoryBytes) : Prop :=
  b.startAddress % kByteRunAlignmentSize = 0 ∧ b.byteValues.length % kByteRunAlignmentSize = 0

theorem aligned_iff : Aligned b ↔ b.startAddress % kByteRunAlignmentSize = 0 ∧
    b.limitAddress % kByteRunAlignmentSize = 0 := by
  simp only [Aligned, MemoryBytes.limitAddress, kByteRunAlignmentSize]
  lia

/-- The loop never aborts, and what it returns is each element's runs one after the other. -/
theorem runsOfList_settles (previousLimit : Option Address) (l : List MemoryBytes) :
    Settles (runsOfList previousLimit l) fun cs =>
    (∀ limit ∈ previousLimit, ∀ b ∈ l, limit ≤ b.startAddress) ∧ Ordered l ∧
      (∀ b ∈ l, Aligned b) ∧ ∃ parts, List.Forall₂ (fun b part =>
        getRepeatingByteRuns b = .ok part) l parts ∧ cs = parts.flatten := by
  induction l generalizing previousLimit with
  | nil => exact settles_ok ⟨by simp, .nil, by simp, [], .nil, rfl⟩
  | cons b l ih =>
    apply settles_bind (settles_self (Q := fun _ => True) (settles_ensure fun _ => trivial))
    rintro _ ⟨sorted, -⟩
    apply settles_bind (settles_self (Q := fun _ => True) (settles_ensure fun _ => trivial))
    rintro _ ⟨start, -⟩
    apply settles_bind (settles_self (Q := fun _ => True) (settles_ensure fun _ => trivial))
    rintro _ ⟨limit, -⟩
    simp only [ensure_eq_ok, decide_eq_true_eq] at sorted start limit
    have aligned := aligned_iff.mpr ⟨start, limit⟩
    obtain ⟨part, run, -⟩ := getRepeatingByteRuns_split aligned.2
    rw [run, ok_bind]
    apply settles_bind (ih _)
    rintro _ ⟨after, ordered, all, parts, each, rfl⟩
    refine settles_ok ⟨fun last hlast c hc => ?_, ?_, ?_, part :: parts, .cons run each, rfl⟩
    · have first : last ≤ b.startAddress := by
        rw [Option.mem_def.mp hlast] at sorted
        simpa using sorted
      rcases List.mem_cons.mp hc with rfl | hc
      · exact first
      · exact first.trans (b.start_lt_limit.le.trans (after _ rfl c hc))
    · exact List.pairwise_cons.mpr ⟨after _ rfl, ordered⟩
    · exact List.forall_mem_cons.mpr ⟨aligned, all⟩

theorem runsOfList_ok (sorted : ∀ limit ∈ previousLimit, ∀ b ∈ l, limit ≤ b.startAddress)
    (ordered : Ordered l) (aligned : ∀ b ∈ l, Aligned b) :
    ∃ cs, runsOfList previousLimit l = .ok cs := by
  induction l generalizing previousLimit with
  | nil => exact ⟨[], rfl⟩
  | cons b l ih =>
    obtain ⟨after, ordered⟩ := List.pairwise_cons.mp ordered
    obtain ⟨first, rest⟩ := List.forall_mem_cons.mp aligned
    obtain ⟨start, limit⟩ := aligned_iff.mp first
    obtain ⟨part, run, -⟩ := getRepeatingByteRuns_split first.2
    have later : ∀ limit ∈ some b.limitAddress, ∀ c ∈ l, limit ≤ c.startAddress := by
      rintro _ ⟨⟩ c hc
      exact after c hc
    obtain ⟨cs, more⟩ := ih later ordered rest
    have inOrder : (previousLimit.all fun limit => limit ≤ b.startAddress) = true := by
      cases previousLimit with
      | none => rfl
      | some last => simpa using sorted last rfl b (by simp)
    exact ⟨part ++ cs, by simp [runsOfList, ensure, inOrder, start, limit, run, more]⟩

/-- **Bytes whose number is a multiple of 8 are partitioned into their maximal runs and what
lies between these**; a list is refused exactly when it is unsorted or an element is unaligned. -/
theorem getRepeatingByteRuns_exact (aligned : b.byteValues.length % kByteRunAlignmentSize = 0)
    (l : List MemoryBytes) :
    (∃ cs, getRepeatingByteRuns b = .ok cs ∧ Split b cs) ∧
    getRepeatingByteRunsOfList l ≠ .error .abort ∧
    ((∃ cs, getRepeatingByteRunsOfList l = .ok cs) ↔ Ordered l ∧ ∀ b ∈ l, Aligned b) ∧
    ∀ cs, getRepeatingByteRunsOfList l = .ok cs → ∃ parts,
      List.Forall₂ (fun b part => getRepeatingByteRuns b = .ok part ∧ Split b part) l parts ∧
        cs = parts.flatten := by
  have settles := settles_iff.mp (runsOfList_settles none l)
  refine ⟨getRepeatingByteRuns_split aligned, settles.1, ?_, ?_⟩
  · constructor
    · rintro ⟨cs, run⟩
      obtain ⟨-, ordered, all, -⟩ := settles.2 cs run
      exact ⟨ordered, all⟩
    · rintro ⟨ordered, all⟩
      exact runsOfList_ok (by simp) ordered all
  · intro cs run
    obtain ⟨-, -, all, parts, each, eq⟩ := settles.2 cs run
    refine ⟨parts, ?_, eq⟩
    refine List.forall₂_iff_get.mpr ⟨each.length_eq, fun i hi hparts => ?_⟩
    have part := each.get hi hparts
    obtain ⟨cs, again, split⟩ := getRepeatingByteRuns_split (all _ (List.get_mem l ⟨i, hi⟩)).2
    obtain rfl := Except.ok.inj (again.symm.trans part)
    exact ⟨part, split⟩

/-- Twenty zeros in front of four other bytes. -/
def zerosFirst : MemoryBytes :=
  ⟨0x1000, List.replicate 20 0 ++ [1, 2, 3, 4], by decide, by decide⟩

theorem getRepeatingByteRuns_exact_zerosFirst :
    (∃ cs, getRepeatingByteRuns zerosFirst = .ok cs ∧ Split zerosFirst cs) ∧
    getRepeatingByteRunsOfList [zerosFirst] ≠ .error .abort ∧
    ((∃ cs, getRepeatingByteRunsOfList [zerosFirst] = .ok cs) ↔
      Ordered [zerosFirst] ∧ ∀ b ∈ [zerosFirst], Aligned b) ∧
    ∀ cs, getRepeatingByteRunsOfList [zerosFirst] = .ok cs → ∃ parts,
      List.Forall₂ (fun b part => getRepeatingByteRuns b = .ok part ∧ Split b part)
        [zerosFirst] parts ∧ cs = parts.flatten :=
  getRepeatingByteRuns_exact (by decide) [zerosFirst]

end RepeatingByteRuns

end Silifuzz
