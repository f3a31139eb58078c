import Silifuzz.Proxies.PageTable.Tree

/-!
# The translation that a page table stands for

* `Mapped`: the table of a set of mapped pages;
* `addPage_run`: what one turn of `AddContiguousMapping` adds to it;
* `walk_mapped`: the walk finds the mapped pages and no others;
* `walk_requested`: so it translates what was asked for by any sequence of calls.
-/

namespace Silifuzz

namespace PageTable

open BitStruct Checked

namespace PageTableCreator

structure Mapped (arch : Architecture) (c : PageTableCreator) (f : Leaves) : Prop where
  shape : Shape c
  content : Content arch c f
  chain : Chain arch c 3
  allows : ∀ q pa w x, f q = some (pa, w, x) → Allows arch c 3 q w x
  proper : ∀ q pa w x, f q = some (pa, w, x) → pa < 2 ^ 48 ∧ pa % 2 ^ 12 = 0
  aligned : c.pageTableAddr % 2 ^ 12 = 0

/-- The pages with one more. -/
def Leaves.add (f : Leaves) (q : Nat) (t : Nat × Bool × Bool) : Leaves :=
  fun q' => if q' = q then some t else f q'

variable {arch : Architecture} {c c' : PageTableCreator} {f : Leaves} {l i e va pa : Nat}
  {w x : Bool}

theorem msbs_page (small : pa < 2 ^ 48) (aligned : pa % 2 ^ 12 = 0) :
    get pa PhysicalAddress.physicalAddressMsbs * 2 ^ 12 = pa := by
  rw [get_eq]
  simp only [PhysicalAddress.physicalAddressMsbs, Field.width]
  omega

/-- A page entry is written where it does not conflict with the one that is there. -/
theorem createPageDescriptor_run {t : Option (Nat × Bool × Bool)} {entry : Nat}
    (proper : ∀ pa w x, t = some (pa, w, x) → pa < 2 ^ 48 ∧ pa % 2 ^ 12 = 0)
    (small : pa < 2 ^ 48) (aligned : pa % 2 ^ 12 = 0)
    (run : createPageDescriptor arch (leafEntry arch t) pa w x = .ok entry) :
    entry = newPageDescriptor pa w x arch ∧ (t = none ∨ t = some (pa, w, x)) := by
  unfold createPageDescriptor at run
  dsimp only at run
  split at run
  · cases run
  · next same =>
    obtain rfl := Except.ok.inj run
    refine ⟨rfl, ?_⟩
    match t with
    | none => exact .inl rfl
    | some (pa', w', x') =>
      have equal : newPageDescriptor pa' w' x' arch = newPageDescriptor pa w x arch := by
        by_contra differ
        exact same ⟨pageDescriptorValid_new arch pa' w' x', differ⟩
      obtain ⟨page, rfl, rfl⟩ := newPageDescriptor_inj equal
      obtain ⟨small', aligned'⟩ := proper pa' w' x' rfl
      have : pa' = pa := by
        rw [← msbs_page small' aligned', ← msbs_page small aligned, page]
      exact .inr (by rw [this])

/-- Writing an entry of the last level. -/
theorem setPage_run (shape : Shape c) (content : Content arch c f) (chain : Chain arch c 3)
    {q : Nat} (page : c.pageOf 3 (q / 512) = some i) :
    Content arch (c.setEntry (i + q % 512) (newPageDescriptor pa w x arch))
        (Leaves.add f q (pa, w, x)) ∧
      Chain arch (c.setEntry (i + q % 512) (newPageDescriptor pa w x arch)) 3 ∧
      Extends arch c (c.setEntry (i + q % 512) (newPageDescriptor pa w x arch)) := by
  have above : ∀ l q', l < 3 → (c.setEntry (i + q % 512) (newPageDescriptor pa w x arch)).entryOf
      l q' = c.entryOf l q' := by
    intro l q' bound
    rw [entryOf_setEntry shape page, if_neg (by omega)]
  have written : Extends arch c (c.setEntry (i + q % 512) (newPageDescriptor pa w x arch)) :=
    ⟨rfl, fun _ _ _ h => h,
      fun l q' pa' w' x' bound at_e => ⟨w', x', (above l q' bound).trans at_e, id, id⟩,
      (length_setEntry _ _).ge⟩
  refine ⟨⟨fun l q' e bound at_e => ?_, fun q' e at_e => ?_, fun q' t at_q => ?_⟩,
    fun l q' pa' w' x' bound at_e => ?_, written⟩
  · rw [above l q' bound] at at_e
    exact content.table l q' e bound at_e
  · rw [entryOf_setEntry shape page] at at_e
    by_cases same : q' = q
    · subst same
      rw [if_pos ⟨rfl, rfl⟩] at at_e
      obtain rfl := Option.some.inj at_e
      rw [Leaves.add, if_pos rfl, leafEntry]
    · rw [if_neg (by simp [same])] at at_e
      rw [Leaves.add, if_neg same]
      exact content.leaf q' e at_e
  · rw [entryOf_setEntry shape page]
    by_cases same : q' = q
    · exact ⟨_, if_pos ⟨rfl, same⟩⟩
    · rw [Leaves.add, if_neg same] at at_q
      rw [if_neg (by simp [same])]
      exact content.there q' t at_q
  · rw [above l q' bound] at at_e
    exact (chain l q' pa' w' x' bound at_e).mono written (by omega)

/-- What one turn of the loop of `AddContiguousMapping` does. -/
theorem addPage_run (mapped : Mapped arch c f) (inSpace : va < 2 ^ 48) (small : pa < 2 ^ 48)
    (aligned : pa % 2 ^ 12 = 0) (run : addPage arch c va pa w x = .ok c') :
    (f (va / 2 ^ 12) = none ∨ f (va / 2 ^ 12) = some (pa, w, x)) ∧
      Mapped arch c' (Leaves.add f (va / 2 ^ 12) (pa, w, x)) ∧ Extends arch c c' := by
  rw [← node_three]
  obtain ⟨c₁, i, index, shape₁, grown, page⟩ :=
    getPageTableEntryIndex_run mapped.shape inSpace (le_refl 3)
  obtain ⟨e, at_e, get_e⟩ := shape₁.entry page
  have content₁ := mapped.content.grown grown
  obtain ⟨c₂, setup, run⟩ := bind_eq_ok.mp run
  simp only [setupPageDescriptor, index, List.getD_eq_getElem?_getD, get_e,
    Option.getD_some] at setup
  obtain ⟨entry, create, setup⟩ := bind_eq_ok.mp setup
  obtain rfl := Except.ok.inj setup
  rw [plus_eq_ok, content₁.leaf _ e at_e] at create
  obtain ⟨rfl, known⟩ := createPageDescriptor_run (mapped.proper _) small aligned create
  obtain ⟨content₂, chain₂, written⟩ :=
    setPage_run shape₁ content₁ (mapped.chain.grown le_rfl grown) page
  have parent : (c₁.setEntry (i + node va 3 % 512) (newPageDescriptor pa w x arch)).pageOf 3
      (node va 2) = some i := by
    rw [pageOf_setEntry, ← node_div (by decide : 2 < 3)]
    exact page
  have done := setupTableDescriptor_run (setEntry_shape shape₁ _ _) content₂ chain₂
    (by decide) inSpace parent (w := w) (x := x)
  obtain rfl := Except.ok.inj run
  have after := grown.extends.trans (written.trans done.extends')
  refine ⟨known, ⟨done.shape, done.content, done.chain, fun q pa' w' x' at_q => ?_,
    fun q pa' w' x' at_q => ?_, by rw [after.addr]; exact mapped.aligned⟩, after⟩
  · unfold Leaves.add at at_q
    split at at_q
    · next same =>
      obtain ⟨rfl, rfl, rfl⟩ : pa = pa' ∧ w = w' ∧ x = x' := by simpa using at_q
      rw [same]
      exact done.allows
    · exact (mapped.allows q pa' w' x' at_q).mono after le_rfl
  · unfold Leaves.add at at_q
    split at at_q
    · obtain ⟨rfl, -, -⟩ : pa = pa' ∧ w = w' ∧ x = x' := by simpa using at_q
      exact ⟨small, aligned⟩
    · exact mapped.proper q pa' w' x' at_q

theorem Allows.node {m : Nat} (allows : Allows arch c m (node va m) w x) (bound : m ≤ 3)
    (lower : l < m) : ∃ j w' x', c.pageOf (l + 1) (PageTable.node va l) = some j ∧
      c.entryOf l (PageTable.node va l) = some (tableDescriptor arch (c.next j) w' x') ∧
      (w = true → w' = true) ∧ (x = true → x' = true) := by
  induction m with
  | zero => omega
  | succ m ih =>
    obtain ⟨here, above⟩ := allows
    rw [node_div (by omega)] at here above
    rcases Nat.lt_succ_iff_lt_or_eq.mp lower with before | rfl
    · exact ih above (by omega) before
    · exact here

/-- The entries are where the walk reads them. -/
theorem memory_entry {q : Nat} (page : c.pageOf l (q / 512) = some i)
    (at_e : c.entryOf l q = some e) :
    c.memory (i * 8 + c.pageTableAddr + 8 * (q % 512)) = some e := by
  rw [entryOf, page, Option.bind_some] at at_e
  have index : (i * 8 + c.pageTableAddr + 8 * (q % 512) - c.pageTableAddr) / 8 = i + q % 512 := by
    omega
  rw [memory, if_pos (by omega), index, at_e]

/-- A pointer to a page of a table that fits is read back as it is. -/
theorem next_page {p : Nat} (shape : Shape c) (aligned : c.pageTableAddr % 2 ^ 12 = 0)
    (fits : c.pageTableAddr + c.entries.length * 8 ≤ 2 ^ 48) (page : c.pageOf l p = some i) :
    get (c.next i) PhysicalAddress.physicalAddressMsbs * 2 ^ 12 = i * 8 + c.pageTableAddr := by
  obtain ⟨⟨k, rfl⟩, inside⟩ := shape.placed l p i page
  have small : 512 * k * 8 + c.pageTableAddr < 2 ^ 48 := by omega
  rw [next, Nat.mod_eq_of_lt (small.trans (by decide)), msbs_page small (by omega)]

/-- What the walk finds where `t` is mapped. -/
def translation (va : Nat) : Option (Nat × Bool × Bool) → Option Translation
  | none => none
  | some (pa, w, x) => some ⟨pa + va % 2 ^ 12, ⟨w, x⟩⟩

/-- The walk from the page of a level on, in any memory that has the table in it. -/
theorem walkFrom_mapped {memory : Nat → Option Nat} (mapped : Mapped arch c f)
    (loaded : ∀ p e, c.memory p = some e → memory p = some e)
    (fits : c.pageTableAddr + c.entries.length * 8 ≤ 2 ^ 48) {below : Nat}
    (level : below + l = 3) (page : c.pageOf l (node va l / 512) = some i) :
    walkFrom arch memory va below (i * 8 + c.pageTableAddr) =
      translation va (f (node va 3)) := by
  obtain ⟨e, at_e, -⟩ := mapped.shape.entry page
  induction below generalizing l i e with
  | zero =>
    obtain rfl : l = 3 := by omega
    rw [walkFrom, tableIndex_eq, loaded _ _ (memory_entry page at_e), mapped.content.leaf _ e at_e]
    match known : f (node va 3) with
    | none => simp [leafEntry, pageEntry_zero, translation]
    | some (pa, w, x) =>
      obtain ⟨small, aligned⟩ := mapped.proper _ pa w x known
      simp only [Option.bind_eq_bind, Option.bind_some, leafEntry,
        pageEntry_newPageDescriptor, msbs_page small aligned]
      rfl
  | succ below ih =>
    obtain rfl : l = 2 - below := by omega
    have levels : 2 - below < 3 := by omega
    rw [walkFrom, tableIndex_eq, loaded _ _ (memory_entry page at_e)]
    rcases mapped.content.table _ _ e levels at_e with rfl | ⟨j, w', x', child, rfl⟩
    · match known : f (node va 3) with
      | none => simp [tableEntry_zero, translation]
      | some (pa, w, x) =>
        obtain ⟨j, w', x', -, at_e', -⟩ :=
          (mapped.allows _ pa w x known).node le_rfl levels
        exact absurd (Option.some.inj (at_e'.symm.trans at_e)) (tableDescriptor_ne_zero _ _ _ _)
    · have parent : node va (2 - below + 1) / 512 = node va (2 - below) := node_div levels
      have child' := child
      rw [← parent] at child'
      obtain ⟨e', at_e', -⟩ := mapped.shape.entry child'
      have rest := ih (by omega) child' e' at_e'
      simp only [Option.bind_eq_bind, Option.bind_some, tableEntry_tableDescriptor,
        next_page mapped.shape mapped.aligned fits child, rest]
      match known : f (node va 3) with
      | none => rfl
      | some (pa, w, x) =>
        obtain ⟨j', w'', x'', -, at_e'', hw, hx⟩ :=
          (mapped.allows _ pa w x known).node le_rfl levels
        obtain ⟨rfl, rfl⟩ := tableDescriptor_inj (Option.some.inj (at_e.symm.trans at_e''))
        have through : (⟨w, x⟩ : Access).through ⟨w', x'⟩ = ⟨w, x⟩ := by
          cases w <;> cases x <;> simp_all [Access.through]
        simp [translation, through]

/-- **The walk of a table translates the mapped pages and nothing else.** -/
theorem walk_mapped {memory : Nat → Option Nat} (mapped : Mapped arch c f)
    (loaded : ∀ p e, c.memory p = some e → memory p = some e)
    (fits : c.pageTableAddr + c.entries.length * 8 ≤ 2 ^ 48) (small : va < 2 ^ 48) :
    walk arch memory c.pageTableAddr va = translation va (f (va / 2 ^ 12)) := by
  have root : c.pageOf 0 (node va 0 / 512) = some 0 := by
    rw [node_zero_div small]
    exact mapped.shape.root
  have found := walkFrom_mapped mapped loaded fits (rfl : 3 + 0 = 3) root
  rw [Nat.zero_mul, Nat.zero_add] at found
  exact found

/-- Some request maps the page `q` to `t`. -/
def Requested (requests : List (MemoryMapping × Nat)) (q : Nat) (t : Nat × Bool × Bool) : Prop :=
  ∃ r ∈ requests, ∃ k, k * 2 ^ 12 < r.1.numBytes ∧ q = (r.1.startAddress + k * 2 ^ 12) / 2 ^ 12 ∧
    t = (r.2 + k * 2 ^ 12, r.1.perms.has .kWritable, r.1.perms.has .kExecutable)

theorem checkAlignmentAndSize_eq_ok {value : Nat} {descriptor : String} {u : Unit} :
    checkAlignmentAndSize value descriptor = .ok u ↔ value < 2 ^ 48 ∧ value % 2 ^ 12 = 0 := by
  unfold checkAlignmentAndSize
  rw [kAddressWidthBits, Nat.shiftRight_eq_div_pow, kTranslationGranule]
  split
  · simp only [reduceCtorEq, false_iff]
    omega
  · split
    · simp only [reduceCtorEq, false_iff]
      omega
    · simp only [true_iff]
      omega

theorem Leaves.add_iff {q q' : Nat} {t t' : Nat × Bool × Bool}
    (free : f q = none ∨ f q = some t) :
    Leaves.add f q t q' = some t' ↔ f q' = some t' ∨ q' = q ∧ t' = t := by
  unfold Leaves.add
  split
  · next same =>
    subst same
    rw [Option.some.injEq, eq_comm]
    rcases free with free | free <;> simp [free, eq_comm]
  · next other => simp [other]

theorem requested_append (requests : List (MemoryMapping × Nat)) (r : MemoryMapping × Nat)
    (q : Nat) (t : Nat × Bool × Bool) :
    Requested (requests ++ [r]) q t ↔ Requested requests q t ∨ Requested [r] q t := by
  simp only [Requested, List.mem_append, List.mem_singleton, or_and_right, exists_or]

/-- A creator that has only been given `requests`. -/
structure Sent (arch : Architecture) (c : PageTableCreator)
    (requests : List (MemoryMapping × Nat)) : Prop where
  inSpace : ∀ r ∈ requests, r.1.startAddress % 2 ^ 12 = 0 ∧ r.1.numBytes % 2 ^ 12 = 0 ∧
    r.1.startAddress + r.1.numBytes ≤ 2 ^ 48
  mapped : ∃ f, Mapped arch c f ∧ ∀ q t, f q = some t ↔ Requested requests q t

/-- What `AddContiguousMapping` checks of a mapping and its physical address. -/
structure Fits (m : MemoryMapping) (pa : Nat) : Prop where
  start : m.startAddress % 2 ^ 12 = 0
  size : m.numBytes < 2 ^ 48 ∧ m.numBytes % 2 ^ 12 = 0
  limit : m.startAddress + m.numBytes ≤ 2 ^ 48
  physical : pa % 2 ^ 12 = 0
  physicalLimit : pa + m.numBytes ≤ 2 ^ 48

variable {requests : List (MemoryMapping × Nat)} {m : MemoryMapping}

theorem addContiguousMapping_eq_ok : addContiguousMapping arch c m pa = .ok c' ↔
    Fits m pa ∧ (List.range (m.numBytes / 2 ^ 12)).foldlM (fun c page =>
      addPage arch c (m.startAddress + page * 2 ^ 12) (pa + page * 2 ^ 12)
        (m.perms.has .kWritable) (m.perms.has .kExecutable)) c = .ok c' := by
  have nonempty := m.nonempty
  have pages : m.numBytes % 2 ^ 12 = 0 →
      (m.numBytes + kTranslationGranule - 1) / kTranslationGranule = m.numBytes / 2 ^ 12 := by
    intro whole
    rw [kTranslationGranule]
    omega
  constructor
  · intro run
    obtain ⟨_, h₁, run⟩ := bind_eq_ok.mp run
    obtain ⟨_, h₂, run⟩ := bind_eq_ok.mp run
    obtain ⟨_, h₃, run⟩ := bind_eq_ok.mp run
    obtain ⟨_, h₄, run⟩ := bind_eq_ok.mp run
    obtain ⟨_, h₅, run⟩ := bind_eq_ok.mp run
    rw [checkAlignmentAndSize_eq_ok] at h₁ h₂ h₃ h₄ h₅
    rw [pages h₃.2] at run
    rw [kTranslationGranule] at h₄ h₅
    exact ⟨⟨h₁.2, h₃, by lia, h₂.2, by lia⟩, run⟩
  · rintro ⟨fits, run⟩
    obtain ⟨start, size, limit, physical, physicalLimit⟩ := fits
    have h₁ : checkAlignmentAndSize m.startAddress "starting virtual_addr" = .ok () :=
      checkAlignmentAndSize_eq_ok.mpr ⟨by lia, start⟩
    have h₂ : checkAlignmentAndSize pa "starting physical_addr" = .ok () :=
      checkAlignmentAndSize_eq_ok.mpr ⟨by lia, physical⟩
    have h₃ : checkAlignmentAndSize m.numBytes "size" = .ok () :=
      checkAlignmentAndSize_eq_ok.mpr size
    have h₄ : checkAlignmentAndSize (m.startAddress + m.numBytes - kTranslationGranule)
        "ending virtual_addr" = .ok () := by
      rw [checkAlignmentAndSize_eq_ok, kTranslationGranule]
      constructor <;> lia
    have h₅ : checkAlignmentAndSize (pa + m.numBytes - kTranslationGranule)
        "ending physical_addr" = .ok () := by
      rw [checkAlignmentAndSize_eq_ok, kTranslationGranule]
      constructor <;> lia
    rw [addContiguousMapping, h₁, h₂, h₃, h₄, h₅, pages size.2]
    exact run

/-- The pages of the requests and the first `n` pages of one more mapping are mapped. -/
def Partly (arch : Architecture) (requests : List (MemoryMapping × Nat)) (m : MemoryMapping)
    (pa n : Nat) (c : PageTableCreator) : Prop :=
  ∃ f, Mapped arch c f ∧ ∀ q t, f q = some t ↔ Requested requests q t ∨
    ∃ k, k < n ∧ q = (m.startAddress + k * 2 ^ 12) / 2 ^ 12 ∧
      t = (pa + k * 2 ^ 12, m.perms.has .kWritable, m.perms.has .kExecutable)

theorem partly_none (sent : Sent arch c requests) : Partly arch requests m pa 0 c := by
  obtain ⟨f, mapped, requested⟩ := sent.mapped
  exact ⟨f, mapped, by simpa using requested⟩

theorem partly_page {n : Nat} (fits : Fits m pa) (below : n < m.numBytes / 2 ^ 12)
    (partly : Partly arch requests m pa n c)
    (turn : addPage arch c (m.startAddress + n * 2 ^ 12) (pa + n * 2 ^ 12)
      (m.perms.has .kWritable) (m.perms.has .kExecutable) = .ok c') :
    Partly arch requests m pa (n + 1) c' ∧ c'.pageTableAddr = c.pageTableAddr := by
  obtain ⟨f, mapped, known⟩ := partly
  obtain ⟨start, size, limit, physical, physicalLimit⟩ := fits
  obtain ⟨free, mapped', extends'⟩ := addPage_run mapped (by lia) (by lia) (by lia) turn
  refine ⟨⟨_, mapped', fun q t => ?_⟩, extends'.addr⟩
  rw [Leaves.add_iff free, known, or_assoc]
  apply or_congr_right
  constructor
  · rintro (⟨k, before, found⟩ | ⟨rfl, rfl⟩)
    · exact ⟨k, by omega, found⟩
    · exact ⟨n, by omega, rfl, rfl⟩
  · rintro ⟨k, upTo, rfl, rfl⟩
    rcases Nat.lt_succ_iff_lt_or_eq.mp upTo with before | rfl
    · exact .inl ⟨k, before, rfl, rfl⟩
    · exact .inr ⟨rfl, rfl⟩

/-- All its pages make a mapping one of the requests. -/
theorem partly_all (sent : Sent arch c requests) (fits : Fits m pa)
    (partly : Partly arch requests m pa (m.numBytes / 2 ^ 12) c') :
    Sent arch c' (requests ++ [(m, pa)]) := by
  obtain ⟨f, mapped, known⟩ := partly
  obtain ⟨start, size, limit, physical, physicalLimit⟩ := fits
  constructor
  · intro r hr
    rcases List.mem_append.mp hr with old | new
    · exact sent.inSpace r old
    · obtain rfl := List.mem_singleton.mp new
      exact ⟨start, size.2, limit⟩
  · refine ⟨f, mapped, fun q t => ?_⟩
    rw [known, requested_append]
    apply or_congr_right
    simp only [Requested, List.mem_singleton, exists_eq_left]
    refine exists_congr fun k => and_congr_left' ?_
    omega

/-- `AddContiguousMapping` adds its pages. -/
theorem addContiguousMapping_run (sent : Sent arch c requests)
    (run : addContiguousMapping arch c m pa = .ok c') :
    Sent arch c' (requests ++ [(m, pa)]) ∧ c'.pageTableAddr = c.pageTableAddr := by
  obtain ⟨fits, run⟩ := addContiguousMapping_eq_ok.mp run
  obtain ⟨partly, addr⟩ := range_after (fun n c' => Partly arch requests m pa n c' ∧
    c'.pageTableAddr = c.pageTableAddr) ⟨partly_none sent, rfl⟩ (fun n below c₁ c₂ before turn => by
      obtain ⟨partly, same⟩ := partly_page fits below before.1 turn
      exact ⟨partly, same.trans before.2⟩) run
  exact ⟨partly_all sent fits partly, addr⟩

/-- The table of a new creator: the root page, which is empty. -/
theorem mapped_root {addr : Nat} (aligned : addr % 2 ^ 12 = 0) :
    Mapped arch (grow ⟨[], [], addr⟩ 0 0) fun _ => none := by
  have pages := pageOf_grow ⟨[], [], addr⟩ 0 0
  have only : ∀ l p i, (grow ⟨[], [], addr⟩ 0 0).pageOf l p = some i → l = 0 ∧ p = 0 ∧ i = 0 := by
    intro l p i at_i
    rw [pages] at at_i
    split at at_i
    · next same => exact ⟨same.1, same.2, (Option.some.inj at_i).symm⟩
    · cases at_i
  have zero : ∀ l q e, (grow ⟨[], [], addr⟩ 0 0).entryOf l q = some e → l = 0 ∧ e = 0 := by
    intro l q e at_e
    obtain ⟨i, at_i, read⟩ := Option.bind_eq_some_iff.mp at_e
    exact ⟨(only l _ i at_i).1, List.eq_of_mem_replicate (List.mem_of_getElem? read)⟩
  refine ⟨⟨by rw [pages]; rfl, ⟨1, by rw [grow]; exact List.length_replicate⟩, ?_, ?_⟩,
    ⟨?_, ?_, ?_⟩, ?_, ?_, ?_, aligned⟩
  · intro l p i at_i
    obtain ⟨-, -, rfl⟩ := only l p i at_i
    exact ⟨Nat.dvd_zero 512, (List.length_replicate (n := 512) (a := 0)).ge⟩
  · intro l p l' p' i at_i at_i'
    obtain ⟨rfl, rfl, -⟩ := only l p i at_i
    obtain ⟨rfl, rfl, -⟩ := only l' p' i at_i'
    exact ⟨rfl, rfl⟩
  · intro l q e _ at_e
    exact .inl (zero l q e at_e).2
  · intro q e at_e
    exact (zero 3 q e at_e).2
  · simp
  · intro l q pa w x _ at_e
    exact absurd (zero l q _ at_e).2 (tableDescriptor_ne_zero arch pa w x)
  · simp
  · simp

theorem create_run {addr : Nat} (run : create addr = .ok c) :
    Sent arch c [] ∧ c.pageTableAddr = addr := by
  unfold create at run
  split at run
  · next aligned =>
    obtain rfl := Except.ok.inj run
    refine ⟨⟨by simp, fun _ => none, mapped_root (checkAlignmentAndSize_eq_ok.mp aligned).2, ?_⟩, rfl⟩
    simp [Requested]
  · cases run

theorem addMappings_run {c₀ : PageTableCreator}
    (sent : Sent arch c₀ []) (run : addMappings arch c₀ requests = .ok c) :
    Sent arch c requests ∧ c.pageTableAddr = c₀.pageTableAddr := by
  refine foldlM_after (fun (done : List (MemoryMapping × Nat)) c =>
    Sent arch c done ∧ c.pageTableAddr = c₀.pageTableAddr) ⟨sent, rfl⟩ ?_ run
  rintro done r rest c₁ c₂ - ⟨sent₁, addr₁⟩ turn
  obtain ⟨sent₂, addr₂⟩ := addContiguousMapping_run sent₁ turn
  exact ⟨sent₂, addr₂.trans addr₁⟩

/-- The walk in a memory that has the table in it, at the addresses that were requested. -/
theorem Sent.walk_covered {memory : Nat → Option Nat}
    (sent : Sent arch c requests) (loaded : ∀ p e, c.memory p = some e → memory p = some e)
    (fits : c.pageTableAddr + c.entries.length * 8 ≤ 2 ^ 48) {r : MemoryMapping × Nat}
    (hr : r ∈ requests) (covers : r.1.Covers va) :
    walk arch memory c.pageTableAddr va = some ⟨r.2 + (va - r.1.startAddress),
      ⟨r.1.perms.has .kWritable, r.1.perms.has .kExecutable⟩⟩ := by
  obtain ⟨f, mapped, requested⟩ := sent.mapped
  obtain ⟨start, size, limit⟩ := sent.inSpace r hr
  obtain ⟨low, high⟩ := covers
  change r.1.startAddress ≤ va at low
  change va < r.1.startAddress + r.1.numBytes at high
  have known : f (va / 2 ^ 12) = some (r.2 + (va - r.1.startAddress) / 2 ^ 12 * 2 ^ 12,
      r.1.perms.has .kWritable, r.1.perms.has .kExecutable) := by
    refine (requested _ _).mpr ⟨r, hr, (va - r.1.startAddress) / 2 ^ 12, ?_, ?_, rfl⟩
    · lia
    · lia
  rw [walk_mapped mapped loaded fits (by lia), known, translation]
  congr 2
  lia

/-- The walk at the addresses that were not. -/
theorem Sent.walk_outside {memory : Nat → Option Nat}
    (sent : Sent arch c requests) (loaded : ∀ p e, c.memory p = some e → memory p = some e)
    (fits : c.pageTableAddr + c.entries.length * 8 ≤ 2 ^ 48) (small : va < 2 ^ 48)
    (outside : ∀ r ∈ requests, ¬ r.1.Covers va) : walk arch memory c.pageTableAddr va = none := by
  obtain ⟨f, mapped, requested⟩ := sent.mapped
  rw [walk_mapped mapped loaded fits small]
  cases known : f (va / 2 ^ 12) with
  | none => rfl
  | some t =>
    obtain ⟨r, hr, k, inside, page, -⟩ := (requested _ t).mp known
    obtain ⟨start, size, limit⟩ := sent.inSpace r hr
    refine absurd ?_ (outside r hr)
    change r.1.startAddress ≤ va ∧ va < r.1.startAddress + r.1.numBytes
    constructor <;> lia

/-- **Whatever is added to a page table, the walk from its root translates the addresses of
the mappings as requested, with their permissions, and no other address.** -/
theorem walk_requested {requests : List (MemoryMapping × Nat)} {addr : Nat}
    {c₀ : PageTableCreator} (created : create addr = .ok c₀)
    (added : addMappings arch c₀ requests = .ok c)
    (fits : addr + c.entries.length * 8 ≤ 2 ^ 48) :
    (∀ r ∈ requests, ∀ va, r.1.Covers va →
      walk arch c.memory addr va = some ⟨r.2 + (va - r.1.startAddress),
        ⟨r.1.perms.has .kWritable, r.1.perms.has .kExecutable⟩⟩) ∧
      ∀ va < 2 ^ 48, (∀ r ∈ requests, ¬ r.1.Covers va) → walk arch c.memory addr va = none := by
  obtain ⟨sent₀, rfl⟩ : Sent arch c₀ [] ∧ _ := create_run created
  obtain ⟨sent, same⟩ := addMappings_run sent₀ added
  rw [← same] at fits ⊢
  constructor
  · intro r hr va covers
    exact sent.walk_covered (fun _ _ h => h) fits hr covers
  · intro va small outside
    exact sent.walk_outside (fun _ _ h => h) fits small outside

theorem dataPage_bounded : 0x22000 + 0x1000 ≤ kMaxAddress := by decide

/-- A page of code and one of data, with a hole between them, in the same tables. -/
def codeAndData : List (MemoryMapping × Nat) :=
  [(⟨0x20000, 0x1000, .xr, MemoryMapping.page_nonempty, MemoryMapping.freePage_bounded,
      MemoryPerms.proper_xr, MemoryPerms.unmapped_xr⟩, 0x1000),
    (⟨0x22000, 0x1000, .rw, MemoryMapping.page_nonempty, dataPage_bounded,
      MemoryPerms.proper_rw, MemoryPerms.unmapped_rw⟩, 0x5000)]

/-- The table for them. -/
def codeTable : PageTableCreator :=
  ((addMappings .kAArch64 ⟨List.replicate entriesPerPage 0, [((0, 0), 0)], 0x10000⟩
    codeAndData).toOption).getD ⟨[], [], 0⟩

theorem walk_requested_code :
    walk .kAArch64 codeTable.memory 0x10000 0x20222 = some ⟨0x1222, ⟨false, true⟩⟩ ∧
      walk .kAArch64 codeTable.memory 0x10000 0x22333 = some ⟨0x5333, ⟨true, false⟩⟩ ∧
      walk .kAArch64 codeTable.memory 0x10000 0x21000 = none := by
  have walks := @walk_requested .kAArch64 codeTable codeAndData 0x10000 _ rfl
    (by decide +kernel) (by decide +kernel)
  exact ⟨walks.1 _ (.head _) 0x20222 (by decide),
    walks.1 _ (.tail _ (.head _)) 0x22333 (by decide), walks.2 0x21000 (by decide) (by decide)⟩

end PageTableCreator

end PageTable

end Silifuzz
