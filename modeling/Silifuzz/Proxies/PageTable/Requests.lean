import Silifuzz.Proxies.PageTable.Translation
import Mathlib.Data.Finset.Card
import Mathlib.Data.Finset.Prod

/-!
# How large a table is

A table has its root and, on each level below it, one page for every interval that a mapped
page lies in:

* `Counted`: no page is made twice, and none that is not needed;
* `Sent.length_eq`: so the size depends on the virtual addresses only.
-/

namespace Silifuzz

namespace PageTable

open BitStruct Checked

/-- The pages of virtual memory in a mapping. -/
def virtualPages (m : MemoryMapping) : List Nat :=
  (List.range (m.numBytes / kTranslationGranule)).map fun page =>
    (m.startAddress + page * kTranslationGranule) / kTranslationGranule

/-- The pages of the table for the mappings, by level and number. -/
def tablePages (mappings : List MemoryMapping) : Finset (Nat × Nat) :=
  insert (0, 0) ((mappings.flatMap virtualPages).flatMap fun q =>
    [(1, q / 2 ^ 27), (2, q / 2 ^ 18), (3, q / 2 ^ 9)]).toFinset

/-- The size of the table in 64-bit words. -/
def tableWords (mappings : List MemoryMapping) : Nat :=
  entriesPerPage * (tablePages mappings).card

theorem mem_virtualPages {m : MemoryMapping} {q : Nat} :
    q ∈ virtualPages m ↔ ∃ k, k < m.numBytes / 2 ^ 12 ∧
      (m.startAddress + k * 2 ^ 12) / 2 ^ 12 = q := by
  simp only [virtualPages, List.mem_map, List.mem_range, kTranslationGranule, Nat.reducePow]

theorem mem_tablePages {mappings : List MemoryMapping} {l p : Nat} :
    (l, p) ∈ tablePages mappings ↔ l = 0 ∧ p = 0 ∨ ∃ m ∈ mappings, ∃ q ∈ virtualPages m,
      (1 ≤ l ∧ l ≤ 3) ∧ p = q / 2 ^ (36 - 9 * l) := by
  simp only [tablePages, Finset.mem_insert, Prod.mk.injEq, List.mem_toFinset, List.mem_flatMap]
  apply or_congr_right
  constructor
  · rintro ⟨q, ⟨m, hm, hq⟩, at_p⟩
    refine ⟨m, hm, q, hq, ?_⟩
    simp only [List.mem_cons, Prod.mk.injEq, List.not_mem_nil, or_false] at at_p
    rcases at_p with ⟨rfl, rfl⟩ | ⟨rfl, rfl⟩ | ⟨rfl, rfl⟩ <;> exact ⟨by decide, rfl⟩
  · rintro ⟨m, hm, q, hq, ⟨low, high⟩, rfl⟩
    refine ⟨q, ⟨m, hm, hq⟩, ?_⟩
    interval_cases l <;> simp

theorem tableWords_le {mappings : List MemoryMapping}
    (inSpace : ∀ m ∈ mappings, m.startAddress + m.numBytes ≤ 2 ^ 48) :
    tableWords mappings ≤ 2 ^ 38 := by
  have inside : tablePages mappings ⊆ Finset.range 4 ×ˢ Finset.range (2 ^ 27) := by
    rintro ⟨l, p⟩ hp
    rw [Finset.mem_product, Finset.mem_range, Finset.mem_range]
    rcases mem_tablePages.mp hp with ⟨rfl, rfl⟩ | ⟨m, hm, q, hq, ⟨low, high⟩, rfl⟩
    · exact ⟨by decide, by decide⟩
    · obtain ⟨k, below, rfl⟩ := mem_virtualPages.mp hq
      have limit := inSpace m hm
      refine ⟨by omega, ?_⟩
      dsimp only
      interval_cases l <;> lia
  have card := Finset.card_le_card inside
  rw [Finset.card_product, Finset.card_range, Finset.card_range] at card
  rw [tableWords, entriesPerPage]
  omega

/-- The page of the table that has the entry for an address. -/
theorem node_page {va l : Nat} (h : l ≤ 3) : node va l / 512 = va / 2 ^ 12 / 2 ^ (36 - 9 * l) := by
  rw [node, Nat.div_div_eq_div_mul, Nat.div_div_eq_div_mul]
  interval_cases l <;> rfl

namespace PageTableCreator

theorem newPageDescriptor_lt (arch : Architecture) (pa : Nat) (w x : Bool) :
    newPageDescriptor pa w x arch < 2 ^ 64 := by
  cases arch <;> cases w <;> cases x <;> exact set_lt (by decide)

theorem updateTableDescriptor_lt (arch : Architecture) {entry : Nat} (h : entry < 2 ^ 64)
    (pa : Nat) (w x : Bool) : updateTableDescriptor arch entry pa w x < 2 ^ 64 := by
  have existing : (if tableDescriptorValid entry arch = 0 then newTableDescriptor pa arch
      else entry) < 2 ^ 64 := by
    split
    · cases arch <;> exact set_lt (by decide)
    · exact h
  unfold updateTableDescriptor
  cases arch <;> cases w <;> cases x <;> first | exact existing | exact set_lt (by decide)

/-- Every page was made once, and only where it may be; the entries are words. -/
structure Counted (may : Nat → Nat → Prop) (c : PageTableCreator) : Prop where
  length : c.entries.length = 512 * c.pageTables.length
  once : (c.pageTables.map Prod.fst).Nodup
  only : ∀ key ∈ c.pageTables.map Prod.fst, ∃ l p, may l p ∧ key = (l, p * 2 ^ (48 - 9 * l))
  word : ∀ e ∈ c.entries, e < 2 ^ 64

variable {arch : Architecture} {c c' : PageTableCreator} {may may' : Nat → Nat → Prop}
  {l i va pa : Nat} {w x : Bool}

theorem Counted.mono (counted : Counted may c) (more : ∀ l p, may l p → may' l p) :
    Counted may' c := by
  refine ⟨counted.length, counted.once, fun key hk => ?_, counted.word⟩
  obtain ⟨l, p, h, rfl⟩ := counted.only key hk
  exact ⟨l, p, more l p h, rfl⟩

theorem Counted.setEntry (counted : Counted may c) (k : Nat) {e : Nat} (word : e < 2 ^ 64) :
    Counted may (c.setEntry k e) := by
  refine ⟨(length_setEntry k e).trans counted.length, counted.once, counted.only, fun e' he => ?_⟩
  rcases List.mem_or_eq_of_mem_set he with old | rfl
  · exact counted.word e' old
  · exact word

theorem Counted.existing (counted : Counted may c) (k : Nat) : c.entries.getD k 0 < 2 ^ 64 := by
  rw [List.getD_eq_getElem?_getD]
  cases known : c.entries[k]? with
  | none => exact Nat.two_pow_pos 64
  | some e => exact counted.word e (List.mem_of_getElem? known)

theorem getPageTableEntryIndex_counted (counted : Counted may c) (small : va < 2 ^ 48)
    (h : l ≤ 3) (path : may l (node va l / 512)) (run : c.getPageTableEntryIndex va l = (c', i)) :
    Counted may c' := by
  unfold getPageTableEntryIndex at run
  rw [startingInterval_eq h small] at run
  split at run
  · obtain ⟨rfl, -⟩ := Prod.mk.inj run
    exact counted
  · next absent =>
    obtain ⟨rfl, -⟩ := Prod.mk.inj run
    constructor
    · simp only [List.length_append, List.length_replicate, entriesPerPage, List.length_cons,
        counted.length]
      omega
    · rw [List.map_cons, List.nodup_cons]
      refine ⟨fun old => ?_, counted.once⟩
      obtain ⟨⟨key, page⟩, hp, same⟩ := List.mem_map.mp old
      have differ := List.lookup_eq_none_iff.mp absent (key, page) hp
      rw [same] at differ
      simp at differ
    · intro key hk
      rcases List.mem_cons.mp hk with rfl | old
      · exact ⟨l, _, path, rfl⟩
      · exact counted.only key old
    · intro e he
      rcases List.mem_append.mp he with old | new
      · exact counted.word e old
      · rw [List.eq_of_mem_replicate new]
        exact Nat.two_pow_pos 64

theorem setupTableDescriptor_counted (shape : Shape c) (counted : Counted may c) (above : l < 3)
    (small : va < 2 ^ 48) (page : c.pageOf (l + 1) (node va l) = some i)
    (path : ∀ k ≤ l, may k (node va k / 512)) :
    Counted may (setupTableDescriptor arch l c va w x) := by
  induction l generalizing c i with
  | zero =>
    obtain ⟨c₁, j, run, shape₁, grown, -⟩ := getPageTableEntryIndex_run shape small above.le
    have counted₁ := getPageTableEntryIndex_counted counted small above.le (path 0 le_rfl) run
    unfold setupTableDescriptor
    simp only [run, pageTable_run small above (grown.pages _ _ _ page)]
    split
    · exact counted₁
    · exact counted₁.setEntry _ (updateTableDescriptor_lt arch (counted₁.existing _) _ _ _)
  | succ l ih =>
    obtain ⟨c₁, j, run, shape₁, grown, parent⟩ := getPageTableEntryIndex_run shape small above.le
    have counted₁ := getPageTableEntryIndex_counted counted small above.le (path _ le_rfl) run
    rw [node_div (by omega)] at parent
    unfold setupTableDescriptor
    simp only [run, pageTable_run small above (grown.pages _ _ _ page)]
    split
    · exact counted₁
    · exact ih (setEntry_shape shape₁ _ _)
        (counted₁.setEntry _ (updateTableDescriptor_lt arch (counted₁.existing _) _ _ _))
        (by omega) parent fun k lower => path k (by omega)

theorem addPage_counted (shape : Shape c) (counted : Counted may c) (small : va < 2 ^ 48)
    (path : ∀ k ≤ 3, may k (node va k / 512)) (run : addPage arch c va pa w x = .ok c') :
    Counted may c' := by
  obtain ⟨c₁, i, index, shape₁, -, page⟩ := getPageTableEntryIndex_run shape small (le_refl 3)
  have counted₁ := getPageTableEntryIndex_counted counted small le_rfl (path 3 le_rfl) index
  obtain ⟨c₂, setup, run⟩ := bind_eq_ok.mp run
  simp only [setupPageDescriptor, index] at setup
  obtain ⟨entry, created, setup⟩ := bind_eq_ok.mp setup
  obtain rfl := Except.ok.inj setup
  obtain rfl := Except.ok.inj run
  have word : entry < 2 ^ 64 := by
    rw [plus_eq_ok, createPageDescriptor] at created
    split at created
    · cases created
    · rw [← Except.ok.inj created]
      exact newPageDescriptor_lt arch pa w x
  rw [node_div (by decide : 2 < 3)] at page
  exact setupTableDescriptor_counted (setEntry_shape shape₁ _ _) (counted₁.setEntry _ word)
    (by decide) small page fun k lower => path k (by omega)

variable {requests : List (MemoryMapping × Nat)} {m : MemoryMapping}

theorem addContiguousMapping_counted (sent : Sent arch c requests)
    (counted : Counted (fun l p => (l, p) ∈ tablePages (requests.map Prod.fst)) c)
    (run : addContiguousMapping arch c m pa = .ok c') :
    Counted (fun l p => (l, p) ∈ tablePages ((requests ++ [(m, pa)]).map Prod.fst)) c' := by
  obtain ⟨fits, run⟩ := addContiguousMapping_eq_ok.mp run
  have more : ∀ l p, (l, p) ∈ tablePages (requests.map Prod.fst) →
      (l, p) ∈ tablePages ((requests ++ [(m, pa)]).map Prod.fst) := by
    intro l p old
    rw [mem_tablePages] at old ⊢
    refine old.imp_right fun ⟨m', hm, rest⟩ => ⟨m', ?_, rest⟩
    rw [List.map_append]
    exact List.mem_append_left _ hm
  refine (range_after (fun n c' => Partly arch requests m pa n c' ∧
    Counted (fun l p => (l, p) ∈ tablePages ((requests ++ [(m, pa)]).map Prod.fst)) c')
    ⟨partly_none sent, counted.mono more⟩ (fun n below c₁ c₂ before turn => ?_) run).2
  obtain ⟨partly, counted₁⟩ := before
  obtain ⟨partly', -⟩ := partly_page fits below partly turn
  obtain ⟨f, mapped, -⟩ := partly
  have limit := fits.limit
  refine ⟨partly', addPage_counted mapped.shape counted₁ (by lia) (fun k lower => ?_) turn⟩
  rw [mem_tablePages, node_page lower]
  rcases Nat.eq_zero_or_pos k with rfl | pos
  · refine .inl ⟨rfl, ?_⟩
    lia
  · exact .inr ⟨m, by simp, _, mem_virtualPages.mpr ⟨n, below, rfl⟩, ⟨pos, lower⟩, rfl⟩

/-- The pages of the tables for what was requested are there. -/
theorem Sent.page (sent : Sent arch c requests) {p : Nat}
    (h : (l, p) ∈ tablePages (requests.map Prod.fst)) : ∃ i, c.pageOf l p = some i := by
  obtain ⟨f, mapped, requested⟩ := sent.mapped
  rcases mem_tablePages.mp h with ⟨rfl, rfl⟩ | ⟨m, hm, q, hq, ⟨low, high⟩, rfl⟩
  · exact ⟨0, mapped.shape.root⟩
  · obtain ⟨r, hr, rfl⟩ := List.mem_map.mp hm
    obtain ⟨k, below, rfl⟩ := mem_virtualPages.mp hq
    have known := (requested _ _).mpr ⟨r, hr, k, by omega, rfl, rfl⟩
    obtain ⟨l, rfl⟩ := Nat.exists_eq_add_of_le' low
    have allows := mapped.allows _ _ _ _ known
    rw [← node_three] at allows
    obtain ⟨j, w', x', page, -⟩ := allows.node le_rfl (by omega : l < 3)
    refine ⟨j, ?_⟩
    rw [← node_page (by omega), node_div (by omega)]
    exact page

/-- **The size of a table depends on the mappings only.** -/
theorem Sent.length_eq (sent : Sent arch c requests)
    (counted : Counted (fun l p => (l, p) ∈ tablePages (requests.map Prod.fst)) c) :
    c.entries.length = tableWords (requests.map Prod.fst) := by
  have keys : (c.pageTables.map Prod.fst).toFinset =
      (tablePages (requests.map Prod.fst)).image fun page =>
        (page.1, page.2 * 2 ^ (48 - 9 * page.1)) := by
    ext key
    rw [List.mem_toFinset, Finset.mem_image]
    constructor
    · intro hk
      obtain ⟨l, p, needed, rfl⟩ := counted.only key hk
      exact ⟨(l, p), needed, rfl⟩
    · rintro ⟨⟨l, p⟩, needed, rfl⟩
      obtain ⟨i, found⟩ := sent.page needed
      obtain ⟨before, after, tables, -⟩ := List.lookup_eq_some_iff.mp found
      rw [tables]
      simp
  have same : c.pageTables.length = (tablePages (requests.map Prod.fst)).card := by
    rw [← List.length_map (f := Prod.fst), ← List.toFinset_card_of_nodup counted.once, keys,
      Finset.card_image_of_injective]
    rintro ⟨l, p⟩ ⟨l', p'⟩ equal
    obtain ⟨rfl, pages⟩ : l = l' ∧ p * 2 ^ (48 - 9 * l) = p' * 2 ^ (48 - 9 * l') :=
      Prod.mk.inj equal
    rw [Nat.eq_of_mul_eq_mul_right (Nat.two_pow_pos _) pages]
  rw [counted.length, same, tableWords, entriesPerPage]

/-- A new table has its root only. -/
theorem create_counted {addr : Nat} (run : create addr = .ok c) :
    Counted (fun l p => (l, p) ∈ tablePages []) c := by
  unfold create at run
  split at run
  · obtain rfl := Except.ok.inj run
    refine ⟨List.length_replicate, List.nodup_singleton _, fun key hk => ?_, fun e he => ?_⟩
    · obtain rfl : key = (0, 0) := by simpa using hk
      exact ⟨0, 0, mem_tablePages.mpr (.inl ⟨rfl, rfl⟩), rfl⟩
    · rw [List.eq_of_mem_replicate he]
      exact Nat.two_pow_pos 64
  · cases run

end PageTableCreator

end PageTable

end Silifuzz

/-!
## When a mapping is accepted

`AddContiguousMapping` never aborts. It fails only on a mapping that does not fit, or that
sends an address elsewhere than a mapping before it.
-/

namespace Silifuzz

namespace PageTable

open BitStruct Checked

namespace PageTableCreator

/-- Where a request sends an address, and what it allows there. -/
def sends (r : MemoryMapping × Nat) (va : Nat) : Translation :=
  ⟨r.2 + (va - r.1.startAddress), ⟨r.1.perms.has .kWritable, r.1.perms.has .kExecutable⟩⟩

/-- What two requests have in common they send to the same place. -/
def Agree (r r' : MemoryMapping × Nat) : Prop :=
  ∀ va, r.1.Covers va → r'.1.Covers va → sends r va = sends r' va

variable {arch : Architecture} {c c' : PageTableCreator} {f : Leaves} {va pa : Nat} {w x : Bool}
  {requests : List (MemoryMapping × Nat)} {m : MemoryMapping}

theorem pageDescriptorValid_zero (arch : Architecture) : pageDescriptorValid 0 arch = 0 := by
  cases arch <;> rfl

theorem createPageDescriptor_ok {t : Option (Nat × Bool × Bool)}
    (free : t = none ∨ t = some (pa, w, x)) :
    createPageDescriptor arch (leafEntry arch t) pa w x = .ok (newPageDescriptor pa w x arch) := by
  apply if_neg
  rintro ⟨valid, differ⟩
  rcases free with rfl | rfl
  · exact valid (pageDescriptorValid_zero arch)
  · exact differ rfl

theorem addPage_ok (mapped : Mapped arch c f) (small : va < 2 ^ 48)
    (free : f (va / 2 ^ 12) = none ∨ f (va / 2 ^ 12) = some (pa, w, x)) :
    ∃ c', addPage arch c va pa w x = .ok c' := by
  obtain ⟨c₁, i, index, shape₁, grown, page⟩ :=
    getPageTableEntryIndex_run mapped.shape small (le_refl 3)
  obtain ⟨e, at_e, get_e⟩ := shape₁.entry page
  have content₁ := mapped.content.grown grown
  rw [← node_three] at free
  have setup : c.setupPageDescriptor arch va pa w x =
      .ok (c₁.setEntry (i + node va 3 % 512) (newPageDescriptor pa w x arch)) := by
    simp only [setupPageDescriptor, index, List.getD_eq_getElem?_getD, get_e, Option.getD_some,
      content₁.leaf _ e at_e, createPageDescriptor_ok free, plus_ok, ok_bind]
  exact ⟨_, bind_eq_ok.mpr ⟨_, setup, rfl⟩⟩

/-- A page of a mapping that agrees with the requests is not taken by another. -/
theorem partly_free {n : Nat} (sent : Sent arch c' requests) (fits : Fits m pa)
    (below : n < m.numBytes / 2 ^ 12) (agree : ∀ r ∈ requests, Agree r (m, pa))
    {t : Nat × Bool × Bool}
    (known : Requested requests ((m.startAddress + n * 2 ^ 12) / 2 ^ 12) t ∨
      ∃ k, k < n ∧ (m.startAddress + n * 2 ^ 12) / 2 ^ 12 = (m.startAddress + k * 2 ^ 12) / 2 ^ 12 ∧
        t = (pa + k * 2 ^ 12, m.perms.has .kWritable, m.perms.has .kExecutable)) :
    t = (pa + n * 2 ^ 12, m.perms.has .kWritable, m.perms.has .kExecutable) := by
  obtain ⟨start, size, limit, physical, physicalLimit⟩ := fits
  rcases known with ⟨r, hr, k, inside, page, rfl⟩ | ⟨k, before, page, -⟩
  · obtain ⟨start', -, -⟩ := sent.inSpace r hr
    have same : m.startAddress + n * 2 ^ 12 = r.1.startAddress + k * 2 ^ 12 := by lia
    have covers : r.1.Covers (m.startAddress + n * 2 ^ 12) := by
      change r.1.startAddress ≤ _ ∧ _ < r.1.startAddress + r.1.numBytes
      lia
    have covers' : m.Covers (m.startAddress + n * 2 ^ 12) := by
      change m.startAddress ≤ _ ∧ _ < m.startAddress + m.numBytes
      lia
    have equal := agree r hr _ covers covers'
    simp only [sends, Translation.mk.injEq, Access.mk.injEq] at equal
    obtain ⟨address, writes, executes⟩ := equal
    rw [writes, executes, Prod.mk.injEq]
    refine ⟨?_, rfl⟩
    lia
  · lia

theorem addContiguousMapping_ok (sent : Sent arch c requests) (fits : Fits m pa)
    (agree : ∀ r ∈ requests, Agree r (m, pa)) :
    ∃ c', addContiguousMapping arch c m pa = .ok c' := by
  have limit := fits.limit
  obtain ⟨c', run, -⟩ := range_ok (n := m.numBytes / 2 ^ 12)
    (f := fun c page => addPage arch c (m.startAddress + page * 2 ^ 12) (pa + page * 2 ^ 12)
      (m.perms.has .kWritable) (m.perms.has .kExecutable))
    (fun n c' => Partly arch requests m pa n c') (partly_none sent) (fun n below c₁ partly => by
      obtain ⟨f, mapped, known⟩ := partly
      obtain ⟨c₂, turn⟩ : ∃ c₂, addPage arch c₁ (m.startAddress + n * 2 ^ 12) (pa + n * 2 ^ 12)
          (m.perms.has .kWritable) (m.perms.has .kExecutable) = .ok c₂ := by
        apply addPage_ok mapped (by lia)
        cases taken : f ((m.startAddress + n * 2 ^ 12) / 2 ^ 12) with
        | none => exact .inl rfl
        | some t =>
          rw [partly_free sent fits below agree ((known _ _).mp taken)]
          exact .inr rfl
      exact ⟨c₂, turn, (partly_page fits below ⟨f, mapped, known⟩ turn).1⟩)
  exact ⟨c', addContiguousMapping_eq_ok.mpr ⟨fits, run⟩⟩

theorem checkAlignmentAndSize_settles (value : Nat) (descriptor : String) :
    Settles (checkAlignmentAndSize value descriptor) fun _ => True := by
  unfold checkAlignmentAndSize
  split
  · exact settles_status _ _
  · split
    · exact settles_status _ _
    · exact settles_ok trivial

theorem createPageDescriptor_settles (arch : Architecture) (entry pa : Nat) (w x : Bool) :
    Settles (createPageDescriptor arch entry pa w x) fun _ => True := by
  unfold createPageDescriptor
  dsimp only
  split
  · exact settles_status _ _
  · exact settles_ok trivial

theorem addPage_settles (arch : Architecture) (c : PageTableCreator) (va pa : Nat) (w x : Bool) :
    Settles (addPage arch c va pa w x) fun _ => True := by
  apply settles_bind (Q := fun _ => True)
  · apply settles_bind (Q := fun _ => True)
    · exact settles_plus (createPageDescriptor_settles _ _ _ _ _)
    · exact fun _ _ => settles_ok trivial
  · exact fun _ _ => settles_ok trivial

/-- `AddContiguousMapping` returns a status. -/
theorem addContiguousMapping_settles (arch : Architecture) (c : PageTableCreator)
    (m : MemoryMapping) (pa : Nat) :
    Settles (addContiguousMapping arch c m pa) fun _ => True := by
  unfold addContiguousMapping
  refine settles_bind (checkAlignmentAndSize_settles _ _) fun _ _ => ?_
  refine settles_bind (checkAlignmentAndSize_settles _ _) fun _ _ => ?_
  refine settles_bind (checkAlignmentAndSize_settles _ _) fun _ _ => ?_
  refine settles_bind (checkAlignmentAndSize_settles _ _) fun _ _ => ?_
  refine settles_bind (checkAlignmentAndSize_settles _ _) fun _ _ => ?_
  exact settles_foldlM (fun _ _ => True) trivial fun _ _ _ _ _ _ => addPage_settles _ _ _ _ _ _

/-- More mappings that fit and agree with each other and all before them are added. -/
theorem addMappings_ok {more : List (MemoryMapping × Nat)} (sent : Sent arch c requests)
    (fits : ∀ r ∈ more, Fits r.1 r.2) (agree : (requests ++ more).Pairwise Agree) :
    ∃ c', addMappings arch c more = .ok c' := by
  obtain ⟨c', run, -⟩ := foldlM_ok
    (l := more) (f := fun c r => addContiguousMapping arch c r.1 r.2)
    (fun done c' => Sent arch c' (requests ++ done)) (by simpa using sent)
    (fun done r rest c₁ parts sent₁ => by
      rw [parts, ← List.append_assoc] at agree
      have before := (List.pairwise_append.mp agree).2.2
      obtain ⟨c₂, turn⟩ := addContiguousMapping_ok sent₁ (fits r (by rw [parts]; simp))
        fun r' hr => before r' hr r List.mem_cons_self
      refine ⟨c₂, turn, ?_⟩
      rw [← List.append_assoc]
      exact (addContiguousMapping_run sent₁ turn).1)
  exact ⟨c', run⟩

/-- `AddContiguousMapping` of several mappings to a new table. -/
theorem addMappings_settles {addr : Nat} (created : create addr = .ok c)
    (requests : List (MemoryMapping × Nat)) : Settles (addMappings arch c requests) fun c' =>
      Sent arch c' requests ∧ c'.pageTableAddr = addr ∧
        Counted (fun l p => (l, p) ∈ tablePages (requests.map Prod.fst)) c' := by
  obtain ⟨sent, same⟩ : Sent arch c [] ∧ _ := create_run created
  refine settles_foldlM (fun done c' => Sent arch c' done ∧ c'.pageTableAddr = addr ∧
    Counted (fun l p => (l, p) ∈ tablePages (done.map Prod.fst)) c')
    ⟨sent, same, create_counted created⟩ fun done r rest c₁ _ before => ?_
  obtain ⟨sent₁, same₁, counted₁⟩ := before
  refine settles_post (settles_self (addContiguousMapping_settles arch c₁ r.1 r.2)) ?_
  rintro c₂ ⟨turn, -⟩
  obtain ⟨sent₂, same₂⟩ := addContiguousMapping_run sent₁ turn
  exact ⟨sent₂, same₂.trans same₁, addContiguousMapping_counted sent₁ counted₁ turn⟩

theorem Sent.physical (sent : Sent arch c requests) {r : MemoryMapping × Nat}
    (hr : r ∈ requests) : r.2 < 2 ^ 48 := by
  obtain ⟨f, mapped, requested⟩ := sent.mapped
  have first := (requested _ _).mpr
    ⟨r, hr, 0, by rw [Nat.zero_mul]; exact r.1.nonempty, rfl, rfl⟩
  have := (mapped.proper _ _ _ _ first).1
  omega

end PageTableCreator

end PageTable

end Silifuzz
