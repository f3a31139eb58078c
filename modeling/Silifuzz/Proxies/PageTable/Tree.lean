import Silifuzz.Proxies.PageTable.Shape

/-!
# The table as a tree

What the entries of the levels say, and how `SetupTableDescriptor` keeps it:

* `Content`: an entry above the last level is empty or points to the page below it, and the
  last level holds the pages that are mapped;
* `Allows`: all levels above an entry let an access through;
* `Chain`: what an entry above the last level lets through, the levels above it do too, which
  the early return counts on;
* `setupTableDescriptor_run`: the levels above a page let its access through afterwards.
-/

namespace Silifuzz

namespace PageTable

/-- The mapped pages: the physical address and whether they are writeable and executable. -/
abbrev Leaves := Nat → Option (Nat × Bool × Bool)

def leafEntry (arch : Architecture) : Option (Nat × Bool × Bool) → Nat
  | none => 0
  | some (pa, writeable, executable) => newPageDescriptor pa writeable executable arch

namespace PageTableCreator

/-- The physical address of a page of the table. -/
def next (c : PageTableCreator) (page : Nat) : Nat := (page * 8 + c.pageTableAddr) % 2 ^ 64

structure Content (arch : Architecture) (c : PageTableCreator) (f : Leaves) : Prop where
  table : ∀ l q e, l < 3 → c.entryOf l q = some e →
    e = 0 ∨ ∃ j w x, c.pageOf (l + 1) q = some j ∧ e = tableDescriptor arch (c.next j) w x
  leaf : ∀ q e, c.entryOf 3 q = some e → e = leafEntry arch (f q)
  there : ∀ q t, f q = some t → ∃ e, c.entryOf 3 q = some e

/-- The levels above the entry `q` of the level let the access through. -/
def Allows (arch : Architecture) (c : PageTableCreator) : Nat → Nat → Bool → Bool → Prop
  | 0, _, _, _ => True
  | l + 1, q, w, x =>
    (∃ j w' x', c.pageOf (l + 1) (q / 512) = some j ∧
      c.entryOf l (q / 512) = some (tableDescriptor arch (c.next j) w' x') ∧
      (w = true → w' = true) ∧ (x = true → x' = true)) ∧ Allows arch c l (q / 512) w x

/-- In the first `levels`, what an entry lets through the levels above it do too. -/
def Chain (arch : Architecture) (c : PageTableCreator) (levels : Nat) : Prop :=
  ∀ l q pa w x, l < levels → c.entryOf l q = some (tableDescriptor arch pa w x) →
    Allows arch c l q w x

/-- Pages stay where they are, and table descriptors let no less through. -/
structure Extends (arch : Architecture) (c c' : PageTableCreator) : Prop where
  addr : c'.pageTableAddr = c.pageTableAddr
  pages : ∀ l p i, c.pageOf l p = some i → c'.pageOf l p = some i
  tables : ∀ l q pa w x, l < 3 → c.entryOf l q = some (tableDescriptor arch pa w x) →
    ∃ w' x', c'.entryOf l q = some (tableDescriptor arch pa w' x') ∧
      (w = true → w' = true) ∧ (x = true → x' = true)
  length : c.entries.length ≤ c'.entries.length

variable {arch : Architecture} {c c' c'' : PageTableCreator} {f : Leaves} {l q i e va : Nat}
  {w x w' x' : Bool}

theorem Extends.next_eq (h : Extends arch c c') (page : Nat) : c'.next page = c.next page := by
  rw [next, next, h.addr]

theorem Grown.extends (h : Grown c c') : Extends arch c c' :=
  ⟨h.addr, h.pages, fun l q _ w x _ at_e => ⟨w, x, h.entries l q _ at_e, id, id⟩, h.length⟩

theorem Extends.trans (h : Extends arch c c') (h' : Extends arch c' c'') :
    Extends arch c c'' := by
  refine ⟨h'.addr.trans h.addr, fun l p i at_i => h'.pages l p i (h.pages l p i at_i),
    fun l q pa w x above at_e => ?_, h.length.trans h'.length⟩
  obtain ⟨w₁, x₁, at₁, hw₁, hx₁⟩ := h.tables l q pa w x above at_e
  obtain ⟨w₂, x₂, at₂, hw₂, hx₂⟩ := h'.tables l q pa w₁ x₁ above at₁
  exact ⟨w₂, x₂, at₂, hw₂ ∘ hw₁, hx₂ ∘ hx₁⟩

theorem Allows.mono (h : Extends arch c c') (bound : l ≤ 3) (allows : Allows arch c l q w x) :
    Allows arch c' l q w x := by
  induction l generalizing q with
  | zero => trivial
  | succ l ih =>
    obtain ⟨⟨j, w₁, x₁, page, at_e, hw, hx⟩, above⟩ := allows
    obtain ⟨w₂, x₂, at₂, hw₂, hx₂⟩ := h.tables l _ _ _ _ (by omega) at_e
    refine ⟨⟨j, w₂, x₂, h.pages _ _ _ page, ?_, hw₂ ∘ hw, hx₂ ∘ hx⟩, ih (by omega) above⟩
    rw [h.next_eq, at₂]

theorem Allows.weaken (allows : Allows arch c l q w x) (hw : w' = true → w = true)
    (hx : x' = true → x = true) : Allows arch c l q w' x' := by
  induction l generalizing q with
  | zero => trivial
  | succ l ih =>
    obtain ⟨⟨j, w₁, x₁, page, at_e, hw₁, hx₁⟩, above⟩ := allows
    exact ⟨⟨j, w₁, x₁, page, at_e, hw₁ ∘ hw, hx₁ ∘ hx⟩, ih above⟩

/-- Two accesses that are let through are let through together. -/
theorem Allows.both (allows : Allows arch c l q w x) (allows' : Allows arch c l q w' x') :
    Allows arch c l q (w || w') (x || x') := by
  induction l generalizing q with
  | zero => trivial
  | succ l ih =>
    obtain ⟨⟨j, w₁, x₁, page, at_e, hw₁, hx₁⟩, above⟩ := allows
    obtain ⟨⟨j', w₂, x₂, -, at_e', hw₂, hx₂⟩, above'⟩ := allows'
    obtain ⟨rfl, rfl⟩ := tableDescriptor_inj (Option.some.inj (at_e.symm.trans at_e'))
    refine ⟨⟨j, w₁, x₁, page, at_e, fun h => ?_, fun h => ?_⟩, ih above above'⟩
    · exact (Bool.or_eq_true_iff.mp h).elim hw₁ hw₂
    · exact (Bool.or_eq_true_iff.mp h).elim hx₁ hx₂

theorem Content.grown (content : Content arch c f) (h : Grown c c') :
    Content arch c' f := by
  refine ⟨fun l q e above at_e => ?_, fun q e at_e => ?_, fun q t at_q => ?_⟩
  · rcases h.fresh l q e at_e with old | ⟨-, zero⟩
    · rcases content.table l q e above old with zero | ⟨j, w, x, page, rfl⟩
      · exact .inl zero
      · exact .inr ⟨j, w, x, h.pages _ _ _ page, by rw [next, next, h.addr]⟩
    · exact .inl zero
  · rcases h.fresh 3 q e at_e with old | ⟨absent, zero⟩
    · exact content.leaf q e old
    · cases known : f q with
      | none => exact zero
      | some t =>
        obtain ⟨_, there⟩ := content.there q t known
        rw [absent] at there
        cases there
  · obtain ⟨e, there⟩ := content.there q t at_q
    exact ⟨e, h.entries 3 q e there⟩

theorem Chain.grown {levels : Nat} (chain : Chain arch c levels) (bound : levels ≤ 3)
    (h : Grown c c') : Chain arch c' levels := by
  intro l q pa w x below at_e
  rcases h.fresh l q _ at_e with old | ⟨-, zero⟩
  · exact (chain l q pa w x below old).mono h.extends (by omega)
  · exact absurd zero (tableDescriptor_ne_zero arch pa w x)

theorem pageTable_run (small : va < 2 ^ 48) (h : l < 3)
    (page : c.pageOf (l + 1) (node va l) = some i) : c.pageTable va (l + 1) = (c, i) := by
  have key : c.pageTables.lookup (l + 1, startingInterval va (l + 1)) = some i := by
    rw [startingInterval_eq (by omega) small, node_div h]
    exact page
  rw [pageTable, key]

/-- What `UpdateTableDescriptor` makes of an entry that is empty or points to the page `i`. -/
theorem update_run (content : Content arch c f) (above : l < 3)
    (page : c.pageOf (l + 1) q = some i) (at_e : c.entryOf l q = some e) (w x : Bool) :
    (e = 0 ∧ updateTableDescriptor arch e (c.next i) w x = tableDescriptor arch (c.next i) w x) ∨
      ∃ w₀ x₀, e = tableDescriptor arch (c.next i) w₀ x₀ ∧
        updateTableDescriptor arch e (c.next i) w x =
          tableDescriptor arch (c.next i) (w₀ || w) (x₀ || x) := by
  rcases content.table l q e above at_e with rfl | ⟨j, w₀, x₀, page', rfl⟩
  · exact .inl ⟨rfl, updateTableDescriptor_zero arch _ w x⟩
  · obtain rfl := Option.some.inj (page.symm.trans page')
    exact .inr ⟨w₀, x₀, rfl, updateTableDescriptor_table arch _ _ w₀ x₀ w x⟩

/-- Writing a table descriptor that lets no less through. -/
theorem setTable_run {j : Nat} (shape : Shape c) (content : Content arch c f) (above : l < 3)
    (page : c.pageOf l (q / 512) = some j) (child : c.pageOf (l + 1) q = some i)
    (more : ∀ pa w₀ x₀, c.entryOf l q = some (tableDescriptor arch pa w₀ x₀) →
      tableDescriptor arch (c.next i) w x = tableDescriptor arch pa w x ∧
        (w₀ = true → w = true) ∧ (x₀ = true → x = true)) :
    Content arch (c.setEntry (j + q % 512) (tableDescriptor arch (c.next i) w x)) f ∧
      Extends arch c (c.setEntry (j + q % 512) (tableDescriptor arch (c.next i) w x)) := by
  refine ⟨⟨fun l' q' e below at_e => ?_, fun q' e at_e => ?_, fun q' t at_q => ?_⟩, rfl,
    fun _ _ _ h => h, fun l' q' pa w₀ x₀ below at_e => ?_, (length_setEntry _ _).ge⟩
  · rw [entryOf_setEntry shape page] at at_e
    split at at_e
    · next same =>
      obtain ⟨rfl, rfl⟩ := same
      obtain rfl := Option.some.inj at_e
      exact .inr ⟨i, w, x, child, rfl⟩
    · exact content.table l' q' e below at_e
  · rw [entryOf_setEntry shape page, if_neg (by omega)] at at_e
    exact content.leaf q' e at_e
  · obtain ⟨e, at_e⟩ := content.there q' t at_q
    exact ⟨e, by rw [entryOf_setEntry shape page, if_neg (by omega)]; exact at_e⟩
  · rw [entryOf_setEntry shape page]
    split
    · next same =>
      obtain ⟨rfl, rfl⟩ := same
      obtain ⟨same, hw, hx⟩ := more pa w₀ x₀ at_e
      exact ⟨w, x, congrArg some same, hw, hx⟩
    · exact ⟨w₀, x₀, at_e, id, id⟩

/-- What `SetupTableDescriptor` has done for the address `va` in the first `levels`. -/
structure TableSet (arch : Architecture) (f : Leaves) (levels va : Nat) (w x : Bool)
    (c c' : PageTableCreator) : Prop where
  shape : Shape c'
  content : Content arch c' f
  extends' : Extends arch c c'
  chain : Chain arch c' levels
  allows : Allows arch c' levels (node va levels) w x
  kept : ∀ l q e, levels ≤ l → c.entryOf l q = some e → c'.entryOf l q = some e
  fresh : ∀ l q e, levels ≤ l → c'.entryOf l q = some e → c.entryOf l q = some e ∨ e = 0

/-- Nothing has to be done above level 0. -/
theorem TableSet.refl (shape : Shape c) (content : Content arch c f) :
    TableSet arch f 0 va w x c c :=
  ⟨shape, content, (Grown.refl c).extends, fun _ _ _ _ _ h => absurd h (Nat.not_lt_zero _), trivial,
    fun _ _ _ _ h => h, fun _ _ _ _ h => .inl h⟩

/-- An entry of the level `l` is written that lets `w` and `x` through and no less than
before, and then the levels above it are done. -/
theorem tableSet_write {c₁ c₃ : PageTableCreator} {j : Nat} {W X : Bool} (shape₁ : Shape c₁)
    (content₁ : Content arch c₁ f) (chain₁ : Chain arch c₁ (l + 1)) (above : l < 3)
    (grown : Grown c c₁) (page : c₁.pageOf l (node va l / 512) = some j)
    (child : c₁.pageOf (l + 1) (node va l) = some i) (hw : w = true → W = true)
    (hx : x = true → X = true)
    (more : ∀ pa w₀ x₀, c₁.entryOf l (node va l) = some (tableDescriptor arch pa w₀ x₀) →
      tableDescriptor arch (c₁.next i) W X = tableDescriptor arch pa W X ∧
        (w₀ = true → W = true) ∧ (x₀ = true → X = true))
    (joined : ∀ c', Extends arch c₁ c' → Allows arch c' l (node va l) w x →
      Allows arch c' l (node va l) W X)
    (rest : TableSet arch f l va w x
      (c₁.setEntry (j + node va l % 512) (tableDescriptor arch (c₁.next i) W X)) c₃) :
    TableSet arch f (l + 1) va w x c c₃ := by
  obtain ⟨-, written⟩ := setTable_run shape₁ content₁ above page child more
  have after := written.trans rest.extends'
  refine ⟨rest.shape, rest.content, grown.extends.trans after, ?_, ?_, ?_, ?_⟩
  · intro k q pa w' x' below at_e
    by_cases higher : k < l
    · exact rest.chain k q pa w' x' higher at_e
    obtain rfl : k = l := by omega
    rcases rest.fresh k q _ le_rfl at_e with old | zero
    · rw [entryOf_setEntry shape₁ page] at old
      split at old
      · next same =>
        obtain ⟨-, rfl⟩ := same
        obtain ⟨rfl, rfl⟩ := tableDescriptor_inj (Option.some.inj old)
        exact joined c₃ after rest.allows
      · exact (chain₁ k q pa w' x' below old).mono after (by omega)
    · exact absurd zero (tableDescriptor_ne_zero arch pa w' x')
  · have parent : node va (l + 1) / 512 = node va l := node_div above
    refine ⟨⟨i, W, X, ?_, ?_, hw, hx⟩, ?_⟩
    · rw [parent]
      exact after.pages _ _ _ child
    · rw [parent, after.next_eq]
      refine rest.kept l _ _ le_rfl ?_
      rw [entryOf_setEntry shape₁ page, if_pos ⟨rfl, rfl⟩]
    · rw [parent]
      exact rest.allows
  · intro k q e lower at_e
    refine rest.kept k q e (by omega) ?_
    rw [entryOf_setEntry shape₁ page, if_neg (by omega)]
    exact grown.entries k q e at_e
  · intro k q e lower at_e
    rcases rest.fresh k q e (by omega) at_e with old | zero
    · rw [entryOf_setEntry shape₁ page, if_neg (by omega)] at old
      exact (grown.fresh k q e old).imp id And.right
    · exact .inr zero

/-- `SetupTableDescriptor` at one level, given that the levels above it get done. -/
theorem setupTableDescriptor_step (shape : Shape c) (content : Content arch c f)
    (chain : Chain arch c (l + 1)) (above : l < 3) (small : va < 2 ^ 48)
    (child : c.pageOf (l + 1) (node va l) = some i)
    (rest : ∀ c₂ j, Shape c₂ → Content arch c₂ f → Chain arch c₂ l →
      c₂.pageOf l (node va l / 512) = some j →
      TableSet arch f l va w x c₂ (match l with
        | 0 => c₂
        | l + 1 => setupTableDescriptor arch l c₂ va w x)) :
    TableSet arch f (l + 1) va w x c (setupTableDescriptor arch l c va w x) := by
  obtain ⟨c₁, j, run, shape₁, grown, page⟩ := getPageTableEntryIndex_run shape small above.le
  have content₁ := content.grown grown
  have chain₁ := chain.grown (by omega) grown
  have child₁ := grown.pages _ _ _ child
  obtain ⟨e, at_e, get_e⟩ := shape₁.entry page
  have higher : ∀ {W X : Bool}, Extends arch c₁
      (c₁.setEntry (j + node va l % 512) (tableDescriptor arch (c₁.next i) W X)) →
      Chain arch (c₁.setEntry (j + node va l % 512) (tableDescriptor arch (c₁.next i) W X)) l := by
    intro W X written k q pa w' x' below old
    rw [entryOf_setEntry shape₁ page, if_neg (by omega)] at old
    exact (chain₁ k q pa w' x' (by omega) old).mono written (by omega)
  have pointer : (i * 8 + c₁.pageTableAddr) % 2 ^ 64 = c₁.next i := rfl
  unfold setupTableDescriptor
  simp only [run, pageTable_run small above child₁, List.getD_eq_getElem?_getD, get_e,
    Option.getD_some, pointer]
  rcases update_run content₁ above child₁ at_e w x with ⟨rfl, update⟩ | ⟨w₀, x₀, rfl, update⟩
  · have more : ∀ pa w₀ x₀, c₁.entryOf l (node va l) = some (tableDescriptor arch pa w₀ x₀) →
        tableDescriptor arch (c₁.next i) w x = tableDescriptor arch pa w x ∧
          (w₀ = true → w = true) ∧ (x₀ = true → x = true) := by
      intro pa w₀ x₀ old
      exact absurd (Option.some.inj (old.symm.trans at_e)) (tableDescriptor_ne_zero arch pa w₀ x₀)
    obtain ⟨content₂, written⟩ := setTable_run shape₁ content₁ above page child₁ more
    rw [if_neg (by rw [update]; exact (tableDescriptor_ne_zero arch _ w x).symm), update]
    exact tableSet_write shape₁ content₁ chain₁ above grown page child₁ id id more
      (fun _ _ allows => allows)
      (rest _ j (setEntry_shape shape₁ _ _) content₂ (higher written) page)
  · have before := chain₁ l _ _ w₀ x₀ (Nat.lt_succ_self l) at_e
    by_cases early : tableDescriptor arch (c₁.next i) w₀ x₀ =
        tableDescriptor arch (c₁.next i) (w₀ || w) (x₀ || x)
    · rw [if_pos (early.trans update.symm)]
      obtain ⟨writes, executes⟩ := tableDescriptor_inj early
      have hw : w = true → w₀ = true := fun h => by rw [writes, h, Bool.or_true]
      have hx : x = true → x₀ = true := fun h => by rw [executes, h, Bool.or_true]
      have parent : node va (l + 1) / 512 = node va l := node_div above
      refine ⟨shape₁, content₁, grown.extends, chain₁, ⟨⟨i, w₀, x₀, ?_, ?_, hw, hx⟩, ?_⟩,
        fun k q e _ => grown.entries k q e,
        fun k q e _ old => (grown.fresh k q e old).imp id And.right⟩
      · rw [parent]
        exact child₁
      · rw [parent]
        exact at_e
      · rw [parent]
        exact before.weaken hw hx
    · have more : ∀ pa w₁ x₁, c₁.entryOf l (node va l) = some (tableDescriptor arch pa w₁ x₁) →
          tableDescriptor arch (c₁.next i) (w₀ || w) (x₀ || x) =
              tableDescriptor arch pa (w₀ || w) (x₀ || x) ∧
            (w₁ = true → (w₀ || w) = true) ∧ (x₁ = true → (x₀ || x) = true) := by
        intro pa w₁ x₁ old
        have same := Option.some.inj (at_e.symm.trans old)
        obtain ⟨rfl, rfl⟩ := tableDescriptor_inj same
        refine ⟨?_, fun h => by rw [h, Bool.true_or], fun h => by rw [h, Bool.true_or]⟩
        rw [← allow_tableDescriptor, ← allow_tableDescriptor, same]
      obtain ⟨content₂, written⟩ := setTable_run shape₁ content₁ above page child₁ more
      rw [if_neg (by rw [update]; exact early), update]
      refine tableSet_write shape₁ content₁ chain₁ above grown page child₁
        (fun h => by rw [h, Bool.or_true]) (fun h => by rw [h, Bool.or_true]) more
        (fun _ h allows => (before.mono h above.le).both allows)
        (rest _ j (setEntry_shape shape₁ _ _) content₂ (higher written) page)

/-- `SetupTableDescriptor` lets the access through at its level and all above. -/
theorem setupTableDescriptor_run (shape : Shape c) (content : Content arch c f)
    (chain : Chain arch c (l + 1)) (above : l < 3) (small : va < 2 ^ 48)
    (page : c.pageOf (l + 1) (node va l) = some i) :
    TableSet arch f (l + 1) va w x c (setupTableDescriptor arch l c va w x) := by
  induction l generalizing c i with
  | zero =>
    exact setupTableDescriptor_step shape content chain above small page
      fun c₂ _ shape₂ content₂ _ _ => .refl shape₂ content₂
  | succ l ih =>
    refine setupTableDescriptor_step shape content chain above small page
      fun c₂ j shape₂ content₂ chain₂ page₂ => ?_
    rw [node_div (by omega)] at page₂
    exact ih shape₂ content₂ chain₂ (by omega) page₂

end PageTableCreator

end PageTable

end Silifuzz
