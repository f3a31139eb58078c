import Silifuzz.Proxies.PageTable.Creator
import Silifuzz.Proxies.PageTable.Walk
import Mathlib.Tactic.IntervalCases

/-!
# Virtual addresses level by level

An address belongs to one entry of each level, numbered through by `node`: the entry's index
and the interval of its page are the parts of that number.
-/

namespace Silifuzz

namespace PageTable

open BitStruct

/-- The number of the entry for a virtual address among all those of the level. -/
def node (va level : Nat) : Nat := va / 2 ^ (39 - 9 * level)

variable {va level : Nat}

theorem node_div (h : level < 3) : node va (level + 1) / 512 = node va level := by
  have power : 2 ^ (39 - 9 * level) = 2 ^ (39 - 9 * (level + 1)) * 512 := by
    interval_cases level <;> rfl
  rw [node, node, power, Nat.div_div_eq_div_mul]

theorem node_zero_div (h : va < 2 ^ 48) : node va 0 / 512 = 0 := by
  rw [node]
  omega

theorem node_three (va : Nat) : node va 3 = va / 2 ^ 12 := rfl

theorem entryIndex_eq (h : level ≤ 3) : entryIndex va level = node va level % 512 := by
  rw [entryIndex, get_eq, node]
  interval_cases level <;> rfl

theorem tableIndex_eq (va level : Nat) : tableIndex va level = node va level % 512 := rfl

theorem testBit_clear {f : Field} (fits : f.Fits) (bits i : Nat) :
    (set bits f 0).testBit i =
      (bits.testBit i && (decide (i < 64) && !(decide (f.lsb ≤ i) && decide (i ≤ f.msb)))) := by
  by_cases inside : f.lsb ≤ i ∧ i ≤ f.msb
  · rw [testBit_set_inside fits inside.1 inside.2]
    simp [inside]
  · have outside : i < f.lsb ∨ f.msb < i := by omega
    rw [testBit_set_outside fits outside]
    rcases outside with below | above
    · simp [Nat.not_le.mpr below]
    · simp [Nat.not_le.mpr above]

theorem testBit_startingInterval (h : level ≤ 3) (i : Nat) :
    (startingInterval va level).testBit i =
      (va.testBit i && (decide (i < 64) && decide (48 - 9 * level ≤ i))) := by
  rw [Bool.eq_iff_iff]
  cases bit : va.testBit i <;> interval_cases level <;>
    simp (disch := decide) only [startingInterval, kNumLevels, List.range', testBit_clear,
      VirtualAddress.tableIndexL, VirtualAddress.physicalAddressLsbs, bit, List.foldl,
      Bool.and_eq_true, Bool.not_eq_true', Bool.and_eq_false_iff, decide_eq_true_eq,
      decide_eq_false_iff_not, Bool.false_eq_true, false_and, true_and] <;> omega

/-- The interval of the page that the entry is in. -/
theorem startingInterval_eq (h : level ≤ 3) (small : va < 2 ^ 48) :
    startingInterval va level = node va level / 512 * 2 ^ (48 - 9 * level) := by
  have page : node va level / 512 = va / 2 ^ (48 - 9 * level) := by
    rw [node, Nat.div_div_eq_div_mul]
    interval_cases level <;> rfl
  refine Nat.eq_of_testBit_eq fun i => ?_
  rw [testBit_startingInterval h, page, Nat.testBit_mul_two_pow, Nat.testBit_div_two_pow]
  by_cases low : 48 - 9 * level ≤ i
  · rw [Nat.sub_add_cancel low]
    by_cases inWord : i < 64
    · simp [low, inWord]
    · have : va.testBit i = false :=
        Nat.testBit_lt_two_pow (small.trans_le (Nat.pow_le_pow_right (by decide) (by omega)))
      simp [this]
  · simp [low]

end PageTable

end Silifuzz

/-!
## Where the entries are

The pages of a table by level and number, and their entries:

* `Shape`: the pages are apart, whole, and inside the vector;
* `Grown`, `getPageTableEntryIndex_run`: a page is added where there is none;
* `entryOf_setEntry`: writing one entry changes that entry only.
-/

namespace Silifuzz

namespace PageTable

namespace PageTableCreator

/-- The index of the page with this number among those of the level. -/
def pageOf (c : PageTableCreator) (level page : Nat) : Option Nat :=
  c.pageTables.lookup (level, page * 2 ^ (48 - 9 * level))

/-- The entry of the level with this number. -/
def entryOf (c : PageTableCreator) (level q : Nat) : Option Nat :=
  (c.pageOf level (q / 512)).bind fun i => c.entries[i + q % 512]?

structure Shape (c : PageTableCreator) : Prop where
  root : c.pageOf 0 0 = some 0
  whole : 512 ∣ c.entries.length
  placed : ∀ l p i, c.pageOf l p = some i → 512 ∣ i ∧ i + 512 ≤ c.entries.length
  distinct : ∀ l p l' p' i, c.pageOf l p = some i → c.pageOf l' p' = some i → l = l' ∧ p = p'

variable {c c' : PageTableCreator} {l q i e va : Nat}

theorem Shape.entry (shape : Shape c) (page : c.pageOf l (q / 512) = some i) :
    ∃ e, c.entryOf l q = some e ∧ c.entries[i + q % 512]? = some e := by
  have inside := (shape.placed l _ i page).2
  have bound : i + q % 512 < c.entries.length := by omega
  refine ⟨c.entries[i + q % 512], ?_, List.getElem?_eq_getElem bound⟩
  rw [entryOf, page, Option.bind_some, List.getElem?_eq_getElem bound]

/-- The creator with more pages, which are empty. -/
structure Grown (c c' : PageTableCreator) : Prop where
  addr : c'.pageTableAddr = c.pageTableAddr
  pages : ∀ l p i, c.pageOf l p = some i → c'.pageOf l p = some i
  entries : ∀ l q e, c.entryOf l q = some e → c'.entryOf l q = some e
  fresh : ∀ l q e, c'.entryOf l q = some e →
    c.entryOf l q = some e ∨ c.entryOf l q = none ∧ e = 0
  length : c.entries.length ≤ c'.entries.length

theorem Grown.refl (c : PageTableCreator) : Grown c c :=
  ⟨rfl, fun _ _ _ h => h, fun _ _ _ h => h, fun _ _ _ h => .inl h, le_rfl⟩

/-- The creator with the page `p` of the level `l` added at the end. -/
def grow (c : PageTableCreator) (l p : Nat) : PageTableCreator :=
  { c with entries := c.entries ++ List.replicate entriesPerPage 0
           pageTables := ((l, p * 2 ^ (48 - 9 * l)), c.entries.length) :: c.pageTables }

theorem pageOf_grow (c : PageTableCreator) (l p l' p' : Nat) :
    (c.grow l p).pageOf l' p' =
      if l' = l ∧ p' = p then some c.entries.length else c.pageOf l' p' := by
  rw [pageOf, grow, List.lookup_cons]
  by_cases same : l' = l ∧ p' = p
  · obtain ⟨rfl, rfl⟩ := same
    simp
  · have differ : ((l', p' * 2 ^ (48 - 9 * l')) == (l, p * 2 ^ (48 - 9 * l))) = false := by
      rw [beq_eq_false_iff_ne, ne_eq, Prod.mk.injEq]
      rintro ⟨rfl, equal⟩
      exact same ⟨rfl, Nat.eq_of_mul_eq_mul_right (Nat.two_pow_pos _) equal⟩
    rw [if_neg same, differ]
    rfl

theorem grow_shape (shape : Shape c) {p : Nat} (absent : c.pageOf l p = none) :
    Shape (c.grow l p) := by
  have length : (c.grow l p).entries.length = c.entries.length + 512 := by
    rw [grow, List.length_append, List.length_replicate, entriesPerPage]
  have whole := shape.whole
  refine ⟨?_, by rw [length]; exact Nat.dvd_add whole (Nat.dvd_refl 512), ?_, ?_⟩
  · rw [pageOf_grow, if_neg]
    · exact shape.root
    · rintro ⟨rfl, rfl⟩
      rw [shape.root] at absent
      cases absent
  · intro l' p' i at_i
    rw [pageOf_grow] at at_i
    split at at_i
    · obtain rfl := Option.some.inj at_i
      exact ⟨whole, length.ge⟩
    · have := shape.placed _ _ _ at_i
      exact ⟨this.1, by omega⟩
  · intro l₁ p₁ l₂ p₂ i at₁ at₂
    have old : ∀ l p, c.pageOf l p = some i → i < c.entries.length := by
      intro l p at_i
      have := (shape.placed l p i at_i).2
      omega
    rw [pageOf_grow] at at₁ at₂
    split at at₁ <;> split at at₂
    · omega
    · next own _ =>
      obtain rfl := Option.some.inj at₁
      exact absurd (old _ _ at₂) (lt_irrefl _)
    · obtain rfl := Option.some.inj at₂
      exact absurd (old _ _ at₁) (lt_irrefl _)
    · exact shape.distinct _ _ _ _ _ at₁ at₂

theorem grow_grown (shape : Shape c) {p : Nat} (absent : c.pageOf l p = none) :
    Grown c (c.grow l p) := by
  have pages : ∀ l' p' i, c.pageOf l' p' = some i → (c.grow l p).pageOf l' p' = some i := by
    intro l' p' i at_i
    rw [pageOf_grow, if_neg]
    · exact at_i
    · rintro ⟨rfl, rfl⟩
      rw [absent] at at_i
      cases at_i
  have old : ∀ l' q' i, c.pageOf l' (q' / 512) = some i →
      (c.grow l p).entryOf l' q' = c.entryOf l' q' := by
    intro l' q' i at_i
    have inside := (shape.placed _ _ _ at_i).2
    rw [entryOf, entryOf, pages _ _ _ at_i, at_i]
    exact List.getElem?_append_left (by omega)
  refine ⟨rfl, pages, fun l' q' e at_e => ?_, fun l' q' e at_e => ?_, by simp only [grow, List.length_append, Nat.le_add_right]⟩
  · obtain ⟨i, at_i, -⟩ := Option.bind_eq_some_iff.mp at_e
    rw [old _ _ _ at_i, at_e]
  · cases known : c.pageOf l' (q' / 512) with
    | some i => exact .inl ((old _ _ _ known).symm.trans at_e)
    | none =>
      refine .inr ⟨by rw [entryOf, known]; rfl, ?_⟩
      rw [entryOf, pageOf_grow] at at_e
      split at at_e
      · rw [Option.bind_some] at at_e
        have zero : (List.replicate entriesPerPage 0)[q' % 512]? = some e := by
          rw [← at_e, grow, List.getElem?_append_right (Nat.le_add_right _ _),
            Nat.add_sub_cancel_left]
        exact List.eq_of_mem_replicate (List.mem_of_getElem? zero)
      · rw [known] at at_e
        cases at_e

/-- `GetPageTableEntryIndex`: the page is there afterwards. -/
theorem getPageTableEntryIndex_run (shape : Shape c) (small : va < 2 ^ 48) (h : l ≤ 3) :
    ∃ c' i, c.getPageTableEntryIndex va l = (c', i + node va l % 512) ∧ Shape c' ∧ Grown c c' ∧
      c'.pageOf l (node va l / 512) = some i := by
  have key : c.pageTables.lookup (l, startingInterval va l) = c.pageOf l (node va l / 512) := by
    rw [startingInterval_eq h small, pageOf]
  unfold getPageTableEntryIndex
  rw [key, entryIndex_eq h]
  cases known : c.pageOf l (node va l / 512) with
  | some i => exact ⟨c, i, rfl, shape, .refl c, known⟩
  | none =>
    rw [startingInterval_eq h small]
    refine ⟨c.grow l (node va l / 512), c.entries.length, rfl, grow_shape shape known,
      grow_grown shape known, ?_⟩
    rw [pageOf_grow, if_pos ⟨rfl, rfl⟩]

@[simp] theorem pageOf_setEntry (k e l p : Nat) : (c.setEntry k e).pageOf l p = c.pageOf l p := rfl

@[simp] theorem addr_setEntry (k e : Nat) : (c.setEntry k e).pageTableAddr = c.pageTableAddr := rfl

@[simp] theorem length_setEntry (k e : Nat) :
    (c.setEntry k e).entries.length = c.entries.length := List.length_set

theorem setEntry_shape (shape : Shape c) (k e : Nat) : Shape (c.setEntry k e) :=
  ⟨shape.root, by rw [length_setEntry]; exact shape.whole,
    fun l p i at_i => by rw [length_setEntry]; exact shape.placed l p i at_i, shape.distinct⟩

/-- An entry is one place of the vector, and no other entry is there. -/
theorem entryOf_setEntry (shape : Shape c) (page : c.pageOf l (q / 512) = some i) (l' q' : Nat) :
    (c.setEntry (i + q % 512) e).entryOf l' q' =
      if l' = l ∧ q' = q then some e else c.entryOf l' q' := by
  rw [entryOf, entryOf, pageOf_setEntry]
  split
  · next same =>
    obtain ⟨rfl, rfl⟩ := same
    have inside := (shape.placed _ _ _ page).2
    rw [page, Option.bind_some, setEntry, List.getElem?_set_self (by omega)]
  · next other =>
    cases known : c.pageOf l' (q' / 512) with
    | none => rfl
    | some j =>
      rw [Option.bind_some, Option.bind_some, setEntry, List.getElem?_set_ne]
      intro same
      obtain ⟨a, rfl⟩ := (shape.placed _ _ _ page).1
      obtain ⟨b, rfl⟩ := (shape.placed _ _ _ known).1
      obtain rfl : a = b := by omega
      obtain ⟨rfl, pages⟩ := shape.distinct _ _ _ _ _ page known
      exact other ⟨rfl, by omega⟩

end PageTableCreator

end PageTable

end Silifuzz
