import Silifuzz.Proxies.PageTable.Descriptors

/-!
# Walking a page table

What the hardware makes of a four-level table with 4 KiB pages, for an access from user mode:
each level is a read of physical memory, an entry is a fault, a block, or a table that the
next level is read from, and an access is allowed when every level lets it through.
-/

namespace Silifuzz

namespace PageTable

open BitStruct

/-- What an access from user mode may do. -/
structure Access where
  write : Bool
  execute : Bool
  deriving DecidableEq, Repr

structure Translation where
  physicalAddr : Nat
  access : Access
  deriving DecidableEq, Repr

inductive Entry where
  | fault
  | block (address : Nat) (access : Access)
  | table (address : Nat) (access : Access)
  deriving DecidableEq, Repr

/-- The access that a table descriptor lets through: none without user mode access. -/
def tableAccess (entry : Nat) : Architecture → Access
  | .kAArch64 =>
    let user := get entry AArch64.TableDescriptorEntry.apTableUnprivilegedAccess =
      AArch64.TableDescriptorEntry.kApTableUnprivilegedAccessPermitted
    ⟨user ∧ get entry AArch64.TableDescriptorEntry.apTableWriteAccess =
        AArch64.TableDescriptorEntry.kApTableWriteAccessReadWrite,
      user ∧ get entry AArch64.TableDescriptorEntry.uxnTable =
        AArch64.TableDescriptorEntry.kUxnTableNoEffect⟩
  | .kX86_64 =>
    let user := get entry X8664.TableDescriptorEntry.userSupervisor =
      X8664.TableDescriptorEntry.kUserModeAccessAllowed
    ⟨user ∧ get entry X8664.TableDescriptorEntry.readWrite = X8664.TableDescriptorEntry.kReadWrite,
      user ∧ get entry X8664.TableDescriptorEntry.executeDisable = 0⟩

/-- The access that a page descriptor, or that of a block, lets through. -/
def pageAccess (entry : Nat) : Architecture → Access
  | .kAArch64 =>
    let user := get entry AArch64.PageDescriptorEntry.apTableUnprivilegedAccess =
      AArch64.PageDescriptorEntry.kApTableUnprivilegedAccessPermitted
    ⟨user ∧ get entry AArch64.PageDescriptorEntry.apTableWriteAccess =
        AArch64.PageDescriptorEntry.kApTableWriteAccessReadWrite,
      user ∧ get entry AArch64.PageDescriptorEntry.uxn = AArch64.PageDescriptorEntry.kUxnNoEffect⟩
  | .kX86_64 =>
    let user := get entry X8664.PageDescriptorEntry.userSupervisor =
      X8664.PageDescriptorEntry.kUserModeAccessAllowed
    ⟨user ∧ get entry X8664.PageDescriptorEntry.readWrite = X8664.PageDescriptorEntry.kReadWrite,
      user ∧ get entry X8664.PageDescriptorEntry.executeDisable = 0⟩

/-- An entry above the last level. -/
def tableEntry (entry : Nat) (arch : Architecture) : Entry :=
  match arch with
  | .kAArch64 =>
    if get entry AArch64.TableDescriptorEntry.valid ≠ 1 then .fault
    else if get entry AArch64.TableDescriptorEntry.type =
        AArch64.TableDescriptorEntry.kTypeTable then
      .table (get entry AArch64.TableDescriptorEntry.nextTableAddress * 2 ^ 12)
        (tableAccess entry arch)
    else
      .block (get entry AArch64.PageDescriptorEntry.outputAddress * 2 ^ 12) (pageAccess entry arch)
  | .kX86_64 =>
    let address := get entry X8664.TableDescriptorEntry.physicalAddress * 2 ^ 12
    if get entry X8664.TableDescriptorEntry.present ≠ 1 then .fault
    else if get entry X8664.TableDescriptorEntry.pageSize = 0 then
      .table address (tableAccess entry arch)
    else .block address (pageAccess entry arch)

/-- An entry of the last level: the page and what it lets through. -/
def pageEntry (entry : Nat) (arch : Architecture) : Option (Nat × Access) :=
  match arch with
  | .kAArch64 =>
    if get entry AArch64.PageDescriptorEntry.valid = 1 ∧
        get entry AArch64.PageDescriptorEntry.type = AArch64.PageDescriptorEntry.kTypePage then
      some (get entry AArch64.PageDescriptorEntry.outputAddress * 2 ^ 12, pageAccess entry arch)
    else none
  | .kX86_64 =>
    if get entry X8664.PageDescriptorEntry.present = 1 then
      some (get entry X8664.PageDescriptorEntry.physicalAddress * 2 ^ 12, pageAccess entry arch)
    else none

/-- What a level above lets through. -/
def Access.through (access above : Access) : Access :=
  ⟨above.write && access.write, above.execute && access.execute⟩

/-- The index of the entry for a virtual address in a page of the level. -/
def tableIndex (va level : Nat) : Nat := va / 2 ^ (39 - 9 * level) % 512

/-- The walk from a page of a level on; `below` counts the levels below it. -/
def walkFrom (arch : Architecture) (memory : Nat → Option Nat) (va : Nat) :
    Nat → Nat → Option Translation
  | 0, page => do
    let entry ← memory (page + 8 * tableIndex va 3)
    let (address, access) ← pageEntry entry arch
    return ⟨address + va % 2 ^ 12, access⟩
  | below + 1, page => do
    let level := 2 - below
    let entry ← memory (page + 8 * tableIndex va level)
    match tableEntry entry arch with
    | .fault => none
    -- there are no blocks at level 0
    | .block address access =>
      if level = 0 then none
      else some ⟨address + va % 2 ^ (39 - 9 * level), access⟩
    | .table next above => do
      let found ← walkFrom arch memory va below next
      return { found with access := found.access.through above }

/-- The walk of the table whose root page is at `root`. -/
def walk (arch : Architecture) (memory : Nat → Option Nat) (root va : Nat) : Option Translation :=
  walkFrom arch memory va 3 root

end PageTable

end Silifuzz

/-!
## The entries read back

What the walk finds in the entries that `CreatePageDescriptor` and `UpdateTableDescriptor` make.
-/

namespace Silifuzz

namespace PageTable

open BitStruct

variable {pa : Nat} {writeable executable : Bool}

theorem msbs_lt (pa : Nat) : get pa PhysicalAddress.physicalAddressMsbs < 2 ^ 36 := by
  rw [get_eq]
  exact Nat.mod_lt _ (by decide)

/-- A table descriptor that lets these accesses through. -/
def tableDescriptor (arch : Architecture) (pa : Nat) (writeable executable : Bool) : Nat :=
  allow (newTableDescriptor pa arch) writeable executable arch

theorem tableEntry_zero (arch : Architecture) : tableEntry 0 arch = .fault := by
  cases arch <;> rfl

theorem pageEntry_zero (arch : Architecture) : pageEntry 0 arch = none := by
  cases arch <;> rfl

theorem msbs_mod {width : Nat} (pa : Nat) (wide : 36 ≤ width) :
    get pa PhysicalAddress.physicalAddressMsbs % 2 ^ width =
      get pa PhysicalAddress.physicalAddressMsbs :=
  Nat.mod_eq_of_lt ((msbs_lt pa).trans_le (Nat.pow_le_pow_right (by decide) wide))

theorem tableEntry_tableDescriptor (arch : Architecture) (pa : Nat) (writeable executable : Bool) :
    tableEntry (tableDescriptor arch pa writeable executable) arch =
      .table (get pa PhysicalAddress.physicalAddressMsbs * 2 ^ 12) ⟨writeable, executable⟩ := by
  cases arch <;> cases writeable <;> cases executable <;>
    simp +decide (disch := decide) [tableEntry, tableDescriptor, allow, newTableDescriptor,
      tableAccess, get_set, get_set_apart, msbs_mod]

theorem pageEntry_newPageDescriptor (arch : Architecture) (pa : Nat)
    (writeable executable : Bool) :
    pageEntry (newPageDescriptor pa writeable executable arch) arch =
      some (get pa PhysicalAddress.physicalAddressMsbs * 2 ^ 12, ⟨writeable, executable⟩) := by
  cases arch <;> cases writeable <;> cases executable <;>
    simp +decide (disch := decide) [pageEntry, newPageDescriptor, pageAccess, get_set,
      get_set_apart, msbs_mod]

theorem pageDescriptorValid_new (arch : Architecture) (pa : Nat) (writeable executable : Bool) :
    pageDescriptorValid (newPageDescriptor pa writeable executable arch) arch ≠ 0 := by
  cases arch <;> cases writeable <;> cases executable <;>
    simp +decide (disch := decide) [pageDescriptorValid, newPageDescriptor, get_set, get_set_apart]

theorem tableDescriptorValid_table (arch : Architecture) (pa : Nat)
    (writeable executable : Bool) :
    tableDescriptorValid (tableDescriptor arch pa writeable executable) arch ≠ 0 := by
  cases arch <;> cases writeable <;> cases executable <;>
    simp +decide (disch := decide) [tableDescriptorValid, tableDescriptor, newTableDescriptor,
      allow, get_set, get_set_apart]

/-- Two fields that are each set once or more are set once each. -/
theorem set_pair {f g : Field} (fits : f.Fits) (fits' : g.Fits) (apart : f.Apart g)
    (v u bits : Nat) (w x w' x' : Bool) :
    let pair bits (w x : Bool) :=
      let bits := if w then set bits f v else bits
      if x then set bits g u else bits
    pair (pair bits w x) w' x' = pair bits (w || w') (x || x') := by
  have comm : ∀ bits, set (set bits g u) f v = set (set bits f v) g u :=
    fun bits => (set_comm fits fits' apart).symm
  cases w <;> cases x <;> cases w' <;> cases x' <;>
    simp [comm, set_set fits, set_set fits']

/-- Allowing more adds up. -/
theorem allow_allow (arch : Architecture) (entry : Nat) (w x w' x' : Bool) :
    allow (allow entry w x arch) w' x' arch = allow entry (w || w') (x || x') arch := by
  cases arch
  · exact set_pair (by decide) (by decide) (by decide) _ _ entry w x w' x'
  · exact set_pair (by decide) (by decide) (by decide) _ _ entry w x w' x'

/-- An update of an empty entry, and of one that is there. -/
theorem updateTableDescriptor_zero (arch : Architecture) (pa : Nat) (w x : Bool) :
    updateTableDescriptor arch 0 pa w x = tableDescriptor arch pa w x := by
  cases arch <;> rfl

theorem allow_tableDescriptor (arch : Architecture) (pa : Nat) (w x w' x' : Bool) :
    allow (tableDescriptor arch pa w x) w' x' arch = tableDescriptor arch pa (w || w') (x || x') :=
  allow_allow arch _ w x w' x'

theorem updateTableDescriptor_table (arch : Architecture) (pa pa' : Nat) (w x w' x' : Bool) :
    updateTableDescriptor arch (tableDescriptor arch pa w x) pa' w' x' =
      tableDescriptor arch pa (w || w') (x || x') := by
  rw [updateTableDescriptor, if_neg (tableDescriptorValid_table arch pa w x),
    allow_tableDescriptor]

/-- What a table descriptor allows can be read off it. -/
theorem tableDescriptor_inj {arch : Architecture} {pa pa' : Nat} {w x w' x' : Bool}
    (h : tableDescriptor arch pa w x = tableDescriptor arch pa' w' x') : w = w' ∧ x = x' := by
  have read := congrArg (tableEntry · arch) h
  simp only [tableEntry_tableDescriptor, Entry.table.injEq, Access.mk.injEq] at read
  exact read.2

theorem tableDescriptor_ne_zero (arch : Architecture) (pa : Nat) (w x : Bool) :
    tableDescriptor arch pa w x ≠ 0 := by
  intro zero
  have read := tableEntry_tableDescriptor arch pa w x
  rw [zero, tableEntry_zero] at read
  cases read

theorem newPageDescriptor_inj {arch : Architecture} {pa pa' : Nat} {w x w' x' : Bool}
    (h : newPageDescriptor pa w x arch = newPageDescriptor pa' w' x' arch) :
    get pa PhysicalAddress.physicalAddressMsbs = get pa' PhysicalAddress.physicalAddressMsbs ∧
      w = w' ∧ x = x' := by
  have read := congrArg (pageEntry · arch) h
  simp only [pageEntry_newPageDescriptor, Option.some.injEq, Prod.mk.injEq, Access.mk.injEq]
    at read
  exact ⟨by omega, read.2⟩

end PageTable

end Silifuzz
