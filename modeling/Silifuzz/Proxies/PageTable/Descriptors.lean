import Silifuzz.Common.Snapshot
import Silifuzz.Proxies.PageTable.BitStruct
import Silifuzz.Util.Checks

/-!
# Page and table descriptors

The entries of a page table: `proxies/page_table/page_table_entry_util.cc` with the bit
structs of both architectures, `PhysicalAddress` and `VirtualAddress`.
-/

namespace Silifuzz

namespace PageTable

open BitStruct

namespace PhysicalAddress

def physicalAddressLsbs : Field := ⟨0, 11⟩
def physicalAddressMsbs : Field := ⟨12, 47⟩

end PhysicalAddress

namespace VirtualAddress

def physicalAddressLsbs : Field := ⟨0, 11⟩

/-- `table_index_l(index)` -/
def tableIndexL : Nat → Field
  | 0 => ⟨39, 47⟩
  | 1 => ⟨30, 38⟩
  | 2 => ⟨21, 29⟩
  | _ => ⟨12, 20⟩

end VirtualAddress

namespace AArch64

namespace PageDescriptorEntry

def valid : Field := ⟨0, 0⟩
def type : Field := ⟨1, 1⟩
def nonSecure : Field := ⟨5, 5⟩
def apTableUnprivilegedAccess : Field := ⟨6, 6⟩
def apTableWriteAccess : Field := ⟨7, 7⟩
def notGlobal : Field := ⟨11, 11⟩
def outputAddress : Field := ⟨12, 47⟩
def pxn : Field := ⟨53, 53⟩
def uxn : Field := ⟨54, 54⟩

def kTypePage : Nat := 1
def kNonSecureNonSecurePaSpace : Nat := 1
def kApTableUnprivilegedAccessPermitted : Nat := 1
def kApTableWriteAccessReadWrite : Nat := 0
def kApTableWriteAccessReadOnly : Nat := 1
def kPxnNoEffect : Nat := 0
def kUxnNoEffect : Nat := 0
def kUxnUnprivilegedExecuteNever : Nat := 1

/-- The default constructor. -/
def default : Nat :=
  let bits := set 0 type kTypePage
  let bits := set bits nonSecure kNonSecureNonSecurePaSpace
  let bits := set bits apTableUnprivilegedAccess kApTableUnprivilegedAccessPermitted
  let bits := set bits apTableWriteAccess kApTableWriteAccessReadOnly
  let bits := set bits notGlobal 0
  let bits := set bits pxn kPxnNoEffect
  set bits uxn kUxnUnprivilegedExecuteNever

end PageDescriptorEntry

namespace TableDescriptorEntry

def valid : Field := ⟨0, 0⟩
def type : Field := ⟨1, 1⟩
def nextTableAddress : Field := ⟨12, 47⟩
def pxnTable : Field := ⟨59, 59⟩
def uxnTable : Field := ⟨60, 60⟩
def apTableUnprivilegedAccess : Field := ⟨61, 61⟩
def apTableWriteAccess : Field := ⟨62, 62⟩
def nsTable : Field := ⟨63, 63⟩

def kTypeTable : Nat := 1
def kPxnTableNoEffect : Nat := 0
def kUxnTableNoEffect : Nat := 0
def kUxnTableUnprivilegedExecuteNever : Nat := 1
def kApTableUnprivilegedAccessPermitted : Nat := 0
def kApTableWriteAccessReadWrite : Nat := 0
def kApTableWriteAccessReadOnly : Nat := 1
def kNsTableNonSecurePaSpace : Nat := 1

/-- The default constructor. -/
def default : Nat :=
  let bits := set 0 type kTypeTable
  let bits := set bits pxnTable kPxnTableNoEffect
  let bits := set bits uxnTable kUxnTableUnprivilegedExecuteNever
  let bits := set bits apTableUnprivilegedAccess kApTableUnprivilegedAccessPermitted
  let bits := set bits apTableWriteAccess kApTableWriteAccessReadOnly
  set bits nsTable kNsTableNonSecurePaSpace

end TableDescriptorEntry

end AArch64

namespace X8664

namespace PageDescriptorEntry

def present : Field := ⟨0, 0⟩
def readWrite : Field := ⟨1, 1⟩
def userSupervisor : Field := ⟨2, 2⟩
def pageWriteThrough : Field := ⟨3, 3⟩
def pageCacheDisable : Field := ⟨4, 4⟩
def accessed : Field := ⟨5, 5⟩
def dirty : Field := ⟨6, 6⟩
def pageAttributeTable : Field := ⟨7, 7⟩
def global : Field := ⟨8, 8⟩
def physicalAddress : Field := ⟨12, 51⟩
def protectionKey : Field := ⟨59, 62⟩
def executeDisable : Field := ⟨63, 63⟩

def kReadOnly : Nat := 0
def kReadWrite : Nat := 1
def kUserModeAccessAllowed : Nat := 1

/-- The default constructor. -/
def default : Nat :=
  let bits := set 0 present 1
  let bits := set bits readWrite kReadOnly
  let bits := set bits userSupervisor kUserModeAccessAllowed
  let bits := set bits pageWriteThrough 0
  let bits := set bits pageCacheDisable 0
  let bits := set bits accessed 0
  let bits := set bits dirty 0
  let bits := set bits pageAttributeTable 0
  let bits := set bits global 0
  let bits := set bits protectionKey 0
  set bits executeDisable 1

end PageDescriptorEntry

namespace TableDescriptorEntry

def present : Field := ⟨0, 0⟩
def readWrite : Field := ⟨1, 1⟩
def userSupervisor : Field := ⟨2, 2⟩
def pageWriteThrough : Field := ⟨3, 3⟩
def pageCacheDisable : Field := ⟨4, 4⟩
def accessed : Field := ⟨5, 5⟩
def pageSize : Field := ⟨7, 7⟩
def physicalAddress : Field := ⟨12, 51⟩
def executeDisable : Field := ⟨63, 63⟩

def kReadOnly : Nat := 0
def kReadWrite : Nat := 1
def kUserModeAccessAllowed : Nat := 1

/-- The default constructor. -/
def default : Nat :=
  let bits := set 0 present 1
  let bits := set bits readWrite kReadOnly
  let bits := set bits userSupervisor kUserModeAccessAllowed
  let bits := set bits pageWriteThrough 0
  let bits := set bits pageCacheDisable 0
  let bits := set bits accessed 0
  let bits := set bits pageSize 0
  set bits executeDisable 1

end TableDescriptorEntry

end X8664

/-- The `new_descriptor` of `CreatePageDescriptor`. -/
def newPageDescriptor (decodedPa : Nat) (writeable executable : Bool) : Architecture → Nat
  | .kAArch64 =>
    let bits := set AArch64.PageDescriptorEntry.default AArch64.PageDescriptorEntry.valid 1
    let bits := set bits AArch64.PageDescriptorEntry.outputAddress
      (get decodedPa PhysicalAddress.physicalAddressMsbs)
    let bits := if writeable then set bits AArch64.PageDescriptorEntry.apTableWriteAccess
      AArch64.PageDescriptorEntry.kApTableWriteAccessReadWrite else bits
    if executable then set bits AArch64.PageDescriptorEntry.uxn
      AArch64.PageDescriptorEntry.kUxnNoEffect else bits
  | .kX86_64 =>
    let bits := set X8664.PageDescriptorEntry.default X8664.PageDescriptorEntry.present 1
    let bits := set bits X8664.PageDescriptorEntry.physicalAddress
      (get decodedPa PhysicalAddress.physicalAddressMsbs)
    let bits := set bits X8664.PageDescriptorEntry.readWrite
      (if writeable then X8664.PageDescriptorEntry.kReadWrite
        else X8664.PageDescriptorEntry.kReadOnly)
    set bits X8664.PageDescriptorEntry.executeDisable (if executable then 0 else 1)

/-- `valid()` or `present()` of a page descriptor, and its address field. -/
def pageDescriptorValid (entry : Nat) : Architecture → Nat
  | .kAArch64 => get entry AArch64.PageDescriptorEntry.valid
  | .kX86_64 => get entry X8664.PageDescriptorEntry.present

def pageDescriptorAddress (entry : Nat) : Architecture → Nat
  | .kAArch64 => get entry AArch64.PageDescriptorEntry.outputAddress
  | .kX86_64 => get entry X8664.PageDescriptorEntry.physicalAddress

/-- The `%x` of `StrFormat`. -/
def hex (n : Nat) : String := String.ofList (Nat.toDigits 16 n)

def createPageDescriptor (arch : Architecture) (existingEntry decodedPa : Nat)
    (writeable executable : Bool) : Checked Nat :=
  let newDescriptor := newPageDescriptor decodedPa writeable executable arch
  if pageDescriptorValid existingEntry arch ≠ 0 ∧ existingEntry ≠ newDescriptor then
    let decodedExistingPa := set 0 PhysicalAddress.physicalAddressMsbs
      (pageDescriptorAddress existingEntry arch)
    .error (.status
      ("Mapping already exists with existing physical_addr=0x" ++ hex decodedExistingPa))
  else .ok newDescriptor

/-- The `new_descriptor` of `UpdateTableDescriptor`. -/
def newTableDescriptor (nextTablePa : Nat) : Architecture → Nat
  | .kAArch64 =>
    set (set AArch64.TableDescriptorEntry.default AArch64.TableDescriptorEntry.valid 1)
      AArch64.TableDescriptorEntry.nextTableAddress
      (get nextTablePa PhysicalAddress.physicalAddressMsbs)
  | .kX86_64 =>
    set (set X8664.TableDescriptorEntry.default X8664.TableDescriptorEntry.present 1)
      X8664.TableDescriptorEntry.physicalAddress
      (get nextTablePa PhysicalAddress.physicalAddressMsbs)

def tableDescriptorValid (entry : Nat) : Architecture → Nat
  | .kAArch64 => get entry AArch64.TableDescriptorEntry.valid
  | .kX86_64 => get entry X8664.TableDescriptorEntry.present

/-- The update of a table descriptor to the most permissive of its mappings. -/
def allow (entry : Nat) (writeable executable : Bool) : Architecture → Nat
  | .kAArch64 =>
    let bits := if writeable then set entry AArch64.TableDescriptorEntry.apTableWriteAccess
      AArch64.TableDescriptorEntry.kApTableWriteAccessReadWrite else entry
    if executable then set bits AArch64.TableDescriptorEntry.uxnTable
      AArch64.TableDescriptorEntry.kUxnTableNoEffect else bits
  | .kX86_64 =>
    let bits := if writeable then set entry X8664.TableDescriptorEntry.readWrite
      X8664.TableDescriptorEntry.kReadWrite else entry
    if executable then set bits X8664.TableDescriptorEntry.executeDisable 0 else bits

def updateTableDescriptor (arch : Architecture) (existingEntry nextTablePa : Nat)
    (writeable executable : Bool) : Nat :=
  let existingDescriptor :=
    if tableDescriptorValid existingEntry arch = 0 then newTableDescriptor nextTablePa arch
    else existingEntry
  allow existingDescriptor writeable executable arch

end PageTable

end Silifuzz
