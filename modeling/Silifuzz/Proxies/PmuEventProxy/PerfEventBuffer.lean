import Silifuzz.Proxies.PmuEventProxy.PerfEventRecords

/-!
# Perf event buffers

`proxies/pmu_event_proxy/perf_event_buffer.cc`: reading a sample record from the ring buffer
that the kernel writes to. The kernel owns `data_head`, this side owns `data_tail`.
-/

namespace Silifuzz.PmuEventProxy

open Readers LittleEndian Absl

structure PerfEventMmapPage where
  dataHead : BitVec 64
  dataTail : BitVec 64
  dataOffset : BitVec 64
  dataSize : BitVec 64
  deriving DecidableEq, Repr

structure PerfEventBuffer where
  mmapPage : PerfEventMmapPage
  /-- The byte at an offset from the page, where there is one to load. -/
  memory : Nat → Option Byte
  sample : BitVec 64
  readFormat : BitVec 64

namespace PerfEventBuffer

def getCurrentView (this : PerfEventBuffer) : Except Fault RingBufferView :=
  let page := this.mmapPage
  RingBufferView.make page.dataHead page.dataTail
    (fun i => this.memory (page.dataOffset.toNat + i)) page.dataSize

/-- `page` is what the kernel has made of it by then. -/
def commitReads (page : PerfEventMmapPage) (view : RingBufferView) :
    Except Fault PerfEventMmapPage :=
  if ¬page.dataHead - view.tail ≤ page.dataSize then .error .check
  else .ok { page with dataTail := view.tail }

def parse (this : PerfEventBuffer) (sampleRecord : PerfEventSampleRecord) :
    Parsing PerfEventSampleRecord :=
  sampleRecord.parse this.sample this.readFormat

/-- The page in the end, with a record or a status. The memory of `sampleRecord` is not
initialized, and the kernel has moved `data_head` to `laterHead` when the reads are
committed. -/
def readSampleRecord (this : PerfEventBuffer) (sampleRecord : PerfEventSampleRecord)
    (laterHead : BitVec 64) :
    Except Fault (Except Status PerfEventSampleRecord × PerfEventMmapPage) := do
  let view ← this.getCurrentView
  let (result, view) ← (this.parse sampleRecord).through RingBufferView.source view
  let page := { this.mmapPage with dataHead := laterHead }
  match result with
  | .error status => return (.error status, page)
  | .ok record => return (.ok record, ← commitReads page view)

end PerfEventBuffer

/-- A buffer whose size is a power of two, with the bytes from its tail to its head. There is
no other byte in the memory that can be relied on. -/
structure RingBuffer extends PerfEventBuffer where
  bytes : Bytes
  exponent : Nat
  powerOfTwo : mmapPage.dataSize.toNat = 2 ^ exponent
  held : (mmapPage.dataHead - mmapPage.dataTail).toNat = bytes.length
  room : bytes.length ≤ mmapPage.dataSize.toNat
  places : ∀ (i : Nat) (inside : i < bytes.length),
    memory (mmapPage.dataOffset.toNat
      + (mmapPage.dataTail.toNat + i) % mmapPage.dataSize.toNat) = some bytes[i]

namespace RingBuffer

/-- Where the kernel can move `data_head` to: it appends, and overwrites nothing before
`data_tail`. -/
structure LaterHead (ring : RingBuffer) where
  head : BitVec 64
  appends : ring.bytes.length ≤ (head - ring.mmapPage.dataTail).toNat
  room : (head - ring.mmapPage.dataTail).toNat ≤ ring.mmapPage.dataSize.toNat

/-- All the bytes, through a view. -/
def view (ring : RingBuffer) : RingBufferView where
  head := ring.mmapPage.dataHead
  tail := ring.mmapPage.dataTail
  buffer i := ring.memory (ring.mmapPage.dataOffset.toNat + i)
  bufferSize := ring.mmapPage.dataSize

/-- The tail, when `n` bytes are consumed. -/
def advanced (ring : RingBuffer) (later : ring.LaterHead) (n : Nat) : PerfEventMmapPage :=
  { ring.mmapPage with
    dataHead := later.head
    dataTail := ring.mmapPage.dataTail + BitVec.ofNat 64 n }

variable (ring : RingBuffer)

theorem view_holds : ring.view.Holds ring.bytes where
  powerOfTwo := ⟨ring.exponent, ring.powerOfTwo⟩
  size := ring.held
  room := ring.room
  byte := ring.places

theorem getCurrentView_eq : ring.getCurrentView = .ok ring.view :=
  RingBufferView.make_eq ring.view_holds

/-- A view that is run to `rest` has its tail behind the bytes in front of it. -/
theorem tail_advanced {ring : RingBuffer} {view : RingBufferView} {rest : Bytes} {n : Nat}
    (holds : view.Holds rest) (head : view.head = ring.mmapPage.dataHead)
    (consumed : ring.bytes.length = n + rest.length) :
    view.tail = ring.mmapPage.dataTail + BitVec.ofNat 64 n := by
  have before := RingBufferView.tail_eq ring.view_holds
  change ring.mmapPage.dataTail = ring.mmapPage.dataHead - BitVec.ofNat 64 ring.bytes.length
    at before
  rw [RingBufferView.tail_eq holds, head, before, consumed, BitVec.ofNat_add]
  bv_omega

/-- What is consumed can be committed, wherever the head is by then. -/
theorem commitReads_advanced (later : ring.LaterHead) {view : RingBufferView} {n : Nat}
    (enough : n ≤ ring.bytes.length)
    (tail : view.tail = ring.mmapPage.dataTail + BitVec.ofNat 64 n) :
    PerfEventBuffer.commitReads { ring.mmapPage with dataHead := later.head } view
      = .ok (ring.advanced later n) := by
  have fits := RingBufferView.toNat_count ring.view_holds enough
  have appends := later.appends
  have room := later.room
  have less : BitVec.ofNat 64 n ≤ later.head - ring.mmapPage.dataTail := by
    rw [BitVec.le_def, fits]
    omega
  have regrouped : later.head - view.tail
      = later.head - ring.mmapPage.dataTail - BitVec.ofNat 64 n := by
    rw [tail]
    bv_omega
  have left : later.head - view.tail ≤ ring.mmapPage.dataSize := by
    rw [regrouped, BitVec.le_def, BitVec.toNat_sub_of_le less]
    omega
  rw [PerfEventBuffer.commitReads, if_neg (not_not.mpr left), tail]
  rfl

def noSample : PerfEventSampleRecord := ⟨0, ⟨0, 0, 0⟩, 0, 0, 0, 0, 0, 0, 0, 0, ⟨0, 0, 0, []⟩⟩

/-- **A sample record is read from the ring buffer as from the sequence of its bytes, of which
no parse takes more than there are. No `CHECK` fails, and no other byte is loaded. The tail
advances by the size of the record, and without a record it stays.** -/
theorem readSampleRecord_linear (ring : RingBuffer) (later : ring.LaterHead)
    (sampleRecord : PerfEventSampleRecord) :
    ∃ result rest view,
      (ring.parse sampleRecord).onSequence ring.bytes = some (result, rest) ∧
      ring.getCurrentView = .ok ring.view ∧
      (ring.parse sampleRecord).through RingBufferView.source ring.view = .ok (result, view) ∧
      match result with
      | .ok record =>
        ring.bytes.length = record.header.size.toNat + rest.length ∧
        ring.readSampleRecord sampleRecord later.head
          = .ok (.ok record, ring.advanced later record.header.size.toNat)
      | .error status =>
        ring.readSampleRecord sampleRecord later.head
          = .ok (.error status, { ring.mmapPage with dataHead := later.head }) := by
  obtain ⟨result, rest, linear⟩ := sampleRecord.parse_bounded ring.sample ring.readFormat ring.bytes
  obtain ⟨view, through, holds, head⟩ := Reader.through_onSequence
    (RingBufferView.source_presents ring.mmapPage.dataHead) ⟨ring.view_holds, rfl⟩ linear
  refine ⟨result, rest, view, linear, ring.getCurrentView_eq, through, ?_⟩
  cases result with
  | error status =>
    simp only [PerfEventBuffer.readSampleRecord, ring.getCurrentView_eq, PerfEventBuffer.parse,
      through, bind, Except.bind]
    rfl
  | ok record =>
    have fits : ring.bytes.length < 2 ^ 64 :=
      Nat.lt_of_le_of_lt ring.room ring.mmapPage.dataSize.isLt
    have consumed := PerfEventSampleRecord.parse_size fits linear
    have committed := ring.commitReads_advanced later (by omega)
      (tail_advanced holds head consumed)
    refine ⟨consumed, ?_⟩
    simp only [PerfEventBuffer.readSampleRecord, ring.getCurrentView_eq, PerfEventBuffer.parse,
      through, committed, bind, Except.bind]
    rfl

/-- Half of the record's header is at the end of the buffer, where the offsets wrap, too. -/
theorem readSampleRecord_linear_wraps : ∃ (ring : RingBuffer) (later : ring.LaterHead),
    ring.bytes = [9, 0, 0, 0, 0, 0, 8, 0] ∧
      ∃ result rest view,
        (ring.parse noSample).onSequence ring.bytes = some (result, rest) ∧
        ring.getCurrentView = .ok ring.view ∧
        (ring.parse noSample).through RingBufferView.source ring.view = .ok (result, view) ∧
        match result with
        | .ok record =>
          ring.bytes.length = record.header.size.toNat + rest.length ∧
          ring.readSampleRecord noSample later.head
            = .ok (.ok record, ring.advanced later record.header.size.toNat)
        | .error status =>
          ring.readSampleRecord noSample later.head
            = .ok (.error status, { ring.mmapPage with dataHead := later.head }) := by
  let bytes : Bytes := [9, 0, 0, 0, 0, 0, 8, 0]
  let memory (i : Nat) : Option Byte := bytes[(i + 4) % 16]?
  let ring : RingBuffer :=
    ⟨⟨⟨4, -4, 16, 16⟩, memory, 0, 0⟩, bytes, 4, rfl, rfl, by decide, by decide⟩
  let later : ring.LaterHead := ⟨4, by decide, by decide⟩
  exact ⟨ring, later, rfl, readSampleRecord_linear ring later noSample⟩

end RingBuffer

end Silifuzz.PmuEventProxy
