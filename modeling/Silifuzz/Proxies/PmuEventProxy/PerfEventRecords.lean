import Silifuzz.Library.LittleEndian
import Silifuzz.Proxies.PmuEventProxy.RingBufferView
import Silifuzz.Util.Status

/-!
# Perf event records

`proxies/pmu_event_proxy/perf_event_records.cc`: the parsers of sample records and of the
counter values in them. Neither takes more than its source has left.
-/

namespace Silifuzz.PmuEventProxy

open Readers LittleEndian Absl

/-- `absl::Hex(value, absl::kZeroPad16)` -/
def hexZeroPad16 (value : BitVec 64) : String :=
  String.ofList ((List.range 16).map fun i => Nat.digitChar (value.toNat / 16 ^ (15 - i) % 16))

/-- A parser of bytes; the record it fills is its value. -/
abbrev Parsing := Reader Byte Status

/-- `READ_FORMAT_FIELD`, `SAMPLE_FIELD`: an object of `n` bytes, unless the data ends. -/
def object (endOfData : Status) (n : Nat) : Parsing Bytes := do
  if (← Reader.left) < n then Reader.fail endOfData
  else return (← Reader.take n)

def field (endOfData : Status) (w : Nat) : Parsing (BitVec w) := do
  return BitVec.ofNat w (decode (← object endOfData (w / 8)))

/-- `OPTIONAL_READ_FORMAT_FIELD`, `OPTIONAL_SAMPLE_FIELD`: the field is stored where it is
present, else the record stays. -/
def optionalField (endOfData : Status) (present : Bool) (w : Nat) {R : Type}
    (store : R → BitVec w → R) (record : R) : Parsing R :=
  if present then do return store record (← field endOfData w) else pure record

/-! ## Read formats -/

def PERF_FORMAT_TOTAL_TIME_ENABLED : BitVec 64 := 1
def PERF_FORMAT_TOTAL_TIME_RUNNING : BitVec 64 := 2
def PERF_FORMAT_ID : BitVec 64 := 4
def PERF_FORMAT_GROUP : BitVec 64 := 8

structure Value where
  value : BitVec 64
  id : BitVec 64
  deriving DecidableEq, Repr

structure PerfEventReadFormat where
  format : BitVec 64
  timeEnabled : BitVec 64
  timeRunning : BitVec 64
  values : List Value
  deriving DecidableEq, Repr

namespace PerfEventReadFormat

def kSupportedFormats : BitVec 64 :=
  PERF_FORMAT_TOTAL_TIME_ENABLED ||| PERF_FORMAT_TOTAL_TIME_RUNNING ||| PERF_FORMAT_ID |||
    PERF_FORMAT_GROUP

def kMaxNumValues : BitVec 64 := 8192

def hasFormat (this : PerfEventReadFormat) (format : BitVec 64) : Bool :=
  this.format &&& format == format

/-- `values_.resize(n)` -/
def resize (values : List Value) (n : Nat) : List Value :=
  values.take n ++ List.replicate (n - values.length) ⟨0, 0⟩

def endOfData : Status := ⟨.outOfRange, "End of data reached in PerfEventReadFormat::Parse()"⟩

def timeEnabledField (this : PerfEventReadFormat) : Parsing PerfEventReadFormat :=
  optionalField endOfData (this.hasFormat PERF_FORMAT_TOTAL_TIME_ENABLED) 64
    (fun this timeEnabled => { this with timeEnabled }) this

def timeRunningField (this : PerfEventReadFormat) : Parsing PerfEventReadFormat :=
  optionalField endOfData (this.hasFormat PERF_FORMAT_TOTAL_TIME_RUNNING) 64
    (fun this timeRunning => { this with timeRunning }) this

def valueField (this : PerfEventReadFormat) (i : Nat) : Parsing PerfEventReadFormat := do
  let value ← field endOfData 64
  return { this with values := this.values.modify i fun v => { v with value } }

def idField (this : PerfEventReadFormat) (i : Nat) : Parsing PerfEventReadFormat :=
  optionalField endOfData (this.hasFormat PERF_FORMAT_ID) 64
    (fun this id => { this with values := this.values.modify i fun v => { v with id } }) this

/-- A turn of the loop over the values of a group. -/
def parseValue (this : PerfEventReadFormat) (i : Nat) : Parsing PerfEventReadFormat := do
  let this ← this.valueField i
  this.idField i

/-- The branch of `Parse` for a group. -/
def parseGroup (this : PerfEventReadFormat) : Parsing PerfEventReadFormat := do
  let nr ← field endOfData 64
  if nr > kMaxNumValues then
    Reader.fail ⟨.outOfRange, s!"Number of values {nr.toNat} larger than limit " ++
      s!"{kMaxNumValues.toNat} in PerfEventReadFormat::Parse()"⟩
  else do
    let this := { this with values := resize this.values nr.toNat }
    let this ← this.timeEnabledField
    let this ← this.timeRunningField
    (List.range nr.toNat).foldlM parseValue this

/-- The branch of `Parse` for one event. -/
def parseSingle (this : PerfEventReadFormat) : Parsing PerfEventReadFormat := do
  let this := { this with values := resize this.values 1 }
  let this ← this.valueField 0
  let this ← this.timeEnabledField
  let this ← this.timeRunningField
  this.idField 0

def parse (format : BitVec 64) (this : PerfEventReadFormat) : Parsing PerfEventReadFormat :=
  let unsupported := format &&& ~~~kSupportedFormats
  if unsupported ≠ 0 then
    Reader.fail ⟨.unimplemented, "Unsupported format bit(s) in PerfEventReadFormat::Parse(): " ++
      hexZeroPad16 unsupported⟩
  else
    let this := { this with format }
    if this.hasFormat PERF_FORMAT_GROUP then this.parseGroup else this.parseSingle

end PerfEventReadFormat

/-! ## Sample records -/

def PERF_SAMPLE_IP : BitVec 64 := 1
def PERF_SAMPLE_TID : BitVec 64 := 2
def PERF_SAMPLE_TIME : BitVec 64 := 4
def PERF_SAMPLE_ADDR : BitVec 64 := 8
def PERF_SAMPLE_READ : BitVec 64 := 16
def PERF_SAMPLE_ID : BitVec 64 := 64
def PERF_SAMPLE_CPU : BitVec 64 := 128
def PERF_SAMPLE_IDENTIFIER : BitVec 64 := 65536

def PERF_RECORD_SAMPLE : BitVec 32 := 9

structure PerfEventHeader where
  type : BitVec 32
  misc : BitVec 16
  size : BitVec 16
  deriving DecidableEq, Repr

structure PerfEventSampleRecord where
  sampleType : BitVec 64
  header : PerfEventHeader
  sampleId : BitVec 64
  ip : BitVec 64
  pid : BitVec 32
  tid : BitVec 32
  time : BitVec 64
  addr : BitVec 64
  id : BitVec 64
  cpu : BitVec 32
  v : PerfEventReadFormat
  deriving DecidableEq, Repr

namespace PerfEventSampleRecord

def kSupportedSamples : BitVec 64 :=
  PERF_SAMPLE_IDENTIFIER ||| PERF_SAMPLE_IP ||| PERF_SAMPLE_TID ||| PERF_SAMPLE_TIME |||
    PERF_SAMPLE_ADDR ||| PERF_SAMPLE_ID ||| PERF_SAMPLE_CPU ||| PERF_SAMPLE_READ

def hasSamples (this : PerfEventSampleRecord) (samples : BitVec 64) : Bool :=
  this.sampleType &&& samples == samples

def endOfData : Status := ⟨.outOfRange, "End of data reached in PerfEventSampleRecord::Parse()"⟩

def headerField (this : PerfEventSampleRecord) : Parsing PerfEventSampleRecord := do
  let bytes ← object endOfData 8
  return { this with
    header := {
      type := BitVec.ofNat 32 (decode (bytes.take 4))
      misc := BitVec.ofNat 16 (decode ((bytes.drop 4).take 2))
      size := BitVec.ofNat 16 (decode (bytes.drop 6)) } }

def tidFields (this : PerfEventSampleRecord) : Parsing PerfEventSampleRecord :=
  if this.hasSamples PERF_SAMPLE_TID then do
    let pid ← field endOfData 32
    let tid ← field endOfData 32
    return { this with pid, tid }
  else pure this

def cpuFields (this : PerfEventSampleRecord) : Parsing PerfEventSampleRecord :=
  if this.hasSamples PERF_SAMPLE_CPU then do
    let cpu ← field endOfData 32
    let _unused ← field endOfData 32
    return { this with cpu }
  else pure this

def vField (readFormat : BitVec 64) (this : PerfEventSampleRecord) :
    Parsing PerfEventSampleRecord :=
  if this.hasSamples PERF_SAMPLE_READ then do
    let v ← this.v.parse readFormat
    return { this with v }
  else pure this

/-- What `Parse` does between its two looks at the size of the view. -/
def parseFields (readFormat : BitVec 64) (this : PerfEventSampleRecord) :
    Parsing PerfEventSampleRecord := do
  let this ← this.headerField
  if this.header.type ≠ PERF_RECORD_SAMPLE then
    Reader.fail ⟨.failedPrecondition, s!"Incorrect event type {this.header.type.toNat}" ++
      " in PerfEventSampleRecord::Parse()"⟩
  else do
    let this ← optionalField endOfData (this.hasSamples PERF_SAMPLE_IDENTIFIER) 64
      (fun this sampleId => { this with sampleId }) this
    let this ← optionalField endOfData (this.hasSamples PERF_SAMPLE_IP) 64
      (fun this ip => { this with ip }) this
    let this ← this.tidFields
    let this ← optionalField endOfData (this.hasSamples PERF_SAMPLE_TIME) 64
      (fun this time => { this with time }) this
    let this ← optionalField endOfData (this.hasSamples PERF_SAMPLE_ADDR) 64
      (fun this addr => { this with addr }) this
    let this ← optionalField endOfData (this.hasSamples PERF_SAMPLE_ID) 64
      (fun this id => { this with id }) this
    let this ← this.cpuFields
    this.vField readFormat

def parse (sampleType readFormat : BitVec 64) (this : PerfEventSampleRecord) :
    Parsing PerfEventSampleRecord :=
  let unsupported := sampleType &&& ~~~kSupportedSamples
  if unsupported ≠ 0 then
    Reader.fail ⟨.unimplemented, "Unsupported samples in PerfEventSampleRecord::Parse(): " ++
      hexZeroPad16 unsupported⟩
  else do
    let this := { this with sampleType }
    let originalViewSize ← Reader.left
    let this ← this.parseFields readFormat
    let viewSize ← Reader.left
    let recordSize := BitVec.ofNat 64 originalViewSize - BitVec.ofNat 64 viewSize
    if recordSize ≠ this.header.size.setWidth 64 then
      Reader.fail ⟨.failedPrecondition, s!"Sample record size in header " ++
        s!"{this.header.size.toNat} different from actual size {recordSize.toNat}"⟩
    else return this

end PerfEventSampleRecord

/-! ## What they take -/

open Reader

theorem object_bounded (endOfData : Status) (n : Nat) : Bounded (object endOfData n) :=
  bounded_checked n endOfData fun bytes => bytes

theorem field_bounded (endOfData : Status) (w : Nat) : Bounded (field endOfData w) :=
  bounded_bind (object_bounded endOfData (w / 8)) fun _ => bounded_pure _

theorem optionalField_bounded {endOfData : Status} {present : Bool} {w : Nat} {R : Type}
    {store : R → BitVec w → R} {record : R} :
    Bounded (optionalField endOfData present w store record) := by
  apply bounded_ite
  · exact bounded_bind (field_bounded endOfData w) fun _ => bounded_pure _
  · exact bounded_pure record

namespace PerfEventReadFormat

theorem parseValue_bounded (this : PerfEventReadFormat) (i : Nat) :
    Bounded (this.parseValue i) := by
  apply bounded_bind
  · exact bounded_bind (field_bounded endOfData 64) fun _ => bounded_pure _
  · intro this
    exact optionalField_bounded

theorem parseGroup_bounded (this : PerfEventReadFormat) : Bounded this.parseGroup := by
  apply bounded_bind (field_bounded endOfData 64)
  intro nr
  apply bounded_ite (bounded_fail _)
  apply bounded_bind optionalField_bounded
  intro this
  apply bounded_bind optionalField_bounded
  intro this
  exact bounded_foldlM parseValue_bounded _ _

theorem parseSingle_bounded (this : PerfEventReadFormat) : Bounded this.parseSingle := by
  apply bounded_bind (bounded_bind (field_bounded endOfData 64) fun _ => bounded_pure _)
  intro this
  apply bounded_bind optionalField_bounded
  intro this
  apply bounded_bind optionalField_bounded
  intro this
  exact optionalField_bounded

theorem parse_bounded (format : BitVec 64) (this : PerfEventReadFormat) :
    Bounded (this.parse format) := by
  apply bounded_ite (bounded_fail _)
  apply bounded_ite
  · exact parseGroup_bounded _
  · exact parseSingle_bounded _

end PerfEventReadFormat

namespace PerfEventSampleRecord

theorem tidFields_bounded (this : PerfEventSampleRecord) : Bounded this.tidFields := by
  apply bounded_ite
  · apply bounded_bind (field_bounded endOfData 32)
    intro pid
    exact bounded_bind (field_bounded endOfData 32) fun _ => bounded_pure _
  · exact bounded_pure this

theorem cpuFields_bounded (this : PerfEventSampleRecord) : Bounded this.cpuFields := by
  apply bounded_ite
  · apply bounded_bind (field_bounded endOfData 32)
    intro cpu
    exact bounded_bind (field_bounded endOfData 32) fun _ => bounded_pure _
  · exact bounded_pure this

theorem vField_bounded (readFormat : BitVec 64) (this : PerfEventSampleRecord) :
    Bounded (this.vField readFormat) := by
  apply bounded_ite
  · exact bounded_bind (PerfEventReadFormat.parse_bounded readFormat this.v)
      fun _ => bounded_pure _
  · exact bounded_pure this

theorem parseFields_bounded (readFormat : BitVec 64) (this : PerfEventSampleRecord) :
    Bounded (this.parseFields readFormat) := by
  apply bounded_bind (bounded_bind (object_bounded endOfData 8) fun _ => bounded_pure _)
  intro this
  apply bounded_ite (bounded_fail _)
  apply bounded_bind optionalField_bounded
  intro this
  apply bounded_bind optionalField_bounded
  intro this
  apply bounded_bind (tidFields_bounded this)
  intro this
  apply bounded_bind optionalField_bounded
  intro this
  apply bounded_bind optionalField_bounded
  intro this
  apply bounded_bind optionalField_bounded
  intro this
  apply bounded_bind (cpuFields_bounded this)
  intro this
  exact vField_bounded readFormat this

variable {sampleType readFormat : BitVec 64}

theorem parse_bounded (sampleType readFormat : BitVec 64) (this : PerfEventSampleRecord) :
    Bounded (this.parse sampleType readFormat) := by
  apply bounded_ite (bounded_fail _)
  apply bounded_bind bounded_left
  intro originalViewSize
  apply bounded_bind (parseFields_bounded readFormat _)
  intro this
  apply bounded_bind bounded_left
  intro viewSize
  exact bounded_ite (bounded_fail _) (bounded_pure this)

/-- A record that is parsed has the size that its header says. -/
theorem parse_size {this record : PerfEventSampleRecord} {bytes rest : Bytes}
    (fits : bytes.length < 2 ^ 64)
    (run : (this.parse sampleType readFormat).onSequence bytes = some (.ok record, rest)) :
    bytes.length = record.header.size.toNat + rest.length := by
  have shorter := (onSequence_suffix run).length_le
  simp only [parse] at run
  split at run
  · cases run
  · obtain ⟨end', middle, fields⟩ := parseFields_bounded readFormat
      { this with sampleType } bytes
    change ((parseFields readFormat { this with sampleType } >>= _).onSequence bytes) = _ at run
    cases end' with
    | error e =>
      rw [onSequence_bind_error fields] at run
      cases run
    | ok filled =>
      rw [onSequence_bind fields] at run
      change (if BitVec.ofNat 64 bytes.length - BitVec.ofNat 64 middle.length
        ≠ filled.header.size.setWidth 64 then _ else _ : Parsing _).onSequence middle = _ at run
      split at run
      · cases run
      · rename_i same
        cases run
        have same := congrArg BitVec.toNat (not_not.mp same)
        have size := record.header.size.isLt
        rw [BitVec.toNat_sub_of_le (by
          rw [BitVec.le_def, BitVec.toNat_ofNat, BitVec.toNat_ofNat]
          rw [Nat.mod_eq_of_lt fits, Nat.mod_eq_of_lt (by omega)]
          exact shorter)] at same
        simp only [BitVec.toNat_ofNat, BitVec.toNat_setWidth] at same
        omega

end PerfEventSampleRecord

end Silifuzz.PmuEventProxy
