import Silifuzz.Util.Status
import Mathlib.Algebra.Order.Group.Abs
import Mathlib.Algebra.Order.Group.Int
import Mathlib.Tactic.Common

/-!
# Durations in protos

`EncodeGoogleApiProto` and `DecodeGoogleApiProto` for durations, of `util/time_proto_util.cc`.
`absl::Duration` is a parameter with what its documentation says of it. `none` is a signed
overflow.
-/

namespace Silifuzz.TimeProtoUtil

open Silifuzz.Absl

def InInt64 (x : Int) : Prop := -2 ^ 63 ≤ x ∧ x < 2 ^ 63

def InInt32 (x : Int) : Prop := -2 ^ 31 ≤ x ∧ x < 2 ^ 31

/-- The conversion to `int64_t` and to `int32_t`. -/
def toInt64 (x : Int) : Int := (x + 2 ^ 63) % 2 ^ 64 - 2 ^ 63

def toInt32 (x : Int) : Int := (x + 2 ^ 31) % 2 ^ 32 - 2 ^ 31

theorem inInt64_toInt64 (x : Int) : InInt64 (toInt64 x) := by
  unfold InInt64 toInt64
  omega

theorem inInt32_toInt32 (x : Int) : InInt32 (toInt32 x) := by
  unfold InInt32 toInt32
  omega

/-- `google::protobuf::Duration` -/
structure DurationProto where
  seconds : Int
  nanos : Int
  seconds_int64 : InInt64 seconds
  nanos_int32 : InInt32 nanos

def DurationProto.set (seconds nanos : Int) : DurationProto :=
  ⟨toInt64 seconds, toInt32 nanos, inInt64_toInt64 seconds, inInt32_toInt32 nanos⟩

/-- A finite duration is a number of ticks of a quarter of a nanosecond. -/
inductive Span where
  | finite (ticks : Int)
  | infinite (negative : Bool)
  deriving DecidableEq, Repr

def ticksPerSecond : Int := 4000000000

/-- The seconds of a finite duration are an `int64_t`. -/
def InRange (ticks : Int) : Prop :=
  -2 ^ 63 * ticksPerSecond ≤ ticks ∧ ticks < 2 ^ 63 * ticksPerSecond

/-- `absl::Duration`, its operators and the functions on it. Sums and conversions are exact
where they are in range, and conversions to integers round toward zero. -/
structure AbslTime (D : Type) where
  value : D → Span
  eq : D → D → Bool
  infiniteDuration : D
  neg : D → D
  seconds : Int → D
  nanoseconds : Int → D
  add : D → D → D
  sub : D → D → D
  toInt64Seconds : D → Int
  toInt64Nanoseconds : D → Int
  formatDuration : D → String
  range {d : D} {t : Int} : value d = .finite t → InRange t
  eq_iff (a b : D) : eq a b = true ↔ value a = value b
  value_infinite : value infiniteDuration = .infinite false
  value_neg_infinite : value (neg infiniteDuration) = .infinite true
  value_seconds {n : Int} : InInt64 n → value (seconds n) = .finite (n * ticksPerSecond)
  value_nanoseconds {n : Int} : InInt64 n → value (nanoseconds n) = .finite (n * 4)
  value_add {a b : D} {s t : Int} : value a = .finite s → value b = .finite t →
    InRange (s + t) → value (add a b) = .finite (s + t)
  value_sub {a b : D} {s t : Int} : value a = .finite s → value b = .finite t →
    InRange (s - t) → value (sub a b) = .finite (s - t)
  seconds_of {d : D} {t : Int} : value d = .finite t →
    toInt64Seconds d = t.tdiv ticksPerSecond
  nanoseconds_of {d : D} {t : Int} : value d = .finite t → InInt64 (t.tdiv 4) →
    toInt64Nanoseconds d = t.tdiv 4

def kDurationProtoMaxSeconds : Int := 315576000000

def kDurationProtoMaxNanos : Int := 999999999

/-- `std::abs` of an `int64_t` -/
def abs64 (x : Int) : Option Int := if x = -2 ^ 63 then none else some |x|

def isRepresentableDuration (seconds nanoSeconds : Int) : Option Bool := do
  if (← abs64 seconds) ≤ kDurationProtoMaxSeconds then
    return (← abs64 nanoSeconds) ≤ kDurationProtoMaxNanos
  else return false

variable {D : Type} (absl : AbslTime D)

def encodeError (d : D) : Status :=
  ⟨.invalidArgument, s!"Duration {absl.formatDuration d} cannot be encoded as a Duration proto."⟩

def encodeGoogleApiProto (d : D) : Option (Except Status DurationProto) :=
  if absl.eq d absl.infiniteDuration || absl.eq d (absl.neg absl.infiniteDuration) then
    some (.error (encodeError absl d))
  else
    let seconds := absl.toInt64Seconds d
    let nanos := absl.toInt64Nanoseconds (absl.sub d (absl.seconds seconds))
    match isRepresentableDuration seconds nanos with
    | none => none
    | some false => some (.error (encodeError absl d))
    | some true => some (.ok (.set seconds nanos))

/-- `debugString` is the proto's `DebugString()`. -/
def decodeGoogleApiProto (debugString : DurationProto → String) (proto : DurationProto) :
    Option (Except Status D) :=
  match isRepresentableDuration proto.seconds proto.nanos with
  | none => none
  | some false => some (.error
      ⟨.invalidArgument, s!"Proto {debugString proto} cannot be decoded to a Duration."⟩)
  | some true => some (.ok (absl.add (absl.seconds proto.seconds)
      (absl.nanoseconds proto.nanos)))

/-- A call that returns. -/
def Succeeds {α : Type} (result : Option (Except Status α)) (success : Prop) : Prop :=
  ∃ r, result = some r ∧ ((∃ a, r = .ok a) ↔ success)

/-- `d` is encoded if its whole seconds are within the limit, and then decoded as what it is in
whole nanoseconds. -/
def Encodes (debugString : DurationProto → String) (d : D) : Prop :=
  Succeeds (encodeGoogleApiProto absl d)
      (∃ t, absl.value d = .finite t ∧ |t.tdiv ticksPerSecond| ≤ kDurationProtoMaxSeconds) ∧
    ∀ proto, encodeGoogleApiProto absl d = some (.ok proto) →
      ∃ d' t, decodeGoogleApiProto absl debugString proto = some (.ok d') ∧
        absl.value d = .finite t ∧ absl.value d' = .finite (4 * t.tdiv 4)

/-- A proto is decoded if both of its numbers are within their limits. -/
def Decodes (debugString : DurationProto → String) (proto : DurationProto) : Prop :=
  Succeeds (decodeGoogleApiProto absl debugString proto)
    (|proto.seconds| ≤ kDurationProtoMaxSeconds ∧ |proto.nanos| ≤ kDurationProtoMaxNanos)

/-! ## Rounding -/

/-- Rounding toward zero, by the sign. -/
theorem tdiv_cases (t k : Int) :
    (0 ≤ t ∧ t.tdiv k = t / k) ∨ (t < 0 ∧ t.tdiv k = -(-t / k)) := by
  rcases Int.lt_or_le t 0 with neg | nonneg
  · right
    refine ⟨neg, ?_⟩
    rw [← Int.tdiv_eq_ediv_of_nonneg (by omega), Int.neg_tdiv, Int.neg_neg]
  · exact .inl ⟨nonneg, Int.tdiv_eq_ediv_of_nonneg nonneg⟩

/-- What is left of the seconds is less than one. -/
theorem rest_lt (t : Int) : |t - t.tdiv ticksPerSecond * ticksPerSecond| < ticksPerSecond := by
  rw [abs_lt]
  unfold ticksPerSecond
  rcases tdiv_cases t 4000000000 with ⟨_, eq⟩ | ⟨_, eq⟩
  · rw [eq]
    omega
  · rw [eq]
    omega

/-- Whole nanoseconds are the whole seconds and those of the rest. -/
theorem nanos_split (t : Int) :
    t.tdiv ticksPerSecond * ticksPerSecond +
        (t - t.tdiv ticksPerSecond * ticksPerSecond).tdiv 4 * 4 = 4 * t.tdiv 4 := by
  unfold ticksPerSecond
  rcases tdiv_cases t 4000000000 with ⟨sign, eq⟩ | ⟨sign, eq⟩
  · rw [eq]
    rcases tdiv_cases (t - t / 4000000000 * 4000000000) 4 with ⟨s, e⟩ | ⟨s, e⟩
    · rw [e, Int.tdiv_eq_ediv_of_nonneg sign]
      omega
    · omega
  · rw [eq]
    rcases tdiv_cases (t - -(-t / 4000000000) * 4000000000) 4 with ⟨s, e⟩ | ⟨s, e⟩
    · rcases tdiv_cases t 4 with ⟨s', e'⟩ | ⟨s', e'⟩
      · omega
      · rw [e, e']
        omega
    · rcases tdiv_cases t 4 with ⟨s', e'⟩ | ⟨s', e'⟩
      · omega
      · rw [e, e']
        omega

/-! ## The range check -/

theorem isRepresentableDuration_eq {seconds nanos : Int} (hs : seconds ≠ -2 ^ 63)
    (hn : nanos ≠ -2 ^ 63) : isRepresentableDuration seconds nanos =
      some (decide (|seconds| ≤ kDurationProtoMaxSeconds ∧ |nanos| ≤ kDurationProtoMaxNanos)) := by
  have first : abs64 seconds = some |seconds| := if_neg hs
  have second : abs64 nanos = some |nanos| := if_neg hn
  unfold isRepresentableDuration
  rw [first, second]
  by_cases fits : |seconds| ≤ kDurationProtoMaxSeconds
  · simp [fits]
  · simp [fits]

theorem isRepresentableDuration_min (nanos : Int) :
    isRepresentableDuration (-2 ^ 63) nanos = none := rfl

variable {absl} {debugString : DurationProto → String}

theorem decodes_of_ne {proto : DurationProto} (other : proto.seconds ≠ -2 ^ 63) :
    Decodes absl debugString proto := by
  have nanos : proto.nanos ≠ -2 ^ 63 := by
    have low := proto.nanos_int32.1
    omega
  have check := isRepresentableDuration_eq other nanos
  unfold Decodes Succeeds decodeGoogleApiProto
  rw [check]
  by_cases fits : |proto.seconds| ≤ kDurationProtoMaxSeconds ∧
      |proto.nanos| ≤ kDurationProtoMaxNanos
  · rw [decide_eq_true fits]
    exact ⟨_, rfl, fun _ => fits, fun _ => ⟨_, rfl⟩⟩
  · rw [decide_eq_false fits]
    exact ⟨_, rfl, fun ⟨_, ok⟩ => (nomatch ok), fun both => absurd both fits⟩

theorem not_decodes_min {proto : DurationProto} (min : proto.seconds = -2 ^ 63) :
    ¬ Decodes absl debugString proto := by
  rintro ⟨r, result, _⟩
  unfold decodeGoogleApiProto at result
  rw [min, isRepresentableDuration_min] at result
  cases result

/-! ## Encoding -/

theorem finite_not_infinite {d : D} {t : Int} (finite : absl.value d = .finite t) :
    (absl.eq d absl.infiniteDuration || absl.eq d (absl.neg absl.infiniteDuration)) = false := by
  rw [Bool.or_eq_false_iff]
  constructor
  · rw [Bool.eq_false_iff, ne_eq, absl.eq_iff, finite, absl.value_infinite]
    exact fun same => nomatch same
  · rw [Bool.eq_false_iff, ne_eq, absl.eq_iff, finite, absl.value_neg_infinite]
    exact fun same => nomatch same

theorem infinite_is_infinite {d : D} {negative : Bool}
    (infinite : absl.value d = .infinite negative) :
    (absl.eq d absl.infiniteDuration || absl.eq d (absl.neg absl.infiniteDuration)) = true := by
  rw [Bool.or_eq_true, absl.eq_iff, absl.eq_iff, infinite, absl.value_infinite,
    absl.value_neg_infinite]
  cases negative with
  | false => exact .inl rfl
  | true => exact .inr rfl

/-- The whole seconds of a duration are an `int64_t`, the least one only for that many. -/
theorem seconds_int64 {t : Int} (range : InRange t) : InInt64 (t.tdiv ticksPerSecond) ∧
    (t.tdiv ticksPerSecond = -2 ^ 63 ↔ t = -2 ^ 63 * ticksPerSecond) := by
  unfold InRange ticksPerSecond at *
  unfold InInt64
  rcases tdiv_cases t 4000000000 with ⟨_, eq⟩ | ⟨_, eq⟩
  · rw [eq]
    omega
  · rw [eq]
    omega

/-- What the encoder computes of a finite duration. -/
theorem nanos_of_rest {d : D} {t : Int} (finite : absl.value d = .finite t) :
    let seconds := t.tdiv ticksPerSecond
    let nanos := (t - seconds * ticksPerSecond).tdiv 4
    absl.toInt64Nanoseconds (absl.sub d (absl.seconds (absl.toInt64Seconds d))) = nanos ∧
      |nanos| ≤ kDurationProtoMaxNanos := by
  intro seconds nanos
  have rest := abs_lt.mp (rest_lt t)
  have small : |nanos| ≤ kDurationProtoMaxNanos := by
    rw [abs_le]
    unfold kDurationProtoMaxNanos
    unfold ticksPerSecond at rest
    rcases tdiv_cases (t - seconds * ticksPerSecond) 4 with ⟨_, eq⟩ | ⟨_, eq⟩
    · change -999999999 ≤ (t - seconds * ticksPerSecond).tdiv 4 ∧
        (t - seconds * ticksPerSecond).tdiv 4 ≤ 999999999
      rw [eq]
      unfold seconds ticksPerSecond at *
      omega
    · change -999999999 ≤ (t - seconds * ticksPerSecond).tdiv 4 ∧
        (t - seconds * ticksPerSecond).tdiv 4 ≤ 999999999
      rw [eq]
      unfold seconds ticksPerSecond at *
      omega
  have whole : absl.toInt64Seconds d = seconds := absl.seconds_of finite
  have inside := seconds_int64 (absl.range finite)
  have difference : absl.value (absl.sub d (absl.seconds seconds)) =
      .finite (t - seconds * ticksPerSecond) := by
    apply absl.value_sub finite (absl.value_seconds inside.1)
    unfold InRange ticksPerSecond
    unfold ticksPerSecond at rest
    omega
  have int64 : InInt64 nanos := by
    have bounds := abs_le.mp small
    unfold kDurationProtoMaxNanos at bounds
    unfold InInt64
    omega
  rw [whole]
  exact ⟨absl.nanoseconds_of difference int64, small⟩

/-- The parts that are encoded fit into the fields. -/
theorem set_eq {seconds nanos : Int} (hs : InInt64 seconds)
    (hn : |nanos| ≤ kDurationProtoMaxNanos) : (DurationProto.set seconds nanos).seconds = seconds ∧
      (DurationProto.set seconds nanos).nanos = nanos := by
  have bounds := abs_le.mp hn
  unfold kDurationProtoMaxNanos at bounds
  unfold InInt64 at hs
  unfold DurationProto.set toInt64 toInt32
  constructor
  · simp only
    omega
  · simp only
    omega

theorem encode_finite {d : D} {t : Int} (finite : absl.value d = .finite t)
    (other : t ≠ -2 ^ 63 * ticksPerSecond) :
    let seconds := t.tdiv ticksPerSecond
    encodeGoogleApiProto absl d = some (if |seconds| ≤ kDurationProtoMaxSeconds then
      .ok (.set seconds ((t - seconds * ticksPerSecond).tdiv 4))
    else .error (encodeError absl d)) := by
  intro seconds
  obtain ⟨nanos, small⟩ := nanos_of_rest finite
  obtain ⟨_, least⟩ := seconds_int64 (absl.range finite)
  have notMin : (t - seconds * ticksPerSecond).tdiv 4 ≠ -2 ^ 63 := by
    intro min
    rw [min] at small
    exact absurd small (by decide)
  have check := isRepresentableDuration_eq (fun min => other (least.mp min)) notMin
  unfold encodeGoogleApiProto
  simp only [finite_not_infinite finite, Bool.false_eq_true, if_false, nanos]
  rw [absl.seconds_of finite, check]
  by_cases fits : |seconds| ≤ kDurationProtoMaxSeconds
  · rw [decide_eq_true ⟨fits, small⟩, if_pos fits]
  · rw [decide_eq_false fun both => fits both.1, if_neg fits]

/-- The parts of a duration are decoded as its whole nanoseconds. -/
theorem decode_set {d : D} {t : Int} (finite : absl.value d = .finite t)
    (int64 : InInt64 (t.tdiv ticksPerSecond))
    (fits : |t.tdiv ticksPerSecond| ≤ kDurationProtoMaxSeconds)
    (small : |(t - t.tdiv ticksPerSecond * ticksPerSecond).tdiv 4| ≤ kDurationProtoMaxNanos) :
    ∃ d' t', decodeGoogleApiProto absl debugString (.set (t.tdiv ticksPerSecond)
        ((t - t.tdiv ticksPerSecond * ticksPerSecond).tdiv 4)) = some (.ok d') ∧
      absl.value d = .finite t' ∧ absl.value d' = .finite (4 * t'.tdiv 4) := by
  obtain ⟨seconds, nanos⟩ := set_eq int64 small
  have split := nanos_split t
  generalize t.tdiv ticksPerSecond = s at *
  generalize (t - s * ticksPerSecond).tdiv 4 = n at *
  have boundS := abs_le.mp fits
  have boundN := abs_le.mp small
  unfold kDurationProtoMaxSeconds at boundS
  unfold kDurationProtoMaxNanos at boundN
  have check := @isRepresentableDuration_eq s n (by omega) (by omega)
  rw [decide_eq_true ⟨fits, small⟩] at check
  refine ⟨absl.add (absl.seconds s) (absl.nanoseconds n), t, ?_, finite, ?_⟩
  · unfold decodeGoogleApiProto
    rw [seconds, nanos, check]
  · have int64' : InInt64 n := by
      unfold InInt64
      omega
    rw [← split]
    apply absl.value_add (absl.value_seconds int64) (absl.value_nanoseconds int64')
    unfold InRange ticksPerSecond
    omega

theorem encodes_of_ne {d : D} (other : absl.value d ≠ .finite (-2 ^ 63 * ticksPerSecond)) :
    Encodes absl debugString d := by
  cases value : absl.value d with
  | infinite negative =>
    have result : encodeGoogleApiProto absl d = some (.error (encodeError absl d)) :=
      if_pos (infinite_is_infinite value)
    constructor
    · refine ⟨_, result, fun ⟨_, ok⟩ => (nomatch ok), ?_⟩
      rintro ⟨t, finite, _⟩
      rw [value] at finite
      cases finite
    · intro proto ok
      rw [result] at ok
      cases ok
  | finite t =>
    have least : t ≠ -2 ^ 63 * ticksPerSecond := by
      rintro rfl
      exact other value
    have result := encode_finite value least
    simp only at result
    by_cases fits : |t.tdiv ticksPerSecond| ≤ kDurationProtoMaxSeconds
    · rw [if_pos fits] at result
      constructor
      · exact ⟨_, result, fun _ => ⟨t, value, fits⟩, fun _ => ⟨_, rfl⟩⟩
      · intro proto ok
        rw [result] at ok
        cases ok
        obtain ⟨int64, _⟩ := seconds_int64 (absl.range value)
        obtain ⟨_, small⟩ := nanos_of_rest value
        exact decode_set value int64 fits small
    · rw [if_neg fits] at result
      constructor
      · refine ⟨_, result, fun ⟨_, ok⟩ => (nomatch ok), ?_⟩
        rintro ⟨t', finite, fits'⟩
        rw [value] at finite
        cases finite
        exact absurd fits' fits
      · intro proto ok
        rw [result] at ok
        cases ok

theorem not_encodes_min {d : D} (min : absl.value d = .finite (-2 ^ 63 * ticksPerSecond)) :
    ¬ Encodes absl debugString d := by
  rintro ⟨⟨r, result, _⟩, _⟩
  unfold encodeGoogleApiProto at result
  have seconds : absl.toInt64Seconds d = -2 ^ 63 := by
    rw [absl.seconds_of min]
    decide
  simp only [finite_not_infinite min, Bool.false_eq_true, if_false, seconds,
    isRepresentableDuration_min] at result
  cases result

/-- **A duration is encoded, and a proto decoded, as it should be, exactly when its seconds
are not the least `int64_t`.** -/
theorem durationProto_iff (absl : AbslTime D) (debugString : DurationProto → String) (d : D)
    (proto : DurationProto) :
    (Encodes absl debugString d ↔ absl.value d ≠ .finite (-2 ^ 63 * ticksPerSecond)) ∧
      (Decodes absl debugString proto ↔ proto.seconds ≠ -2 ^ 63) := by
  constructor
  · exact ⟨fun encodes min => not_encodes_min min encodes, encodes_of_ne⟩
  · exact ⟨fun decodes min => not_decodes_min min decodes, decodes_of_ne⟩

/-! ## A fixed-point type -/

/-- Ticks in range, and the two infinities. -/
structure FixedPoint where
  span : Span
  inRange : ∀ t, span = .finite t → InRange t

instance (t : Int) : Decidable (InRange t) := inferInstanceAs (Decidable (_ ∧ _))

namespace FixedPoint

def infinite (negative : Bool) : FixedPoint := ⟨.infinite negative, fun _ eq => nomatch eq⟩

/-- Saturates to infinity. -/
def ofTicks (t : Int) : FixedPoint :=
  if range : InRange t then ⟨.finite t, fun _ eq => by cases eq; exact range⟩
  else infinite (decide (t < 0))

theorem ofTicks_span {t : Int} (range : InRange t) : (ofTicks t).span = .finite t := by
  rw [ofTicks, dif_pos range]

def ticks (d : FixedPoint) : Int :=
  match d.span with
  | .finite t => t
  | .infinite _ => 0

theorem ticks_eq {d : FixedPoint} {t : Int} (finite : d.span = .finite t) : d.ticks = t := by
  rw [ticks, finite]

/-- An infinite operand gives infinity. -/
def combine (op : Int → Int → Int) (a b : FixedPoint) : FixedPoint :=
  match a.span, b.span with
  | .finite s, .finite t => ofTicks (op s t)
  | .infinite negative, _ => infinite negative
  | _, .infinite negative => infinite negative

theorem combine_span {op : Int → Int → Int} {a b : FixedPoint} {s t : Int}
    (ha : a.span = .finite s) (hb : b.span = .finite t) (range : InRange (op s t)) :
    (combine op a b).span = .finite (op s t) := by
  rw [combine, ha, hb]
  exact ofTicks_span range

def quarters : AbslTime FixedPoint where
  value := span
  eq a b := decide (a.span = b.span)
  infiniteDuration := infinite false
  neg d := match d.span with
    | .finite t => ofTicks (-t)
    | .infinite negative => infinite !negative
  seconds n := ofTicks (n * ticksPerSecond)
  nanoseconds n := ofTicks (n * 4)
  add := combine (· + ·)
  sub := combine (· - ·)
  toInt64Seconds d := d.ticks.tdiv ticksPerSecond
  toInt64Nanoseconds d := d.ticks.tdiv 4
  formatDuration d := toString d.ticks
  range := fun {d t} finite => d.inRange t finite
  eq_iff _ _ := decide_eq_true_iff
  value_infinite := rfl
  value_neg_infinite := rfl
  value_seconds := by
    intro n int64
    apply ofTicks_span
    unfold InInt64 at int64
    unfold InRange ticksPerSecond
    omega
  value_nanoseconds := by
    intro n int64
    apply ofTicks_span
    unfold InInt64 at int64
    unfold InRange ticksPerSecond
    omega
  value_add := combine_span
  value_sub := combine_span
  seconds_of finite := by rw [ticks_eq finite]
  nanoseconds_of finite _ := by rw [ticks_eq finite]

end FixedPoint

/-- `absl::Seconds(INT64_MIN)` -/
def leastDuration : FixedPoint := .ofTicks (-2 ^ 63 * ticksPerSecond)

def leastProto : DurationProto where
  seconds := -2 ^ 63
  nanos := 0
  seconds_int64 := by
    unfold InInt64
    omega
  nanos_int32 := by
    unfold InInt32
    omega

theorem durationProto_least : ¬ Encodes FixedPoint.quarters (fun _ => "") leastDuration ∧
    ¬ Decodes FixedPoint.quarters (fun _ => "") leastProto := by
  constructor
  · have range : InRange (-2 ^ 63 * ticksPerSecond) := by decide
    have value : FixedPoint.quarters.value leastDuration =
        .finite (-2 ^ 63 * ticksPerSecond) := FixedPoint.ofTicks_span range
    exact not_encodes_min value
  · exact not_decodes_min rfl

end Silifuzz.TimeProtoUtil
