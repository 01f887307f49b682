import OtlpC.Proto.Messages

/-!
# The OTLP metric messages

`Metric` with its data points as proto3 defines them, and a decoder for each: what a collector reads. A `double` is
its 64 bits.
-/

namespace OtlpC.Otlp

open Proto3

/-! ### Messages -/

/-- The `oneof value` of a data point and of an exemplar. -/
inductive Number where
  | double (v : UInt64)
  | int (v : UInt64)
deriving Repr, DecidableEq

structure Exemplar where
  filteredAttributes : List KeyValue
  timeUnixNano : UInt64
  value : Option Number
  spanId : Bytes
  traceId : Bytes
deriving Repr

structure NumberDataPoint where
  attributes : List KeyValue
  startTimeUnixNano : UInt64
  timeUnixNano : UInt64
  value : Option Number
  exemplars : List Exemplar
  flags : UInt64
deriving Repr

structure HistogramDataPoint where
  attributes : List KeyValue
  startTimeUnixNano : UInt64
  timeUnixNano : UInt64
  count : UInt64
  sum : Option UInt64
  bucketCounts : List UInt64
  explicitBounds : List UInt64
  exemplars : List Exemplar
  flags : UInt64
  min : Option UInt64
  max : Option UInt64
deriving Repr

structure ExpBuckets where
  offset : ℤ
  bucketCounts : List UInt64
deriving Repr, DecidableEq

structure ExponentialHistogramDataPoint where
  attributes : List KeyValue
  startTimeUnixNano : UInt64
  timeUnixNano : UInt64
  count : UInt64
  sum : Option UInt64
  scale : ℤ
  zeroCount : UInt64
  positive : ExpBuckets
  negative : ExpBuckets
  flags : UInt64
  exemplars : List Exemplar
  min : Option UInt64
  max : Option UInt64
  zeroThreshold : UInt64
deriving Repr

/-- The `oneof data` of a metric; a summary is not looked into. -/
inductive MetricData where
  | unset
  | gauge (dataPoints : List NumberDataPoint)
  | sum (dataPoints : List NumberDataPoint) (aggregationTemporality : UInt64) (isMonotonic : Bool)
  | histogram (dataPoints : List HistogramDataPoint) (aggregationTemporality : UInt64)
  | exponentialHistogram (dataPoints : List ExponentialHistogramDataPoint) (aggregationTemporality : UInt64)
  | summary
deriving Repr

structure Metric where
  name : Bytes
  description : Bytes
  unit : Bytes
  data : MetricData
  metadata : List KeyValue
deriving Repr

/-! ### Decoders -/

/-- The field is a case of `oneof value`, with the numbers `double` and `int`. -/
def numberCase (double int : ℕ) : Field → Option Number
  | .i64 n v => if n = double then some (.double v) else if n = int then some (.int v) else none
  | _ => none

/-- The cases of `oneof value`; the last one counts. -/
def numbers (double int : ℕ) (fs : List Field) : List Number := fs.filterMap (numberCase double int)

def decodeExemplar (bs : Bytes) : Option Exemplar := do
  let fs ← fields bs
  let filteredAttributes ← decodeKeyValues 7 fs
  some {
    filteredAttributes
    timeUnixNano := lastD (i64s 2 fs) 0
    value := (numbers 3 6 fs).getLast?
    spanId := lastD (lens 4 fs) []
    traceId := lastD (lens 5 fs) [] }

def decodeNumberDataPoint (bs : Bytes) : Option NumberDataPoint := do
  let fs ← fields bs
  let attributes ← decodeKeyValues 7 fs
  let exemplars ← (lens 5 fs).mapM decodeExemplar
  some {
    attributes
    startTimeUnixNano := lastD (i64s 2 fs) 0
    timeUnixNano := lastD (i64s 3 fs) 0
    value := (numbers 4 6 fs).getLast?
    exemplars
    flags := lastD (varints 8 fs) 0 }

def decodeHistogramDataPoint (bs : Bytes) : Option HistogramDataPoint := do
  let fs ← fields bs
  let attributes ← decodeKeyValues 9 fs
  let bucketCounts ← packedI64s 6 fs
  let explicitBounds ← packedI64s 7 fs
  let exemplars ← (lens 8 fs).mapM decodeExemplar
  some {
    attributes
    startTimeUnixNano := lastD (i64s 2 fs) 0
    timeUnixNano := lastD (i64s 3 fs) 0
    count := lastD (i64s 4 fs) 0
    sum := (i64s 5 fs).getLast?
    bucketCounts
    explicitBounds
    exemplars
    flags := lastD (varints 10 fs) 0
    min := (i64s 11 fs).getLast?
    max := (i64s 12 fs).getLast? }

def sint32 (n : ℕ) (fs : List Field) : ℤ := unzigzag ((lastD (varints n fs) 0).toNat % 2 ^ 32)

def decodeExpBuckets (bs : Bytes) : Option ExpBuckets := do
  let fs ← fields bs
  let bucketCounts ← packedVarints 2 fs
  some { offset := sint32 1 fs, bucketCounts }

def decodeExponentialHistogramDataPoint (bs : Bytes) : Option ExponentialHistogramDataPoint := do
  let fs ← fields bs
  let attributes ← decodeKeyValues 1 fs
  let positive ← decodeExpBuckets (subMessage 8 fs)
  let negative ← decodeExpBuckets (subMessage 9 fs)
  let exemplars ← (lens 11 fs).mapM decodeExemplar
  some {
    attributes
    startTimeUnixNano := lastD (i64s 2 fs) 0
    timeUnixNano := lastD (i64s 3 fs) 0
    count := lastD (i64s 4 fs) 0
    sum := (i64s 5 fs).getLast?
    scale := sint32 6 fs
    zeroCount := lastD (i64s 7 fs) 0
    positive
    negative
    flags := lastD (varints 10 fs) 0
    exemplars
    min := (i64s 12 fs).getLast?
    max := (i64s 13 fs).getLast?
    zeroThreshold := lastD (i64s 14 fs) 0 }

/-- The kinds of `MetricData`, by field number. -/
def decodeMetricData : ℕ → List Field → Option MetricData
  | 5, fs => do
    let dps ← (lens 1 fs).mapM decodeNumberDataPoint
    some (.gauge dps)
  | 7, fs => do
    let dps ← (lens 1 fs).mapM decodeNumberDataPoint
    some (.sum dps (lastD (varints 2 fs) 0) (lastD (varints 3 fs) 0 != 0))
  | 9, fs => do
    let dps ← (lens 1 fs).mapM decodeHistogramDataPoint
    some (.histogram dps (lastD (varints 2 fs) 0))
  | 10, fs => do
    let dps ← (lens 1 fs).mapM decodeExponentialHistogramDataPoint
    some (.exponentialHistogram dps (lastD (varints 2 fs) 0))
  | 11, _ => some .summary
  | _, _ => some .unset

def dataCase : Field → Option (ℕ × Bytes)
  | .len n p => if n ∈ [5, 7, 9, 10, 11] then some (n, p) else none
  | _ => none

/-- The cases of `oneof data`; the last one counts. -/
def dataFields (fs : List Field) : List (ℕ × Bytes) := fs.filterMap dataCase

def decodeMetric (bs : Bytes) : Option Metric := do
  let fs ← fields bs
  let metadata ← decodeKeyValues 12 fs
  let data ← match (dataFields fs).getLast? with
    | none => some .unset
    | some (n, body) => (fields body).bind (decodeMetricData n)
  some {
    name := lastD (lens 1 fs) []
    description := lastD (lens 2 fs) []
    unit := lastD (lens 3 fs) []
    data
    metadata }

section Numbers

variable {a b : ℕ}

@[simp] theorem numbers_nil : numbers a b [] = [] := rfl

@[simp] theorem numbers_append (fs gs : List Field) : numbers a b (fs ++ gs) = numbers a b fs ++ numbers a b gs :=
  List.filterMap_append

@[simp] theorem numbers_cons_i64 (n : ℕ) (v : UInt64) (fs : List Field) : numbers a b (.i64 n v :: fs) =
    if n = a then .double v :: numbers a b fs else if n = b then .int v :: numbers a b fs else numbers a b fs := by
  rw [numbers, List.filterMap_cons, numberCase]
  split_ifs <;> rfl

@[simp] theorem numbers_repeated (n : ℕ) (ps : List Bytes) : numbers a b (repeated n ps) = [] := by
  rw [numbers, repeated, List.filterMap_map]
  exact List.filterMap_eq_nil_iff.2 fun _ _ => rfl

@[simp] theorem numbers_optLen (n : ℕ) (p : Option Bytes) : numbers a b (optLen n p) = [] := by
  cases p <;> rfl

@[simp] theorem numbers_omitZero64 {n : ℕ} (ha : n ≠ a) (hb : n ≠ b) (v : UInt64) :
    numbers a b (omitZero64 n v) = [] := by
  unfold omitZero64
  split <;> simp [ha, hb]

@[simp] theorem dataFields_cons_len (n : ℕ) (p : Bytes) (fs : List Field) : dataFields (.len n p :: fs) =
    if n ∈ [5, 7, 9, 10, 11] then (n, p) :: dataFields fs else dataFields fs := by
  rw [dataFields, List.filterMap_cons, dataCase]
  split_ifs <;> rfl

@[simp] theorem dataFields_append (fs gs : List Field) : dataFields (fs ++ gs) = dataFields fs ++ dataFields gs :=
  List.filterMap_append

@[simp] theorem dataFields_omitEmpty {n : ℕ} (hn : n ∉ [5, 7, 9, 10, 11]) (p : Bytes) :
    dataFields (omitEmpty n p) = [] := by
  unfold omitEmpty
  split
  · rfl
  · rw [dataFields_cons_len, if_neg hn]
    rfl

end Numbers

end OtlpC.Otlp
