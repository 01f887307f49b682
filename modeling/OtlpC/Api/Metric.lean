import OtlpC.Api.Log

/-!
# Metrics and exemplars

`struct otlp_metric`, `struct otlp_exemplar` and their functions in `metric.c`, and what the calls do to them. A
`double` is its 64 bits; its arithmetic and its comparisons are a parameter.
-/

namespace OtlpC.Api

open Exporter Otlp

/-! ### Data -/

abbrev Double := UInt64

/-- `+`, `<`, `<=` and `== 0.0` on `double`. -/
structure Fp where
  add : Double → Double → Double
  lt : Double → Double → Bool
  le : Double → Double → Bool
  isZero : Double → Bool

/-- An arithmetic for runs that record nothing. -/
def Fp.trivial : Fp := ⟨fun _ y => y, fun _ _ => false, fun _ _ => false, fun _ => false⟩

inductive OtlpMetricType where
  | counter
  | gauge
  | histogram
  | expHistogram
deriving Repr, DecidableEq

/-- The kind of a value of the enumeration that `otlp_metric_create` takes. -/
def OtlpMetricType.ofEnum (type : UInt32) : Option OtlpMetricType :=
  if type = 1 then some counter
  else if type = 2 then some gauge
  else if type = 3 then some histogram
  else if type = 4 then some expHistogram
  else none

abbrev otlpMetricMaxAttrs : ℕ := 128
abbrev otlpAggTempDelta : UInt8 := 1
abbrev otlpAggTempCumulative : UInt8 := 2
abbrev sizeofMetric : ℕ := 256
abbrev sizeofExemplar : ℕ := 64

/-- `struct otlp_exemplar`. -/
structure Exemplar where
  doubleVal : Double
  intVal : UInt64
  hasDouble : Bool
  hasInt : Bool
  traceId : TraceId
  spanId : SpanId
  hasTrace : Bool
  hasSpan : Bool
  timeUnixNano : UInt64
  hasTime : Bool
deriving Repr, DecidableEq

abbrev Counts := HeapArr UInt64 8

/-- `bounds`, `n_bounds` and `bucket_counts`: no array, one count without bounds, or one count more than there are
bounds. -/
inductive Buckets where
  | none
  | single (counts : Counts) (length_eq : counts.items.length = 1)
  | explicit (bounds : HeapArr Double 8) (counts : Counts) (length_eq : counts.items.length = bounds.items.length + 1)

/-- One side of an exponential histogram: `exp_pos_offset` and `exp_pos_counts`, or the negative ones. The length
beside an array is its own; the one beside NULL is never read. -/
structure ExpSide where
  offset : Int32
  counts : Option Counts

/-- `struct otlp_metric`; `block` is the block it lies in. -/
structure Metric where
  block : ℕ
  type : OtlpMetricType
  name : HeapStr
  unit : HeapStr
  description : HeapStr
  startTime : UInt64
  time : UInt64
  hasStart : Bool
  hasTime : Bool
  attrs : AttrVec
  aggTemp : UInt8
  isMonotonic : Bool
  value : Double
  count : UInt64
  sum : Double
  min : Double
  max : Double
  hasMinmax : Bool
  buckets : Buckets
  expScale : Int32
  expZeroCount : UInt64
  expPos : ExpSide
  expNeg : ExpSide
  hasExpScale : Bool
  exemplars : GrowVec Exemplar sizeofExemplar

/-! ### Creation -/

/-- Two blocks with the bounds and the counts in them. -/
def explicitBuckets {bs : List Double} (a : Chunk (bs.length * 8)) (c : Chunk ((bs.length + 1) * 8))
    (counts : List UInt64) (hcounts : counts.length = bs.length + 1) : Buckets :=
  .explicit ⟨a.block, bs, a.fits⟩ ⟨c.block, counts, hcounts ▸ c.fits⟩ hcounts

/-- The bounds, and the counts all 0; both are asked for before either is looked at. -/
def createBuckets (h : Heap) (type : OtlpMetricType) (bounds : Option (List Double)) : Option Buckets × Heap :=
  match bounds with
  | none | some [] => (some .none, h)
  | some bs =>
    if type ≠ .histogram then (some .none, h)
    else if sizeMax / 8 < bs.length ∨ sizeMax / 8 ≤ bs.length then (none, h)
    else
      let (a, h) := otlpMalloc h (bs.length * 8)
      let (c, h) := otlpMalloc h ((bs.length + 1) * 8)
      match a, c with
      | some a, some c => (some (explicitBuckets a c (.replicate (bs.length + 1) 0) List.length_replicate), h)
      | _, _ => (none, h)

def otlpMetricCreate (h : Heap) (type : UInt32) (name unit description : Option Bytes)
    (histogramBounds : Option (List Double)) : Option Metric × Heap :=
  match OtlpMetricType.ofEnum type with
  | none => (none, h)
  | some type =>
    match otlpMalloc h sizeofMetric with
    | (none, h) => (none, h)
    | (some c, h) =>
      if !isUtf8 name || !isUtf8 unit || !isUtf8 description then (none, h)
      else
        let (name, h) := otlpDupStr h (some (name.getD []))
        let (unit, h) := otlpDupStr h (some (unit.getD []))
        let (description, h) := otlpDupStr h (some (description.getD []))
        match name, unit, description with
        | some name, some unit, some description =>
          match createBuckets h type histogramBounds with
          | (none, h) => (none, h)
          | (some buckets, h) =>
            (some {
              block := c.block
              type
              name
              unit
              description
              startTime := 0
              time := 0
              hasStart := false
              hasTime := false
              attrs := .empty
              aggTemp := otlpAggTempCumulative
              isMonotonic := true
              value := 0
              count := 0
              sum := 0
              min := 0
              max := 0
              hasMinmax := false
              buckets
              expScale := 0
              expZeroCount := 0
              expPos := ⟨0, none⟩
              expNeg := ⟨0, none⟩
              hasExpScale := false
              exemplars := .empty }, h)
        | _, _, _ => (none, h)

/-! ### Functions that change a metric -/

theorem exemplars_lt (v : GrowVec Exemplar sizeofExemplar) : v.items.length < sizeMax := by
  have hfits := v.fits
  have hle := v.le_cap
  unfold ptrdiffMax at hfits
  unfold sizeMax
  simp only [sizeofExemplar] at hfits
  omega

/-- `bucket_counts[i]++`. -/
def Counts.bump (a : Counts) (i : ℕ) : Counts where
  block := a.block
  items := a.items.modify i (· + 1)
  fits := by rw [List.length_modify]; exact a.fits

/-- The bucket of a recorded value: the first whose bound it does not exceed. Without bounds there is one, which
the first call allocates. -/
def recordBucket (fp : Fp) (h : Heap) (value : Double) : Buckets → OtlpStatus × Buckets × Heap
  | .explicit bounds counts hlen =>
    (.ok, .explicit bounds (counts.bump (bounds.items.findIdx (fp.le value)))
      ((List.length_modify ..).trans hlen), h)
  | .single counts hlen => (.ok, .single (counts.bump 0) ((List.length_modify ..).trans hlen), h)
  | .none =>
    match otlpMalloc h 8 with
    | (none, h) => (.errNomem, .none, h)
    | (some c, h) => (.ok, .single (Counts.bump ⟨c.block, [0], c.fits⟩ 0) rfl, h)

def otlpMetricRecord (fp : Fp) (h : Heap) (m : Metric) (value : Double) : OtlpStatus × Metric × Heap :=
  match m.type with
  | .counter => (.ok, { m with value := fp.add m.value value }, h)
  | .gauge => (.ok, { m with value }, h)
  | .histogram =>
    let m := { m with
      count := m.count + 1
      sum := fp.add m.sum value
      min := if !m.hasMinmax || fp.lt value m.min then value else m.min
      max := if !m.hasMinmax || fp.lt m.max value then value else m.max
      hasMinmax := true }
    let r := recordBucket fp h value m.buckets
    (r.1, { m with buckets := r.2.1 }, r.2.2)
  | .expHistogram =>
    (.ok, { m with
      count := m.count + 1
      sum := fp.add m.sum value
      expZeroCount := if fp.isZero value then m.expZeroCount + 1 else m.expZeroCount }, h)

def otlpMetricSetStartTime (m : Metric) (unixNano : UInt64) : OtlpStatus × Metric :=
  (.ok, { m with startTime := unixNano, hasStart := true })

def otlpMetricSetTime (m : Metric) (unixNano : UInt64) : OtlpStatus × Metric :=
  (.ok, { m with time := unixNano, hasTime := true })

/-- `now` is the clock's reading, if it can be read. -/
def otlpMetricMarkTime (m : Metric) (now : Option UInt64) : OtlpStatus × Metric :=
  match now with
  | none => (.errNetwork, m)
  | some t => (.ok, { m with time := t, hasTime := true })

def otlpMetricSetAttribute (h : Heap) (m : Metric) (key : Option Bytes) (arg : AttrArg) :
    OtlpStatus × Metric × Heap :=
  let r := setAttribute h m.attrs otlpMetricMaxAttrs key arg
  (r.1, { m with attrs := r.2.1 }, r.2.2)

/-- One side of `otlp_metric_set_exp_histogram`. NULL or no counts leave the side as it is; else the old counts are
freed before the new ones are allocated. -/
def setExpSide (h : Heap) (side : ExpSide) (offset : Int32) : Option (List UInt64) → OtlpStatus × ExpSide × Heap
  | none | some [] => (.ok, side, h)
  | some counts =>
    if sizeMax / 8 < counts.length then (.errInvalidArgument, side, h)
    else
      match dupArr 8 h counts with
      | (none, h) => (.errNomem, ⟨offset, none⟩, h)
      | (some a, h) => (.ok, ⟨offset, some a⟩, h)

def otlpMetricSetExpHistogram (h : Heap) (m : Metric) (scale posOffset : Int32) (posCounts : Option (List UInt64))
    (negOffset : Int32) (negCounts : Option (List UInt64)) : OtlpStatus × Metric × Heap :=
  if m.type ≠ .expHistogram then (.errInvalidArgument, m, h)
  else
    let m := { m with expScale := scale, hasExpScale := true }
    match setExpSide h m.expPos posOffset posCounts with
    | (.ok, pos, h) =>
      let r := setExpSide h m.expNeg negOffset negCounts
      (r.1, { m with expPos := pos, expNeg := r.2.1 }, r.2.2)
    | (st, pos, h) => (st, { m with expPos := pos }, h)

def otlpMetricSetAggregationTemporality (m : Metric) (temp : UInt8) : OtlpStatus × Metric :=
  if temp ≠ otlpAggTempDelta ∧ temp ≠ otlpAggTempCumulative then (.errInvalidArgument, m)
  else (.ok, { m with aggTemp := temp })

def otlpMetricSetMonotonic (m : Metric) (monotonic : Bool) : OtlpStatus × Metric :=
  (.ok, { m with isMonotonic := monotonic })

/-- `otlp_metric_add_exemplar`; the array has no maximum. -/
def otlpMetricAddExemplar (h : Heap) (m : Metric) (ex : Option Exemplar) : OtlpStatus × Metric × Heap :=
  match ex with
  | none => (.errNull, m, h)
  | some ex =>
    if !ex.hasDouble && !ex.hasInt then (.errInvalidArgument, m, h)
    else if m.exemplars.items.length = m.exemplars.cap ∧ m.exemplars.cap * 2 % 2 ^ 64 < m.exemplars.cap then
      (.errOverflow, m, h)
    else
      match m.exemplars.grow sizeMax (exemplars_lt m.exemplars) (by decide) h with
      | (none, h) => (.errNomem, m, h)
      | (some exemplars, h) => (.ok, { m with exemplars := GrowVec.push exemplars ex }, h)

/-! ### Exemplars -/

def otlpExemplarCreate (h : Heap) : Option Exemplar × Heap :=
  match otlpMalloc h sizeofExemplar with
  | (none, h) => (none, h)
  | (some _, h) =>
    (some {
      doubleVal := 0
      intVal := 0
      hasDouble := false
      hasInt := false
      traceId := zeroTraceId
      spanId := zeroSpanId
      hasTrace := false
      hasSpan := false
      timeUnixNano := 0
      hasTime := false }, h)

def otlpExemplarClone (h : Heap) (ex : Exemplar) : Option Exemplar × Heap :=
  match otlpExemplarCreate h with
  | (none, h) => (none, h)
  | (some _, h) => (some ex, h)

def otlpExemplarSetDoubleValue (ex : Exemplar) (value : Double) : OtlpStatus × Exemplar :=
  (.ok, { ex with doubleVal := value, hasDouble := true, hasInt := false })

def otlpExemplarSetIntValue (ex : Exemplar) (value : UInt64) : OtlpStatus × Exemplar :=
  (.ok, { ex with intVal := value, hasInt := true, hasDouble := false })

/-- `otlp_exemplar_set_trace_context`: the trace id is stored before the span id is looked at. -/
def otlpExemplarSetTraceContext (ex : Exemplar) (traceId : Option TraceId) (spanId : Option SpanId) :
    OtlpStatus × Exemplar :=
  if traceId.any otlpIdIsAllZero then (.errInvalidArgument, ex)
  else
    let ex := { ex with traceId := traceId.getD ex.traceId, hasTrace := ex.hasTrace || traceId.isSome }
    if spanId.any otlpIdIsAllZero then (.errInvalidArgument, ex)
    else (.ok, { ex with spanId := spanId.getD ex.spanId, hasSpan := ex.hasSpan || spanId.isSome })

def otlpExemplarMarkTime (ex : Exemplar) (now : Option UInt64) : OtlpStatus × Exemplar :=
  match now with
  | none => (.errNetwork, ex)
  | some t => (.ok, { ex with timeUnixNano := t, hasTime := true })

def otlpExemplarSetTimestamp (ex : Exemplar) (timeUnixNano : UInt64) : OtlpStatus × Exemplar :=
  (.ok, { ex with timeUnixNano, hasTime := true })

/-! ### Calls -/

/-- A call of the public API that changes a metric. -/
inductive MetricCall where
  | record (value : Double)
  | setStartTime (unixNano : UInt64)
  | setTime (unixNano : UInt64)
  | markTime (now : Option UInt64)
  | setAttribute (key : Option Bytes) (arg : AttrArg)
  | setExpHistogram (scale posOffset : Int32) (posCounts : Option (List UInt64)) (negOffset : Int32)
      (negCounts : Option (List UInt64))
  | setAggregationTemporality (temp : UInt8)
  | setMonotonic (monotonic : Bool)
  | addExemplar (ex : Option Exemplar)

def MetricCall.run (fp : Fp) (h : Heap) (m : Metric) : MetricCall → OtlpStatus × Metric × Heap
  | record value => otlpMetricRecord fp h m value
  | setStartTime t => onHeap h (otlpMetricSetStartTime m t)
  | setTime t => onHeap h (otlpMetricSetTime m t)
  | markTime now => onHeap h (otlpMetricMarkTime m now)
  | setAttribute key arg => otlpMetricSetAttribute h m key arg
  | setExpHistogram scale posOffset posCounts negOffset negCounts =>
    otlpMetricSetExpHistogram h m scale posOffset posCounts negOffset negCounts
  | setAggregationTemporality temp => onHeap h (otlpMetricSetAggregationTemporality m temp)
  | setMonotonic monotonic => onHeap h (otlpMetricSetMonotonic m monotonic)
  | addExemplar ex => otlpMetricAddExemplar h m ex

/-- A call of the public API that changes an exemplar. -/
inductive ExemplarCall where
  | setDoubleValue (value : Double)
  | setIntValue (value : UInt64)
  | setTraceContext (traceId : Option TraceId) (spanId : Option SpanId)
  | markTime (now : Option UInt64)
  | setTimestamp (timeUnixNano : UInt64)

def ExemplarCall.run (ex : Exemplar) : ExemplarCall → OtlpStatus × Exemplar
  | setDoubleValue value => otlpExemplarSetDoubleValue ex value
  | setIntValue value => otlpExemplarSetIntValue ex value
  | setTraceContext traceId spanId => otlpExemplarSetTraceContext ex traceId spanId
  | markTime now => otlpExemplarMarkTime ex now
  | setTimestamp t => otlpExemplarSetTimestamp ex t

/-! ### Reading -/

inductive NumberValue where
  | double (v : Double)
  | int (v : UInt64)
deriving Repr, DecidableEq

/-- An exemplar as the encoder reads it. -/
structure ExemplarView where
  value : NumberValue
  traceId : Option TraceId
  spanId : Option SpanId
  time : Option UInt64
deriving Repr, DecidableEq

def Exemplar.view (ex : Exemplar) : ExemplarView where
  value := if ex.hasDouble then .double ex.doubleVal else .int ex.intVal
  traceId := if ex.hasTrace then some ex.traceId else none
  spanId := if ex.hasSpan then some ex.spanId else none
  time := if ex.hasTime then some ex.timeUnixNano else none

/-- The bounds with the counts, which are only read with bounds. -/
def Buckets.view : Buckets → Option (List Double × List UInt64)
  | none | single _ _ => .none
  | explicit bounds counts _ => if bounds.items = [] then .none else some (bounds.items, counts.items)

def ExpSide.view (side : ExpSide) : Option (Int32 × List UInt64) :=
  if arrItems side.counts = [] then none else some (side.offset, arrItems side.counts)

/-- What the encoder reads of a metric through the `otlp_metric_get_*` and `otlp_metric_has_*` of
`metric_internal.h`. -/
structure MetricView where
  type : OtlpMetricType
  name : Bytes
  unit : Bytes
  description : Bytes
  startTime : Option UInt64
  time : Option UInt64
  attrs : List KeyValue
  aggTemp : UInt8
  isMonotonic : Bool
  value : Double
  count : UInt64
  sum : Double
  minmax : Option (Double × Double)
  buckets : Option (List Double × List UInt64)
  expScale : Option Int32
  expZeroCount : UInt64
  expPos : Option (Int32 × List UInt64)
  expNeg : Option (Int32 × List UInt64)
  exemplars : List ExemplarView

def Metric.view (m : Metric) : MetricView where
  type := m.type
  name := m.name.bytes
  unit := m.unit.bytes
  description := m.description.bytes
  startTime := if m.hasStart then some m.startTime else none
  time := if m.hasTime then some m.time else none
  attrs := attrKvs m.attrs
  aggTemp := m.aggTemp
  isMonotonic := m.isMonotonic
  value := m.value
  count := m.count
  sum := m.sum
  minmax := if m.hasMinmax then some (m.min, m.max) else none
  buckets := m.buckets.view
  expScale := if m.hasExpScale then some m.expScale else none
  expZeroCount := m.expZeroCount
  expPos := m.expPos.view
  expNeg := m.expNeg.view
  exemplars := m.exemplars.items.map Exemplar.view

/-! ### Clone -/

/-- The copy of the bounds and of the counts. -/
def cloneBuckets (h : Heap) : Buckets → Option Buckets × Heap
  | .none | .single _ _ => (some .none, h)
  | .explicit bounds counts hlen =>
    if bounds.items = [] then (some .none, h)
    else if sizeMax / 8 < bounds.items.length ∨ sizeMax / 8 ≤ bounds.items.length then (none, h)
    else
      let (a, h) := otlpMalloc h (bounds.items.length * 8)
      let (c, h) := otlpMalloc h ((bounds.items.length + 1) * 8)
      match a, c with
      | some a, some c => (some (explicitBuckets a c counts.items hlen), h)
      | _, _ => (none, h)

/-- The copy of one side of an exponential histogram. -/
def cloneExpSide (h : Heap) (side : ExpSide) : Option ExpSide × Heap :=
  if arrItems side.counts = [] then (some ⟨side.offset, none⟩, h)
  else if sizeMax / 8 < (arrItems side.counts).length then (none, h)
  else
    match dupArr 8 h (arrItems side.counts) with
    | (none, h) => (none, h)
    | (some a, h) => (some ⟨side.offset, some a⟩, h)

def cloneExemplars (h : Heap) (src : GrowVec Exemplar sizeofExemplar) :
    Option (GrowVec Exemplar sizeofExemplar) × Heap :=
  if src.items = [] then (some .empty, h)
  else if sizeMax / sizeofExemplar < src.items.length then (none, h)
  else
    match otlpMalloc h (src.items.length * sizeofExemplar) with
    | (none, h) => (none, h)
    | (some c, h) => (some ⟨some c.block, src.items, src.items.length, le_rfl, c.fits⟩, h)

def otlpMetricClone (h : Heap) (src : Metric) : Option Metric × Heap :=
  match otlpMalloc h sizeofMetric with
  | (none, h) => (none, h)
  | (some c, h) =>
    let (name, h) := otlpDupStr h (some src.name.bytes)
    let (unit, h) := otlpDupStr h (some src.unit.bytes)
    let (description, h) := otlpDupStr h (some src.description.bytes)
    match name, unit, description with
    | some name, some unit, some description =>
      match otlpAttrVecCopy h src.attrs with
      | (.error _, h) => (none, h)
      | (.ok attrs, h) =>
        match cloneExemplars h src.exemplars with
        | (none, h) => (none, h)
        | (some exemplars, h) =>
          match cloneBuckets h src.buckets with
          | (none, h) => (none, h)
          | (some buckets, h) =>
            match cloneExpSide h src.expPos with
            | (none, h) => (none, h)
            | (some expPos, h) =>
              match cloneExpSide h src.expNeg with
              | (none, h) => (none, h)
              | (some expNeg, h) =>
                (some { src with
                  block := c.block, name, unit, description, attrs, exemplars, buckets, expPos, expNeg }, h)
    | _, _, _ => (none, h)

end OtlpC.Api
