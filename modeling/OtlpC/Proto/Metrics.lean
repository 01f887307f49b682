import OtlpC.Api.Metric
import OtlpC.Proto.Envelope

/-!
# The metrics encoder

`otlp_metrics_encoder.c`: the data points of the four kinds, `emit_metric` and
`otlp_encode_export_metrics_service_request`, and the fields they write.
-/

namespace OtlpC.Proto

open Api Proto3 Otlp

/-! ### Functions -/

def zigzag32 (v : Int32) : UInt32 := (v.toUInt32 <<< 1) ^^^ (v >>> 31).toUInt32

def emitPackedField (fieldNum : UInt32) (payload : PbData) : Enc :=
  if payload.len = 0 then .done else otlpPbFieldBytes fieldNum payload

/-- A tag and the 64 bits of a `double`, also when they are 0. -/
def emitDouble (fieldNum : UInt32) (bits : Double) : Enc := otlpPbTag fieldNum otlpPbWireFixed64 >> otlpPbFixed64 bits

def emitExemplar (fieldNum : UInt32) (ex : ExemplarView) : Enc :=
  .withSub
    ((match ex.value with
      | .double v => emitDouble 3 v
      | .int v => otlpPbTag 6 otlpPbWireFixed64 >> otlpPbFixed64 v) >>
      .forSome ex.traceId (fun id => otlpPbFieldBytes 5 (.bytes id.toList)) >>
      .forSome ex.spanId (fun id => otlpPbFieldBytes 4 (.bytes id.toList)) >>
      .forSome ex.time (fun t => otlpPbFieldFixed64 2 t))
    (otlpPbFieldMessage fieldNum)

def emitNumberDataPoint (fieldNum : UInt32) (m : MetricView) : Enc :=
  .withSub
    (otlpEmitAttributes 7 m.attrs >>
      .each (emitExemplar 5) m.exemplars >>
      .forSome m.startTime (fun t => otlpPbFieldFixed64 2 t) >>
      .forSome m.time (fun t => otlpPbFieldFixed64 3 t) >>
      emitDouble 4 m.value)
    (otlpPbFieldMessage fieldNum)

def emitHistogramDataPoint (fieldNum : UInt32) (m : MetricView) : Enc :=
  .withSub
    (otlpEmitAttributes 9 m.attrs >>
      .each (emitExemplar 8) m.exemplars >>
      .forSome m.startTime (fun t => otlpPbFieldFixed64 2 t) >>
      .forSome m.time (fun t => otlpPbFieldFixed64 3 t) >>
      otlpPbFieldFixed64 4 m.count >>
      emitDouble 5 m.sum >>
      .forSome m.buckets (fun bs => .withSub (.each otlpPbFixed64 bs.2) (emitPackedField 6)) >>
      .forSome m.buckets (fun bs => .withSub (.each otlpPbFixed64 bs.1) (emitPackedField 7)) >>
      .forSome m.minmax (fun mm => emitDouble 11 mm.1 >> emitDouble 12 mm.2))
    (otlpPbFieldMessage fieldNum)

def emitExpHistogramBuckets (fieldNum : UInt32) (side : Int32 × List UInt64) : Enc :=
  if side.2 = [] then .done
  else .withSub
    (otlpPbFieldVarint 1 (zigzag32 side.1).toUInt64 >> .withSub (.each otlpPbVarint side.2) (emitPackedField 2))
    (otlpPbFieldMessage fieldNum)

def emitExpHistogramDataPoint (fieldNum : UInt32) (m : MetricView) : Enc :=
  .withSub
    (otlpEmitAttributes 1 m.attrs >>
      .forSome m.startTime (fun t => otlpPbFieldFixed64 2 t) >>
      .forSome m.time (fun t => otlpPbFieldFixed64 3 t) >>
      otlpPbFieldFixed64 4 m.count >>
      emitDouble 5 m.sum >>
      .forSome m.expScale (fun scale => otlpPbFieldVarint 6 (zigzag32 scale).toUInt64) >>
      .onlyIf (m.expZeroCount != 0) (otlpPbFieldFixed64 7 m.expZeroCount) >>
      .forSome m.expPos (emitExpHistogramBuckets 8) >>
      .forSome m.expNeg (emitExpHistogramBuckets 9))
    (otlpPbFieldMessage fieldNum)

/-- The field of `oneof data` and the data point encoder in `metric_kind_specs`. -/
def metricKindSpecs : OtlpMetricType → UInt32 × (UInt32 → MetricView → Enc)
  | .counter => (7, emitNumberDataPoint)
  | .gauge => (5, emitNumberDataPoint)
  | .histogram => (9, emitHistogramDataPoint)
  | .expHistogram => (10, emitExpHistogramDataPoint)

/-- Any failure counts as `OTLP_ERR_NOMEM`. -/
def Enc.orNomem (f : Enc) : Enc := fun h b =>
  match f h b with
  | (.ok, b, h) => (.ok, b, h)
  | (_, b, h) => (.errNomem, b, h)

def emitKindExtraFields (m : MetricView) : Enc :=
  match m.type with
  | .counter =>
    (otlpPbFieldVarint 2 m.aggTemp.toUInt64).orNomem >> otlpPbFieldVarint 3 (if m.isMonotonic then 1 else 0)
  | .histogram | .expHistogram => otlpPbFieldVarint 2 m.aggTemp.toUInt64
  | .gauge => .done

/-- The fields of `emit_metric`. -/
def encodeMetric (m : MetricView) : Enc :=
  (otlpPbTag 1 otlpPbWireLen >> otlpPbString (some m.name)) >>
  .onlyIf (nonEmptyStr m.description) (otlpPbFieldString 2 m.description) >>
  .onlyIf (nonEmptyStr m.unit) (otlpPbFieldString 3 m.unit) >>
  .withSub ((metricKindSpecs m.type).2 1 m >> emitKindExtraFields m) (otlpPbFieldMessage (metricKindSpecs m.type).1)

def emitMetric (fieldNum : UInt32) (m : MetricView) : Enc := .withSub (encodeMetric m) (otlpPbFieldMessage fieldNum)

def otlpEncodeExportMetricsServiceRequest (serviceName schemaUrl : Option Bytes) (attrs : List KeyValue)
    (scopeName scopeVersion : Option Bytes) (metrics : List MetricView) : Enc :=
  encodeExportRequest (emitMetric 2) serviceName schemaUrl attrs scopeName scopeVersion metrics

/-! ### Fields -/

def numberWire : NumberValue → Field
  | .double v => .i64 3 v
  | .int v => .i64 6 v

def exemplarWire (ex : ExemplarView) : List Field :=
  numberWire ex.value :: optLen 5 (ex.traceId.map Vector.toList) ++ optLen 4 (ex.spanId.map Vector.toList) ++
    omitZero64 2 (ex.time.getD 0)

def exemplarsWire (n : ℕ) (exs : List ExemplarView) : List Field :=
  repeated n (exs.map fun ex => message (exemplarWire ex))

def numberDataPointWire (m : MetricView) : List Field :=
  keyValues 7 m.attrs ++ exemplarsWire 5 m.exemplars ++ omitZero64 2 (m.startTime.getD 0) ++
    omitZero64 3 (m.time.getD 0) ++ [.i64 4 m.value]

def packLe (vs : List UInt64) : Bytes := vs.flatMap fun v => putLe 8 v.toNat

def packVarints (vs : List UInt64) : Bytes := vs.flatMap fun v => varint v.toNat

def bucketsWire : Option (List Double × List UInt64) → List Field
  | none => []
  | some (bounds, counts) => omitEmpty 6 (packLe counts) ++ omitEmpty 7 (packLe bounds)

def minmaxWire : Option (Double × Double) → List Field
  | none => []
  | some (min, max) => [.i64 11 min, .i64 12 max]

def histogramDataPointWire (m : MetricView) : List Field :=
  keyValues 9 m.attrs ++ exemplarsWire 8 m.exemplars ++ omitZero64 2 (m.startTime.getD 0) ++
    omitZero64 3 (m.time.getD 0) ++ omitZero64 4 m.count ++ [.i64 5 m.sum] ++ bucketsWire m.buckets ++
    minmaxWire m.minmax

def expBucketsWire (side : Int32 × List UInt64) : List Field :=
  omitZero 1 (zigzag32 side.1).toUInt64 ++ omitEmpty 2 (packVarints side.2)

def expSideWire (n : ℕ) : Option (Int32 × List UInt64) → List Field
  | none => []
  | some side => if side.2 = [] then [] else omitEmpty n (message (expBucketsWire side))

def expHistogramDataPointWire (m : MetricView) : List Field :=
  keyValues 1 m.attrs ++ omitZero64 2 (m.startTime.getD 0) ++ omitZero64 3 (m.time.getD 0) ++ omitZero64 4 m.count ++
    [.i64 5 m.sum] ++ omitZero 6 (zigzag32 (m.expScale.getD 0)).toUInt64 ++ omitZero64 7 m.expZeroCount ++
    expSideWire 8 m.expPos ++ expSideWire 9 m.expNeg

def dataPointWire (m : MetricView) : List Field :=
  match m.type with
  | .counter | .gauge => numberDataPointWire m
  | .histogram => histogramDataPointWire m
  | .expHistogram => expHistogramDataPointWire m

def extraWire (m : MetricView) : List Field :=
  match m.type with
  | .counter => omitZero 2 m.aggTemp.toUInt64 ++ omitZero 3 (if m.isMonotonic then 1 else 0)
  | .histogram | .expHistogram => omitZero 2 m.aggTemp.toUInt64
  | .gauge => []

def metricWire (m : MetricView) : List Field :=
  .len 1 m.name :: omitEmpty 2 m.description ++ omitEmpty 3 m.unit ++
    omitEmpty (metricKindSpecs m.type).1.toNat (message (omitEmpty 1 (message (dataPointWire m)) ++ extraWire m))

/-! ### What the encoders write -/

theorem emits_packedField (n : UInt32) (bs : Bytes) :
    Emits (emitPackedField n (.bytes bs)) (omitEmpty n.toNat bs) := by
  unfold emitPackedField
  split
  · next hlen =>
    rw [List.length_eq_zero_iff.1 hlen]
    exact emits_done
  · exact emits_fieldBytes n bs

theorem appends_each {α : Type} {f : α → Enc} {g : α → Bytes} (hf : ∀ x, Appends (f x) (g x)) (xs : List α) :
    Appends (.each f xs) (xs.flatMap g) := by
  induction xs with
  | nil => exact appends_done
  | cons x xs ih => exact (hf x).andThen ih

theorem emits_packedLe (n : UInt32) (vs : List UInt64) :
    Emits (.withSub (.each otlpPbFixed64 vs) (emitPackedField n)) (omitEmpty n.toNat (packLe vs)) :=
  Appends.withSub (appends_each appends_fixed64 vs) (emits_packedField n _)

theorem emits_packedVarints (n : UInt32) (vs : List UInt64) :
    Emits (.withSub (.each otlpPbVarint vs) (emitPackedField n)) (omitEmpty n.toNat (packVarints vs)) :=
  Appends.withSub (appends_each appends_varint vs) (emits_packedField n _)

theorem emits_exemplar (n : UInt32) (ex : ExemplarView) :
    Emits (emitExemplar n ex) [.len n.toNat (message (exemplarWire ex))] := by
  have hids := (emits_optBytes (by decide) 5 ex.traceId).andThen ((emits_optBytes (by decide) 4 ex.spanId).andThen
    (emits_optFixed64 2 ex.time))
  have hwire : message (exemplarWire ex) ≠ [] := by
    rw [Ne, message_eq_nil]
    exact List.cons_ne_nil _ _
  rw [← omitEmpty_of_ne hwire, exemplarWire, List.cons_append, List.cons_append, List.append_assoc]
  apply emits_subMessage
  cases ex.value with
  | double v => exact (emits_tagFixed64 3 v).andThen hids
  | int v => exact (emits_tagFixed64 6 v).andThen hids

theorem emits_exemplars (n : UInt32) (exs : List ExemplarView) :
    Emits (.each (emitExemplar n) exs) (exemplarsWire n.toNat exs) := by
  have heach := emits_each (emits_exemplar n) exs
  rwa [exemplarsWire, repeated, List.map_map, List.map_eq_flatMap]

theorem emits_numberDataPoint (m : MetricView) :
    Emits (emitNumberDataPoint 1 m) (omitEmpty 1 (message (numberDataPointWire m))) := by
  simp only [numberDataPointWire, List.append_assoc]
  exact emits_subMessage 1 ((emits_attributes 7 m.attrs).andThen ((emits_exemplars 5 m.exemplars).andThen
    ((emits_optFixed64 2 m.startTime).andThen ((emits_optFixed64 3 m.time).andThen (emits_tagFixed64 4 m.value)))))

theorem emits_buckets (bs : Option (List Double × List UInt64)) {f : Enc} {fs : List Field} (hf : Emits f fs) :
    Emits (.forSome bs (fun bs => .withSub (.each otlpPbFixed64 bs.2) (emitPackedField 6)) >>
      .forSome bs (fun bs => .withSub (.each otlpPbFixed64 bs.1) (emitPackedField 7)) >> f) (bucketsWire bs ++ fs) := by
  cases bs with
  | none => exact emits_done.andThen (emits_done.andThen hf)
  | some bs =>
    rw [bucketsWire, List.append_assoc]
    exact (emits_packedLe 6 bs.2).andThen ((emits_packedLe 7 bs.1).andThen hf)

theorem emits_minmax (mm : Option (Double × Double)) :
    Emits (.forSome mm fun mm => emitDouble 11 mm.1 >> emitDouble 12 mm.2) (minmaxWire mm) := by
  cases mm with
  | none => exact emits_done
  | some mm => exact (emits_tagFixed64 11 mm.1).andThen (emits_tagFixed64 12 mm.2)

theorem emits_histogramDataPoint (m : MetricView) :
    Emits (emitHistogramDataPoint 1 m) (omitEmpty 1 (message (histogramDataPointWire m))) := by
  simp only [histogramDataPointWire, List.append_assoc]
  exact emits_subMessage 1 ((emits_attributes 9 m.attrs).andThen ((emits_exemplars 8 m.exemplars).andThen
    ((emits_optFixed64 2 m.startTime).andThen ((emits_optFixed64 3 m.time).andThen
      ((emits_fieldFixed64 4 m.count).andThen ((emits_tagFixed64 5 m.sum).andThen
        (emits_buckets m.buckets (emits_minmax m.minmax))))))))

theorem emits_expSide (n : UInt32) (side : Option (Int32 × List UInt64)) :
    Emits (.forSome side (emitExpHistogramBuckets n)) (expSideWire n.toNat side) := by
  cases side with
  | none => exact emits_done
  | some side =>
    change Emits (emitExpHistogramBuckets n side) _
    rw [emitExpHistogramBuckets, expSideWire]
    by_cases hcounts : side.2 = []
    · rw [if_pos hcounts, if_pos hcounts]
      exact emits_done
    · rw [if_neg hcounts, if_neg hcounts]
      exact emits_subMessage n ((emits_fieldVarint 1 (zigzag32 side.1).toUInt64).andThen
        (emits_packedVarints 2 side.2))

theorem emits_expScale (scale : Option Int32) :
    Emits (.forSome scale fun scale => otlpPbFieldVarint 6 (zigzag32 scale).toUInt64)
      (omitZero 6 (zigzag32 (scale.getD 0)).toUInt64) := by
  cases scale with
  | none => exact emits_done
  | some scale => exact emits_fieldVarint 6 _

theorem emits_zeroCount (n : UInt64) : Emits (.onlyIf (n != 0) (otlpPbFieldFixed64 7 n)) (omitZero64 7 n) := by
  by_cases hn : n = 0
  · rw [hn]
    exact emits_done
  · rw [Enc.onlyIf, if_pos (bne_iff_ne.2 hn)]
    exact emits_fieldFixed64 7 n

theorem emits_expHistogramDataPoint (m : MetricView) :
    Emits (emitExpHistogramDataPoint 1 m) (omitEmpty 1 (message (expHistogramDataPointWire m))) := by
  simp only [expHistogramDataPointWire, List.append_assoc]
  exact emits_subMessage 1 ((emits_attributes 1 m.attrs).andThen ((emits_optFixed64 2 m.startTime).andThen
    ((emits_optFixed64 3 m.time).andThen ((emits_fieldFixed64 4 m.count).andThen ((emits_tagFixed64 5 m.sum).andThen
      ((emits_expScale m.expScale).andThen ((emits_zeroCount m.expZeroCount).andThen
        ((emits_expSide 8 m.expPos).andThen (emits_expSide 9 m.expNeg)))))))))

theorem emits_dataPoint (m : MetricView) :
    Emits ((metricKindSpecs m.type).2 1 m) (omitEmpty 1 (message (dataPointWire m))) := by
  unfold dataPointWire
  cases m.type with
  | counter => exact emits_numberDataPoint m
  | gauge => exact emits_numberDataPoint m
  | histogram => exact emits_histogramDataPoint m
  | expHistogram => exact emits_expHistogramDataPoint m

theorem Emits.orNomem {f : Enc} {fs : List Field} (hf : Emits f fs) : Emits f.orNomem fs := by
  intro h b b' h' hok
  unfold Enc.orNomem at hok
  split at hok
  · next heq =>
    cases hok
    exact hf heq
  · cases (Prod.mk.inj hok).1

theorem emits_kindExtraFields (m : MetricView) : Emits (emitKindExtraFields m) (extraWire m) := by
  unfold emitKindExtraFields extraWire
  cases m.type with
  | counter => exact (emits_fieldVarint 2 m.aggTemp.toUInt64).orNomem.andThen (emits_fieldVarint 3 _)
  | gauge => exact emits_done
  | histogram => exact emits_fieldVarint 2 m.aggTemp.toUInt64
  | expHistogram => exact emits_fieldVarint 2 m.aggTemp.toUInt64

theorem emits_metric (m : MetricView) : Emits (encodeMetric m) (metricWire m) := by
  have hdata := emits_subMessage (metricKindSpecs m.type).1 ((emits_dataPoint m).andThen (emits_kindExtraFields m))
  unfold metricWire
  simp only [List.cons_append, List.append_assoc]
  exact (emits_tagBytes 1 m.name).andThen ((emits_onlyIf_string 2 m.description).andThen
    ((emits_onlyIf_string 3 m.unit).andThen hdata))

/-- **The metrics request** is its resource, its scope and the metrics. -/
theorem emits_metricsRequest (serviceName schemaUrl : Option Bytes) (attrs : List KeyValue)
    (scopeName scopeVersion : Option Bytes) (metrics : List MetricView) :
    Emits (otlpEncodeExportMetricsServiceRequest serviceName schemaUrl attrs scopeName scopeVersion metrics)
      (requestWire serviceName schemaUrl attrs scopeName scopeVersion (metrics.map fun m => message (metricWire m))) :=
  emits_exportRequest (fun m => emits_subMessage 2 (emits_metric m)) _ _ _ _ _ _

end OtlpC.Proto
