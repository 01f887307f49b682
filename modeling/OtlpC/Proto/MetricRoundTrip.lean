import OtlpC.Proto.ExpHistogram

/-!
# The round trip of metrics

What a program built, through the encoder and back: every field of every metric, and the exemplars that were accepted
unless the metric is an exponential histogram.
-/

namespace OtlpC.Proto

open Api Proto3 Otlp

/-! ### What a program built -/

structure BuiltMetric (fp : Fp) where
  exemplars : List Api.Exemplar
  heap : Heap
  metric : Api.Metric
  built : MetricBuilt fp exemplars heap metric

/-- The data points with these exemplars. -/
def withExemplars (exs : List Otlp.Exemplar) : MetricData → MetricData
  | .unset => .unset
  | .gauge dps => .gauge (dps.map fun dp => { dp with exemplars := exs })
  | .sum dps temp monotonic => .sum (dps.map fun dp => { dp with exemplars := exs }) temp monotonic
  | .histogram dps temp => .histogram (dps.map fun dp => { dp with exemplars := exs }) temp
  | .exponentialHistogram dps temp => .exponentialHistogram (dps.map fun dp => { dp with exemplars := exs }) temp
  | .summary => .summary

/-- The metric as it was built: what its fields are now, with every exemplar that was accepted. -/
def BuiltMetric.msg {fp : Fp} (x : BuiltMetric fp) : Otlp.Metric :=
  { metricMsg x.metric.view with
    data := withExemplars (x.exemplars.map fun ex => exemplarMsg ex.view) (dataMsg x.metric.view) }

/-! ### What comes back -/

theorem withExemplars_dataMsg {v : MetricView} (htype : v.type ≠ .expHistogram) :
    withExemplars (v.exemplars.map exemplarMsg) (dataMsg v) = dataMsg v := by
  unfold dataMsg
  cases hv : v.type with
  | expHistogram => exact absurd hv htype
  | _ => rfl

theorem withExemplars_expHistogram {v : MetricView} (htype : v.type = .expHistogram) (exs : List Otlp.Exemplar) :
    withExemplars exs (dataMsg v) = dataMsg v ↔ exs = [] := by
  unfold dataMsg
  rw [htype]
  constructor
  · intro heq
    have hpoint := List.head_eq_of_cons_eq (MetricData.exponentialHistogram.inj heq).1
    exact congrArg ExponentialHistogramDataPoint.exemplars hpoint
  · rintro rfl
    rfl

theorem BuiltMetric.view_exemplars {fp : Fp} (x : BuiltMetric fp) :
    x.metric.view.exemplars.map exemplarMsg = x.exemplars.map fun ex => exemplarMsg ex.view := by
  change (x.metric.exemplars.items.map Exemplar.view).map exemplarMsg = _
  rw [x.built.exemplars_eq, List.map_map]
  rfl

theorem BuiltMetric.msg_eq_iff {fp : Fp} (x : BuiltMetric fp) :
    metricMsg x.metric.view = x.msg ↔ (x.metric.type = .expHistogram → x.exemplars = []) := by
  have hdata : metricMsg x.metric.view = x.msg ↔
      withExemplars (x.exemplars.map fun ex => exemplarMsg ex.view) (dataMsg x.metric.view) = dataMsg x.metric.view :=
    ⟨fun heq => (congrArg Otlp.Metric.data heq).symm, fun heq => by rw [msg, heq]; rfl⟩
  rw [hdata]
  by_cases htype : x.metric.type = .expHistogram
  · rw [withExemplars_expHistogram htype, List.map_eq_nil_iff]
    exact ⟨fun hnil _ => hnil, fun himp => himp htype⟩
  · rw [← x.view_exemplars]
    exact iff_of_true (withExemplars_dataMsg htype) fun hexp => absurd hexp htype

/-- **Metrics come back** in order, as they were built, if and only if no exponential histogram of the request has an
exemplar. -/
theorem metric_round_trip_iff (fp : Fp) (ms : List (BuiltMetric fp))
    {serviceName schemaUrl scopeName scopeVersion : Option Bytes} {attrs : List KeyValue} {h h' : Heap} {b b' : PbBuf}
    (hb : b.bytes = [])
    (hok : otlpEncodeExportMetricsServiceRequest serviceName schemaUrl attrs scopeName scopeVersion
      (ms.map fun x => x.metric.view) h b = (.ok, b', h')) :
    (∃ req, decodeExportRequest decodeMetric b'.bytes = some req ∧ req.items = ms.map BuiltMetric.msg) ↔
      ∀ x ∈ ms, x.metric.type = .expHistogram → x.exemplars = [] := by
  obtain ⟨req, hreq, hitems⟩ := decodeMetricsRequest hb hok
  rw [List.map_map] at hitems
  have hall : req.items = ms.map BuiltMetric.msg ↔ ∀ x ∈ ms, x.metric.type = .expHistogram → x.exemplars = [] := by
    rw [hitems, List.map_inj_left]
    exact forall₂_congr fun x _ => x.msg_eq_iff
  constructor
  · rintro ⟨req', hreq', hitems'⟩
    rw [hreq] at hreq'
    cases hreq'
    exact hall.1 hitems'
  · intro hnone
    exact ⟨req, hreq, hall.2 hnone⟩

/-! ### A gauge and an exponential histogram, each with an exemplar -/

/-- A new exemplar after `otlp_exemplar_set_int_value`. -/
def intExemplar : Api.Exemplar where
  doubleVal := 0
  intVal := 1
  hasDouble := false
  hasInt := true
  traceId := zeroTraceId
  spanId := zeroSpanId
  hasTrace := false
  hasSpan := false
  timeUnixNano := 0
  hasTime := false

/-- A metric of the given kind with the exemplar. -/
def withIntExemplar (type : UInt32) (hcreate : (otlpMetricCreate .granting type none none none none).1.isSome = true) :
    BuiltMetric .trivial where
  exemplars := _
  heap := _
  metric := _
  built := (MetricBuilt.create (eq_of_isSome hcreate)).call (.addExemplar (some intExemplar))

theorem gauge_created : (otlpMetricCreate .granting 2 none none none none).1.isSome = true := by decide +kernel

def gaugeWithExemplar : BuiltMetric .trivial := withIntExemplar 2 gauge_created

def expHistogramWithExemplar : BuiltMetric .trivial := withIntExemplar 4 expHistogram_created

theorem gaugeWithExemplar_encodes : (otlpEncodeExportMetricsServiceRequest none none [] none none
    [gaugeWithExemplar.metric.view] .granting .inline).1 = .ok := by decide +kernel

theorem expHistogramWithExemplar_encodes : (otlpEncodeExportMetricsServiceRequest none none [] none none
    [expHistogramWithExemplar.metric.view] .granting .inline).1 = .ok := by decide +kernel

theorem metric_round_trip_iff_gauge : ∃ b' h' req,
    otlpEncodeExportMetricsServiceRequest none none [] none none [gaugeWithExemplar.metric.view] .granting .inline =
      (.ok, b', h') ∧
    decodeExportRequest decodeMetric b'.bytes = some req ∧ req.items = [gaugeWithExemplar.msg] := by
  have hok := eq_of_ok gaugeWithExemplar_encodes
  have htype : gaugeWithExemplar.metric.type = .gauge := by decide +kernel
  obtain ⟨req, hreq, hitems⟩ := (metric_round_trip_iff .trivial [gaugeWithExemplar] rfl hok).2 (by simp [htype])
  exact ⟨_, _, req, hok, hreq, hitems⟩

/-- The exemplar was accepted, and the collector does not get it. -/
theorem expHistogram_exemplar_dropped : ∃ b' h',
    expHistogramWithExemplar.exemplars = [intExemplar] ∧
    otlpEncodeExportMetricsServiceRequest none none [] none none [expHistogramWithExemplar.metric.view] .granting
      .inline = (.ok, b', h') ∧
    ¬∃ req, decodeExportRequest decodeMetric b'.bytes = some req ∧ req.items = [expHistogramWithExemplar.msg] := by
  have hok := eq_of_ok expHistogramWithExemplar_encodes
  have hexs : expHistogramWithExemplar.exemplars = [intExemplar] := by decide +kernel
  have htype : expHistogramWithExemplar.metric.type = .expHistogram := by decide +kernel
  refine ⟨_, _, hexs, hok, ?_⟩
  rintro ⟨req, hreq, hitems⟩
  obtain ⟨req', hreq', hitems'⟩ := decodeMetricsRequest rfl hok
  rw [hreq] at hreq'
  cases hreq'
  rw [hitems'] at hitems
  have hnil := expHistogramWithExemplar.msg_eq_iff.1 (List.head_eq_of_cons_eq hitems) htype
  rw [hexs] at hnil
  cases hnil

end OtlpC.Proto
