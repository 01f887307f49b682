import OtlpC.Api.HistogramRuns
import OtlpC.Proto.MetricReading

/-!
# The data point of a histogram

What a collector reads of a histogram with explicit bounds: the bounds, the number of values, how many of them are in
each interval between the bounds, and the least and the greatest. The counters count modulo 2^64.
-/

namespace OtlpC.Proto

open Api Proto3 Otlp Histogram

/-- The data point of these values. -/
structure Summarises (fp : Fp) (bounds values : List Double) (dp : HistogramDataPoint) : Prop where
  explicitBounds : dp.explicitBounds = bounds
  length_bucketCounts : dp.bucketCounts.length = bounds.length + 1
  count : dp.count.toNat = values.length % 2 ^ 64
  count_eq_sum : dp.count.toNat = (dp.bucketCounts.map UInt64.toNat).sum % 2 ^ 64
  bucket : ∀ i ≤ bounds.length, ∃ n, dp.bucketCounts[i]? = some n ∧
    n.toNat = values.countP (inInterval fp.le fp.lt bounds i) % 2 ^ 64
  unrecorded : values = [] → dp.min = none ∧ dp.max = none
  recorded : values ≠ [] → ∃ lo hi, dp.min = some lo ∧ dp.max = some hi ∧ lo ∈ values ∧ hi ∈ values ∧
    ∀ v ∈ values, fp.le lo v = true ∧ fp.le v hi = true

theorem sum_map_ofNat (counts : List ℕ) :
    ((counts.map UInt64.ofNat).map UInt64.toNat).sum % 2 ^ 64 = counts.sum % 2 ^ 64 := by
  rw [List.map_map, List.sum_nat_mod counts]
  rfl

theorem summarises_of_data {fp : Fp} {S : Double → Prop} (ord : Ordered fp.le fp.lt S) {bounds values : List Double}
    (hascending : bounds.Pairwise fun a b => fp.le a b = true) (hbounds : ∀ b ∈ bounds, S b)
    (hvalues : ∀ v ∈ values, S v) {v : MetricView} (hv : v.histogramData = histogramOf fp bounds values) :
    Summarises fp bounds values (histogramDataPointMsg v) := by
  have hcount : v.count = .ofNat values.length := congrArg HistogramData.count hv
  have hminmax : v.minmax = extremes fp.lt values := congrArg HistogramData.minmax hv
  have hbuckets : v.buckets = some (bounds, (tally fp.le bounds values).map .ofNat) :=
    congrArg HistogramData.buckets hv
  have hcounts : (histogramDataPointMsg v).bucketCounts = (tally fp.le bounds values).map .ofNat := by
    rw [histogramDataPointMsg, hbuckets]
    rfl
  have hmin : (histogramDataPointMsg v).min = (extremes fp.lt values).map Prod.fst := by
    rw [histogramDataPointMsg, hminmax]
  have hmax : (histogramDataPointMsg v).max = (extremes fp.lt values).map Prod.snd := by
    rw [histogramDataPointMsg, hminmax]
  have hlength : (histogramDataPointMsg v).count.toNat = values.length % 2 ^ 64 := by
    rw [histogramDataPointMsg, hcount]
    exact UInt64.toNat_ofNat'
  refine ⟨?_, ?_, hlength, ?_, fun i hi => ?_, fun hnil => ?_, fun hne => ?_⟩
  · rw [histogramDataPointMsg, hbuckets]
    rfl
  · rw [hcounts, List.length_map, length_tally]
  · rw [hlength, hcounts, sum_map_ofNat, sum_tally]
  · have htally := getElem?_tally ord hbounds hascending hvalues hi
    refine ⟨_, ?_, UInt64.toNat_ofNat'⟩
    rw [hcounts, List.getElem?_map, htally]
    rfl
  · rw [hmin, hmax, extremes_eq_none.2 hnil]
    exact ⟨rfl, rfl⟩
  · rcases hextremes : extremes fp.lt values with - | ⟨lo, hi⟩
    · exact absurd (extremes_eq_none.1 hextremes) hne
    · rw [hmin, hmax, hextremes]
      exact ⟨lo, hi, rfl, rfl, extremes_some ord hvalues hextremes⟩

/-- **The data point of a histogram** summarises the values recorded into it. -/
theorem histogram_point {fp : Fp} {S : Double → Prop} (ord : Ordered fp.le fp.lt S) {bounds values : List Double}
    (hne : bounds ≠ []) (hascending : bounds.Pairwise fun a b => fp.le a b = true) (hbounds : ∀ b ∈ bounds, S b)
    (hvalues : ∀ v ∈ values, S v) {heap : Heap} {m : Api.Metric} (hm : HistogramBuilt fp bounds values heap m)
    {serviceName schemaUrl scopeName scopeVersion : Option Bytes} {attrs : List KeyValue} {ms : List MetricView}
    {i : ℕ} (hi : ms[i]? = some m.view) {h h' : Heap} {b b' : PbBuf} (hb : b.bytes = [])
    (hok : otlpEncodeExportMetricsServiceRequest serviceName schemaUrl attrs scopeName scopeVersion ms h b =
      (.ok, b', h')) :
    ∃ req item dp temp, decodeExportRequest decodeMetric b'.bytes = some req ∧ req.items[i]? = some item ∧
      item.data = .histogram [dp] temp ∧ Summarises fp bounds values dp := by
  obtain ⟨req, hreq, hitems⟩ := decodeMetricsRequest hb hok
  have hdata := hm.data_eq hne
  have htype : m.view.type = .histogram := congrArg HistogramData.type hdata
  refine ⟨req, metricMsg m.view, histogramDataPointMsg m.view, m.view.aggTemp.toUInt64, hreq, ?_, ?_,
    summarises_of_data ord hascending hbounds hvalues hdata⟩
  · rw [hitems, List.getElem?_map, hi]
    rfl
  · change dataMsg m.view = _
    unfold dataMsg
    rw [htype]

/-! ### A histogram of four values, cloned before the last -/

/-- 1 and 10. -/
def twoBounds : List Double := [0x3ff0000000000000, 0x4024000000000000]

structure BuiltHistogram where
  values : List Double
  heap : Heap
  metric : Api.Metric
  built : HistogramBuilt .comparing twoBounds values heap metric

theorem twoBounds_created :
    (otlpMetricCreate .granting otlpMetricHistogram none none none (some twoBounds)).1.isSome = true := by
  decide +kernel

/-- -1, 1 and 100 are recorded. -/
def threeRecorded : BuiltHistogram where
  values := _
  heap := _
  metric := _
  built := (((HistogramBuilt.create (eq_of_isSome twoBounds_created)).call (.record 0xbff0000000000000)).call
    (.record 0x3ff0000000000000)).call (.record 0x4059000000000000)

theorem threeRecorded_cloned : (otlpMetricClone threeRecorded.heap threeRecorded.metric).1.isSome = true := by
  decide +kernel

/-- 5 is recorded into the clone. -/
def fourRecorded : BuiltHistogram where
  values := _
  heap := _
  metric := _
  built := (threeRecorded.built.clone (eq_of_isSome threeRecorded_cloned)).call (.record 0x4014000000000000)

theorem fourRecorded_encodes : (otlpEncodeExportMetricsServiceRequest none none [] none none
    [fourRecorded.metric.view] .granting .inline).1 = .ok := by decide +kernel

theorem histogram_point_four : ∃ b' h' req item dp temp,
    otlpEncodeExportMetricsServiceRequest none none [] none none [fourRecorded.metric.view] .granting .inline =
      (.ok, b', h') ∧
    decodeExportRequest decodeMetric b'.bytes = some req ∧ req.items[0]? = some item ∧
    item.data = .histogram [dp] temp ∧
    Summarises .comparing twoBounds [0xbff0000000000000, 0x3ff0000000000000, 0x4059000000000000, 0x4014000000000000]
      dp := by
  have hok := eq_of_ok fourRecorded_encodes
  have hbounds : twoBounds.all isNumber = true := by decide +kernel
  have hvalues : fourRecorded.values.all isNumber = true := by decide +kernel
  obtain ⟨req, item, dp, temp, hpoint⟩ := histogram_point ordered_comparing (by decide) (by decide +kernel)
    (List.all_eq_true.1 hbounds) (List.all_eq_true.1 hvalues) fourRecorded.built (i := 0) rfl rfl hok
  exact ⟨_, _, req, item, dp, temp, hok, hpoint⟩

end OtlpC.Proto
