import OtlpC.Api.MetricSteps
import OtlpC.Proto.MetricReading

/-!
# Exponential histograms on the wire

What a collector reads after `otlp_metric_set_exp_histogram`, compared with the arguments of the call: the scale and
the sides that were given are exact, and a side that was given as NULL keeps the buckets of an earlier call.
-/

namespace OtlpC.Proto

open Api Proto3 Otlp

/-- The buckets are the counts that were given with their offset, or there are none. -/
def GivenBuckets (offset : Int32) (counts : Option (List UInt64)) (b : ExpBuckets) : Prop :=
  match counts with
  | none => b.bucketCounts = []
  | some counts => b = ⟨offset.toInt, counts⟩

/-- The arguments of `otlp_metric_set_exp_histogram`. -/
structure ExpArgs where
  scale : Int32
  posOffset : Int32
  posCounts : Option (List UInt64)
  negOffset : Int32
  negCounts : Option (List UInt64)

/-- Each side is an array of one count at least, or NULL. -/
structure ExpArgs.Valid (a : ExpArgs) : Prop where
  pos : a.posCounts ≠ some []
  neg : a.negCounts ≠ some []

def ExpArgs.set (a : ExpArgs) (h : Heap) (m : Api.Metric) : OtlpStatus × Api.Metric × Heap :=
  otlpMetricSetExpHistogram h m a.scale a.posOffset a.posCounts a.negOffset a.negCounts

/-- Metric `i` of the request has one data point, with the scale and the sides that were given. -/
def ExpHistogramExact (a : ExpArgs) (i : ℕ) (bs : Bytes) : Prop :=
  ∃ req md dp temp, decodeExportRequest decodeMetric bs = some req ∧ req.items[i]? = some md ∧
    md.data = .exponentialHistogram [dp] temp ∧ dp.scale = a.scale.toInt ∧
    GivenBuckets a.posOffset a.posCounts dp.positive ∧ GivenBuckets a.negOffset a.negCounts dp.negative

/-- The sides that are given as NULL have no buckets yet. -/
def NoneStale (a : ExpArgs) (m : Api.Metric) : Prop :=
  (a.posCounts = none → m.view.expPos = none) ∧ (a.negCounts = none → m.view.expNeg = none)

theorem expSide_view_ne (side : ExpSide) (offset : Int32) : side.view ≠ some (offset, []) := by
  intro hview
  unfold ExpSide.view at hview
  split at hview
  · cases hview
  · next hne =>
    obtain ⟨-, hcounts⟩ := Prod.mk.inj (Option.some.inj hview)
    exact hne hcounts

theorem givenBuckets_expBucketsMsg (offset : Int32) {counts : Option (List UInt64)} (hcounts : counts ≠ some [])
    (side : ExpSide) :
    GivenBuckets offset counts (expBucketsMsg (givenSide offset counts side.view)) ↔
      (counts = none → side.view = none) := by
  rcases counts with - | - | ⟨c, cs⟩
  · change (expBucketsMsg side.view).bucketCounts = [] ↔ _
    rcases hview : side.view with - | ⟨offset', counts'⟩
    · exact iff_of_true rfl fun _ => rfl
    · have hne : counts' ≠ [] := by
        rintro rfl
        exact expSide_view_ne side offset' hview
      rw [expBucketsMsg, if_neg hne]
      refine iff_of_false hne fun hnone => ?_
      cases hnone rfl
  · exact absurd rfl hcounts
  · have hgiven : GivenBuckets offset (some (c :: cs)) (expBucketsMsg (some (offset, c :: cs))) := by
      rw [expBucketsMsg, if_neg (List.cons_ne_nil c cs)]
      exact rfl
    refine iff_of_true hgiven ?_
    intro hnone
    cases hnone

theorem expHistogramExact_of_items {a : ExpArgs} (ha : a.Valid) {m : Api.Metric} {v : MetricView} {i : ℕ} {bs : Bytes}
    {req : ExportRequest Otlp.Metric} (hreq : decodeExportRequest decodeMetric bs = some req)
    (hitem : req.items[i]? = some (metricMsg v))
    (hv : v.expData = ⟨.expHistogram, some a.scale, givenSide a.posOffset a.posCounts m.view.expPos,
      givenSide a.negOffset a.negCounts m.view.expNeg⟩) :
    ExpHistogramExact a i bs ↔ NoneStale a m := by
  obtain ⟨htype, hscale, hpos, hneg⟩ := ExpData.mk.inj hv
  have hdata : (metricMsg v).data = .exponentialHistogram [expHistogramDataPointMsg v] v.aggTemp.toUInt64 := by
    change dataMsg v = _
    rw [dataMsg, htype]
  have hposIff := givenBuckets_expBucketsMsg a.posOffset ha.pos m.expPos
  have hnegIff := givenBuckets_expBucketsMsg a.negOffset ha.neg m.expNeg
  have hpoint : (expHistogramDataPointMsg v).positive = expBucketsMsg (givenSide a.posOffset a.posCounts m.view.expPos) ∧
      (expHistogramDataPointMsg v).negative = expBucketsMsg (givenSide a.negOffset a.negCounts m.view.expNeg) :=
    ⟨congrArg expBucketsMsg hpos, congrArg expBucketsMsg hneg⟩
  constructor
  · rintro ⟨req', md, dp, temp, hreq', hitem', hdata', -, hdpPos, hdpNeg⟩
    rw [hreq] at hreq'
    cases hreq'
    rw [hitem] at hitem'
    cases hitem'
    rw [hdata] at hdata'
    cases hdata'
    rw [hpoint.1] at hdpPos
    rw [hpoint.2] at hdpNeg
    exact ⟨hposIff.1 hdpPos, hnegIff.1 hdpNeg⟩
  · rintro ⟨hstalePos, hstaleNeg⟩
    refine ⟨req, metricMsg v, expHistogramDataPointMsg v, _, hreq, hitem, hdata, ?_, ?_, ?_⟩
    · change (v.expScale.getD 0).toInt = _
      rw [hscale]
      rfl
    · rw [hpoint.1]
      exact hposIff.2 hstalePos
    · rw [hpoint.2]
      exact hnegIff.2 hstaleNeg

/-- **Setting an exponential histogram** is exact if and only if no side that is given as NULL has buckets of an
earlier call, at the next encoding and at every one before the next setting. -/
theorem exp_histogram_exact_iff (fp : Fp) {a : ExpArgs} (ha : a.Valid) {h h₁ h₂ : Heap} {m m₁ m₂ : Api.Metric}
    (hset : a.set h m = (.ok, m₁, h₁)) (hlater : MetricSteps fp (·.setsExpHistogram = false) (h₁, m₁) (h₂, m₂))
    {serviceName schemaUrl scopeName scopeVersion : Option Bytes} {attrs : List KeyValue} {metrics : List MetricView}
    {i : ℕ} (hi : metrics[i]? = some m₂.view) {k k' : Heap} {b b' : PbBuf} (hb : b.bytes = [])
    (hok : otlpEncodeExportMetricsServiceRequest serviceName schemaUrl attrs scopeName scopeVersion metrics k b =
      (.ok, b', k')) :
    ExpHistogramExact a i b'.bytes ↔ NoneStale a m := by
  obtain ⟨req, hreq, hitems⟩ := decodeMetricsRequest hb hok
  have hitem : req.items[i]? = some (metricMsg m₂.view) := by
    rw [hitems, List.getElem?_map, hi]
    rfl
  exact expHistogramExact_of_items ha hreq hitem (hlater.expData_eq.trans (otlpMetricSetExpHistogram_ok hset))

/-! ### Two settings, one after the other -/

theorem expHistogram_created : (otlpMetricCreate .granting 4 none none none none).1.isSome = true := by decide +kernel

/-- A new exponential histogram, and the heap then. -/
def newExpHistogram : Api.Metric := (otlpMetricCreate .granting 4 none none none none).1.get expHistogram_created

def newExpHistogramHeap : Heap := (otlpMetricCreate .granting 4 none none none none).2

def bothSides : ExpArgs := ⟨0, 0, some [1], 0, some [1]⟩

def positiveSide : ExpArgs := ⟨0, 0, some [2], 0, none⟩

/-- The metric with both sides set. -/
def afterBoth : OtlpStatus × Api.Metric × Heap := bothSides.set newExpHistogramHeap newExpHistogram

/-- The metric after the second setting, which gives the positive side only. -/
def afterPositive : OtlpStatus × Api.Metric × Heap := positiveSide.set afterBoth.2.2 afterBoth.2.1

theorem afterBoth_ok : afterBoth.1 = .ok := by decide +kernel

theorem afterPositive_ok : afterPositive.1 = .ok := by decide +kernel

theorem afterBoth_encodes :
    (otlpEncodeExportMetricsServiceRequest none none [] none none [afterBoth.2.1.view] .granting .inline).1 = .ok := by
  decide +kernel

theorem afterPositive_encodes :
    (otlpEncodeExportMetricsServiceRequest none none [] none none [afterPositive.2.1.view] .granting .inline).1 =
      .ok := by decide +kernel

/-- The negative buckets of the first setting are still there after the second, which gave NULL for them. -/
theorem exp_histogram_stale : ∃ (fp : Fp) (h₀ h h' : Heap) (m₀ m m' : Api.Metric) (k' : Heap) (b' : PbBuf),
    otlpMetricCreate .granting 4 none none none none = (some m₀, h₀) ∧
    MetricSteps fp (fun _ => True) (h₀, m₀) (h, m) ∧
    otlpMetricSetExpHistogram h m 0 0 (some [2]) 0 none = (.ok, m', h') ∧
    otlpEncodeExportMetricsServiceRequest none none [] none none [m'.view] .granting .inline = (.ok, b', k') ∧
    ¬ExpHistogramExact positiveSide 0 b'.bytes := by
  have hset : positiveSide.set afterBoth.2.2 afterBoth.2.1 = (.ok, afterPositive.2.1, afterPositive.2.2) :=
    eq_of_ok afterPositive_ok
  have hok := eq_of_ok afterPositive_encodes
  obtain ⟨req, hreq, hitems⟩ := decodeMetricsRequest rfl hok
  have hitem : req.items[0]? = some (metricMsg afterPositive.2.1.view) := by
    rw [hitems]
    rfl
  have hstale : ¬NoneStale positiveSide afterBoth.2.1 := by
    intro hnone
    have hsome : afterBoth.2.1.view.expNeg.isSome = true := by decide +kernel
    rw [hnone.2 rfl] at hsome
    cases hsome
  have hexact := expHistogramExact_of_items (a := positiveSide) ⟨by decide, by decide⟩ hreq hitem
    (otlpMetricSetExpHistogram_ok hset)
  refine ⟨.trivial, newExpHistogramHeap, afterBoth.2.2,
    afterPositive.2.2, newExpHistogram, afterBoth.2.1, afterPositive.2.1, _, _, eq_of_isSome expHistogram_created,
    .single (.call (.setExpHistogram 0 0 (some [1]) 0 (some [1])) trivial), hset, hok, mt hexact.1 hstale⟩

theorem exp_histogram_exact_iff_first : ∃ (h' k' : Heap) (m' : Api.Metric) (b' : PbBuf),
    bothSides.set newExpHistogramHeap newExpHistogram = (.ok, m', h') ∧
    otlpEncodeExportMetricsServiceRequest none none [] none none [m'.view] .granting .inline = (.ok, b', k') ∧
    ExpHistogramExact bothSides 0 b'.bytes := by
  have hset := eq_of_ok afterBoth_ok
  have hok := eq_of_ok afterBoth_encodes
  refine ⟨_, _, _, _, hset, hok, ?_⟩
  refine (exp_histogram_exact_iff .trivial
    ⟨by decide, by decide⟩ hset .refl rfl rfl hok).2 ⟨fun hnone => ?_, fun hnone => ?_⟩
  · cases hnone
  · cases hnone

end OtlpC.Proto
