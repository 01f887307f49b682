import OtlpC.Api.MetricSteps
import OtlpC.Lib.Histogram

/-!
# The life of a histogram

A histogram with explicit bounds goes through calls of the public API and may be replaced by its clone. Its count,
its buckets and its extremes are those of the values that were recorded, in that order.
-/

namespace OtlpC.Api

open Exporter Otlp Histogram

abbrev otlpMetricHistogram : UInt32 := 3

def MetricCall.recorded : MetricCall → List Double
  | record value => [value]
  | _ => []

/-- A histogram that was created with these bounds, with the values that were recorded since, in order. -/
inductive HistogramBuilt (fp : Fp) (bounds : List Double) : List Double → Heap → Metric → Prop where
  | create {h h' : Heap} {name unit description : Option Bytes} {m : Metric}
      (hm : otlpMetricCreate h otlpMetricHistogram name unit description (some bounds) = (some m, h')) :
      HistogramBuilt fp bounds [] h' m
  | call {values : List Double} {h : Heap} {m : Metric} (hm : HistogramBuilt fp bounds values h m) (c : MetricCall) :
      HistogramBuilt fp bounds (values ++ c.recorded) (c.run fp h m).2.2 (c.run fp h m).2.1
  | clone {values : List Double} {h h' : Heap} {m m' : Metric} (hm : HistogramBuilt fp bounds values h m)
      (hclone : otlpMetricClone h m = (some m', h')) : HistogramBuilt fp bounds values h' m'
  | meanwhile {values : List Double} {h h' : Heap} {m : Metric} (hm : HistogramBuilt fp bounds values h m)
      (hle : h.Le h') : HistogramBuilt fp bounds values h' m

/-- What `otlp_metric_record` keeps of the values, their sum apart. -/
structure HistogramData where
  type : OtlpMetricType
  count : UInt64
  minmax : Option (Double × Double)
  buckets : Option (List Double × List UInt64)

def MetricView.histogramData (v : MetricView) : HistogramData := ⟨v.type, v.count, v.minmax, v.buckets⟩

def histogramOf (fp : Fp) (bounds values : List Double) : HistogramData where
  type := .histogram
  count := .ofNat values.length
  minmax := extremes fp.lt values
  buckets := some (bounds, (tally fp.le bounds values).map .ofNat)

/-! ### Calls -/

theorem createBuckets_view {bounds : List Double} (hbounds : bounds ≠ []) {h h' : Heap} {buckets : Buckets}
    (hcreate : createBuckets h .histogram (some bounds) = (some buckets, h')) :
    buckets.view = some (bounds, .replicate (bounds.length + 1) 0) := by
  cases bounds with
  | nil => exact absurd rfl hbounds
  | cons b bs =>
    unfold createBuckets at hcreate
    dsimp only at hcreate
    rw [if_neg (not_not.2 rfl)] at hcreate
    split at hcreate
    · cases (Prod.mk.inj hcreate).1
    · split at hcreate
      · cases hcreate
        rfl
      · cases (Prod.mk.inj hcreate).1

theorem otlpMetricCreate_histogram (fp : Fp) {bounds : List Double} (hbounds : bounds ≠ []) {h h' : Heap}
    {name unit description : Option Bytes} {m : Metric}
    (hm : otlpMetricCreate h otlpMetricHistogram name unit description (some bounds) = (some m, h')) :
    m.view.histogramData = histogramOf fp bounds [] := by
  have hzero : (tally fp.le bounds []).map UInt64.ofNat = .replicate (bounds.length + 1) 0 := by
    rw [tally_nil, List.map_replicate]
    rfl
  unfold otlpMetricCreate at hm
  dsimp only [OtlpMetricType.ofEnum, otlpMetricHistogram] at hm
  split at hm
  · cases (Prod.mk.inj hm).1
  · next type htype =>
    obtain rfl : OtlpMetricType.histogram = type := Option.some.inj htype
    split at hm
    · cases (Prod.mk.inj hm).1
    · split at hm
      · cases (Prod.mk.inj hm).1
      · split at hm
        · split at hm
          · cases (Prod.mk.inj hm).1
          · next buckets h₂ hbuckets =>
            have hview := createBuckets_view hbounds hbuckets
            obtain ⟨hm, -⟩ := Prod.mk.inj hm
            cases hm
            change HistogramData.mk .histogram 0 none buckets.view = _
            rw [hview, histogramOf, hzero]
            rfl
        · cases (Prod.mk.inj hm).1

theorem minmax_record (fp : Fp) (m : Metric) (value : Double) :
    some (if (!m.hasMinmax || fp.lt value m.min) = true then value else m.min,
      if (!m.hasMinmax || fp.lt m.max value) = true then value else m.max) =
      widen fp.lt (if m.hasMinmax = true then some (m.min, m.max) else none) value := by
  cases m.hasMinmax with
  | false => rfl
  | true => simp [widen]

/-- The counters count modulo 2^64. -/
theorem map_ofNat_modify (counts : List ℕ) (i : ℕ) :
    (counts.map UInt64.ofNat).modify i (· + 1) = (counts.modify i (· + 1)).map .ofNat := by
  apply List.ext_getElem
  · simp
  · intro j hj hj'
    simp only [List.getElem_modify, List.getElem_map]
    split
    · exact (UInt64.ofNat_add _ 1).symm
    · rfl

theorem otlpMetricRecord_histogram {fp : Fp} {bounds values : List Double} {m : Metric}
    (hm : m.view.histogramData = histogramOf fp bounds values) (h : Heap) (value : Double) :
    (otlpMetricRecord fp h m value).2.1.view.histogramData = histogramOf fp bounds (values ++ [value]) := by
  have htype : m.type = .histogram := congrArg HistogramData.type hm
  have hcount : m.count = .ofNat values.length := congrArg HistogramData.count hm
  have hminmax : m.view.minmax = extremes fp.lt values := congrArg HistogramData.minmax hm
  have hbuckets : m.buckets.view = some (bounds, (tally fp.le bounds values).map .ofNat) :=
    congrArg HistogramData.buckets hm
  unfold otlpMetricRecord
  rw [htype]
  dsimp only
  cases hcases : m.buckets with
  | none =>
    rw [hcases] at hbuckets
    cases hbuckets
  | single counts hlen =>
    rw [hcases] at hbuckets
    cases hbuckets
  | explicit bs counts hlen =>
    rw [hcases, Buckets.view] at hbuckets
    split at hbuckets
    · cases hbuckets
    · next hne =>
      obtain ⟨hbs, hcounts⟩ := Prod.mk.inj (Option.some.inj hbuckets)
      change HistogramData.mk .histogram (m.count + 1) (some _)
        (if bs.items = [] then none
          else some (bs.items, counts.items.modify (bs.items.findIdx (fp.le value)) (· + 1))) = _
      rw [if_neg hne, hcounts, hbs, map_ofNat_modify, minmax_record]
      change HistogramData.mk .histogram (m.count + 1) (widen fp.lt m.view.minmax value)
        (some (bounds, ((tally fp.le bounds values).modify (slot fp.le bounds value) (· + 1)).map .ofNat)) = _
      rw [← tally_concat, hminmax, ← extremes_concat, hcount, histogramOf, List.length_append]
      exact congrArg (HistogramData.mk _ · _ _) (UInt64.ofNat_add _ 1).symm

theorem MetricCall.run_histogramData {fp : Fp} {m : Metric} (htype : m.type = .histogram) (h : Heap) {c : MetricCall}
    (hc : c.recorded = []) : (c.run fp h m).2.1.view.histogramData = m.view.histogramData := by
  cases c with
  | record value => cases hc
  | setStartTime t => rfl
  | setTime t => rfl
  | markTime now => cases now <;> rfl
  | setAttribute key arg => rfl
  | setExpHistogram scale posOffset posCounts negOffset negCounts =>
    have hne : m.type ≠ .expHistogram := by
      rw [htype]
      decide
    rw [MetricCall.run, otlpMetricSetExpHistogram, if_pos hne]
  | setAggregationTemporality temp =>
    rw [MetricCall.run, otlpMetricSetAggregationTemporality]
    split <;> rfl
  | setMonotonic monotonic => rfl
  | addExemplar ex =>
    rw [MetricCall.run]
    unfold otlpMetricAddExemplar
    split
    · rfl
    · split
      · rfl
      · split
        · rfl
        · split <;> rfl

/-- **A histogram is that of the values recorded into it**, also in a clone. -/
theorem HistogramBuilt.data_eq {fp : Fp} {bounds values : List Double} {h : Heap} {m : Metric} (hbounds : bounds ≠ [])
    (hm : HistogramBuilt fp bounds values h m) : m.view.histogramData = histogramOf fp bounds values := by
  induction hm with
  | create hm => exact otlpMetricCreate_histogram fp hbounds hm
  | @call values h m hm c ih =>
    have htype : m.type = .histogram := congrArg HistogramData.type ih
    cases hc : c.recorded with
    | nil =>
      rw [c.run_histogramData htype h hc, ih, List.append_nil]
    | cons v vs =>
      cases c with
      | record value =>
        cases hc
        exact otlpMetricRecord_histogram ih h _
      | _ => cases hc
  | clone hm hclone ih => exact (congrArg MetricView.histogramData (otlpMetricClone_some hclone).1).trans ih
  | meanwhile hm hle ih => exact ih

/-! ### The order of doubles -/

def isNumber (x : Double) : Bool := x &&& 0x7fffffffffffffff ≤ 0x7ff0000000000000

/-- Sign and magnitude as a number that is ordered as the values are. -/
def doubleKey (x : Double) : ℤ := if x < 0x8000000000000000 then x.toNat else 2 ^ 63 - x.toNat

/-- The comparisons of IEEE 754; sums are not looked at. -/
def Fp.comparing : Fp where
  add _ y := y
  lt x y := isNumber x && isNumber y && decide (doubleKey x < doubleKey y)
  le x y := isNumber x && isNumber y && decide (doubleKey x ≤ doubleKey y)
  isZero x := doubleKey x == 0

theorem ordered_comparing : Ordered Fp.comparing.le Fp.comparing.lt fun x => isNumber x = true := by
  refine ⟨fun x y hx hy => ?_, fun x y z hx hy hz => ?_, fun x y hx hy => ?_⟩
  · simp only [Fp.comparing, hx, hy, Bool.true_and, decide_eq_true_eq]
    exact le_total _ _
  · simp only [Fp.comparing, hx, hy, hz, Bool.true_and, decide_eq_true_eq]
    exact le_trans
  · simp only [Fp.comparing, hx, hy, Bool.true_and, decide_eq_true_eq]
    exact not_le.symm

end OtlpC.Api
