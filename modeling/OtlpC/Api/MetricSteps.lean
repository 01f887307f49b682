import OtlpC.Api.MetricClone
import Mathlib.Logic.Relation

/-!
# The life of a metric

A metric goes through calls of the public API, accepted or not, and may be replaced by its clone; in between anything
else takes memory. A clone reads as its source. The scale and the sides of an exponential histogram change in
`otlp_metric_set_exp_histogram` only.
-/

namespace OtlpC.Api

open Exporter Otlp

/-- One step, with the calls that `admits` allows. -/
inductive MetricStep (fp : Fp) (admits : MetricCall → Prop) : Heap × Metric → Heap × Metric → Prop where
  | call {h : Heap} {m : Metric} (c : MetricCall) (hc : admits c) :
      MetricStep fp admits (h, m) ((c.run fp h m).2.2, (c.run fp h m).2.1)
  | clone {h h' : Heap} {m m' : Metric} (hclone : otlpMetricClone h m = (some m', h')) :
      MetricStep fp admits (h, m) (h', m')
  | meanwhile {h h' : Heap} {m : Metric} (hle : h.Le h') : MetricStep fp admits (h, m) (h', m)

abbrev MetricSteps (fp : Fp) (admits : MetricCall → Prop) : Heap × Metric → Heap × Metric → Prop :=
  Relation.ReflTransGen (MetricStep fp admits)

def MetricCall.setsExpHistogram : MetricCall → Bool
  | setExpHistogram _ _ _ _ _ => true
  | _ => false

/-- What `otlp_metric_set_exp_histogram` is about. -/
structure ExpData where
  type : OtlpMetricType
  scale : Option Int32
  pos : Option (Int32 × List UInt64)
  neg : Option (Int32 × List UInt64)

def MetricView.expData (v : MetricView) : ExpData := ⟨v.type, v.expScale, v.expPos, v.expNeg⟩

/-! ### The sides of an exponential histogram -/

/-- What an argument of `otlp_metric_set_exp_histogram` makes of a side. -/
def givenSide (offset : Int32) (counts : Option (List UInt64)) (side : Option (Int32 × List UInt64)) :
    Option (Int32 × List UInt64) :=
  match counts with
  | none | some [] => side
  | some counts => some (offset, counts)

theorem setExpSide_ok {h h' : Heap} {side side' : ExpSide} {offset : Int32} {counts : Option (List UInt64)}
    (hset : setExpSide h side offset counts = (.ok, side', h')) : side'.view = givenSide offset counts side.view := by
  unfold setExpSide at hset
  split at hset
  · cases hset
    rfl
  · cases hset
    rfl
  · next cs hne =>
    split at hset
    · cases (Prod.mk.inj hset).1
    · split at hset
      · cases (Prod.mk.inj hset).1
      · next a h₁ hdup =>
        have hitems := (dupArr_some hdup).1
        cases hset
        cases cs with
        | nil => exact absurd rfl hne
        | cons c cs =>
          rw [ExpSide.view]
          change (if a.items = [] then none else some (offset, a.items)) = _
          rw [hitems, if_neg (List.cons_ne_nil c cs)]
          rfl

/-- **An accepted `otlp_metric_set_exp_histogram`** leaves a side without counts as it was. -/
theorem otlpMetricSetExpHistogram_ok {h h' : Heap} {m m' : Metric} {scale posOffset negOffset : Int32}
    {posCounts negCounts : Option (List UInt64)}
    (hset : otlpMetricSetExpHistogram h m scale posOffset posCounts negOffset negCounts = (.ok, m', h')) :
    m'.view.expData = ⟨.expHistogram, some scale, givenSide posOffset posCounts m.view.expPos,
      givenSide negOffset negCounts m.view.expNeg⟩ := by
  unfold otlpMetricSetExpHistogram at hset
  split at hset
  · cases (Prod.mk.inj hset).1
  · next htype =>
    dsimp only at hset
    rcases hpos : setExpSide h m.expPos posOffset posCounts with ⟨stPos, pos, h₁⟩
    rcases hneg : setExpSide h₁ m.expNeg negOffset negCounts with ⟨stNeg, neg, h₂⟩
    by_cases hst : stPos = .ok
    · rw [hst] at hpos
      rw [hpos] at hset
      dsimp only at hset
      rw [hneg] at hset
      obtain ⟨rfl, hrest⟩ := Prod.mk.inj hset
      obtain ⟨hm, -⟩ := Prod.mk.inj hrest
      rw [← hm]
      change ExpData.mk m.type (some scale) pos.view neg.view = _
      rw [not_not.1 htype, setExpSide_ok hpos, setExpSide_ok hneg]
      rfl
    · rw [hpos] at hset
      cases stPos with
      | ok => exact absurd rfl hst
      | _ => cases (Prod.mk.inj hset).1

theorem MetricCall.run_expData (fp : Fp) (h : Heap) (m : Metric) {c : MetricCall} (hc : c.setsExpHistogram = false) :
    (c.run fp h m).2.1.view.expData = m.view.expData := by
  cases c with
  | record value =>
    rw [MetricCall.run, otlpMetricRecord]
    split <;> rfl
  | setStartTime t => rfl
  | setTime t => rfl
  | markTime now => cases now <;> rfl
  | setAttribute key arg => rfl
  | setExpHistogram scale posOffset posCounts negOffset negCounts => cases hc
  | setAggregationTemporality temp =>
    rw [MetricCall.run, otlpMetricSetAggregationTemporality]
    split <;> rfl
  | setMonotonic monotonic => rfl
  | addExemplar ex =>
    rw [MetricCall.run]
    unfold otlpMetricAddExemplar
    split
    · rfl
    · split
      · rfl
      · split
        · rfl
        · split <;> rfl

/-- **Between two settings** they stay as they are, in a clone too. -/
theorem MetricSteps.expData_eq {fp : Fp} {x y : Heap × Metric}
    (hsteps : MetricSteps fp (·.setsExpHistogram = false) x y) : y.2.view.expData = x.2.view.expData := by
  induction hsteps with
  | refl => rfl
  | tail _ hstep ih =>
    rw [← ih]
    cases hstep with
    | call c hc => exact c.run_expData fp _ _ hc
    | clone hclone => exact congrArg MetricView.expData (otlpMetricClone_some hclone).1
    | meanwhile _ => rfl

/-! ### The exemplars of a metric -/

def MetricCall.accepted : MetricCall → OtlpStatus → List Exemplar
  | addExemplar (some ex), .ok => [ex]
  | _, _ => []

/-- A metric that was built through the public API, with the exemplars that were accepted, in order. -/
inductive MetricBuilt (fp : Fp) : List Exemplar → Heap → Metric → Prop where
  | create {h h' : Heap} {type : UInt32} {name unit description : Option Bytes} {bounds : Option (List Double)}
      {m : Metric} (hm : otlpMetricCreate h type name unit description bounds = (some m, h')) : MetricBuilt fp [] h' m
  | call {exs : List Exemplar} {h : Heap} {m : Metric} (hm : MetricBuilt fp exs h m) (c : MetricCall) :
      MetricBuilt fp (exs ++ c.accepted (c.run fp h m).1) (c.run fp h m).2.2 (c.run fp h m).2.1
  | clone {exs : List Exemplar} {h h' : Heap} {m m' : Metric} (hm : MetricBuilt fp exs h m)
      (hclone : otlpMetricClone h m = (some m', h')) : MetricBuilt fp exs h' m'
  | meanwhile {exs : List Exemplar} {h h' : Heap} {m : Metric} (hm : MetricBuilt fp exs h m) (hle : h.Le h') :
      MetricBuilt fp exs h' m

theorem otlpMetricCreate_exemplars {h h' : Heap} {type : UInt32} {name unit description : Option Bytes}
    {bounds : Option (List Double)} {m : Metric}
    (hm : otlpMetricCreate h type name unit description bounds = (some m, h')) : m.exemplars.items = [] := by
  unfold otlpMetricCreate at hm
  split at hm
  · cases (Prod.mk.inj hm).1
  · split at hm
    · cases (Prod.mk.inj hm).1
    · split at hm
      · cases (Prod.mk.inj hm).1
      · dsimp only at hm
        split at hm
        · split at hm
          · cases (Prod.mk.inj hm).1
          · obtain ⟨hm, -⟩ := Prod.mk.inj hm
            cases hm
            rfl
        · cases (Prod.mk.inj hm).1

theorem MetricCall.run_exemplars (fp : Fp) (h : Heap) (m : Metric) (c : MetricCall) :
    (c.run fp h m).2.1.exemplars.items = m.exemplars.items ++ c.accepted (c.run fp h m).1 := by
  cases c with
  | addExemplar ex =>
    rw [MetricCall.run]
    unfold otlpMetricAddExemplar
    cases ex with
    | none => exact (List.append_nil _).symm
    | some ex =>
      dsimp only
      split
      · exact (List.append_nil _).symm
      · split
        · exact (List.append_nil _).symm
        · split
          · exact (List.append_nil _).symm
          · next exemplars h₁ hgrow =>
            change exemplars.items ++ [ex] = m.exemplars.items ++ [ex]
            rw [(GrowVec.grow_some hgrow fun _ => []).1]
  | record value =>
    rw [MetricCall.run, otlpMetricRecord]
    split <;> exact (List.append_nil _).symm
  | setExpHistogram scale posOffset posCounts negOffset negCounts =>
    rw [MetricCall.run, otlpMetricSetExpHistogram]
    split
    · exact (List.append_nil _).symm
    · dsimp only
      split <;> exact (List.append_nil _).symm
  | markTime now => cases now <;> exact (List.append_nil _).symm
  | setAggregationTemporality temp =>
    rw [MetricCall.run, otlpMetricSetAggregationTemporality]
    split <;> exact (List.append_nil _).symm
  | _ => exact (List.append_nil _).symm

/-- **The exemplars of a metric** are those that were accepted. -/
theorem MetricBuilt.exemplars_eq {fp : Fp} {exs : List Exemplar} {h : Heap} {m : Metric}
    (hm : MetricBuilt fp exs h m) : m.exemplars.items = exs := by
  induction hm with
  | create hm => exact otlpMetricCreate_exemplars hm
  | call hm c ih => rw [c.run_exemplars, ih]
  | clone hm hclone ih => rw [(otlpMetricClone_some hclone).2, ih]
  | meanwhile hm hle ih => exact ih

end OtlpC.Api
