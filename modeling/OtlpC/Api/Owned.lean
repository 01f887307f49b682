import OtlpC.Api.MetricSteps
import OtlpC.Api.SpanHistory

/-!
# What log records and metrics own

A call leaves an object with what it owned before or with memory allocated since, and every text it owns was checked
before it was copied. Both hold over the whole life of an object, and say which blocks it can never get hold of.
-/

namespace OtlpC.Api

open Exporter Otlp

/-! ### The life of an object -/

/-- A call of the public API, accepted or not, or anything else that takes memory. -/
inductive LifeStep {α κ : Type} (run : Heap → α → κ → OtlpStatus × α × Heap) : Heap × α → Heap × α → Prop where
  | call {h : Heap} {x : α} (c : κ) : LifeStep run (h, x) ((run h x c).2.2, (run h x c).2.1)
  | meanwhile {h h' : Heap} {x : α} (hle : h.Le h') : LifeStep run (h, x) (h', x)

abbrev Life {α κ : Type} (run : Heap → α → κ → OtlpStatus × α × Heap) : Heap × α → Heap × α → Prop :=
  Relation.ReflTransGen (LifeStep run)

section

variable {α κ : Type} {run : Heap → α → κ → OtlpStatus × α × Heap} {leaves : α → List Leaf}

/-- **What an object owns after a while** it owned before, or it was allocated since. -/
theorem Life.grows (hrun : ∀ h x c, Grows h (leaves x) (run h x c).2.2 (leaves (run h x c).2.1))
    {x y : Heap × α} (hlife : Life run x y) : Grows x.1 (leaves x.2) y.1 (leaves y.2) := by
  induction hlife with
  | refl => exact .refl _ _
  | tail _ hstep ih =>
    refine ih.trans ?_
    cases hstep with
    | call c => exact hrun _ _ c
    | meanwhile hle => exact .of_le hle _

end

/-! ### Log records -/

/-- A log record that was built through the public API. -/
inductive LogBuilt : Heap → LogRecord → Prop where
  | create {h h' : Heap} {severity : UInt32} {body : Option Bytes} {lr : LogRecord}
      (hlr : otlpLogRecordCreate h severity body = (some lr, h')) : LogBuilt h' lr
  | later {h h' : Heap} {lr lr' : LogRecord} (hlr : LogBuilt h lr)
      (hlife : LifeStep LogCall.run (h, lr) (h', lr')) : LogBuilt h' lr'

theorem LogRecord.mem_leaves {lr : LogRecord} {l : Leaf} : l ∈ lr.leaves ↔ l = blockLeaf lr.block ∨
    l = lr.body.leaf ∨ l ∈ strLeaves lr.severityText ∨ l ∈ attrLeaves lr.attrs := by
  simp only [LogRecord.leaves, List.mem_cons, List.mem_append]

theorem mem_strLeaves_some {s : HeapStr} {l : Leaf} : l ∈ strLeaves (some s) ↔ l = s.leaf := by
  simp [strLeaves]

theorem grows_dupStr_opt {h : Heap} {s : Bytes} (hutf8 : otlpStrIsUtf8 s = true) (ls : List Leaf) :
    Grows h ls (otlpDupStr h (some s)).2 (strLeaves (otlpDupStr h (some s)).1) := by
  have hle := otlpDupStr_le h (some s)
  rcases hdup : otlpDupStr h (some s) with ⟨_ | c, h'⟩
  · rw [hdup] at hle
    exact grows_nil hle ls
  · exact grows_dupStr hdup hutf8 ls

theorem otlpLogRecordCreate_some {h h' : Heap} {severity : UInt32} {body : Option Bytes} {lr : LogRecord}
    (hlr : otlpLogRecordCreate h severity body = (some lr, h')) :
    h.Le h' ∧ (∀ l ∈ lr.leaves, l.Fresh h h' ∧ l.Valid) ∧ lr.view = LogView.new severity (body.getD []) := by
  have hle := otlpMalloc_le h sizeofLogRecord
  unfold otlpLogRecordCreate at hlr
  split at hlr
  · cases (Prod.mk.inj hlr).1
  · next c h₁ heq =>
    rw [heq] at hle
    split at hlr
    · cases (Prod.mk.inj hlr).1
    · next hutf8 =>
      have hle₁ := otlpDupStr_le h₁ (some (body.getD []))
      split at hlr
      · cases (Prod.mk.inj hlr).1
      · next copy h₂ heq₂ =>
        rw [heq₂] at hle₁
        obtain ⟨hlr, rfl⟩ := Prod.mk.inj hlr
        cases hlr
        have hbody := grows_dupStr heq₂ (by simpa [isUtf8] using hutf8) []
        have htext := (Option.some.inj (otlpDupStr_some heq₂).1).symm
        refine ⟨hle.trans hle₁, fun l hl => ?_, ?_⟩
        · rcases LogRecord.mem_leaves.1 hl with hl | hl | hl | hl
          · exact hl ▸ ⟨(otlpMalloc_fresh heq none).mono (.refl h) hle₁, valid_blockLeaf _⟩
          · obtain ⟨hfresh, hvalid⟩ := (hbody.mem l (by simpa using hl)).resolve_left List.not_mem_nil
            exact ⟨hfresh.mono hle (.refl _), hvalid⟩
          all_goals exact absurd hl List.not_mem_nil
        · simp [LogRecord.view, LogView.new, htext, attrKvs, GrowVec.empty]

theorem LogRecord.grows {h h' : Heap} {lr lr' : LogRecord} (hblock : lr'.block = lr.block) (hbody : lr'.body = lr.body)
    (htext : Grows h (strLeaves lr.severityText) h' (strLeaves lr'.severityText))
    (hattrs : Grows h (attrLeaves lr.attrs) h' (attrLeaves lr'.attrs)) : Grows h lr.leaves h' lr'.leaves := by
  have hparts := (Grows.of_le htext.le [blockLeaf lr.block, lr.body.leaf]).both (htext.both hattrs)
  exact hparts.of_eq rfl (by rw [leaves, hblock, hbody]; rfl)

/-- **What a call leaves a record with.** -/
theorem LogCall.run_grows (h : Heap) (lr : LogRecord) (c : LogCall) :
    Grows h lr.leaves (c.run h lr).2.2 (c.run h lr).2.1.leaves := by
  cases c with
  | setTimestamp t => exact .refl h _
  | markTimestamp now => cases now <;> exact .refl h _
  | setTraceId id =>
    rcases id with - | id
    · exact .refl h _
    · rw [run, otlpLogRecordSetTraceId]
      split <;> exact .refl h _
  | setSpanId id =>
    rcases id with - | id
    · exact .refl h _
    · rw [run, otlpLogRecordSetSpanId]
      split <;> exact .refl h _
  | setSeverityText text =>
    rw [run, otlpLogRecordSetSeverityText]
    split
    · exact .refl h _
    · next hutf8 =>
      have htext := grows_dupStr_opt (h := h) (s := text.getD []) (by simpa [isUtf8] using hutf8)
        (strLeaves lr.severityText)
      dsimp only
      split <;> exact LogRecord.grows rfl rfl htext (.of_le htext.le _)
  | setAttribute key arg =>
    have hattrs := (setAttribute_spec h lr.attrs otlpLogMaxAttrs key arg).1
    exact LogRecord.grows rfl rfl (.of_le hattrs.le _) hattrs

/-- **What a record owns** was allocated before, and the text in it is valid. -/
theorem LogBuilt.owns {h : Heap} {lr : LogRecord} (hlr : LogBuilt h lr) : Owns h lr.leaves := by
  induction hlr with
  | create hlr => exact .of_fresh (otlpLogRecordCreate_some hlr).2.1
  | later hlr hlife ih => exact ih.grows (Life.grows LogCall.run_grows (.single hlife))

/-! ### Metrics -/

structure Metric.PartsGrow (h : Heap) (m : Metric) (h' : Heap) (m' : Metric) : Prop where
  le : h.Le h'
  block_eq : m'.block = m.block
  name_eq : m'.name = m.name
  unit_eq : m'.unit = m.unit
  description_eq : m'.description = m.description
  attrs : Grows h (attrLeaves m.attrs) h' (attrLeaves m'.attrs)
  buckets : Grows h m.buckets.leaves h' m'.buckets.leaves
  expPos : Grows h m.expPos.leaves h' m'.expPos.leaves
  expNeg : Grows h m.expNeg.leaves h' m'.expNeg.leaves
  exemplars : Grows h (exemplarLeaves m.exemplars) h' (exemplarLeaves m'.exemplars)

section

variable {h h' : Heap} {m m' : Metric}

theorem Metric.PartsGrow.grows (hparts : m.PartsGrow h h' m') : Grows h m.leaves h' m'.leaves := by
  have hrest := hparts.attrs.both (hparts.buckets.both (hparts.expPos.both (hparts.expNeg.both hparts.exemplars)))
  have hall := (Grows.of_le hparts.le [blockLeaf m.block, m.name.leaf, m.unit.leaf, m.description.leaf]).both hrest
  refine hall.of_eq rfl ?_
  rw [leaves, hparts.block_eq, hparts.name_eq, hparts.unit_eq, hparts.description_eq]

theorem Metric.PartsGrow.of_le (hle : h.Le h') (m : Metric) : m.PartsGrow h h' m :=
  ⟨hle, rfl, rfl, rfl, rfl, .of_le hle _, .of_le hle _, .of_le hle _, .of_le hle _, .of_le hle _⟩

theorem grows_leaf {size : ℕ} {l : Leaf} {c : Chunk size} (hc : otlpMalloc h size = (some c, h'))
    (hl : l = blockLeaf c.block) (ls : List Leaf) : Grows h ls h' [l] := by
  have hle := otlpMalloc_le h size
  rw [hc] at hle
  refine ⟨hle, fun k hk => .inr ?_⟩
  rw [List.mem_singleton.1 hk, hl]
  exact ⟨otlpMalloc_fresh hc _, valid_blockLeaf _⟩

theorem recordBucket_grows (fp : Fp) (h : Heap) (value : Double) (buckets : Buckets) :
    Grows h buckets.leaves (recordBucket fp h value buckets).2.2 (recordBucket fp h value buckets).2.1.leaves := by
  cases buckets with
  | explicit bounds counts hlen => exact .refl h _
  | single counts hlen => exact .refl h _
  | none =>
    have hle := otlpMalloc_le h 8
    rw [recordBucket]
    split
    · next heq =>
      rw [heq] at hle
      exact .of_le hle _
    · next c h₁ heq => exact grows_leaf heq rfl _

theorem setExpSide_grows (h : Heap) (side : ExpSide) (offset : Int32) (counts : Option (List UInt64)) :
    Grows h side.leaves (setExpSide h side offset counts).2.2 (setExpSide h side offset counts).2.1.leaves := by
  unfold setExpSide
  split
  · exact .refl h _
  · exact .refl h _
  · next cs _ =>
    split
    · exact .refl h _
    · have hle := dupArr_le 8 h cs
      split
      · next heq =>
        rw [heq] at hle
        exact grows_nil hle _
      · next a h₁ heq =>
        rw [heq] at hle
        refine ⟨hle, fun l hl => .inr ?_⟩
        obtain rfl : l = a.leaf := by simpa [ExpSide.leaves] using hl
        exact ⟨(dupArr_some heq).2, valid_blockLeaf _⟩

theorem otlpMetricRecord_parts (fp : Fp) (h : Heap) (m : Metric) (value : Double) :
    m.PartsGrow h (otlpMetricRecord fp h m value).2.2 (otlpMetricRecord fp h m value).2.1 := by
  unfold otlpMetricRecord
  split
  · exact { Metric.PartsGrow.of_le (.refl h) m with }
  · exact { Metric.PartsGrow.of_le (.refl h) m with }
  · have hbuckets := recordBucket_grows fp h value m.buckets
    exact { Metric.PartsGrow.of_le hbuckets.le m with buckets := hbuckets }
  · exact { Metric.PartsGrow.of_le (.refl h) m with }

theorem otlpMetricSetExpHistogram_parts (h : Heap) (m : Metric) (scale posOffset : Int32)
    (posCounts : Option (List UInt64)) (negOffset : Int32) (negCounts : Option (List UInt64)) :
    m.PartsGrow h (otlpMetricSetExpHistogram h m scale posOffset posCounts negOffset negCounts).2.2
      (otlpMetricSetExpHistogram h m scale posOffset posCounts negOffset negCounts).2.1 := by
  have hpos := setExpSide_grows h m.expPos posOffset posCounts
  unfold otlpMetricSetExpHistogram
  split
  · exact .of_le (.refl h) m
  · dsimp only
    split
    · next pos h₁ heq =>
      rw [heq] at hpos
      have hneg := setExpSide_grows h₁ m.expNeg negOffset negCounts
      exact { Metric.PartsGrow.of_le (hpos.le.trans hneg.le) m with
        expPos := hpos.trans (.of_le hneg.le _)
        expNeg := (Grows.of_le hpos.le _).trans hneg }
    · next st pos h₁ _ heq =>
      rw [heq] at hpos
      exact { Metric.PartsGrow.of_le hpos.le m with expPos := hpos }

theorem otlpMetricAddExemplar_parts (h : Heap) (m : Metric) (ex : Option Exemplar) :
    m.PartsGrow h (otlpMetricAddExemplar h m ex).2.2 (otlpMetricAddExemplar h m ex).2.1 := by
  unfold otlpMetricAddExemplar
  split
  · exact .of_le (.refl h) m
  · next ex =>
    split
    · exact .of_le (.refl h) m
    · split
      · exact .of_le (.refl h) m
      · have hle := m.exemplars.grow_le sizeMax (exemplars_lt m.exemplars) (by decide) h
        split
        · next heq =>
          rw [heq] at hle
          exact .of_le hle m
        · next exemplars h₁ heq =>
          rw [heq] at hle
          have hgrows := (GrowVec.grow_some heq fun _ => []).2
          refine { Metric.PartsGrow.of_le hle m with exemplars := ⟨hle, fun l hl => ?_⟩ }
          rcases GrowVec.mem_leaves_push hl with hl | hl
          · exact hgrows.mem l hl
          · exact absurd hl List.not_mem_nil

/-- **What a call leaves a metric with.** -/
theorem MetricCall.run_grows (fp : Fp) (h : Heap) (m : Metric) (c : MetricCall) :
    Grows h m.leaves (c.run fp h m).2.2 (c.run fp h m).2.1.leaves := by
  cases c with
  | record value => exact (otlpMetricRecord_parts fp h m value).grows
  | setStartTime t => exact .refl h _
  | setTime t => exact .refl h _
  | markTime now => cases now <;> exact .refl h _
  | setAttribute key arg =>
    have hattrs := (setAttribute_spec h m.attrs otlpMetricMaxAttrs key arg).1
    exact Metric.PartsGrow.grows { Metric.PartsGrow.of_le hattrs.le m with attrs := hattrs }
  | setExpHistogram scale posOffset posCounts negOffset negCounts =>
    exact (otlpMetricSetExpHistogram_parts h m scale posOffset posCounts negOffset negCounts).grows
  | setAggregationTemporality temp =>
    rw [run, otlpMetricSetAggregationTemporality]
    split <;> exact .refl h _
  | setMonotonic monotonic => exact .refl h _
  | addExemplar ex => exact (otlpMetricAddExemplar_parts h m ex).grows

end

end OtlpC.Api
