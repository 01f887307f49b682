import OtlpC.Api.MetricSteps

/-!
# What a failed call leaves behind

Most calls look at all their arguments and take all their memory before they change anything. Four of them do not:
`otlp_metric_record`, `otlp_metric_set_exp_histogram`, `otlp_log_record_set_severity_text` and
`otlp_exemplar_set_trace_context`.
-/

namespace OtlpC.Api

open Exporter Otlp

/-- The next request is granted when it is for `size` bytes. -/
def Heap.Grants (h : Heap) (size : ℕ) : Prop := size ≤ ptrdiffMax ∧ h.grants h.next size = true

theorem otlpMalloc_of_grants {h : Heap} {size : ℕ} (hg : h.Grants size) :
    otlpMalloc h size = (some ⟨h.next, hg.1⟩, { h with next := h.next + 1 }) := dif_pos hg

theorem otlpMalloc_of_not_grants {h : Heap} {size : ℕ} (hg : ¬h.Grants size) :
    otlpMalloc h size = (none, { h with next := h.next + 1, refused := h.refused + 1 }) := dif_neg hg

/-! ### Spans -/

theorem SpanCall.run_failed {h : Heap} {s : Span} {c : SpanCall} (hst : (c.run h s).1 ≠ .ok) :
    (c.run h s).2.1.view = s.view := by
  rw [(c.run_spec h s).view_eq, SpanView.apply, if_neg hst]

/-! ### Log records -/

/-- The text is valid, and there is no memory for its copy. -/
def LogCall.LosesText (h : Heap) : LogCall → Prop
  | setSeverityText (some text) => otlpStrIsUtf8 text = true ∧ ¬h.Grants (text.length + 1)
  | _ => False

/-- The severity text is not lost, or there was none. -/
def LogCall.Atomic (h : Heap) (lr : LogRecord) (c : LogCall) : Prop :=
  c.LosesText h → lr.view.severityText.getD [] = []

theorem setAttribute_failed {h : Heap} {vec : AttrVec} {max : ℕ} {key : Option Bytes} {arg : AttrArg}
    (hst : (setAttribute h vec max key arg).1 ≠ .ok) : attrKvs (setAttribute h vec max key arg).2.1 = attrKvs vec := by
  rw [(setAttribute_spec h vec max key arg).2, putKvs, if_neg hst]

theorem otlpDupStr_of_not_grants {h : Heap} {s : Bytes} (hg : ¬h.Grants (s.length + 1)) :
    (otlpDupStr h (some s)).1 = none := by
  rw [otlpDupStr]
  split
  · rfl
  · rw [otlpMalloc_of_not_grants hg]

theorem otlpDupStr_of_grants {h : Heap} {s : Bytes} (hg : h.Grants (s.length + 1)) :
    (otlpDupStr h (some s)).1.isSome = true := by
  have hmax : s.length ≠ sizeMax := by
    have hle := hg.1
    unfold ptrdiffMax at hle
    unfold sizeMax
    omega
  rw [otlpDupStr, if_neg hmax, otlpMalloc_of_grants hg]
  rfl

theorem LogCall.run_losesText {h : Heap} {c : LogCall} (hc : c.LosesText h) (lr : LogRecord) :
    (c.run h lr).1 ≠ .ok ∧ (c.run h lr).2.1.view = { lr.view with severityText := none } := by
  cases c with
  | setSeverityText text =>
    cases text with
    | none => exact hc.elim
    | some text =>
      have hutf8 : isUtf8 (some text) = true := hc.1
      have hdup := otlpDupStr_of_not_grants hc.2
      rw [LogCall.run, otlpLogRecordSetSeverityText, hutf8]
      dsimp only [Option.getD_some]
      rw [hdup]
      refine ⟨?_, rfl⟩
      intro hok
      cases hok
  | _ => exact hc.elim

theorem LogCall.run_failed {h : Heap} {lr : LogRecord} {c : LogCall} (hc : ¬c.LosesText h)
    (hst : (c.run h lr).1 ≠ .ok) : (c.run h lr).2.1.view = lr.view := by
  cases c with
  | setTimestamp t => exact absurd rfl hst
  | markTimestamp now =>
    cases now with
    | none => rfl
    | some t => exact absurd rfl hst
  | setTraceId id =>
    cases id with
    | none => rfl
    | some id =>
      rw [LogCall.run, otlpLogRecordSetTraceId] at hst ⊢
      split at hst
      · next hzero => rw [if_pos hzero]; rfl
      · exact absurd rfl hst
  | setSpanId id =>
    cases id with
    | none => rfl
    | some id =>
      rw [LogCall.run, otlpLogRecordSetSpanId] at hst ⊢
      split at hst
      · next hzero => rw [if_pos hzero]; rfl
      · exact absurd rfl hst
  | setSeverityText text =>
    rw [LogCall.run, otlpLogRecordSetSeverityText] at hst ⊢
    split at hst
    · next hutf8 => rw [if_pos hutf8]
    · next hutf8 =>
      exfalso
      dsimp only at hst
      cases text with
      | none => exact hst rfl
      | some text =>
        have hvalid : otlpStrIsUtf8 text = true := by simpa [isUtf8] using hutf8
        have hg : h.Grants (text.length + 1) := not_not.1 fun hg => hc ⟨hvalid, hg⟩
        have hsome := otlpDupStr_of_grants hg
        rw [← Option.not_isSome, Option.getD_some, hsome] at hst
        exact hst rfl
  | setAttribute key arg =>
    exact congrArg (fun attrs => { lr.view with attrs }) (setAttribute_failed hst)

/-! ### Exemplars -/

/-- The trace id that the call stores before it looks at the span id and fails. -/
def ExemplarCall.halfStored : ExemplarCall → Option TraceId
  | setTraceContext (some traceId) (some spanId) =>
    if !otlpIdIsAllZero traceId && otlpIdIsAllZero spanId then some traceId else none
  | _ => none

/-- No trace id is stored, or one that was there, or the exemplar has no value. -/
def ExemplarCall.Atomic (ex : Exemplar) (c : ExemplarCall) : Prop :=
  ∀ traceId, c.halfStored = some traceId →
    (ex.hasDouble = false ∧ ex.hasInt = false) ∨ ex.view.traceId = some traceId

theorem ExemplarCall.run_of_halfStored {c : ExemplarCall} {traceId : TraceId} (hc : c.halfStored = some traceId)
    (ex : Exemplar) :
    (c.run ex).1 ≠ .ok ∧ (c.run ex).2 = { ex with traceId, hasTrace := true } := by
  unfold ExemplarCall.halfStored at hc
  split at hc
  · next traceId' spanId =>
    split at hc
    · next hzero =>
      cases hc
      rw [Bool.and_eq_true, Bool.not_eq_true'] at hzero
      rw [ExemplarCall.run, otlpExemplarSetTraceContext, Option.any_some, Option.any_some, hzero.1, hzero.2]
      constructor
      · intro hok
        cases hok
      · rw [Option.getD_some, Option.isSome_some, Bool.or_true]
        rfl
    · cases hc
  · cases hc

theorem ExemplarCall.run_failed {ex : Exemplar} {c : ExemplarCall} (hc : c.halfStored = none)
    (hst : (c.run ex).1 ≠ .ok) : (c.run ex).2 = ex := by
  cases c with
  | setDoubleValue v => exact absurd rfl hst
  | setIntValue v => exact absurd rfl hst
  | setTraceContext traceId spanId =>
    rw [ExemplarCall.run, otlpExemplarSetTraceContext] at hst ⊢
    split at hst
    · next hzero => rw [if_pos hzero]
    · next htrace =>
      rw [if_neg htrace]
      dsimp only at hst ⊢
      split at hst
      · next hspan =>
        rw [if_pos hspan]
        cases traceId with
        | none => rw [Option.getD_none, Option.isSome_none, Bool.or_false]
        | some traceId =>
          exfalso
          cases spanId with
          | none => cases hspan
          | some spanId =>
            rw [ExemplarCall.halfStored, if_pos] at hc
            · cases hc
            · have htrace : otlpIdIsAllZero traceId = false := Bool.eq_false_iff.2 htrace
              rw [htrace]
              exact hspan
      · exact absurd rfl hst
  | markTime now =>
    cases now with
    | none => rfl
    | some t => exact absurd rfl hst
  | setTimestamp t => exact absurd rfl hst

/-! ### Metrics -/

/-- There are counts, and no memory for their copy. -/
def CopyFails (h : Heap) (counts : Option (List UInt64)) : Prop :=
  counts.getD [] ≠ [] ∧ ¬h.Grants ((counts.getD []).length * 8)

def TooMany (counts : Option (List UInt64)) : Prop := sizeMax / 8 < (counts.getD []).length

def Heap.afterCopy (h : Heap) (counts : Option (List UInt64)) : Heap :=
  if counts.getD [] = [] then h else { h with next := h.next + 1 }

theorem TooMany.not_grants {counts : Option (List UInt64)} (hmany : TooMany counts) (h : Heap) :
    ¬h.Grants ((counts.getD []).length * 8) := by
  intro hg
  have hle := hg.1
  unfold TooMany sizeMax at hmany
  unfold ptrdiffMax at hle
  omega

theorem setExpSide_of_copies {h : Heap} {counts : Option (List UInt64)} (hcopy : ¬CopyFails h counts) (side : ExpSide)
    (offset : Int32) : ∃ side', setExpSide h side offset counts = (.ok, side', h.afterCopy counts) := by
  rcases counts with - | - | ⟨c, cs⟩
  · exact ⟨side, rfl⟩
  · exact ⟨side, rfl⟩
  · have hg : h.Grants ((c :: cs).length * 8) := not_not.1 fun hg => hcopy ⟨List.cons_ne_nil c cs, hg⟩
    have hfew : ¬sizeMax / 8 < (c :: cs).length := fun hmany =>
      TooMany.not_grants (show TooMany (some (c :: cs)) from hmany) h hg
    rw [setExpSide, if_neg hfew, dupArr, otlpMalloc_of_grants hg]
    · exact ⟨_, rfl⟩
    · simp

/-- A side whose copy fails is lost, unless there were too many counts. -/
theorem setExpSide_of_copyFails {h : Heap} {counts : Option (List UInt64)} (hcopy : CopyFails h counts) (side : ExpSide)
    (offset : Int32) : (setExpSide h side offset counts).1 ≠ .ok ∧
      (TooMany counts → (setExpSide h side offset counts).2.1 = side) ∧
      (¬TooMany counts → (setExpSide h side offset counts).2.1.view = none) := by
  rcases counts with - | - | ⟨c, cs⟩
  · exact absurd rfl hcopy.1
  · exact absurd rfl hcopy.1
  · rw [setExpSide]
    · by_cases hmany : sizeMax / 8 < (c :: cs).length
      · rw [if_pos hmany]
        refine ⟨?_, fun _ => rfl, fun hfew => absurd hmany hfew⟩
        intro hok
        cases hok
      · have hg : ¬h.Grants ((c :: cs).length * 8) := hcopy.2
        rw [if_neg hmany, dupArr, otlpMalloc_of_not_grants hg]
        refine ⟨?_, fun hmany' => absurd hmany' hmany, fun _ => rfl⟩
        intro hok
        cases hok
    · simp

/-- There is no bucket array yet, and no memory for one. -/
def NoBuckets (h : Heap) (m : Metric) : Prop := m.type = .histogram ∧ m.buckets = .none ∧ ¬h.Grants 8

/-- A value is counted before the array is asked for. -/
theorem otlpMetricRecord_of_noBuckets {h : Heap} {m : Metric} (hno : NoBuckets h m) (fp : Fp) (value : Double) :
    (otlpMetricRecord fp h m value).1 ≠ .ok ∧ (otlpMetricRecord fp h m value).2.1.view.type = .histogram ∧
      (otlpMetricRecord fp h m value).2.1.view.count = m.view.count + 1 := by
  obtain ⟨htype, hbuckets, hg⟩ := hno
  have hrecord : recordBucket fp h value m.buckets =
      (.errNomem, .none, { h with next := h.next + 1, refused := h.refused + 1 }) := by
    rw [hbuckets, recordBucket, otlpMalloc_of_not_grants hg]
  unfold otlpMetricRecord
  rw [htype]
  dsimp only
  rw [hrecord]
  refine ⟨?_, rfl, rfl⟩
  intro hok
  cases hok

theorem otlpMetricRecord_ok {h : Heap} {m : Metric} (hno : ¬NoBuckets h m) (fp : Fp) (value : Double) :
    (otlpMetricRecord fp h m value).1 = .ok := by
  unfold otlpMetricRecord
  split
  · rfl
  · rfl
  · next htype =>
    dsimp only
    unfold recordBucket
    split
    · rfl
    · rfl
    · next hbuckets =>
      have hg : h.Grants 8 := not_not.1 fun hg => hno ⟨htype, hbuckets, hg⟩
      rw [otlpMalloc_of_grants hg]
  · rfl

def LosesNothing (counts : Option (List UInt64)) (side : Option (Int32 × List UInt64)) : Prop :=
  TooMany counts ∨ side = none

/-- There is memory for the first bucket, and a setting of an exponential histogram that fails finds the scale, the
positive side if it was stored by then, and no counts on the side that failed. -/
def MetricCall.Atomic (h : Heap) (m : Metric) : MetricCall → Prop
  | record _ => ¬NoBuckets h m
  | setExpHistogram scale posOffset posCounts _ negCounts =>
    m.type = .expHistogram →
      (CopyFails h posCounts → m.view.expScale.getD 0 = scale ∧ LosesNothing posCounts m.view.expPos) ∧
      (¬CopyFails h posCounts → CopyFails (h.afterCopy posCounts) negCounts →
        m.view.expScale.getD 0 = scale ∧ givenSide posOffset posCounts m.view.expPos = m.view.expPos ∧
          LosesNothing negCounts m.view.expNeg)
  | _ => True

theorem MetricCall.run_failed {fp : Fp} {h : Heap} {m : Metric} {c : MetricCall} (hc : c.setsExpHistogram = false)
    (hatomic : c.Atomic h m) (hst : (c.run fp h m).1 ≠ .ok) : (c.run fp h m).2.1.view = m.view := by
  cases c with
  | record value => exact absurd (otlpMetricRecord_ok hatomic fp value) hst
  | setStartTime t => exact absurd rfl hst
  | setTime t => exact absurd rfl hst
  | markTime now =>
    cases now with
    | none => rfl
    | some t => exact absurd rfl hst
  | setAttribute key arg => exact congrArg (fun attrs => { m.view with attrs }) (setAttribute_failed hst)
  | setExpHistogram scale posOffset posCounts negOffset negCounts => cases hc
  | setAggregationTemporality temp =>
    rw [MetricCall.run, otlpMetricSetAggregationTemporality] at hst ⊢
    split at hst
    · next htemp =>
      rw [if_pos htemp]
      rfl
    · exact absurd rfl hst
  | setMonotonic monotonic => exact absurd rfl hst
  | addExemplar ex =>
    rw [MetricCall.run] at hst ⊢
    unfold otlpMetricAddExemplar at hst ⊢
    cases ex with
    | none => rfl
    | some ex =>
      dsimp only at hst ⊢
      split at hst
      · next hvalue => rw [if_pos hvalue]
      · next hvalue =>
        rw [if_neg hvalue]
        split at hst
        · next hcap => rw [if_pos hcap]
        · next hcap =>
          rw [if_neg hcap]
          split at hst
          · rfl
          · exact absurd rfl hst

section SetExpHistogram

variable {h : Heap} {m : Metric} {posCounts negCounts : Option (List UInt64)} (scale posOffset negOffset : Int32)

/-- What `otlp_metric_set_exp_histogram` changes of what the encoder reads. -/
def MetricView.withExp (v : MetricView) (scale : Int32) (pos neg : Option (Int32 × List UInt64)) : MetricView :=
  { v with expScale := some scale, expPos := pos, expNeg := neg }

theorem otlpMetricSetExpHistogram_pos (htype : m.type = .expHistogram) (hpos : CopyFails h posCounts)
    (negCounts : Option (List UInt64)) :
    (otlpMetricSetExpHistogram h m scale posOffset posCounts negOffset negCounts).1 ≠ .ok ∧
    ∃ pos : ExpSide, (otlpMetricSetExpHistogram h m scale posOffset posCounts negOffset negCounts).2.1.view =
        m.view.withExp scale pos.view m.expNeg.view ∧
      (pos.view = m.view.expPos ↔ LosesNothing posCounts m.view.expPos) := by
  obtain ⟨hst, hmany, hfew⟩ := setExpSide_of_copyFails hpos m.expPos posOffset
  rw [otlpMetricSetExpHistogram, if_neg (not_not.2 htype)]
  rcases hset : setExpSide h m.expPos posOffset posCounts with ⟨st, pos, h₁⟩
  rw [hset] at hst hmany hfew
  dsimp only at hst hmany hfew ⊢
  rw [hset]
  have hside : pos.view = m.view.expPos ↔ LosesNothing posCounts m.view.expPos := by
    by_cases hlong : TooMany posCounts
    · rw [hmany hlong]
      exact iff_of_true rfl (.inl hlong)
    · rw [hfew hlong]
      exact ⟨fun heq => .inr heq.symm, fun hor => (hor.resolve_left hlong).symm⟩
  cases st with
  | ok => exact absurd rfl hst
  | _ =>
    refine ⟨?_, pos, rfl, hside⟩
    intro hok
    cases hok

theorem otlpMetricSetExpHistogram_neg (htype : m.type = .expHistogram) (hpos : ¬CopyFails h posCounts)
    (hneg : CopyFails (h.afterCopy posCounts) negCounts) :
    (otlpMetricSetExpHistogram h m scale posOffset posCounts negOffset negCounts).1 ≠ .ok ∧
    ∃ pos neg : ExpSide, (otlpMetricSetExpHistogram h m scale posOffset posCounts negOffset negCounts).2.1.view =
        m.view.withExp scale pos.view neg.view ∧
      pos.view = givenSide posOffset posCounts m.view.expPos ∧
      (neg.view = m.view.expNeg ↔ LosesNothing negCounts m.view.expNeg) := by
  obtain ⟨pos, hset⟩ := setExpSide_of_copies hpos m.expPos posOffset
  obtain ⟨hst, hmany, hfew⟩ := setExpSide_of_copyFails hneg m.expNeg negOffset
  rw [otlpMetricSetExpHistogram, if_neg (not_not.2 htype)]
  dsimp only
  rw [hset]
  refine ⟨hst, pos, (setExpSide (h.afterCopy posCounts) m.expNeg negOffset negCounts).2.1, rfl, setExpSide_ok hset, ?_⟩
  by_cases hlong : TooMany negCounts
  · rw [hmany hlong]
    exact iff_of_true rfl (.inl hlong)
  · rw [hfew hlong]
    exact ⟨fun heq => .inr heq.symm, fun hor => (hor.resolve_left hlong).symm⟩

theorem otlpMetricSetExpHistogram_failed
    (hno : ¬(m.type = .expHistogram ∧ (CopyFails h posCounts ∨ CopyFails (h.afterCopy posCounts) negCounts)))
    (hst : (otlpMetricSetExpHistogram h m scale posOffset posCounts negOffset negCounts).1 ≠ .ok) :
    (otlpMetricSetExpHistogram h m scale posOffset posCounts negOffset negCounts).2.1 = m := by
  by_cases htype : m.type = .expHistogram
  · have hpos : ¬CopyFails h posCounts := fun hpos => hno ⟨htype, .inl hpos⟩
    have hneg : ¬CopyFails (h.afterCopy posCounts) negCounts := fun hneg => hno ⟨htype, .inr hneg⟩
    obtain ⟨pos, hsetPos⟩ := setExpSide_of_copies hpos m.expPos posOffset
    obtain ⟨neg, hsetNeg⟩ := setExpSide_of_copies hneg m.expNeg negOffset
    rw [otlpMetricSetExpHistogram, if_neg (not_not.2 htype)] at hst
    dsimp only at hst
    rw [hsetPos] at hst
    dsimp only at hst
    rw [hsetNeg] at hst
    exact absurd rfl hst
  · rw [otlpMetricSetExpHistogram, if_pos htype]

end SetExpHistogram

end OtlpC.Api
