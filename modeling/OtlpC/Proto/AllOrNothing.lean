import OtlpC.Api.Failures
import OtlpC.Proto.LogRecords
import OtlpC.Proto.MetricReading
import OtlpC.Proto.SpanBody

/-!
# Failed calls and the bytes of an object

Whether a call that is not accepted leaves the bytes that an object encodes to: always for a span, and for the other
objects but in the calls that store one thing before they fail at the next.
-/

namespace OtlpC.Proto

open Api Proto3 Otlp

/-! ### Bytes -/

def Encodable (f : Enc) : Prop := ∃ out, f.Writes out

/-- Unless the call was accepted, the object encodes to what it did before. -/
def AllOrNothing (before : Enc) (st : OtlpStatus) (after : Enc) : Prop :=
  st ≠ .ok → ∀ out, before.Writes out → after.Writes out

theorem Enc.Writes.eq_message {f : Enc} {fs : List Field} (hf : Emits f fs) {out : Bytes} (hout : f.Writes out) :
    out = message fs ∧ (message fs).length < 2 ^ 64 := by
  obtain ⟨h, b, h', hok, rfl⟩ := hout
  exact ⟨hf hok, length_lt_of_emits hf hok⟩

theorem allOrNothing_of_eq {before after : Enc} (heq : after = before) (st : OtlpStatus) :
    AllOrNothing before st after := by
  intro _ out hout
  rw [heq]
  exact hout

/-- A failed call after which the object has other bytes, unless `C` holds. -/
theorem allOrNothing_iff {before after : Enc} {st : OtlpStatus} {C : Prop} (hst : st ≠ .ok)
    (hsame : C → after = before) (hdiff : ∀ out, before.Writes out → after.Writes out → C) :
    AllOrNothing before st after ↔ (Encodable before → C) := by
  constructor
  · rintro hall ⟨out, hout⟩
    exact hdiff out hout (hall hst out hout)
  · intro hC hst' out hout
    exact allOrNothing_of_eq (hsame (hC ⟨out, hout⟩)) st hst' out hout

/-! ### Log records -/

theorem encodeLogRecord_noText {v : LogView} (hempty : v.severityText.getD [] = []) :
    encodeLogRecord { v with severityText := none } = encodeLogRecord v := by
  have htext : nonEmptyStr v.severityText = false := by
    rcases htext : v.severityText with - | - | ⟨c, cs⟩
    · rfl
    · rfl
    · rw [htext] at hempty
      cases hempty
  unfold encodeLogRecord
  rw [htext]
  rfl

theorem severityText_of_message_eq {v : LogView}
    (heq : message (logWire { v with severityText := none }) = message (logWire v)) :
    v.severityText.getD [] = [] := by
  have hlength := congrArg List.length heq
  unfold logWire at hlength
  simp only [message_append, List.length_append] at hlength
  have hnil : message (omitEmpty 3 (v.severityText.getD [])) = [] := by
    apply List.eq_nil_of_length_eq_zero
    have hnone : (message (omitEmpty 3 ((none : Option Bytes).getD []))).length = 0 := rfl
    omega
  by_contra hne
  rw [message_eq_nil, omitEmpty_of_ne hne] at hnil
  cases hnil

theorem log_allOrNothing_iff (h : Heap) (lr : Api.LogRecord) (c : LogCall) :
    AllOrNothing (encodeLogRecord lr.view) (c.run h lr).1 (encodeLogRecord (c.run h lr).2.1.view) ↔
      (Encodable (encodeLogRecord lr.view) → c.Atomic h lr) := by
  by_cases hlose : c.LosesText h
  · obtain ⟨hst, hview⟩ := LogCall.run_losesText hlose lr
    rw [hview]
    refine allOrNothing_iff hst (fun hatomic => encodeLogRecord_noText (hatomic hlose)) fun out hbefore hafter _ => ?_
    have heq := (hbefore.eq_message (emits_logRecord _)).1
    rw [(hafter.eq_message (emits_logRecord _)).1] at heq
    exact severityText_of_message_eq heq
  · refine iff_of_true (fun hst => ?_) fun _ hlose' => absurd hlose' hlose
    exact allOrNothing_of_eq (by rw [LogCall.run_failed hlose hst]) _ hst

/-! ### Exemplars -/

/-- What an exemplar adds to a data point, in field `n`: nothing as long as it has no value. -/
def exemplarField (n : UInt32) (ex : Api.Exemplar) : Enc :=
  if ex.hasDouble || ex.hasInt then emitExemplar n ex.view else .done

abbrev exemplarFieldNums : List UInt32 := [5, 8]

/-- Two exemplars with the same bytes are the same to a collector. -/
theorem exemplarMsg_eq {n : UInt32} (hn : n ∈ exemplarFieldNums) {v w : ExemplarView} {out : Bytes}
    (hv : (emitExemplar n v).Writes out) (hw : (emitExemplar n w).Writes out) : exemplarMsg v = exemplarMsg w := by
  obtain ⟨hbytes, hlen⟩ := hv.eq_message (emits_exemplar n v)
  obtain ⟨hbytes', hlen'⟩ := hw.eq_message (emits_exemplar n w)
  have hnumber : 0 < n.toNat ∧ n.toNat < 2 ^ 29 := by
    rcases List.mem_pair.1 hn with rfl | rfl <;> decide
  have hfields : ∀ p : Bytes, (message [.len n.toNat p]).length < 2 ^ 64 →
      fields (message [.len n.toNat p]) = some [.len n.toNat p] := fun p hp =>
    fields_message (wellNumbered_cons.2 ⟨hnumber, wellNumbered_nil⟩) hp
  have heq := hfields _ hlen
  rw [← hbytes, hbytes', hfields _ hlen'] at heq
  have hpayload : message (exemplarWire w) = message (exemplarWire v) := by simpa using heq
  have hread := decodeExemplar_wire ((length_payload_lt (List.mem_singleton_self _)).trans hlen)
  rw [← hpayload, decodeExemplar_wire ((length_payload_lt (List.mem_singleton_self _)).trans hlen')] at hread
  exact (Option.some.inj hread).symm

theorem exemplar_allOrNothing_iff {n : UInt32} (hn : n ∈ exemplarFieldNums) (ex : Api.Exemplar) (c : ExemplarCall) :
    AllOrNothing (exemplarField n ex) (c.run ex).1 (exemplarField n (c.run ex).2) ↔
      (Encodable (exemplarField n ex) → c.Atomic ex) := by
  cases hhalf : c.halfStored with
  | none =>
    refine iff_of_true (fun hst => ?_) fun _ traceId hhalf' => ?_
    · exact allOrNothing_of_eq (by rw [ExemplarCall.run_failed hhalf hst]) _ hst
    · rw [hhalf] at hhalf'
      cases hhalf'
  | some traceId =>
    obtain ⟨hst, hex⟩ := ExemplarCall.run_of_halfStored hhalf ex
    rw [hex]
    refine allOrNothing_iff hst (fun hatomic => ?_) fun out hbefore hafter traceId' hhalf' => ?_
    · rcases hatomic traceId hhalf with hvalue | htrace
      · unfold exemplarField
        rw [if_neg (by simpa using hvalue), if_neg (by simpa using hvalue)]
      · have hview : Exemplar.view { ex with traceId, hasTrace := true } = ex.view := by
          change { ex.view with traceId := some traceId } = ex.view
          rw [← htrace]
        unfold exemplarField
        rw [hview]
    · rw [hhalf] at hhalf'
      cases hhalf'
      by_cases hvalue : (ex.hasDouble || ex.hasInt) = true
      · right
        unfold exemplarField at hbefore hafter
        rw [if_pos hvalue] at hbefore hafter
        have hid := congrArg Otlp.Exemplar.traceId (exemplarMsg_eq hn hbefore hafter)
        change idBytes ex.view.traceId = traceId.toList at hid
        cases htrace : ex.view.traceId with
        | none =>
          rw [htrace] at hid
          have hlength := congrArg List.length hid
          rw [Vector.length_toList] at hlength
          cases hlength
        | some traceId' =>
          rw [htrace] at hid
          exact congrArg some (Vector.toList_inj.1 hid)
      · left
        simpa using hvalue

/-! ### Metrics -/

theorem metricMsg_eq {v w : MetricView} {out : Bytes} (hv : (encodeMetric v).Writes out)
    (hw : (encodeMetric w).Writes out) : metricMsg v = metricMsg w := by
  obtain ⟨rfl, hlen⟩ := hv.eq_message (emits_metric v)
  obtain ⟨hbytes, hlen'⟩ := hw.eq_message (emits_metric w)
  have hread := decodeMetric_wire hlen
  rw [hbytes, decodeMetric_wire hlen'] at hread
  exact (Option.some.inj hread).symm

theorem encodeMetric_expScale {v : MetricView} {scale : Int32} (hscale : v.expScale.getD 0 = scale) :
    encodeMetric { v with expScale := some scale } = encodeMetric v := by
  cases hv : v.expScale with
  | none =>
    rw [hv] at hscale
    have hzero : otlpPbFieldVarint 6 (zigzag32 scale).toUInt64 = .done := by
      rw [← hscale]
      exact if_pos (by decide)
    have hpoint : ∀ n, emitExpHistogramDataPoint n { v with expScale := some scale } = emitExpHistogramDataPoint n v := by
      intro n
      unfold emitExpHistogramDataPoint Enc.forSome
      rw [hv]
      dsimp only [Option.elim]
      rw [hzero]
    have hkind : ∀ type, (metricKindSpecs type).2 1 { v with expScale := some scale } =
        (metricKindSpecs type).2 1 v := by
      intro type
      cases type with
      | expHistogram => exact hpoint 1
      | _ => rfl
    unfold encodeMetric
    rw [hkind]
    rfl
  | some scale' =>
    rw [hv] at hscale
    have hsome : v.expScale = some scale := hv.trans (congrArg some hscale)
    rw [← hsome]

theorem expSide_view_eq {a b : ExpSide} (heq : expBucketsMsg a.view = expBucketsMsg b.view) : a.view = b.view := by
  unfold ExpSide.view at heq ⊢
  by_cases ha : arrItems a.counts = []
  · by_cases hb : arrItems b.counts = []
    · rw [if_pos ha, if_pos hb]
    · rw [if_pos ha, if_neg hb, expBucketsMsg, expBucketsMsg, if_neg hb] at heq
      exact absurd (ExpBuckets.mk.inj heq).2.symm hb
  · by_cases hb : arrItems b.counts = []
    · rw [if_neg ha, if_pos hb, expBucketsMsg, expBucketsMsg, if_neg ha] at heq
      exact absurd (ExpBuckets.mk.inj heq).2 ha
    · rw [if_neg ha, if_neg hb, expBucketsMsg, expBucketsMsg, if_neg ha, if_neg hb] at heq
      obtain ⟨hoffset, hcounts⟩ := ExpBuckets.mk.inj heq
      rw [if_neg ha, if_neg hb, Int32.toInt_inj.1 hoffset, hcounts]

theorem withExp_allOrNothing_iff {m : Api.Metric} (htype : m.type = .expHistogram) {st : OtlpStatus} (hst : st ≠ .ok)
    (scale : Int32) (pos neg : ExpSide) :
    AllOrNothing (encodeMetric m.view) st (encodeMetric (m.view.withExp scale pos.view neg.view)) ↔
      (Encodable (encodeMetric m.view) →
        m.view.expScale.getD 0 = scale ∧ pos.view = m.view.expPos ∧ neg.view = m.view.expNeg) := by
  refine allOrNothing_iff hst ?_ fun out hbefore hafter => ?_
  · rintro ⟨hscale, hpos, hneg⟩
    rw [MetricView.withExp, hpos, hneg]
    exact encodeMetric_expScale hscale
  · have hmsg := congrArg Otlp.Metric.data (metricMsg_eq hbefore hafter)
    change dataMsg _ = dataMsg _ at hmsg
    have htype' : (m.view.withExp scale pos.view neg.view).type = .expHistogram := htype
    have hview : m.view.type = .expHistogram := htype
    rw [dataMsg, dataMsg, htype', hview] at hmsg
    have hpoint := List.head_eq_of_cons_eq (MetricData.exponentialHistogram.inj hmsg).1
    have hscale := congrArg ExponentialHistogramDataPoint.scale hpoint
    have hpos := congrArg ExponentialHistogramDataPoint.positive hpoint
    have hneg := congrArg ExponentialHistogramDataPoint.negative hpoint
    exact ⟨Int32.toInt_inj.1 hscale, (expSide_view_eq hpos).symm, (expSide_view_eq hneg).symm⟩

theorem setExpHistogram_allOrNothing_iff (h : Heap) (m : Api.Metric) (scale posOffset negOffset : Int32)
    (posCounts negCounts : Option (List UInt64)) :
    AllOrNothing (encodeMetric m.view)
      (otlpMetricSetExpHistogram h m scale posOffset posCounts negOffset negCounts).1
      (encodeMetric (otlpMetricSetExpHistogram h m scale posOffset posCounts negOffset negCounts).2.1.view) ↔
      (Encodable (encodeMetric m.view) →
        (MetricCall.setExpHistogram scale posOffset posCounts negOffset negCounts).Atomic h m) := by
  by_cases hfail : m.type = .expHistogram ∧ (CopyFails h posCounts ∨ CopyFails (h.afterCopy posCounts) negCounts)
  · obtain ⟨htype, hor⟩ := hfail
    by_cases hpos : CopyFails h posCounts
    · obtain ⟨hst, pos, hview, hside⟩ := otlpMetricSetExpHistogram_pos scale posOffset negOffset htype hpos
        negCounts
      rw [hview, withExp_allOrNothing_iff htype hst, hside]
      refine imp_congr_right fun _ => ⟨?_, fun hatomic => ?_⟩
      · rintro ⟨hscale, hloses, -⟩ _
        exact ⟨fun _ => ⟨hscale, hloses⟩, fun hno => absurd hpos hno⟩
      · obtain ⟨hscale, hloses⟩ := (hatomic htype).1 hpos
        exact ⟨hscale, hloses, rfl⟩
    · have hneg := hor.resolve_left hpos
      obtain ⟨hst, pos, neg, hview, hgiven, hside⟩ := otlpMetricSetExpHistogram_neg scale posOffset negOffset htype
        hpos hneg
      rw [hview, withExp_allOrNothing_iff htype hst, hgiven, hside]
      refine imp_congr_right fun _ => ⟨?_, fun hatomic => (hatomic htype).2 hpos hneg⟩
      intro hsame _
      exact ⟨fun hpos' => absurd hpos' hpos, fun _ _ => hsame⟩
  · refine iff_of_true (fun hst => ?_) fun _ htype => ?_
    · exact allOrNothing_of_eq (by rw [otlpMetricSetExpHistogram_failed _ _ _ hfail hst]) _ hst
    · exact ⟨fun hpos => absurd ⟨htype, .inl hpos⟩ hfail, fun _ hneg => absurd ⟨htype, .inr hneg⟩ hfail⟩

/-- A value that is counted and not stored shows in the count. -/
theorem record_allOrNothing_iff {h : Heap} {m : Api.Metric} (hno : NoBuckets h m) (fp : Fp) (value : Double) :
    AllOrNothing (encodeMetric m.view) (otlpMetricRecord fp h m value).1
      (encodeMetric (otlpMetricRecord fp h m value).2.1.view) ↔
      (Encodable (encodeMetric m.view) → (MetricCall.record value).Atomic h m) := by
  obtain ⟨hst, htype, hcount⟩ := otlpMetricRecord_of_noBuckets hno fp value
  refine allOrNothing_iff hst (fun hatomic => absurd hno hatomic) fun out hbefore hafter _ => ?_
  have hmsg := congrArg Otlp.Metric.data (metricMsg_eq hbefore hafter)
  change dataMsg _ = dataMsg _ at hmsg
  have hview : m.view.type = .histogram := hno.1
  rw [dataMsg, dataMsg, hview, htype] at hmsg
  have hpoint := List.head_eq_of_cons_eq (MetricData.histogram.inj hmsg).1
  have heq : m.view.count = m.view.count + 1 := (congrArg HistogramDataPoint.count hpoint).trans hcount
  simp at heq

theorem metric_allOrNothing_iff (fp : Fp) (h : Heap) (m : Api.Metric) (c : MetricCall) :
    AllOrNothing (encodeMetric m.view) (c.run fp h m).1 (encodeMetric (c.run fp h m).2.1.view) ↔
      (Encodable (encodeMetric m.view) → c.Atomic h m) := by
  cases hset : c.setsExpHistogram with
  | true =>
    cases c with
    | setExpHistogram scale posOffset posCounts negOffset negCounts =>
      exact setExpHistogram_allOrNothing_iff h m scale posOffset negOffset posCounts negCounts
    | _ => cases hset
  | false =>
    by_cases hatomic : c.Atomic h m
    · refine iff_of_true (fun hst => ?_) fun _ => hatomic
      exact allOrNothing_of_eq (congrArg encodeMetric (MetricCall.run_failed hset hatomic hst)) _ hst
    · cases c with
      | record value => exact record_allOrNothing_iff (not_not.1 hatomic) fp value
      | setExpHistogram => cases hset
      | _ => exact absurd trivial hatomic

/-! ### All objects -/

theorem span_allOrNothing (h : Heap) (s : Span) (c : SpanCall) :
    AllOrNothing (otlpEncodeSpanBody s.view) (c.run h s).1 (otlpEncodeSpanBody (c.run h s).2.1.view) := by
  intro hst
  exact allOrNothing_of_eq (congrArg otlpEncodeSpanBody (SpanCall.run_failed hst)) _ hst

/-- **A failed call** leaves the bytes of a span as they were. It leaves those of a log record, of an exemplar and of
a metric that can be encoded at all if and only if the call is atomic on it. -/
theorem mutator_all_or_nothing_iff (fp : Fp) (h : Heap) :
    (∀ (s : Span) (c : SpanCall),
      AllOrNothing (otlpEncodeSpanBody s.view) (c.run h s).1 (otlpEncodeSpanBody (c.run h s).2.1.view)) ∧
    (∀ (lr : Api.LogRecord) (c : LogCall),
      AllOrNothing (encodeLogRecord lr.view) (c.run h lr).1 (encodeLogRecord (c.run h lr).2.1.view) ↔
        (Encodable (encodeLogRecord lr.view) → c.Atomic h lr)) ∧
    (∀ n ∈ exemplarFieldNums, ∀ (ex : Api.Exemplar) (c : ExemplarCall),
      AllOrNothing (exemplarField n ex) (c.run ex).1 (exemplarField n (c.run ex).2) ↔
        (Encodable (exemplarField n ex) → c.Atomic ex)) ∧
    ∀ (m : Api.Metric) (c : MetricCall),
      AllOrNothing (encodeMetric m.view) (c.run fp h m).1 (encodeMetric (c.run fp h m).2.1.view) ↔
        (Encodable (encodeMetric m.view) → c.Atomic h m) :=
  ⟨span_allOrNothing h, log_allOrNothing_iff h, fun _ hn => exemplar_allOrNothing_iff hn, metric_allOrNothing_iff fp h⟩

theorem exemplar_created : (otlpExemplarCreate .granting).1.isSome = true := by decide +kernel

def valuedExemplar : Api.Exemplar :=
  (otlpExemplarSetIntValue ((otlpExemplarCreate .granting).1.get exemplar_created) 1).2

def badContext : ExemplarCall := .setTraceContext (some (.replicate 16 1)) (some zeroSpanId)

/-- The same failure, once the trace id is there. -/
theorem mutator_all_or_nothing_again :
    AllOrNothing (exemplarField 5 (badContext.run valuedExemplar).2)
      (badContext.run (badContext.run valuedExemplar).2).1
      (exemplarField 5 (badContext.run (badContext.run valuedExemplar).2).2) := by
  have hall := mutator_all_or_nothing_iff .trivial .granting
  refine (hall.2.2.1 5 (by decide) _ badContext).2 fun _ traceId hhalf => .inr ?_
  have hhalf' : badContext.halfStored = some (.replicate 16 1) := by decide +kernel
  rw [← hhalf, hhalf']
  decide +kernel

/-- The trace id is stored, though the call fails. -/
theorem trace_context_half_stored : ∃ (ex : Api.Exemplar) (h : Heap),
    otlpExemplarCreate .granting = (some ex, h) ∧
    (badContext.run (otlpExemplarSetIntValue ex 1).2).1 = .errInvalidArgument ∧
    ¬AllOrNothing (exemplarField 5 (otlpExemplarSetIntValue ex 1).2) (badContext.run (otlpExemplarSetIntValue ex 1).2).1
      (exemplarField 5 (badContext.run (otlpExemplarSetIntValue ex 1).2).2) := by
  have hok : (exemplarField 5 valuedExemplar .granting .inline).1 = .ok := by decide +kernel
  have hencodable : Encodable (exemplarField 5 valuedExemplar) := ⟨_, _, _, _, eq_of_ok hok, rfl⟩
  refine ⟨_, _, eq_of_isSome exemplar_created, by decide +kernel, ?_⟩
  change ¬AllOrNothing (exemplarField 5 valuedExemplar) (badContext.run valuedExemplar).1
    (exemplarField 5 (badContext.run valuedExemplar).2)
  rw [exemplar_allOrNothing_iff (by decide)]
  intro hatomic
  rcases hatomic hencodable (.replicate 16 1) (by decide +kernel) with ⟨-, hint⟩ | htrace
  · have hvalue : valuedExemplar.hasInt = true := by decide +kernel
    rw [hvalue] at hint
    cases hint
  · have hnone : valuedExemplar.view.traceId = none := by decide +kernel
    rw [hnone] at htrace
    cases htrace

end OtlpC.Proto
