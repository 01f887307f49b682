import OtlpC.Api.Identifiers
import OtlpC.Proto.LogReading
import OtlpC.Proto.MetricRoundTrip
import OtlpC.Proto.TraceRoundTrip

/-!
# Identifiers on the wire

The encoders write the identifiers as they are. Log records and exemplars never hold a zero one; a span does unless
its history gave it both, and its links do when they were given one.
-/

namespace OtlpC.Otlp

open Proto3

/-- The identifier is there and all its bytes are zero. -/
def IsZeroId (id : Bytes) : Prop := id ≠ [] ∧ ∀ c ∈ id, c = 0

/-! ### The identifiers of the messages -/

def Span.ids (s : Span) : List Bytes :=
  [s.traceId, s.spanId, s.parentSpanId] ++ s.links.flatMap fun lk => [lk.traceId, lk.spanId]

def LogRecord.ids (lr : LogRecord) : List Bytes := [lr.traceId, lr.spanId]

def exemplarIds (exs : List Exemplar) : List Bytes := exs.flatMap fun ex => [ex.traceId, ex.spanId]

def MetricData.ids : MetricData → List Bytes
  | unset | summary => []
  | gauge dps => dps.flatMap fun dp => exemplarIds dp.exemplars
  | sum dps _ _ => dps.flatMap fun dp => exemplarIds dp.exemplars
  | histogram dps _ => dps.flatMap fun dp => exemplarIds dp.exemplars
  | exponentialHistogram dps _ => dps.flatMap fun dp => exemplarIds dp.exemplars

def Metric.ids (m : Metric) : List Bytes := m.data.ids

end OtlpC.Otlp

namespace OtlpC.Proto

open Api Proto3 Otlp Exporter

/-- The bytes are a request, and none of its items has a zero identifier; `ids` are those of an item. -/
def NoZeroIds {α : Type} (item : Bytes → Option α) (ids : α → List Bytes) (bs : Bytes) : Prop :=
  ∃ req, decodeExportRequest item bs = some req ∧ ∀ x ∈ req.items, ∀ id ∈ ids x, ¬IsZeroId id

theorem noZeroIds_iff {α : Type} {item : Bytes → Option α} {ids : α → List Bytes} {bs : Bytes} {req : ExportRequest α}
    (hreq : decodeExportRequest item bs = some req) :
    NoZeroIds item ids bs ↔ ∀ x ∈ req.items, ∀ id ∈ ids x, ¬IsZeroId id := by
  constructor
  · rintro ⟨req', hreq', hids⟩
    rw [hreq] at hreq'
    cases hreq'
    exact hids
  · exact fun hids => ⟨req, hreq, hids⟩

/-! ### From the view to the message -/

theorem not_isZeroId_nil : ¬IsZeroId [] := fun hid => hid.1 rfl

theorem not_isZeroId_toList {n : ℕ} (hn : 0 < n) (id : Vector UInt8 n) :
    ¬IsZeroId id.toList ↔ otlpIdIsAllZero id = false := by
  rw [IsZeroId, and_iff_right (toList_ne_nil hn id), otlpIdIsAllZero, Bool.eq_false_iff, Ne, List.all_eq_true]
  simp only [beq_iff_eq]

theorem not_isZeroId_idBytes {n : ℕ} (hn : 0 < n) (id : Option (Vector UInt8 n)) :
    ¬IsZeroId (idBytes id) ↔ ∀ i ∈ id, otlpIdIsAllZero i = false := by
  cases id with
  | none => exact iff_of_true not_isZeroId_nil fun _ hi => nomatch hi
  | some id =>
    refine (not_isZeroId_toList hn id).trans ⟨fun hid i hi => ?_, fun hid => hid id rfl⟩
    cases hi
    exact hid

/-- The identifiers of a span that was built are zero only where its history shows. -/
theorem noZero_spanMsg_iff (x : BuiltSpan) :
    (∀ id ∈ (spanMsg (written x.span.view)).ids, ¬IsZeroId id) ↔ x.hist.Identified := by
  have htrace := x.built.traceId_eq
  have hspan := x.built.spanId_eq
  have hparent := x.built.parentSpanId_ne_zero
  have hlinks := x.built.linkIds_eq
  rw [x.built.view_eq, Otlp.Span.ids, List.forall_mem_append]
  have hown : (∀ id ∈ [(spanMsg (written x.hist.view)).traceId, (spanMsg (written x.hist.view)).spanId,
      (spanMsg (written x.hist.view)).parentSpanId], ¬IsZeroId id) ↔
      x.hist.hasTraceId = true ∧ x.hist.hasSpanId = true := by
    have htraceId := not_isZeroId_toList (by decide) x.hist.view.traceId
    have hspanId := not_isZeroId_toList (by decide) x.hist.view.spanId
    have hparentId := (not_isZeroId_idBytes (by decide) x.hist.view.parentSpanId).2 hparent
    rw [htrace, Bool.not_eq_false'] at htraceId
    rw [hspan, Bool.not_eq_false'] at hspanId
    rw [List.forall_mem_cons, List.forall_mem_cons, List.forall_mem_singleton]
    exact ⟨fun hids => ⟨htraceId.1 hids.1, hspanId.1 hids.2.1⟩,
      fun hhas => ⟨htraceId.2 hhas.1, hspanId.2 hhas.2, hparentId⟩⟩
  have hlinkIds : (∀ id ∈ (spanMsg (written x.hist.view)).links.flatMap fun lk => [lk.traceId, lk.spanId],
      ¬IsZeroId id) ↔ ∀ l ∈ x.hist.linkIds, otlpIdIsAllZero l.1 = false ∧ otlpIdIsAllZero l.2 = false := by
    rw [← hlinks, SpanView.linkIds, List.forall_mem_map, List.forall_mem_flatMap]
    change (∀ lk ∈ x.hist.view.links.map linkMsg, _) ↔ _
    rw [List.forall_mem_map]
    refine forall₂_congr fun lk _ => ?_
    rw [List.forall_mem_cons, List.forall_mem_singleton]
    exact and_congr (not_isZeroId_toList (by decide) lk.traceId) (not_isZeroId_toList (by decide) lk.spanId)
  rw [hown, hlinkIds]
  constructor
  · rintro ⟨⟨htraceId, hspanId⟩, hids⟩
    exact ⟨htraceId, hspanId, hids⟩
  · rintro ⟨htraceId, hspanId, hids⟩
    exact ⟨⟨htraceId, hspanId⟩, hids⟩

theorem noZero_logMsg {lr : LogView} (hlr : IdsNonzero lr.traceId lr.spanId) :
    ∀ id ∈ (logMsg lr).ids, ¬IsZeroId id := by
  intro id hid
  rcases List.mem_pair.1 hid with rfl | rfl
  · exact (not_isZeroId_idBytes (by decide) _).2 hlr.traceId
  · exact (not_isZeroId_idBytes (by decide) _).2 hlr.spanId

theorem noZero_exemplarMsgs {exs : List ExemplarView} (hexs : ∀ ex ∈ exs, IdsNonzero ex.traceId ex.spanId) :
    ∀ id ∈ exemplarIds (exs.map exemplarMsg), ¬IsZeroId id := by
  intro id hid
  obtain ⟨ex, hex, hid⟩ := List.mem_flatMap.1 hid
  obtain ⟨v, hv, rfl⟩ := List.mem_map.1 hex
  rcases List.mem_pair.1 hid with rfl | rfl
  · exact (not_isZeroId_idBytes (by decide) _).2 (hexs v hv).traceId
  · exact (not_isZeroId_idBytes (by decide) _).2 (hexs v hv).spanId

theorem noZero_metricMsg {m : MetricView} (hexs : ∀ ex ∈ m.exemplars, IdsNonzero ex.traceId ex.spanId) :
    ∀ id ∈ (metricMsg m).ids, ¬IsZeroId id := by
  have hpoint := noZero_exemplarMsgs hexs
  intro id hid
  change id ∈ (dataMsg m).ids at hid
  unfold dataMsg at hid
  cases htype : m.type with
  | counter | gauge | histogram =>
    rw [htype] at hid
    obtain ⟨dp, hdp, hid⟩ := List.mem_flatMap.1 hid
    rw [List.mem_singleton.1 hdp] at hid
    exact hpoint id hid
  | expHistogram =>
    rw [htype] at hid
    obtain ⟨dp, hdp, hid⟩ := List.mem_flatMap.1 hid
    rw [List.mem_singleton.1 hdp] at hid
    exact absurd hid List.not_mem_nil

/-! ### Requests -/

section Requests

variable {serviceName schemaUrl scopeName scopeVersion : Option Bytes} {attrs : List KeyValue} {h h' : Heap}
  {b b' : PbBuf} (hb : b.bytes = [])
include hb

theorem noZeroIds_spans_iff {spans : List BuiltSpan}
    (hok : otlpEncodeExportTraceServiceRequest serviceName schemaUrl attrs scopeName scopeVersion
      (spans.map fun x => x.span.view) h b = (.ok, b', h')) :
    NoZeroIds decodeSpan Otlp.Span.ids b'.bytes ↔ ∀ x ∈ spans, x.hist.Identified := by
  obtain ⟨req, hreq, hback⟩ := decodeTraceRequest hb hok
  rw [noZeroIds_iff hreq, hback.items_eq, List.map_map, List.forall_mem_map]
  exact forall₂_congr fun x _ => noZero_spanMsg_iff x

theorem noZeroIds_metrics {fp : Fp} {ms : List (BuiltMetric fp)}
    (hexs : ∀ x ∈ ms, ∀ ex ∈ x.exemplars, ExemplarBuilt ex)
    (hok : otlpEncodeExportMetricsServiceRequest serviceName schemaUrl attrs scopeName scopeVersion
      (ms.map fun x => x.metric.view) h b = (.ok, b', h')) :
    NoZeroIds decodeMetric Otlp.Metric.ids b'.bytes := by
  obtain ⟨req, hreq, hitems⟩ := decodeMetricsRequest hb hok
  rw [noZeroIds_iff hreq, hitems, List.map_map, List.forall_mem_map]
  intro x hx
  refine noZero_metricMsg fun ex hex => ?_
  obtain ⟨e, he, rfl⟩ := List.mem_map.1 hex
  rw [x.built.exemplars_eq] at he
  exact (hexs x hx e he).ids

theorem noZeroIds_logs {logs : List Api.LogRecord} (hlogs : ∀ lr ∈ logs, ∃ k, LogBuilt k lr)
    (hok : otlpEncodeExportLogsServiceRequest serviceName schemaUrl attrs scopeName scopeVersion
      (logs.map (·.view)) h b = (.ok, b', h')) : NoZeroIds decodeLogRecord Otlp.LogRecord.ids b'.bytes := by
  obtain ⟨req, hreq, hitems⟩ := decodeLogsRequest hb hok
  rw [noZeroIds_iff hreq, hitems, List.forall_mem_map]
  intro v hv
  obtain ⟨lr, hlr, rfl⟩ := List.mem_map.1 (List.mem_of_mem_filter hv)
  obtain ⟨k, hbuilt⟩ := hlogs lr hlr
  exact noZero_logMsg hbuilt.ids

end Requests

/-- **Identifiers on the wire.** A trace request of what a program built has no zero identifier if and only if every
span got its own two from a tracer or from an accepted call and every accepted link was given two that are not zero.
The requests of metrics and of log records never have one. -/
theorem no_zero_ids_iff (fp : Fp) {serviceName schemaUrl scopeName scopeVersion : Option Bytes} {attrs : List KeyValue}
    {h h' : Heap} {b b' : PbBuf} (hb : b.bytes = []) :
    (∀ spans : List BuiltSpan,
      otlpEncodeExportTraceServiceRequest serviceName schemaUrl attrs scopeName scopeVersion
        (spans.map fun x => x.span.view) h b = (.ok, b', h') →
      (NoZeroIds decodeSpan Otlp.Span.ids b'.bytes ↔ ∀ x ∈ spans, x.hist.Identified)) ∧
    (∀ ms : List (BuiltMetric fp), (∀ x ∈ ms, ∀ ex ∈ x.exemplars, ExemplarBuilt ex) →
      otlpEncodeExportMetricsServiceRequest serviceName schemaUrl attrs scopeName scopeVersion
        (ms.map fun x => x.metric.view) h b = (.ok, b', h') →
      NoZeroIds decodeMetric Otlp.Metric.ids b'.bytes) ∧
    (∀ logs : List Api.LogRecord, (∀ lr ∈ logs, ∃ k, LogBuilt k lr) →
      otlpEncodeExportLogsServiceRequest serviceName schemaUrl attrs scopeName scopeVersion (logs.map (·.view)) h b =
        (.ok, b', h') →
      NoZeroIds decodeLogRecord Otlp.LogRecord.ids b'.bytes) :=
  ⟨fun _ hok => noZeroIds_spans_iff hb hok, fun _ hexs hok => noZeroIds_metrics hb hexs hok,
    fun _ hlogs hok => noZeroIds_logs hb hlogs hok⟩

/-! ### A span with a link -/

def BuiltSpan.after (x : BuiltSpan) (c : SpanCall) : BuiltSpan where
  hist := .call x.hist c (c.run x.heap x.span).1
  heap := (c.run x.heap x.span).2.2
  span := (c.run x.heap x.span).2.1
  built := .call x.built rfl

/-- A span from `otlp_span_create` that got both identifiers and then a link. -/
def linkedSpan (traceId : TraceId) (spanId : SpanId) : BuiltSpan :=
  let created : BuiltSpan := ⟨_, _, _, .create (eq_of_isSome span_created)⟩
  ((created.after (.setTraceId (some (.replicate 16 1)))).after (.setSpanId (some (.replicate 8 1)))).after
    (.addLink (some traceId) (some spanId))

theorem linkedSpan_identified : (linkedSpan (.replicate 16 2) (.replicate 8 2)).hist.Identified := by
  constructor <;> decide +kernel

theorem linkedSpan_encodes : (otlpEncodeExportTraceServiceRequest none none [] none none
    ([linkedSpan (.replicate 16 2) (.replicate 8 2)].map fun x => x.span.view) .granting .inline).1 = .ok := by
  decide +kernel

theorem zeroLink_encodes : (otlpEncodeExportTraceServiceRequest none none [] none none
    ([linkedSpan zeroTraceId zeroSpanId].map fun x => x.span.view) .granting .inline).1 = .ok := by
  decide +kernel

theorem no_zero_ids_iff_linked : ∃ b' h',
    otlpEncodeExportTraceServiceRequest none none [] none none
      ([linkedSpan (.replicate 16 2) (.replicate 8 2)].map fun x => x.span.view) .granting .inline = (.ok, b', h') ∧
    NoZeroIds decodeSpan Otlp.Span.ids b'.bytes := by
  have hok := eq_of_ok linkedSpan_encodes
  refine ⟨_, _, hok, ((no_zero_ids_iff .trivial rfl).1 [linkedSpan (.replicate 16 2) (.replicate 8 2)] hok).2 ?_⟩
  exact fun x hx => List.mem_singleton.1 hx ▸ linkedSpan_identified

/-- The link to nowhere was accepted, and goes to the collector. -/
theorem zero_link_sent : ∃ b' h',
    (linkedSpan zeroTraceId zeroSpanId).hist.linkIds = [(zeroTraceId, zeroSpanId)] ∧
    otlpEncodeExportTraceServiceRequest none none [] none none
      ([linkedSpan zeroTraceId zeroSpanId].map fun x => x.span.view) .granting .inline = (.ok, b', h') ∧
    ¬NoZeroIds decodeSpan Otlp.Span.ids b'.bytes := by
  have hlinks : (linkedSpan zeroTraceId zeroSpanId).hist.linkIds = [(zeroTraceId, zeroSpanId)] := by decide +kernel
  have hok := eq_of_ok zeroLink_encodes
  refine ⟨_, _, hlinks, hok, fun hids => ?_⟩
  have hall := (noZeroIds_spans_iff rfl hok).1 hids _ (List.mem_singleton_self _)
  have hzero := (hall.links (zeroTraceId, zeroSpanId) (by rw [hlinks]; exact List.mem_singleton_self _)).1
  rw [zeroTraceId_isAllZero] at hzero
  cases hzero

end OtlpC.Proto
