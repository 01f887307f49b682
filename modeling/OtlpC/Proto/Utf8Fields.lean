import OtlpC.Api.Clones
import OtlpC.Proto.LogReading
import OtlpC.Proto.MetricRoundTrip
import OtlpC.Proto.TraceRoundTrip

/-!
# Nothing but UTF-8 in a string field

The encoders check no text: what they write into a field of proto type `string` was checked when it came in, at the
call that copied it. So every such field of every request is valid, whatever the program passed.
-/

namespace OtlpC.Otlp

open Proto3

/-! ### The string fields of the messages -/

def SpanEvent.strings (ev : SpanEvent) : List Bytes := ev.name :: attributeStrings ev.attributes

def SpanLink.strings (lk : SpanLink) : List Bytes := lk.traceState :: attributeStrings lk.attributes

def Span.strings (s : Span) : List Bytes :=
  [s.traceState, s.name, s.status.message] ++ (attributeStrings s.attributes ++
    (s.events.flatMap SpanEvent.strings ++ s.links.flatMap SpanLink.strings))

def Exemplar.strings (ex : Exemplar) : List Bytes := attributeStrings ex.filteredAttributes

def NumberDataPoint.strings (dp : NumberDataPoint) : List Bytes :=
  attributeStrings dp.attributes ++ dp.exemplars.flatMap Exemplar.strings

def HistogramDataPoint.strings (dp : HistogramDataPoint) : List Bytes :=
  attributeStrings dp.attributes ++ dp.exemplars.flatMap Exemplar.strings

def ExponentialHistogramDataPoint.strings (dp : ExponentialHistogramDataPoint) : List Bytes :=
  attributeStrings dp.attributes ++ dp.exemplars.flatMap Exemplar.strings

def MetricData.strings : MetricData → List Bytes
  | unset | summary => []
  | gauge dps => dps.flatMap NumberDataPoint.strings
  | sum dps _ _ => dps.flatMap NumberDataPoint.strings
  | histogram dps _ => dps.flatMap HistogramDataPoint.strings
  | exponentialHistogram dps _ => dps.flatMap ExponentialHistogramDataPoint.strings

def Metric.strings (m : Metric) : List Bytes :=
  [m.name, m.description, m.unit] ++ (m.data.strings ++ attributeStrings m.metadata)

def LogRecord.strings (lr : LogRecord) : List Bytes :=
  [lr.severityText, lr.eventName] ++ (lr.body.strings ++ attributeStrings lr.attributes)

end OtlpC.Otlp

namespace OtlpC.Proto

open Api Proto3 Otlp Exporter

/-! ### From the view to the message -/

theorem utf8_nil : otlpStrIsUtf8 [] = true := rfl

theorem validStrings_singleton {t : Bytes} : ValidStrings [t] ↔ otlpStrIsUtf8 t = true :=
  validStrings_cons.trans (and_iff_left validStrings_nil)

theorem validStrings_spanMsg {s : SpanView} (hs : ValidStrings s.strings) :
    ValidStrings (spanMsg (written s)).strings := by
  simp only [SpanView.strings, validStrings_cons, validStrings_append, validStrings_flatMap] at hs
  obtain ⟨hname, hstatus, hstate, hattrs, hevents, hlinks⟩ := hs
  simp only [Otlp.Span.strings, validStrings_append, validStrings_cons, validStrings_flatMap]
  refine ⟨⟨hstate, hname, hstatus, validStrings_nil⟩, hattrs, fun ev hev => ?_, fun lk hlk => ?_⟩
  · obtain ⟨v, hv, rfl⟩ := List.mem_map.1 hev
    exact validStrings_cons.2 (hevents v (List.mem_of_mem_filter hv))
  · obtain ⟨v, hv, rfl⟩ := List.mem_map.1 hlk
    exact validStrings_cons.2 ⟨utf8_nil, hlinks v hv⟩

theorem validStrings_logMsg {lr : LogView} (hlr : ValidStrings lr.strings) : ValidStrings (logMsg lr).strings := by
  simp only [LogView.strings, validStrings_cons] at hlr
  obtain ⟨hbody, htext, hattrs⟩ := hlr
  have hbodyMsg : ValidStrings (bodyMsg lr.body).strings := by
    unfold bodyMsg
    split
    · exact validStrings_nil
    · exact validStrings_singleton.2 hbody
  simp only [Otlp.LogRecord.strings, validStrings_append, validStrings_cons]
  exact ⟨⟨htext, utf8_nil, validStrings_nil⟩, hbodyMsg, hattrs⟩

theorem validStrings_exemplarMsgs (exs : List ExemplarView) :
    ValidStrings ((exs.map exemplarMsg).flatMap Exemplar.strings) := by
  refine validStrings_flatMap.2 fun ex hex => ?_
  obtain ⟨v, -, rfl⟩ := List.mem_map.1 hex
  exact validStrings_nil

theorem validStrings_dataMsg {m : MetricView} (hattrs : ValidStrings (attributeStrings m.attrs)) :
    ValidStrings (dataMsg m).strings := by
  have hpoint := validStrings_append.2 ⟨hattrs, validStrings_exemplarMsgs m.exemplars⟩
  have hexp : ValidStrings (expHistogramDataPointMsg m).strings := validStrings_append.2 ⟨hattrs, validStrings_nil⟩
  unfold dataMsg
  cases m.type with
  | counter => exact validStrings_flatMap.2 fun dp hdp => List.mem_singleton.1 hdp ▸ hpoint
  | gauge => exact validStrings_flatMap.2 fun dp hdp => List.mem_singleton.1 hdp ▸ hpoint
  | histogram => exact validStrings_flatMap.2 fun dp hdp => List.mem_singleton.1 hdp ▸ hpoint
  | expHistogram => exact validStrings_flatMap.2 fun dp hdp => List.mem_singleton.1 hdp ▸ hexp

theorem validStrings_metricMsg {m : MetricView} (hm : ValidStrings m.strings) :
    ValidStrings (metricMsg m).strings := by
  simp only [MetricView.strings, validStrings_cons] at hm
  obtain ⟨hname, hunit, hdescription, hattrs⟩ := hm
  simp only [Otlp.Metric.strings, validStrings_append, validStrings_cons]
  exact ⟨⟨hname, hdescription, hunit, validStrings_nil⟩, validStrings_dataMsg hattrs, validStrings_nil⟩

/-! ### The resource -/

theorem setResourceAttrs_grows {svcSet : Bool} {h h' : Heap} {vec vec' : AttrVec} {srcs : List OtlpResourceAttr}
    (hset : setResourceAttrs svcSet h vec srcs = (some vec', h')) : Grows h (attrLeaves vec) h' (attrLeaves vec') := by
  induction srcs generalizing h vec with
  | nil =>
    cases hset
    exact .refl _ _
  | cons src rest ih =>
    rw [setResourceAttrs] at hset
    split at hset
    · exact ih hset
    · have hgrows := (otlpAttrVecSet_spec h vec otlpResourceMaxAttrs (src.key.getD []) src.value).1
      split at hset
      · next vec₁ h₁ heq =>
        rw [heq] at hgrows
        exact hgrows.trans (ih hset)
      · cases (Prod.mk.inj hset).1

theorem utf8_serviceNameKey : otlpStrIsUtf8 serviceNameKey = true := by decide +kernel

theorem validStrings_resource {o : ResourceOpts} {r : ExporterResource} {h h' : Heap}
    (hcreate : otlpExporterCreateResource h o = (some r, h')) :
    otlpStrIsUtf8 ((r.schemaUrl.map (·.bytes)).getD []) = true ∧
      ValidStrings (attributeStrings (resourceKvs (some r.serviceName.bytes) (attrKvs r.resourceAttrs))) := by
  unfold otlpExporterCreateResource at hcreate
  split at hcreate
  · cases (Prod.mk.inj hcreate).1
  next hutf8 =>
  simp only [Bool.or_eq_true, Bool.not_eq_true', not_or, Bool.not_eq_false] at hutf8
  dsimp only at hcreate
  split at hcreate
  · cases (Prod.mk.inj hcreate).1
  next name hname =>
  split at hcreate
  · cases (Prod.mk.inj hcreate).1
  split at hcreate
  · cases (Prod.mk.inj hcreate).1
  next attrs h₁ hset =>
  obtain ⟨hr, -⟩ := Prod.mk.inj hcreate
  cases hr
  have hnameText := Option.some.inj (otlpDupStr_some (Prod.ext hname rfl)).1
  have hattrs : ValidStrings (attributeStrings (attrKvs attrs)) := by
    refine (attrLeaves_valid_iff attrs).1 fun l hl => ?_
    exact (((setResourceAttrs_grows hset).mem l hl).resolve_left List.not_mem_nil).2
  refine ⟨?_, ?_⟩
  · rcases hdup : otlpDupStr (otlpDupStr h (some (o.serviceName.getD []))).2 o.schemaUrl with ⟨_ | url, h₂⟩
    · exact utf8_nil
    · have hurl := (otlpDupStr_some hdup).1
      rw [hurl] at hutf8
      exact hutf8.2
  · rw [resourceKvs, attributeStrings, List.flatMap_append, validStrings_append]
    constructor
    · split
      · refine validStrings_flatMap.2 fun kv hkv => ?_
        rw [List.mem_singleton.1 hkv]
        refine validStrings_cons.2 ⟨utf8_serviceNameKey, validStrings_singleton.2 ?_⟩
        rw [Option.getD_some, ← hnameText]
        exact hutf8.1
      · exact validStrings_nil
    · refine validStrings_flatMap.2 fun kv hkv => ?_
      exact validStrings_flatMap.1 hattrs kv (List.mem_of_mem_filter hkv)

/-! ### Requests -/

/-- The bytes are a request, and its string fields are valid UTF-8; `strings` are those of an item. -/
def Utf8Request {α : Type} (item : Bytes → Option α) (strings : α → List Bytes) (bs : Bytes) : Prop :=
  ∃ req, decodeExportRequest item bs = some req ∧ ∀ t ∈ ExportRequest.strings strings req, ValidUtf8 t

theorem utf8Request_of_readsBack {α : Type} {item : Bytes → Option α} {strings : α → List Bytes} {o : ResourceOpts}
    {r : ExporterResource} {k k' : Heap} (hcreate : otlpExporterCreateResource k o = (some r, k')) {bs : Bytes}
    {req : ExportRequest α} {xs : List α} (hreq : decodeExportRequest item bs = some req)
    (hback : ReadsBack req xs (resourceKvs (some r.serviceName.bytes) (attrKvs r.resourceAttrs))
      ((r.schemaUrl.map (·.bytes)).getD []) [] []) (hxs : ∀ x ∈ xs, ValidStrings (strings x)) :
    Utf8Request item strings bs := by
  obtain ⟨hschema, hresource⟩ := validStrings_resource hcreate
  refine ⟨req, hreq, fun t ht => otlpStrIsUtf8_sound ?_⟩
  refine ExportRequest.forall_strings strings (P := fun t => otlpStrIsUtf8 t = true) ?_ ?_ ?_ ?_ t ht
  · rw [hback.items_eq]
    exact hxs
  · rw [hback.attributes_eq]
    exact hresource
  · intro ri hri
    rw [hback.schemaUrl_eq ri hri]
    exact hschema
  · intro ri hri si hsi
    obtain ⟨hscope, hurl⟩ := hback.scopes_eq ri hri si hsi
    rw [hscope, hurl]
    refine ⟨utf8_nil, fun t ht => ?_⟩
    rcases List.mem_pair.1 ht with rfl | rfl <;> exact utf8_nil

structure BuiltLog where
  heap : Heap
  record : Api.LogRecord
  built : LogBuilt heap record

/-- **Nothing but valid UTF-8 reaches a string field.** Whatever the options of the exporter and whatever the program
passed to build its objects, and whichever allocations were refused: in a request of each signal every field of proto
type `string` is valid. -/
theorem string_fields_utf8 (fp : Fp) {o : ResourceOpts} {r : ExporterResource} {k k' : Heap}
    (hcreate : otlpExporterCreateResource k o = (some r, k')) {h h' : Heap} {b b' : PbBuf} (hb : b.bytes = []) :
    (∀ spans : List BuiltSpan,
      otlpEncodeExportTraceServiceRequest (some r.serviceName.bytes) (r.schemaUrl.map (·.bytes))
        (attrKvs r.resourceAttrs) none none (spans.map fun x => x.span.view) h b = (.ok, b', h') →
      Utf8Request decodeSpan Otlp.Span.strings b'.bytes) ∧
    (∀ ms : List (BuiltMetric fp),
      otlpEncodeExportMetricsServiceRequest (some r.serviceName.bytes) (r.schemaUrl.map (·.bytes))
        (attrKvs r.resourceAttrs) none none (ms.map fun x => x.metric.view) h b = (.ok, b', h') →
      Utf8Request decodeMetric Otlp.Metric.strings b'.bytes) ∧
    (∀ logs : List BuiltLog,
      otlpEncodeExportLogsServiceRequest (some r.serviceName.bytes) (r.schemaUrl.map (·.bytes))
        (attrKvs r.resourceAttrs) none none (logs.map fun x => x.record.view) h b = (.ok, b', h') →
      Utf8Request decodeLogRecord Otlp.LogRecord.strings b'.bytes) := by
  refine ⟨fun spans hok => ?_, fun ms hok => ?_, fun logs hok => ?_⟩
  · obtain ⟨req, hreq, hback⟩ := decodeTraceRequest hb hok
    refine utf8Request_of_readsBack hcreate hreq hback fun x hx => ?_
    obtain ⟨v, hv, rfl⟩ := List.mem_map.1 hx
    obtain ⟨s, -, rfl⟩ := List.mem_map.1 hv
    exact validStrings_spanMsg (s.span.valid_iff.1 fun l hl => (s.built.owns l hl).2)
  · obtain ⟨req, hreq, hback⟩ := decodeWritten_of_emits (emits_metricsRequest _ _ _ _ _ _)
      (fun _ hlen => decodeMetric_wire hlen) hb hok
    refine utf8Request_of_readsBack hcreate hreq hback fun x hx => ?_
    obtain ⟨v, hv, rfl⟩ := List.mem_map.1 hx
    obtain ⟨m, -, rfl⟩ := List.mem_map.1 (List.mem_of_mem_filter hv)
    exact validStrings_metricMsg (m.metric.valid_iff.1 fun l hl => (m.built.owns l hl).2)
  · obtain ⟨req, hreq, hback⟩ := decodeWritten_of_emits (emits_logsRequest _ _ _ _ _ _)
      (fun _ hlen => decodeLogRecord_wire hlen) hb hok
    refine utf8Request_of_readsBack hcreate hreq hback fun x hx => ?_
    obtain ⟨v, hv, rfl⟩ := List.mem_map.1 hx
    obtain ⟨lr, -, rfl⟩ := List.mem_map.1 (List.mem_of_mem_filter hv)
    exact validStrings_logMsg (lr.record.valid_iff.1 fun l hl => (lr.built.owns l hl).2)

/-- A span with an event, under a resource with attributes. -/
theorem string_fields_utf8_retry : ∃ r k' b' h',
    otlpExporterCreateResource .granting repeatedOpts = (some r, k') ∧
    otlpEncodeExportTraceServiceRequest (some r.serviceName.bytes) (r.schemaUrl.map (·.bytes))
      (attrKvs r.resourceAttrs) none none ([spanWithEvent (ascii "retry") 1].map fun x => x.span.view) .granting
      .inline = (.ok, b', h') ∧
    Utf8Request decodeSpan Otlp.Span.strings b'.bytes := by
  have hcreate := eq_of_isSome repeatedOpts_accepted
  have hok := eq_of_ok retry_encodes
  exact ⟨_, _, _, _, hcreate, hok, (string_fields_utf8 .trivial hcreate rfl).1 [spanWithEvent (ascii "retry") 1] hok⟩

end OtlpC.Proto
