import OtlpC.Api.SpanHistory
import OtlpC.Exporter.ResourceKeys
import OtlpC.Proto.SpanReading

/-!
# The round trip of spans

What a program built, through the encoder and back: every field of every span under the resource of the exporter,
unless an event was accepted that has nothing in it.
-/

namespace OtlpC.Proto

open Api Proto3 Otlp Exporter

/-! ### What a program built -/

structure BuiltSpan where
  hist : SpanHistory
  heap : Heap
  span : Api.Span
  built : SpanBuilt hist heap span

/-- The span that the accepted calls describe. -/
def BuiltSpan.msg (x : BuiltSpan) : Otlp.Span := spanMsg x.hist.view

/-- The attributes of the exporter's resource: the service name, when there is one, and the others. -/
def resourceMsg (r : ExporterResource) : List KeyValue :=
  (if r.serviceName.bytes = [] then [] else [(serviceNameKey, .string r.serviceName.bytes)]) ++
    attrKvs r.resourceAttrs

/-- The bytes are a request with these spans, under the resource of the exporter. -/
def ReadsAsTrace (r : ExporterResource) (spans : List Otlp.Span) (bs : Bytes) : Prop :=
  ∃ ri, decodeExportRequest decodeSpan bs = some [ri] ∧ ExportRequest.items [ri] = spans ∧
    ri.resource.attributes = resourceMsg r ∧ ri.schemaUrl = (r.schemaUrl.map (·.bytes)).getD []

/-! ### What comes back -/

theorem resourceKvs_created {o : ResourceOpts} {r : ExporterResource} {h h' : Heap}
    (hcreate : otlpExporterCreateResource h o = (some r, h')) :
    resourceKvs (some r.serviceName.bytes) (attrKvs r.resourceAttrs) = resourceMsg r := by
  have hattrs := (otlpExporterCreateResource_some hcreate).2
  rw [hattrs, resourceKvs_ofWrites, resourceMsg, hattrs]
  cases r.serviceName.bytes <;> rfl

/-- The spans that come back are those that were built only if no event was left out. -/
theorem written_eq_iff (spans : List BuiltSpan) :
    ((spans.map fun x => x.span.view).map fun s => spanMsg (written s)) = spans.map BuiltSpan.msg ↔
      ∀ x ∈ spans, ∀ ev ∈ x.hist.view.events, ¬BlankEvent ev := by
  rw [List.map_map, List.map_inj_left]
  refine forall₂_congr fun x _ => ?_
  rw [Function.comp_apply, x.built.view_eq, BuiltSpan.msg]
  have hblank : (∀ ev ∈ x.hist.view.events, ¬BlankEvent ev) ↔
      ∀ ev ∈ x.hist.view.events, (!(message (eventWire ev)).isEmpty) = true := by
    refine forall₂_congr fun ev _ => ?_
    rw [Bool.not_eq_true', List.isEmpty_eq_false_iff, Ne, eventWire_eq_nil]
  rw [hblank]
  constructor
  · intro heq
    have hlength := congrArg (fun s : Otlp.Span => s.events.length) heq
    dsimp only [spanMsg, written] at hlength
    rw [List.length_map, List.length_map] at hlength
    exact List.length_filter_eq_length_iff.1 hlength
  · intro hall
    rw [written, List.filter_eq_self.2 hall]

section Request

variable {o : ResourceOpts} {r : ExporterResource} {k k' : Heap}
  (hcreate : otlpExporterCreateResource k o = (some r, k')) {spans : List BuiltSpan} (hne : spans ≠ [])
  {scopeName scopeVersion : Option Bytes} {h h' : Heap} {b b' : PbBuf} (hb : b.bytes = [])
  (hok : otlpEncodeExportTraceServiceRequest (some r.serviceName.bytes) (r.schemaUrl.map (·.bytes))
    (attrKvs r.resourceAttrs) scopeName scopeVersion (spans.map fun x => x.span.view) h b = (.ok, b', h'))
include hcreate hne hb hok

theorem readsAsTrace_written :
    ReadsAsTrace r ((spans.map fun x => x.span.view).map fun s => spanMsg (written s)) b'.bytes := by
  obtain ⟨req, hreq, hback⟩ := decodeTraceRequest hb hok
  obtain ⟨ri, rfl⟩ : ∃ ri, req = [ri] := by
    refine List.length_eq_one_iff.1 (Nat.le_antisymm hback.length_le (List.length_pos_iff.2 fun hnil => ?_))
    have hitems := hback.items_eq
    rw [hnil] at hitems
    exact hne (List.map_eq_nil_iff.1 (List.map_eq_nil_iff.1 hitems.symm))
  have hattrs := hback.attributes_eq
  rw [List.flatMap_singleton, resourceKvs_created hcreate] at hattrs
  exact ⟨ri, hreq, hback.items_eq, hattrs, hback.schemaUrl_eq ri (List.mem_singleton_self ri)⟩

/-- **Spans come back** in order, as they were built, under the resource and the schema URL of the exporter, if and
only if no event was accepted that has no name, no time and no attributes. -/
theorem trace_round_trip_iff : ReadsAsTrace r (spans.map BuiltSpan.msg) b'.bytes ↔
    ∀ x ∈ spans, ∀ ev ∈ x.hist.view.events, ¬BlankEvent ev := by
  have hread := readsAsTrace_written hcreate hne hb hok
  rw [← written_eq_iff]
  constructor
  · rintro ⟨ri, hreq, hitems, -⟩
    obtain ⟨ri', hreq', hitems', -⟩ := hread
    rw [hreq] at hreq'
    cases hreq'
    rw [← hitems, ← hitems']
  · intro heq
    rwa [← heq]

end Request

/-! ### A span with an event -/

theorem span_created : (otlpSpanCreate .granting (some (ascii "GET"))).1.isSome = true := by decide +kernel

def spanWithEvent (name : Bytes) (timeUnixNano : UInt64) : BuiltSpan :=
  let r := (SpanCall.addEvent (some name) timeUnixNano).run (otlpSpanCreate .granting (some (ascii "GET"))).2
    ((otlpSpanCreate .granting (some (ascii "GET"))).1.get span_created)
  { hist := .call (.create (some (ascii "GET"))) (.addEvent (some name) timeUnixNano) r.1
    heap := r.2.2
    span := r.2.1
    built := .call (.create (eq_of_isSome span_created)) rfl }

/-- The request of the exporter of `repeatedOpts` for the span. -/
def eventRequest (x : BuiltSpan) : OtlpStatus × PbBuf × Heap :=
  otlpEncodeExportTraceServiceRequest (some ((otlpExporterCreateResource .granting repeatedOpts).1.get
      repeatedOpts_accepted).serviceName.bytes)
    (((otlpExporterCreateResource .granting repeatedOpts).1.get repeatedOpts_accepted).schemaUrl.map (·.bytes))
    (attrKvs ((otlpExporterCreateResource .granting repeatedOpts).1.get repeatedOpts_accepted).resourceAttrs)
    none none ([x].map fun x => x.span.view) .granting .inline

theorem retry_encodes : (eventRequest (spanWithEvent (ascii "retry") 1)).1 = .ok := by decide +kernel

theorem blankEvent_encodes : (eventRequest (spanWithEvent [] 0)).1 = .ok := by decide +kernel

theorem trace_round_trip_iff_retry : ∃ r k' b' h',
    otlpExporterCreateResource .granting repeatedOpts = (some r, k') ∧
    otlpEncodeExportTraceServiceRequest (some r.serviceName.bytes) (r.schemaUrl.map (·.bytes))
      (attrKvs r.resourceAttrs) none none ([spanWithEvent (ascii "retry") 1].map fun x => x.span.view) .granting
      .inline = (.ok, b', h') ∧
    ReadsAsTrace r [(spanWithEvent (ascii "retry") 1).msg] b'.bytes := by
  have hcreate := eq_of_isSome repeatedOpts_accepted
  have hok := eq_of_ok retry_encodes
  refine ⟨_, _, _, _, hcreate, hok, (trace_round_trip_iff hcreate (List.cons_ne_nil _ _) rfl hok).2 ?_⟩
  have hname : ∀ ev ∈ (spanWithEvent (ascii "retry") 1).hist.view.events, ev.name ≠ [] := by decide +kernel
  intro x hx ev hev hblank
  rw [List.mem_singleton.1 hx] at hev
  exact hname ev hev hblank.name

/-- The event was accepted, and the collector does not get it. -/
theorem blank_event_dropped : ∃ r k' b' h',
    otlpExporterCreateResource .granting repeatedOpts = (some r, k') ∧
    otlpEncodeExportTraceServiceRequest (some r.serviceName.bytes) (r.schemaUrl.map (·.bytes))
      (attrKvs r.resourceAttrs) none none ([spanWithEvent [] 0].map fun x => x.span.view) .granting
      .inline = (.ok, b', h') ∧
    (spanWithEvent [] 0).msg.events.length = 1 ∧
    ¬ReadsAsTrace r [(spanWithEvent [] 0).msg] b'.bytes := by
  have hcreate := eq_of_isSome repeatedOpts_accepted
  have hok := eq_of_ok blankEvent_encodes
  refine ⟨_, _, _, _, hcreate, hok, by decide +kernel, ?_⟩
  rintro ⟨ri, hreq, hitems, -⟩
  obtain ⟨ri', hreq', hitems', -⟩ := readsAsTrace_written hcreate (List.cons_ne_nil _ _) rfl hok
  rw [hreq] at hreq'
  cases hreq'
  rw [hitems] at hitems'
  have hall := (written_eq_iff [spanWithEvent [] 0]).1 hitems'.symm _ (List.mem_singleton_self _)
  have hevent : ∃ ev ∈ (spanWithEvent [] 0).hist.view.events, ev.name = [] ∧ ev.timeUnixNano = 0 ∧
      ev.attrs.isEmpty = true := by decide +kernel
  obtain ⟨ev, hev, hname, htime, hattrs⟩ := hevent
  exact hall ev hev ⟨hname, htime, List.isEmpty_iff.1 hattrs⟩

end OtlpC.Proto
