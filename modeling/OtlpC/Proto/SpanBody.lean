import OtlpC.Api.Span
import OtlpC.Proto.Envelope

/-!
# The trace encoder

`otlp_encode_span_body` and `otlp_encode_export_trace_service_request` of `otlp_messages.c`, and the fields they
write. The encoders read a span through its getters.
-/

namespace OtlpC.Proto

open Api Proto3 Otlp

/-! ### Functions -/

def emitStatus (fieldNum code : UInt32) (message : Option Bytes) : Enc :=
  if code == statusCodeUnset && !nonEmptyStr message then .done
  else .withSub
    (.onlyIf (code != statusCodeUnset) (otlpPbTag 3 otlpPbWireVarint >> otlpPbVarint code.toUInt64) >>
      .onlyIf (nonEmptyStr message) (otlpPbTag 2 otlpPbWireLen >> otlpPbString message))
    (otlpPbFieldMessage fieldNum)

/-- An event of `otlp_encode_span_body`. -/
def encodeEvent (ev : EventView) : Enc :=
  .withSub
    (.onlyIf (nonEmptyStr ev.name) (otlpPbFieldString 2 ev.name) >> otlpPbFieldFixed64 1 ev.timeUnixNano >>
      otlpEmitAttributes 3 ev.attrs)
    (otlpPbFieldMessage 11)

/-- A link of `otlp_encode_span_body`. -/
def encodeLink (lk : LinkView) : Enc :=
  .withSub
    (otlpPbFieldBytes 1 (.bytes lk.traceId.toList) >> otlpPbFieldBytes 2 (.bytes lk.spanId.toList) >>
      otlpEmitAttributes 4 lk.attrs)
    (otlpPbFieldMessage 13)

def otlpEncodeSpanBody (s : SpanView) : Enc :=
  (otlpPbTag 1 otlpPbWireLen >> otlpPbBytes (.bytes s.traceId.toList)) >>
  (otlpPbTag 2 otlpPbWireLen >> otlpPbBytes (.bytes s.spanId.toList)) >>
  .forSome s.parentSpanId (fun id => otlpPbTag 4 otlpPbWireLen >> otlpPbBytes (.bytes id.toList)) >>
  .onlyIf (nonEmptyStr s.traceState) (otlpPbFieldString 3 s.traceState) >>
  .onlyIf (nonEmptyStr s.name) (otlpPbFieldString 5 s.name) >>
  .onlyIf (s.kind != spanKindUnspecified) (otlpPbFieldVarint 6 s.kind.toUInt64) >>
  .forSome s.startTime (fun t => otlpPbTag 7 otlpPbWireFixed64 >> otlpPbFixed64 t) >>
  .forSome s.endTime (fun t => otlpPbTag 8 otlpPbWireFixed64 >> otlpPbFixed64 t) >>
  otlpEmitAttributes 9 s.attrs >>
  .each encodeEvent s.events >>
  .each encodeLink s.links >>
  emitStatus 15 s.statusCode s.statusMessage >>
  .onlyIf s.sampled (otlpPbTag 16 otlpPbWireFixed32 >> otlpPbFixed32 1)

def otlpEncodeExportTraceServiceRequest (serviceName schemaUrl : Option Bytes) (attrs : List KeyValue)
    (scopeName scopeVersion : Option Bytes) (spans : List SpanView) : Enc :=
  encodeExportRequest (fun s => .withSub (otlpEncodeSpanBody s) (otlpPbFieldMessage 2))
    serviceName schemaUrl attrs scopeName scopeVersion spans

/-! ### Fields -/

def statusWire (code : UInt32) (message : Option Bytes) : List Field :=
  omitZero 3 code.toUInt64 ++ omitEmpty 2 (message.getD [])

def eventWire (ev : EventView) : List Field :=
  omitEmpty 2 ev.name ++ omitZero64 1 ev.timeUnixNano ++ keyValues 3 ev.attrs

def linkWire (lk : LinkView) : List Field :=
  omitEmpty 1 lk.traceId.toList ++ omitEmpty 2 lk.spanId.toList ++ keyValues 4 lk.attrs

def spanWire (s : SpanView) : List Field :=
  .len 1 s.traceId.toList :: .len 2 s.spanId.toList :: optLen 4 (s.parentSpanId.map Vector.toList) ++
    omitEmpty 3 (s.traceState.getD []) ++ omitEmpty 5 s.name ++ omitZero 6 s.kind.toUInt64 ++ optI64 7 s.startTime ++
    optI64 8 s.endTime ++ keyValues 9 s.attrs ++ s.events.flatMap (fun ev => omitEmpty 11 (message (eventWire ev))) ++
    s.links.flatMap (fun lk => omitEmpty 13 (message (linkWire lk))) ++
    omitEmpty 15 (message (statusWire s.statusCode s.statusMessage)) ++ (if s.sampled then [.i32 16 1] else [])

theorem emits_onlyIf_tagVarint (n v : UInt32) :
    Emits (.onlyIf (v != 0) (otlpPbTag n otlpPbWireVarint >> otlpPbVarint v.toUInt64))
      (omitZero n.toNat v.toUInt64) := by
  by_cases hv : v = 0
  · rw [hv]
    exact emits_done
  · have hne : v.toUInt64 ≠ 0 := by
      intro hzero
      apply hv
      have hnat := congrArg UInt64.toNat hzero
      apply UInt32.toNat_inj.1
      simpa using hnat
    rw [Enc.onlyIf, if_pos (bne_iff_ne.2 hv), omitZero, if_neg hne]
    exact emits_tagVarint n v.toUInt64

theorem emits_onlyIf_tagString (n : UInt32) (s : Option Bytes) :
    Emits (.onlyIf (nonEmptyStr s) (otlpPbTag n otlpPbWireLen >> otlpPbString s)) (omitEmpty n.toNat (s.getD [])) := by
  rcases s with - | (- | ⟨c, s⟩)
  · exact emits_done
  · exact emits_done
  · exact emits_tagBytes n (c :: s)

theorem emits_status (n code : UInt32) (msg : Option Bytes) :
    Emits (emitStatus n code msg) (omitEmpty n.toNat (message (statusWire code msg))) := by
  unfold emitStatus
  split
  · next hunset =>
    simp only [Bool.and_eq_true, beq_iff_eq, Bool.not_eq_true'] at hunset
    have hmsg : msg.getD [] = [] := by simpa [nonEmptyStr] using hunset.2
    rw [statusWire, hunset.1, hmsg]
    exact emits_done
  · exact emits_subMessage n ((emits_onlyIf_tagVarint 3 code).andThen (emits_onlyIf_tagString 2 msg))

theorem emits_event (ev : EventView) : Emits (encodeEvent ev) (omitEmpty 11 (message (eventWire ev))) := by
  rw [eventWire, List.append_assoc]
  exact emits_subMessage 11 ((emits_onlyIf_string 2 ev.name).andThen
    ((emits_fieldFixed64 1 ev.timeUnixNano).andThen (emits_attributes 3 ev.attrs)))

theorem emits_link (lk : LinkView) : Emits (encodeLink lk) (omitEmpty 13 (message (linkWire lk))) := by
  rw [linkWire, List.append_assoc]
  exact emits_subMessage 13 ((emits_fieldBytes 1 lk.traceId.toList).andThen
    ((emits_fieldBytes 2 lk.spanId.toList).andThen (emits_attributes 4 lk.attrs)))

theorem emits_spanBody (s : SpanView) : Emits (otlpEncodeSpanBody s) (spanWire s) := by
  have hflags := (emits_tagFixed32 16 1).onlyIf s.sampled
  have hstatus := (emits_status 15 s.statusCode s.statusMessage).andThen hflags
  have hlists := (emits_attributes 9 s.attrs).andThen
    ((emits_each emits_event s.events).andThen ((emits_each emits_link s.links).andThen hstatus))
  have htimes := (emits_tagOptI64 7 s.startTime).andThen ((emits_tagOptI64 8 s.endTime).andThen hlists)
  have hnames := (emits_onlyIf_string 3 s.traceState).andThen ((emits_onlyIf_string 5 s.name).andThen
    ((emits_onlyIf_varint 6 s.kind).andThen htimes))
  have hids := (emits_tagBytes 1 s.traceId.toList).andThen ((emits_tagBytes 2 s.spanId.toList).andThen
    ((emits_tagOptLen 4 s.parentSpanId).andThen hnames))
  unfold spanWire
  simp only [List.cons_append, List.append_assoc]
  exact hids

/-- **The trace request** is its resource, its scope and the spans. -/
theorem emits_traceRequest (serviceName schemaUrl : Option Bytes) (attrs : List KeyValue)
    (scopeName scopeVersion : Option Bytes) (spans : List SpanView) :
    Emits (otlpEncodeExportTraceServiceRequest serviceName schemaUrl attrs scopeName scopeVersion spans)
      (requestWire serviceName schemaUrl attrs scopeName scopeVersion (spans.map fun s => message (spanWire s))) :=
  emits_exportRequest (fun s => emits_subMessage 2 (emits_spanBody s)) _ _ _ _ _ _

end OtlpC.Proto
