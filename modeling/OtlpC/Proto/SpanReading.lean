import OtlpC.Proto.SpanBody

/-!
# What a collector reads of a span

The `Span` message with its decoder, the message that the trace encoder stands for, and that it reads back but for
the events all of whose fields are left out.
-/

namespace OtlpC.Otlp

open Proto3

/-! ### Messages -/

structure SpanEvent where
  timeUnixNano : UInt64
  name : Bytes
  attributes : List KeyValue
  droppedAttributesCount : UInt64
deriving Repr

structure SpanLink where
  traceId : Bytes
  spanId : Bytes
  traceState : Bytes
  attributes : List KeyValue
  droppedAttributesCount : UInt64
  flags : UInt32
deriving Repr

/-- `Status`; one that is absent has the defaults. -/
structure SpanStatus where
  message : Bytes
  code : UInt64
deriving Repr, DecidableEq

structure Span where
  traceId : Bytes
  spanId : Bytes
  traceState : Bytes
  parentSpanId : Bytes
  flags : UInt32
  name : Bytes
  kind : UInt64
  startTimeUnixNano : UInt64
  endTimeUnixNano : UInt64
  attributes : List KeyValue
  droppedAttributesCount : UInt64
  events : List SpanEvent
  droppedEventsCount : UInt64
  links : List SpanLink
  droppedLinksCount : UInt64
  status : SpanStatus
deriving Repr

/-! ### Decoders -/

def decodeSpanEvent (bs : Bytes) : Option SpanEvent := do
  let fs ← fields bs
  let attributes ← decodeKeyValues 3 fs
  some {
    timeUnixNano := lastD (i64s 1 fs) 0
    name := lastD (lens 2 fs) []
    attributes
    droppedAttributesCount := lastD (varints 4 fs) 0 }

def decodeSpanLink (bs : Bytes) : Option SpanLink := do
  let fs ← fields bs
  let attributes ← decodeKeyValues 4 fs
  some {
    traceId := lastD (lens 1 fs) []
    spanId := lastD (lens 2 fs) []
    traceState := lastD (lens 3 fs) []
    attributes
    droppedAttributesCount := lastD (varints 5 fs) 0
    flags := lastD (i32s 6 fs) 0 }

def decodeSpanStatus (bs : Bytes) : Option SpanStatus := do
  let fs ← fields bs
  some { message := lastD (lens 2 fs) [], code := lastD (varints 3 fs) 0 }

def decodeSpan (bs : Bytes) : Option Span := do
  let fs ← fields bs
  let attributes ← decodeKeyValues 9 fs
  let events ← (lens 11 fs).mapM decodeSpanEvent
  let links ← (lens 13 fs).mapM decodeSpanLink
  let status ← decodeSpanStatus (subMessage 15 fs)
  some {
    traceId := lastD (lens 1 fs) []
    spanId := lastD (lens 2 fs) []
    traceState := lastD (lens 3 fs) []
    parentSpanId := lastD (lens 4 fs) []
    flags := lastD (i32s 16 fs) 0
    name := lastD (lens 5 fs) []
    kind := lastD (varints 6 fs) 0
    startTimeUnixNano := lastD (i64s 7 fs) 0
    endTimeUnixNano := lastD (i64s 8 fs) 0
    attributes
    droppedAttributesCount := lastD (varints 10 fs) 0
    events
    droppedEventsCount := lastD (varints 12 fs) 0
    links
    droppedLinksCount := lastD (varints 14 fs) 0
    status }

end OtlpC.Otlp

namespace OtlpC.Proto

open Api Proto3 Otlp

/-! ### The messages -/

def eventMsg (ev : EventView) : SpanEvent where
  timeUnixNano := ev.timeUnixNano
  name := ev.name
  attributes := ev.attrs
  droppedAttributesCount := 0

def linkMsg (lk : LinkView) : SpanLink where
  traceId := lk.traceId.toList
  spanId := lk.spanId.toList
  traceState := []
  attributes := lk.attrs
  droppedAttributesCount := 0
  flags := 0

def statusMsg (code : UInt32) (message : Option Bytes) : SpanStatus where
  message := message.getD []
  code := code.toUInt64

def spanMsg (s : SpanView) : Otlp.Span where
  traceId := s.traceId.toList
  spanId := s.spanId.toList
  traceState := s.traceState.getD []
  parentSpanId := idBytes s.parentSpanId
  flags := if s.sampled then 1 else 0
  name := s.name
  kind := s.kind.toUInt64
  startTimeUnixNano := s.startTime.getD 0
  endTimeUnixNano := s.endTime.getD 0
  attributes := s.attrs
  droppedAttributesCount := 0
  events := s.events.map eventMsg
  droppedEventsCount := 0
  links := s.links.map linkMsg
  droppedLinksCount := 0
  status := statusMsg s.statusCode s.statusMessage

/-- Nothing of the event differs from the default. -/
structure BlankEvent (ev : EventView) : Prop where
  name : ev.name = []
  timeUnixNano : ev.timeUnixNano = 0
  attrs : ev.attrs = []

theorem eventWire_eq_nil {ev : EventView} : message (eventWire ev) = [] ↔ BlankEvent ev := by
  rw [message_eq_nil]
  simp only [eventWire, List.append_eq_nil_iff, omitEmpty_eq_nil, omitZero64_eq_nil, keyValues_eq_nil]
  constructor
  · rintro ⟨⟨hname, htime⟩, hattrs⟩
    exact ⟨hname, htime, hattrs⟩
  · rintro ⟨hname, htime, hattrs⟩
    exact ⟨⟨hname, htime⟩, hattrs⟩

/-- The span without the events that encode to nothing. -/
def written (s : SpanView) : SpanView :=
  { s with events := s.events.filter fun ev => !(message (eventWire ev)).isEmpty }

/-! ### Reading -/

theorem toList_ne_nil {n : ℕ} (hn : 0 < n) (id : Vector UInt8 n) : id.toList ≠ [] :=
  List.ne_nil_of_length_pos (by rwa [Vector.length_toList])

theorem decodeSpanEvent_wire {ev : EventView} (hlen : (message (eventWire ev)).length < 2 ^ 64) :
    decodeSpanEvent (message (eventWire ev)) = some (eventMsg ev) := by
  have hnumbered : WellNumbered (eventWire ev) := by simp [eventWire, keyValues]
  have hattrs : decodeKeyValues 3 (eventWire ev) = some ev.attrs :=
    decodeKeyValues_eq (by simp [eventWire, keyValues]) hlen
  rw [decodeSpanEvent, fields_message hnumbered hlen]
  simp only [Option.bind_eq_bind, Option.bind_some, hattrs]
  simp [eventWire, eventMsg, keyValues]

theorem decodeSpanLink_wire {lk : LinkView} (hlen : (message (linkWire lk)).length < 2 ^ 64) :
    decodeSpanLink (message (linkWire lk)) = some (linkMsg lk) := by
  have hnumbered : WellNumbered (linkWire lk) := by simp [linkWire, keyValues]
  have hattrs : decodeKeyValues 4 (linkWire lk) = some lk.attrs :=
    decodeKeyValues_eq (by simp [linkWire, keyValues]) hlen
  rw [decodeSpanLink, fields_message hnumbered hlen]
  simp only [Option.bind_eq_bind, Option.bind_some, hattrs]
  simp [linkWire, linkMsg, keyValues]

theorem decodeSpanStatus_wire {code : UInt32} {msg : Option Bytes}
    (hlen : (message (statusWire code msg)).length < 2 ^ 64) :
    decodeSpanStatus (message (statusWire code msg)) = some (statusMsg code msg) := by
  have hnumbered : WellNumbered (statusWire code msg) := by simp [statusWire]
  rw [decodeSpanStatus, fields_message hnumbered hlen]
  simp [statusWire, statusMsg]

theorem spanWire_eq (s : SpanView) : spanWire s =
    .len 1 s.traceId.toList :: .len 2 s.spanId.toList :: optLen 4 (s.parentSpanId.map Vector.toList) ++
      omitEmpty 3 (s.traceState.getD []) ++ omitEmpty 5 s.name ++ omitZero 6 s.kind.toUInt64 ++ optI64 7 s.startTime ++
      optI64 8 s.endTime ++ keyValues 9 s.attrs ++
      repeated 11 ((written s).events.map fun ev => message (eventWire ev)) ++
      repeated 13 (s.links.map fun lk => message (linkWire lk)) ++
      omitEmpty 15 (message (statusWire s.statusCode s.statusMessage)) ++ (if s.sampled then [.i32 16 1] else []) := by
  have hlinks : (s.links.filter fun lk => !(message (linkWire lk)).isEmpty) = s.links := by
    refine List.filter_eq_self.2 fun lk _ => ?_
    rw [Bool.not_eq_true', List.isEmpty_eq_false_iff, Ne, message_eq_nil, linkWire,
      omitEmpty_of_ne (toList_ne_nil (by decide) lk.traceId)]
    exact List.cons_ne_nil _ _
  rw [spanWire, flatMap_omitEmpty_map, flatMap_omitEmpty_map, hlinks, written]

/-- **A span reads back** as the message it stands for, without the events that encode to nothing. -/
theorem decodeSpan_wire {s : SpanView} (hlen : (message (spanWire s)).length < 2 ^ 64) :
    decodeSpan (message (spanWire s)) = some (spanMsg (written s)) := by
  have hwire := spanWire_eq s
  have hnumbered : WellNumbered (spanWire s) := by
    rw [hwire]
    cases s.sampled <;> simp [keyValues]
  have hattrs : decodeKeyValues 9 (spanWire s) = some s.attrs := by
    refine decodeKeyValues_eq ?_ hlen
    rw [hwire]
    cases s.sampled <;> simp [keyValues]
  have hlensEvents : lens 11 (spanWire s) = (written s).events.map fun ev => message (eventWire ev) := by
    rw [hwire]
    cases s.sampled <;> simp [keyValues]
  have hevents : (lens 11 (spanWire s)).mapM decodeSpanEvent = some ((written s).events.map eventMsg) := by
    rw [hlensEvents]
    refine mapM_map_some fun ev hev => decodeSpanEvent_wire ((length_lt_of_mem_lens (n := 11) ?_).trans hlen)
    rw [hlensEvents]
    exact List.mem_map_of_mem (f := fun ev => message (eventWire ev)) hev
  have hlensLinks : lens 13 (spanWire s) = s.links.map fun lk => message (linkWire lk) := by
    rw [hwire]
    cases s.sampled <;> simp [keyValues]
  have hlinks : (lens 13 (spanWire s)).mapM decodeSpanLink = some (s.links.map linkMsg) := by
    rw [hlensLinks]
    refine mapM_map_some fun lk hlk => decodeSpanLink_wire ((length_lt_of_mem_lens (n := 13) ?_).trans hlen)
    rw [hlensLinks]
    exact List.mem_map_of_mem (f := fun lk => message (linkWire lk)) hlk
  have hlensStatus : lens 15 (spanWire s) = if message (statusWire s.statusCode s.statusMessage) ≠ [] then
      [message (statusWire s.statusCode s.statusMessage)] else [] := by
    rw [hwire]
    cases s.sampled <;> simp [keyValues]
  have hstatus : decodeSpanStatus (subMessage 15 (spanWire s)) = some (statusMsg s.statusCode s.statusMessage) := by
    rw [subMessage, hlensStatus, ite_not, flatten_omitted_bytes]
    exact decodeSpanStatus_wire (length_subMessage_omitEmpty hlensStatus hlen)
  rw [decodeSpan, fields_message hnumbered hlen]
  simp only [Option.bind_eq_bind, Option.bind_some, hattrs, hevents, hlinks, hstatus]
  rw [hwire]
  cases hsampled : s.sampled <;> simp [keyValues, spanMsg, written, idBytes, hsampled]

theorem spanWire_ne_nil (s : SpanView) : message (spanWire s) ≠ [] := by
  rw [Ne, message_eq_nil]
  exact List.cons_ne_nil _ _

/-- **A trace request reads back** as its spans without those events, under its resource. -/
theorem decodeTraceRequest {serviceName schemaUrl scopeName scopeVersion : Option Bytes} {attrs : List KeyValue}
    {spans : List SpanView} {h h' : Heap} {b b' : PbBuf} (hb : b.bytes = [])
    (hok : otlpEncodeExportTraceServiceRequest serviceName schemaUrl attrs scopeName scopeVersion spans h b =
      (.ok, b', h')) :
    ∃ req, decodeExportRequest decodeSpan b'.bytes = some req ∧
      ReadsBack req (spans.map fun s => spanMsg (written s)) (resourceKvs serviceName attrs) (schemaUrl.getD [])
        (scopeName.getD []) (scopeVersion.getD []) := by
  obtain ⟨req, hreq, hback⟩ := decodeWritten_of_emits (emits_traceRequest _ _ _ _ _ _)
    (fun _ hlen => decodeSpan_wire hlen) hb hok
  rw [List.filter_eq_self.2 fun s _ => by simpa using spanWire_ne_nil s] at hback
  exact ⟨req, hreq, hback⟩

end OtlpC.Proto
