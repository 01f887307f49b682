import OtlpC.Api.Attribute

/-!
# Spans

`struct otlp_span` and its functions in `span.c`. A function that changes a span takes and returns it, with its
status and the heap. Enumerations are their 32 bits: the setters do not check them.
-/

namespace OtlpC.Api

open Exporter Otlp

/-! ### Data -/

abbrev TraceId := Vector UInt8 16
abbrev SpanId := Vector UInt8 8

abbrev otlpSpanMaxAttributes : ℕ := 128
abbrev otlpSpanMaxEvents : ℕ := 64
abbrev otlpSpanMaxLinks : ℕ := 64
abbrev otlpEventMaxAttrs : ℕ := 32
abbrev otlpLinkMaxAttrs : ℕ := 32

/-- `struct otlp_event`. -/
structure Event where
  name : HeapStr
  timeUnixNano : UInt64
  attrs : AttrVec

/-- `struct otlp_link`. -/
structure Link where
  traceId : TraceId
  spanId : SpanId
  attrs : AttrVec

abbrev sizeofEvent : ℕ := 40
abbrev sizeofLink : ℕ := 48
abbrev sizeofSpan : ℕ := 176

/-- `struct otlp_span`; `block` is the block it lies in. -/
structure Span where
  block : ℕ
  name : HeapStr
  traceId : TraceId
  spanId : SpanId
  parentSpanId : SpanId
  hasParent : Bool
  startTimeUnixNano : UInt64
  endTimeUnixNano : UInt64
  hasStartTime : Bool
  hasEndTime : Bool
  kind : UInt32
  attrs : AttrVec
  statusCode : UInt32
  statusMessage : Option HeapStr
  sampled : Bool
  traceState : Option HeapStr
  events : GrowVec Event sizeofEvent
  links : GrowVec Link sizeofLink
  events_le : events.items.length ≤ otlpSpanMaxEvents
  links_le : links.items.length ≤ otlpSpanMaxLinks

def spanKindUnspecified : UInt32 := 0
def spanKindInternal : UInt32 := 1
def statusCodeUnset : UInt32 := 0

def zeroTraceId : TraceId := .replicate 16 0
def zeroSpanId : SpanId := .replicate 8 0

/-! ### What a span owns -/

def Event.leaves (e : Event) : List Leaf := e.name.leaf :: attrLeaves e.attrs

def Link.leaves (l : Link) : List Leaf := attrLeaves l.attrs

def strLeaves (s : Option HeapStr) : List Leaf := s.toList.map HeapStr.leaf

/-- The blocks that `otlp_span_free` frees. -/
def Span.leaves (s : Span) : List Leaf :=
  blockLeaf s.block :: s.name.leaf :: (strLeaves s.statusMessage ++ strLeaves s.traceState ++
    s.events.leaves Event.leaves ++ s.links.leaves Link.leaves ++ attrLeaves s.attrs)

/-! ### Functions -/

def otlpSpanCreate (h : Heap) (name : Option Bytes) : Option Span × Heap :=
  match otlpMalloc h sizeofSpan with
  | (none, h) => (none, h)
  | (some c, h) =>
    if !isUtf8 name then (none, h)
    else
      match otlpDupStr h (some (name.getD [])) with
      | (none, h) => (none, h)
      | (some nameCopy, h) =>
        (some {
          block := c.block
          name := nameCopy
          traceId := zeroTraceId
          spanId := zeroSpanId
          parentSpanId := zeroSpanId
          hasParent := false
          startTimeUnixNano := 0
          endTimeUnixNano := 0
          hasStartTime := false
          hasEndTime := false
          kind := spanKindInternal
          attrs := .empty
          statusCode := statusCodeUnset
          statusMessage := none
          sampled := true
          traceState := none
          events := .empty
          links := .empty
          events_le := Nat.zero_le _
          links_le := Nat.zero_le _ }, h)

def otlpSpanSetTraceId (s : Span) : Option TraceId → OtlpStatus × Span
  | none => (.errNull, s)
  | some id => if otlpIdIsAllZero id then (.errInvalidArgument, s) else (.ok, { s with traceId := id })

def otlpSpanSetSpanId (s : Span) : Option SpanId → OtlpStatus × Span
  | none => (.errNull, s)
  | some id => if otlpIdIsAllZero id then (.errInvalidArgument, s) else (.ok, { s with spanId := id })

/-- NULL clears the parent. -/
def otlpSpanSetParentSpanId (s : Span) : Option SpanId → OtlpStatus × Span
  | none => (.ok, { s with parentSpanId := zeroSpanId, hasParent := false })
  | some id =>
    if otlpIdIsAllZero id then (.errInvalidArgument, s) else (.ok, { s with parentSpanId := id, hasParent := true })

def otlpSpanSetStartTime (s : Span) (unixNano : UInt64) : OtlpStatus × Span :=
  (.ok, { s with startTimeUnixNano := unixNano, hasStartTime := true })

def otlpSpanSetEndTime (s : Span) (unixNano : UInt64) : OtlpStatus × Span :=
  (.ok, { s with endTimeUnixNano := unixNano, hasEndTime := true })

/-- `now` is the clock's reading, if it can be read. -/
def otlpSpanMarkStart (s : Span) (now : Option UInt64) : OtlpStatus × Span :=
  match now with
  | none => (.errNetwork, s)
  | some t => (.ok, { s with startTimeUnixNano := t, hasStartTime := true })

def otlpSpanMarkEnd (s : Span) (now : Option UInt64) : OtlpStatus × Span :=
  match now with
  | none => (.errNetwork, s)
  | some t => (.ok, { s with endTimeUnixNano := t, hasEndTime := true })

def otlpSpanSetKind (s : Span) (kind : UInt32) : OtlpStatus × Span := (.ok, { s with kind })

def otlpSpanSetSampled (s : Span) (sampled : Bool) : OtlpStatus × Span := (.ok, { s with sampled })

def otlpSpanSetName (h : Heap) (s : Span) (name : Option Bytes) : OtlpStatus × Span × Heap :=
  if !isUtf8 name then (.errUtf8, s, h)
  else
    match otlpDupStr h (some (name.getD [])) with
    | (none, h) => (.errNomem, s, h)
    | (some name, h) => (.ok, { s with name }, h)

def otlpSpanSetAttribute (h : Heap) (s : Span) (key : Option Bytes) (arg : AttrArg) : OtlpStatus × Span × Heap :=
  let r := setAttribute h s.attrs otlpSpanMaxAttributes key arg
  (r.1, { s with attrs := r.2.1 }, r.2.2)

def otlpSpanSetStatus (h : Heap) (s : Span) (code : UInt32) (description : Option Bytes) :
    OtlpStatus × Span × Heap :=
  if !isUtf8 description then (.errUtf8, s, h)
  else
    match description with
    | none => (.ok, { s with statusMessage := none, statusCode := code }, h)
    | some description =>
      match otlpDupStr h (some description) with
      | (none, h) => (.errNomem, s, h)
      | (some msg, h) => (.ok, { s with statusMessage := some msg, statusCode := code }, h)

def otlpSpanSetTraceState (h : Heap) (s : Span) (traceState : Option Bytes) : OtlpStatus × Span × Heap :=
  if !isUtf8 traceState then (.errUtf8, s, h)
  else
    match traceState with
    | none => (.ok, { s with traceState := none }, h)
    | some traceState =>
      match otlpDupStr h (some traceState) with
      | (none, h) => (.errNomem, s, h)
      | (some copy, h) => (.ok, { s with traceState := some copy }, h)

theorem length_push_le {α : Type} {size max : ℕ} {v : GrowVec α size} {hlt : v.items.length < max}
    {hsize : size ≤ 64} {h h' : Heap} {v' : RoomyVec α size} (hv : v.grow max hlt hsize h = (some v', h')) (x : α) :
    (GrowVec.push v' x).items.length ≤ max := by
  have hitems := (GrowVec.grow_some hv fun _ => []).1
  rw [GrowVec.push, List.length_append, hitems]
  exact hlt

def otlpSpanAddEvent (h : Heap) (s : Span) (name : Option Bytes) (timeUnixNano : UInt64) :
    OtlpStatus × Span × Heap :=
  match name with
  | none => (.errNull, s, h)
  | some name =>
    if hlt : s.events.items.length < otlpSpanMaxEvents then
      if !otlpStrIsUtf8 name then (.errUtf8, s, h)
      else
        match otlpDupStr h (some name) with
        | (none, h) => (.errNomem, s, h)
        | (some name, h) =>
          match hgrow : s.events.grow otlpSpanMaxEvents hlt (by decide) h with
          | (none, h) => (.errNomem, s, h)
          | (some events, h) =>
            (.ok, { s with
              events := GrowVec.push events { name, timeUnixNano, attrs := .empty }
              events_le := length_push_le hgrow _ }, h)
    else (.errOverflow, s, h)

def otlpSpanAddLink (h : Heap) (s : Span) (traceId : Option TraceId) (spanId : Option SpanId) :
    OtlpStatus × Span × Heap :=
  match traceId, spanId with
  | some traceId, some spanId =>
    if hlt : s.links.items.length < otlpSpanMaxLinks then
      match hgrow : s.links.grow otlpSpanMaxLinks hlt (by decide) h with
      | (none, h) => (.errNomem, s, h)
      | (some links, h) =>
        (.ok, { s with
          links := GrowVec.push links { traceId, spanId, attrs := .empty }
          links_le := length_push_le hgrow _ }, h)
    else (.errOverflow, s, h)
  | _, _ => (.errNull, s, h)

def otlpSpanSetEventAttribute (h : Heap) (s : Span) (key : Option Bytes) (arg : AttrArg) :
    OtlpStatus × Span × Heap :=
  match s.events.items.getLast? with
  | none => (.errInvalidArgument, s, h)
  | some ev =>
    let r := setAttribute h ev.attrs otlpEventMaxAttrs key arg
    (r.1, { s with
      events := s.events.modify (s.events.items.length - 1) fun e => { e with attrs := r.2.1 }
      events_le := (List.length_modify ..).trans_le s.events_le }, r.2.2)

def otlpSpanSetLinkAttribute (h : Heap) (s : Span) (key : Option Bytes) (arg : AttrArg) :
    OtlpStatus × Span × Heap :=
  match s.links.items.getLast? with
  | none => (.errInvalidArgument, s, h)
  | some lk =>
    let r := setAttribute h lk.attrs otlpLinkMaxAttrs key arg
    (r.1, { s with
      links := s.links.modify (s.links.items.length - 1) fun l => { l with attrs := r.2.1 }
      links_le := (List.length_modify ..).trans_le s.links_le }, r.2.2)

/-! ### Calls -/

/-- A call of the public API that changes a span. -/
inductive SpanCall where
  | setTraceId (id : Option TraceId)
  | setSpanId (id : Option SpanId)
  | setParentSpanId (id : Option SpanId)
  | setStartTime (unixNano : UInt64)
  | setEndTime (unixNano : UInt64)
  | markStart (now : Option UInt64)
  | markEnd (now : Option UInt64)
  | setKind (kind : UInt32)
  | setName (name : Option Bytes)
  | setAttribute (key : Option Bytes) (arg : AttrArg)
  | setStatus (code : UInt32) (description : Option Bytes)
  | setSampled (sampled : Bool)
  | addEvent (name : Option Bytes) (timeUnixNano : UInt64)
  | addLink (traceId : Option TraceId) (spanId : Option SpanId)
  | setTraceState (traceState : Option Bytes)
  | setEventAttribute (key : Option Bytes) (arg : AttrArg)
  | setLinkAttribute (key : Option Bytes) (arg : AttrArg)

def onHeap {σ : Type} (h : Heap) (r : OtlpStatus × σ) : OtlpStatus × σ × Heap := (r.1, r.2, h)

def SpanCall.run (h : Heap) (s : Span) : SpanCall → OtlpStatus × Span × Heap
  | setTraceId id => onHeap h (otlpSpanSetTraceId s id)
  | setSpanId id => onHeap h (otlpSpanSetSpanId s id)
  | setParentSpanId id => onHeap h (otlpSpanSetParentSpanId s id)
  | setStartTime t => onHeap h (otlpSpanSetStartTime s t)
  | setEndTime t => onHeap h (otlpSpanSetEndTime s t)
  | markStart now => onHeap h (otlpSpanMarkStart s now)
  | markEnd now => onHeap h (otlpSpanMarkEnd s now)
  | setKind kind => onHeap h (otlpSpanSetKind s kind)
  | setName name => otlpSpanSetName h s name
  | setAttribute key arg => otlpSpanSetAttribute h s key arg
  | setStatus code description => otlpSpanSetStatus h s code description
  | setSampled sampled => onHeap h (otlpSpanSetSampled s sampled)
  | addEvent name t => otlpSpanAddEvent h s name t
  | addLink traceId spanId => otlpSpanAddLink h s traceId spanId
  | setTraceState traceState => otlpSpanSetTraceState h s traceState
  | setEventAttribute key arg => otlpSpanSetEventAttribute h s key arg
  | setLinkAttribute key arg => otlpSpanSetLinkAttribute h s key arg

/-! ### Reading -/

/-- An event as the encoder reads it. -/
structure EventView where
  name : Bytes
  timeUnixNano : UInt64
  attrs : List KeyValue

/-- A link as the encoder reads it. -/
structure LinkView where
  traceId : TraceId
  spanId : SpanId
  attrs : List KeyValue

/-- What the `otlp_span_get_*` and `otlp_span_has_*` of `span_internal.h` return, with what lies behind the
pointers. -/
structure SpanView where
  name : Bytes
  traceId : TraceId
  spanId : SpanId
  parentSpanId : Option SpanId
  startTime : Option UInt64
  endTime : Option UInt64
  kind : UInt32
  attrs : List KeyValue
  statusCode : UInt32
  statusMessage : Option Bytes
  sampled : Bool
  traceState : Option Bytes
  events : List EventView
  links : List LinkView

def Event.view (e : Event) : EventView :=
  { name := e.name.bytes, timeUnixNano := e.timeUnixNano, attrs := attrKvs e.attrs }

def Link.view (l : Link) : LinkView := { traceId := l.traceId, spanId := l.spanId, attrs := attrKvs l.attrs }

def Span.view (s : Span) : SpanView where
  name := s.name.bytes
  traceId := s.traceId
  spanId := s.spanId
  parentSpanId := if s.hasParent then some s.parentSpanId else none
  startTime := if s.hasStartTime then some s.startTimeUnixNano else none
  endTime := if s.hasEndTime then some s.endTimeUnixNano else none
  kind := s.kind
  attrs := attrKvs s.attrs
  statusCode := s.statusCode
  statusMessage := s.statusMessage.map (·.bytes)
  sampled := s.sampled
  traceState := s.traceState.map (·.bytes)
  events := s.events.items.map Event.view
  links := s.links.items.map Link.view

/-! ### Clone -/

/-- The copy of an owned string that may be NULL: `none` when memory is short. -/
def dupOptStr (h : Heap) : Option HeapStr → Option (Option HeapStr) × Heap
  | none => (some none, h)
  | some s =>
    match otlpDupStr h (some s.bytes) with
    | (none, h) => (none, h)
    | (some c, h) => (some (some c), h)

theorem length_withEventAttrs (s : Span) (attrs : AttrVec) :
    (s.events.modify (s.events.items.length - 1) fun e => { e with attrs }).items.length ≤ otlpSpanMaxEvents :=
  (List.length_modify ..).trans_le s.events_le

theorem length_withLinkAttrs (s : Span) (attrs : AttrVec) :
    (s.links.modify (s.links.items.length - 1) fun l => { l with attrs }).items.length ≤ otlpSpanMaxLinks :=
  (List.length_modify ..).trans_le s.links_le

def withEventAttrs (s : Span) (attrs : AttrVec) : Span :=
  { s with
    events := s.events.modify (s.events.items.length - 1) fun e => { e with attrs }
    events_le := length_withEventAttrs s attrs }

def withLinkAttrs (s : Span) (attrs : AttrVec) : Span :=
  { s with
    links := s.links.modify (s.links.items.length - 1) fun l => { l with attrs }
    links_le := length_withLinkAttrs s attrs }

/-- A `for` of `otlp_span_clone`: `add`, and the copy of the attributes, when there are any. -/
def cloneItems {α : Type} (add : Heap → Span → α → OtlpStatus × Span × Heap) (attrs : α → AttrVec)
    (withAttrs : Span → AttrVec → Span) (h : Heap) (dst : Span) : List α → Option Span × Heap
  | [] => (some dst, h)
  | x :: xs =>
    match add h dst x with
    | (.ok, dst, h) =>
      if 0 < (attrs x).items.length then
        match otlpAttrVecCopy h (attrs x) with
        | (.error _, h) => (none, h)
        | (.ok copy, h) => cloneItems add attrs withAttrs h (withAttrs dst copy) xs
      else cloneItems add attrs withAttrs h dst xs
    | (_, _, h) => (none, h)

def cloneEvents : Heap → Span → List Event → Option Span × Heap :=
  cloneItems (fun h dst ev => otlpSpanAddEvent h dst (some ev.name.bytes) ev.timeUnixNano) Event.attrs withEventAttrs

def cloneLinks : Heap → Span → List Link → Option Span × Heap :=
  cloneItems (fun h dst lk => otlpSpanAddLink h dst (some lk.traceId) (some lk.spanId)) Link.attrs withLinkAttrs

def otlpSpanClone (h : Heap) (src : Span) : Option Span × Heap :=
  match otlpSpanCreate h (some src.name.bytes) with
  | (none, h) => (none, h)
  | (some dst, h) =>
    match dupOptStr h src.statusMessage with
    | (none, h) => (none, h)
    | (some statusMessage, h) =>
      match dupOptStr h src.traceState with
      | (none, h) => (none, h)
      | (some traceState, h) =>
        match otlpAttrVecCopy h src.attrs with
        | (.error _, h) => (none, h)
        | (.ok attrs, h) =>
          match cloneEvents h { dst with
              traceId := src.traceId
              spanId := src.spanId
              hasParent := src.hasParent
              parentSpanId := if src.hasParent then src.parentSpanId else dst.parentSpanId
              hasStartTime := src.hasStartTime
              startTimeUnixNano := src.startTimeUnixNano
              hasEndTime := src.hasEndTime
              endTimeUnixNano := src.endTimeUnixNano
              kind := src.kind
              statusCode := src.statusCode
              sampled := src.sampled
              statusMessage := statusMessage
              traceState := traceState
              attrs := attrs } src.events.items with
          | (none, h) => (none, h)
          | (some dst, h) => cloneLinks h dst src.links.items

end OtlpC.Api
