import OtlpC.Api.SpanClone

/-!
# Log records

`struct otlp_log_record` and its functions in `log.c`, what the calls do to a record, and its clone.
-/

namespace OtlpC.Api

open Exporter Otlp

/-! ### Data -/

abbrev otlpLogMaxAttrs : ℕ := 128
abbrev sizeofLogRecord : ℕ := 96

/-- `struct otlp_log_record`; `block` is the block it lies in. -/
structure LogRecord where
  block : ℕ
  severity : UInt32
  severityText : Option HeapStr
  body : HeapStr
  timestamp : UInt64
  hasTimestamp : Bool
  traceId : TraceId
  spanId : SpanId
  hasTraceId : Bool
  hasSpanId : Bool
  attrs : AttrVec

/-- The blocks that `otlp_log_record_free` frees. -/
def LogRecord.leaves (lr : LogRecord) : List Leaf :=
  blockLeaf lr.block :: lr.body.leaf :: (strLeaves lr.severityText ++ attrLeaves lr.attrs)

/-! ### Functions -/

def otlpLogRecordCreate (h : Heap) (severity : UInt32) (body : Option Bytes) : Option LogRecord × Heap :=
  match otlpMalloc h sizeofLogRecord with
  | (none, h) => (none, h)
  | (some c, h) =>
    if !isUtf8 body then (none, h)
    else
      match otlpDupStr h (some (body.getD [])) with
      | (none, h) => (none, h)
      | (some body, h) =>
        (some {
          block := c.block
          severity
          severityText := none
          body
          timestamp := 0
          hasTimestamp := false
          traceId := zeroTraceId
          spanId := zeroSpanId
          hasTraceId := false
          hasSpanId := false
          attrs := .empty }, h)

def otlpLogRecordSetTimestamp (lr : LogRecord) (unixNano : UInt64) : OtlpStatus × LogRecord :=
  (.ok, { lr with timestamp := unixNano, hasTimestamp := true })

/-- `now` is the clock's reading, if it can be read. -/
def otlpLogRecordMarkTimestamp (lr : LogRecord) (now : Option UInt64) : OtlpStatus × LogRecord :=
  match now with
  | none => (.errNetwork, lr)
  | some t => (.ok, { lr with timestamp := t, hasTimestamp := true })

def otlpLogRecordSetTraceId (lr : LogRecord) : Option TraceId → OtlpStatus × LogRecord
  | none => (.errNull, lr)
  | some id =>
    if otlpIdIsAllZero id then (.errInvalidArgument, lr) else (.ok, { lr with traceId := id, hasTraceId := true })

def otlpLogRecordSetSpanId (lr : LogRecord) : Option SpanId → OtlpStatus × LogRecord
  | none => (.errNull, lr)
  | some id =>
    if otlpIdIsAllZero id then (.errInvalidArgument, lr) else (.ok, { lr with spanId := id, hasSpanId := true })

/-- The old text is freed before the new one is copied. -/
def otlpLogRecordSetSeverityText (h : Heap) (lr : LogRecord) (text : Option Bytes) :
    OtlpStatus × LogRecord × Heap :=
  if !isUtf8 text then (.errUtf8, lr, h)
  else
    let (severityText, h) := otlpDupStr h (some (text.getD []))
    let lr := { lr with severityText }
    if text.isSome && severityText.isNone then (.errNomem, lr, h) else (.ok, lr, h)

def otlpLogRecordSetAttribute (h : Heap) (lr : LogRecord) (key : Option Bytes) (arg : AttrArg) :
    OtlpStatus × LogRecord × Heap :=
  let r := setAttribute h lr.attrs otlpLogMaxAttrs key arg
  (r.1, { lr with attrs := r.2.1 }, r.2.2)

def otlpLogRecordClone (h : Heap) (src : LogRecord) : Option LogRecord × Heap :=
  match otlpMalloc h sizeofLogRecord with
  | (none, h) => (none, h)
  | (some c, h) =>
    let (severityText, h) := otlpDupStr h (src.severityText.map (·.bytes))
    let (body, h) := otlpDupStr h (some src.body.bytes)
    if src.severityText.isSome && severityText.isNone then (none, h)
    else
      match body with
      | none => (none, h)
      | some body =>
        match otlpAttrVecCopy h src.attrs with
        | (.error _, h) => (none, h)
        | (.ok attrs, h) => (some { src with block := c.block, severityText, body, attrs }, h)

/-! ### Calls -/

/-- A call of the public API that changes a log record. -/
inductive LogCall where
  | setTimestamp (unixNano : UInt64)
  | markTimestamp (now : Option UInt64)
  | setTraceId (id : Option TraceId)
  | setSpanId (id : Option SpanId)
  | setSeverityText (text : Option Bytes)
  | setAttribute (key : Option Bytes) (arg : AttrArg)

def LogCall.run (h : Heap) (lr : LogRecord) : LogCall → OtlpStatus × LogRecord × Heap
  | setTimestamp t => onHeap h (otlpLogRecordSetTimestamp lr t)
  | markTimestamp now => onHeap h (otlpLogRecordMarkTimestamp lr now)
  | setTraceId id => onHeap h (otlpLogRecordSetTraceId lr id)
  | setSpanId id => onHeap h (otlpLogRecordSetSpanId lr id)
  | setSeverityText text => otlpLogRecordSetSeverityText h lr text
  | setAttribute key arg => otlpLogRecordSetAttribute h lr key arg

/-! ### Reading -/

/-- What the `otlp_log_get_*` and `otlp_log_has_*` of `log_internal.h` return, with what lies behind the
pointers. -/
structure LogView where
  severity : UInt32
  severityText : Option Bytes
  body : Bytes
  timestamp : Option UInt64
  traceId : Option TraceId
  spanId : Option SpanId
  attrs : List KeyValue

def LogRecord.view (lr : LogRecord) : LogView where
  severity := lr.severity
  severityText := lr.severityText.map (·.bytes)
  body := lr.body.bytes
  timestamp := if lr.hasTimestamp then some lr.timestamp else none
  traceId := if lr.hasTraceId then some lr.traceId else none
  spanId := if lr.hasSpanId then some lr.spanId else none
  attrs := attrKvs lr.attrs

/-- What a new record reads as. -/
def LogView.new (severity : UInt32) (body : Bytes) : LogView where
  severity := severity
  severityText := none
  body := body
  timestamp := none
  traceId := none
  spanId := none
  attrs := []

/-- What an accepted call does to what the encoder reads. -/
def LogView.accept (v : LogView) : LogCall → LogView
  | .setTimestamp t => { v with timestamp := some t }
  | .markTimestamp now => { v with timestamp := now }
  | .setTraceId id => { v with traceId := id }
  | .setSpanId id => { v with spanId := id }
  | .setSeverityText text => { v with severityText := text }
  | .setAttribute key arg => { v with attrs := upsert (key.getD []) arg.any v.attrs }

end OtlpC.Api
