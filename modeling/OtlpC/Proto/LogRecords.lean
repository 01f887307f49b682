import OtlpC.Api.Log
import OtlpC.Proto.Envelope

/-!
# The log encoder

`emit_log_record` and `otlp_encode_export_logs_service_request` of `otlp_logs_encoder.c`, and the fields they write.
-/

namespace OtlpC.Proto

open Api Proto3 Otlp

/-! ### Functions -/

def encodeLogRecord (lr : LogView) : Enc :=
  .forSome lr.timestamp (fun t => otlpPbFieldFixed64 1 t) >>
  .onlyIf (lr.severity != 0) (otlpPbFieldVarint 2 lr.severity.toUInt64) >>
  .onlyIf (nonEmptyStr lr.severityText) (otlpPbFieldString 3 lr.severityText) >>
  .onlyIf (nonEmptyStr lr.body) (.withSub (otlpEncodeAnyValue (.string lr.body)) (otlpPbFieldMessage 5)) >>
  otlpEmitAttributes 6 lr.attrs >>
  .forSome lr.traceId (fun id => otlpPbFieldBytes 9 (.bytes id.toList)) >>
  .forSome lr.spanId (fun id => otlpPbFieldBytes 10 (.bytes id.toList))

def emitLogRecord (fieldNum : UInt32) (lr : LogView) : Enc :=
  .withSub (encodeLogRecord lr) (otlpPbFieldMessage fieldNum)

def otlpEncodeExportLogsServiceRequest (serviceName schemaUrl : Option Bytes) (attrs : List KeyValue)
    (scopeName scopeVersion : Option Bytes) (logs : List LogView) : Enc :=
  encodeExportRequest (emitLogRecord 2) serviceName schemaUrl attrs scopeName scopeVersion logs

/-! ### Fields -/

/-- The body is left out when it is empty. -/
def bodyWire (body : Bytes) : List Field :=
  if nonEmptyStr body then [.len 5 (message (AnyValue.string body).wire)] else []

def logWire (lr : LogView) : List Field :=
  omitZero64 1 (lr.timestamp.getD 0) ++ omitZero 2 lr.severity.toUInt64 ++ omitEmpty 3 (lr.severityText.getD []) ++
    bodyWire lr.body ++ keyValues 6 lr.attrs ++ optLen 9 (lr.traceId.map Vector.toList) ++
    optLen 10 (lr.spanId.map Vector.toList)

theorem emits_logRecord (lr : LogView) : Emits (encodeLogRecord lr) (logWire lr) := by
  have hids := (emits_optBytes (by decide) 9 lr.traceId).andThen (emits_optBytes (by decide) 10 lr.spanId)
  have hbody := (emits_anyMessage 5 (emits_anyValue (.string lr.body))).onlyIf (nonEmptyStr lr.body)
  have hsev := (emits_onlyIf_varint 2 lr.severity).andThen ((emits_onlyIf_string 3 lr.severityText).andThen
    (hbody.andThen ((emits_attributes 6 lr.attrs).andThen hids)))
  unfold logWire
  simp only [List.append_assoc]
  exact (emits_optFixed64 1 lr.timestamp).andThen hsev

/-- **The logs request** is its resource, its scope and the records. -/
theorem emits_logsRequest (serviceName schemaUrl : Option Bytes) (attrs : List KeyValue)
    (scopeName scopeVersion : Option Bytes) (logs : List LogView) :
    Emits (otlpEncodeExportLogsServiceRequest serviceName schemaUrl attrs scopeName scopeVersion logs)
      (requestWire serviceName schemaUrl attrs scopeName scopeVersion (logs.map fun lr => message (logWire lr))) :=
  emits_exportRequest (fun lr => emits_subMessage 2 (emits_logRecord lr)) _ _ _ _ _ _

end OtlpC.Proto
