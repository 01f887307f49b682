import OtlpC.Exporter.Outcomes
import OtlpC.Proto.LogRecords

/-!
# What a collector reads of a log record

The `LogRecord` message with its decoder, the message that the logs encoder stands for, and the records that come
back: a record all of whose fields are left out is left out itself.
-/

namespace OtlpC.Otlp

open Proto3

structure LogRecord where
  timeUnixNano : UInt64
  observedTimeUnixNano : UInt64
  severityNumber : UInt64
  severityText : Bytes
  body : AnyValue
  attributes : List KeyValue
  droppedAttributesCount : UInt64
  flags : UInt32
  traceId : Bytes
  spanId : Bytes
  eventName : Bytes
deriving Repr

def decodeLogRecord (bs : Bytes) : Option LogRecord := do
  let fs ← fields bs
  let body ← decodeAnyValue (subMessage 5 fs)
  let attributes ← decodeKeyValues 6 fs
  some {
    timeUnixNano := lastD (i64s 1 fs) 0
    observedTimeUnixNano := lastD (i64s 11 fs) 0
    severityNumber := lastD (varints 2 fs) 0
    severityText := lastD (lens 3 fs) []
    body
    attributes
    droppedAttributesCount := lastD (varints 7 fs) 0
    flags := lastD (i32s 8 fs) 0
    traceId := lastD (lens 9 fs) []
    spanId := lastD (lens 10 fs) []
    eventName := lastD (lens 12 fs) [] }

end OtlpC.Otlp

namespace OtlpC.Proto

open Api Proto3 Otlp Exporter

/-! ### The message -/

/-- An empty body is one that was not set. -/
def bodyMsg (body : Bytes) : AnyValue := if body = [] then .unset else .string body

def logMsg (lr : LogView) : Otlp.LogRecord where
  timeUnixNano := lr.timestamp.getD 0
  observedTimeUnixNano := 0
  severityNumber := lr.severity.toUInt64
  severityText := lr.severityText.getD []
  body := bodyMsg lr.body
  attributes := lr.attrs
  droppedAttributesCount := 0
  flags := 0
  traceId := idBytes lr.traceId
  spanId := idBytes lr.spanId
  eventName := []

/-- Nothing of the record differs from the default. -/
structure BlankLog (lr : LogView) : Prop where
  timestamp : lr.timestamp.getD 0 = 0
  severity : lr.severity = 0
  severityText : lr.severityText.getD [] = []
  body : lr.body = []
  attrs : lr.attrs = []
  traceId : lr.traceId = none
  spanId : lr.spanId = none

theorem toUInt64_eq_zero {v : UInt32} : v.toUInt64 = 0 ↔ v = 0 := by
  rw [← UInt64.toNat_inj, ← UInt32.toNat_inj]
  rfl

theorem bodyWire_eq_nil {body : Bytes} : bodyWire body = [] ↔ body = [] := by
  cases body <;> simp [bodyWire, nonEmptyStr]

/-- **A blank record** is one that encodes to nothing. -/
theorem logWire_eq_nil {lr : LogView} : message (logWire lr) = [] ↔ BlankLog lr := by
  rw [message_eq_nil]
  simp only [logWire, List.append_eq_nil_iff, omitEmpty_eq_nil, omitZero_eq_nil, omitZero64_eq_nil, optLen_eq_nil,
    keyValues_eq_nil, bodyWire_eq_nil, toUInt64_eq_zero, Option.map_eq_none_iff]
  constructor
  · rintro ⟨⟨⟨⟨⟨⟨ht, hsev⟩, htext⟩, hbody⟩, hattrs⟩, htrace⟩, hspan⟩
    exact ⟨ht, hsev, htext, hbody, hattrs, htrace, hspan⟩
  · rintro ⟨ht, hsev, htext, hbody, hattrs, htrace, hspan⟩
    exact ⟨⟨⟨⟨⟨⟨ht, hsev⟩, htext⟩, hbody⟩, hattrs⟩, htrace⟩, hspan⟩

/-! ### Reading -/

theorem decodeLogRecord_wire {lr : LogView} (hlen : (message (logWire lr)).length < 2 ^ 64) :
    decodeLogRecord (message (logWire lr)) = some (logMsg lr) := by
  have hnumbered : WellNumbered (logWire lr) := by
    by_cases hbody : lr.body = [] <;> simp [logWire, bodyWire, nonEmptyStr, keyValues, hbody]
  have hbody : decodeAnyValue (subMessage 5 (logWire lr)) = some (bodyMsg lr.body) := by
    by_cases hempty : lr.body = []
    · have hlens : lens 5 (logWire lr) = [] := by simp [logWire, bodyWire, nonEmptyStr, keyValues, hempty]
      rw [subMessage, hlens, bodyMsg, if_pos hempty]
      rfl
    · have hlens : lens 5 (logWire lr) = [message (AnyValue.string lr.body).wire] := by
        simp [logWire, bodyWire, nonEmptyStr, keyValues, hempty]
      have hlt := (length_lt_of_mem_lens (n := 5) (by rw [hlens]; exact List.mem_singleton_self _)).trans hlen
      rw [subMessage, hlens, List.flatten_singleton, bodyMsg, if_neg hempty]
      exact decodeAnyValue_wire hlt
  have hattrs : decodeKeyValues 6 (logWire lr) = some lr.attrs := by
    refine decodeKeyValues_eq ?_ hlen
    by_cases hempty : lr.body = [] <;> simp [logWire, bodyWire, nonEmptyStr, keyValues, hempty]
  rw [decodeLogRecord, fields_message hnumbered hlen]
  simp only [Option.bind_eq_bind, Option.bind_some, hbody, hattrs]
  by_cases hempty : lr.body = [] <;>
    simp [logWire, bodyWire, nonEmptyStr, keyValues, hempty, logMsg, idBytes]

/-! ### The records of a request -/

/-- The exporter counts all the records of a request that was answered with a 2xx as sent. `FlightOk` holds in every
state that can be reached. -/
def CountsAll (logs : List Api.LogRecord) : Prop :=
  ∀ (cap : ℕ) (w : World Api.LogRecord cap) (o : HttpOutcome) (now : ℕ), FlightOk w → w.exp.inFlightSignal = .log →
    w.inFlightItems = logs → successStatus o.status = true →
    ((recordOutcome w o now).exp.sig .log).sent = (w.exp.sig .log).sent + logs.length

theorem countsAll (logs : List Api.LogRecord) : CountsAll logs := by
  intro cap w o now hflight hsignal hitems hsuccess
  have hfinal : retries w.exp o.status = false := by
    cases htransient : transient o.status with
    | true =>
      rw [successStatus_of_transient htransient] at hsuccess
      cases hsuccess
    | false => simp [retries, htransient]
  rw [recordOutcome_ended now hfinal, ← hitems, ← hflight.count_eq]
  simp [OtlpExporter.ended, OtlpExporter.tally, hsignal, hsuccess]

theorem decodeLogsRequest {serviceName schemaUrl scopeName scopeVersion : Option Bytes} {attrs : List KeyValue}
    {logs : List LogView} {h h' : Heap} {b b' : PbBuf} (hb : b.bytes = [])
    (hok : otlpEncodeExportLogsServiceRequest serviceName schemaUrl attrs scopeName scopeVersion logs h b =
      (.ok, b', h')) :
    ∃ req, decodeExportRequest decodeLogRecord b'.bytes = some req ∧
      req.items = (logs.filter fun lr => !(message (logWire lr)).isEmpty).map logMsg := by
  obtain ⟨req, hreq, hback⟩ := decodeWritten_of_emits (emits_logsRequest _ _ _ _ _ _)
    (fun _ hlen => decodeLogRecord_wire hlen) hb hok
  exact ⟨req, hreq, hback.items_eq⟩

/-- As many records come back as there are only if none is left out. -/
theorem filter_logs_eq_iff (logs : List Api.LogRecord) :
    (((logs.map (·.view)).filter fun lr => !(message (logWire lr)).isEmpty).map logMsg =
      logs.map fun lr => logMsg lr.view) ↔ ∀ lr ∈ logs, ¬BlankLog lr.view := by
  have hblank : (∀ lr ∈ logs, ¬BlankLog lr.view) ↔
      ∀ v ∈ logs.map (·.view), (!(message (logWire v)).isEmpty) = true := by
    rw [List.forall_mem_map]
    refine forall₂_congr fun lr _ => ?_
    rw [Bool.not_eq_true', Bool.eq_false_iff, Ne, List.isEmpty_iff, logWire_eq_nil]
  rw [hblank]
  constructor
  · intro heq
    have hlength := congrArg List.length heq
    rw [List.length_map, List.length_map, ← List.length_map (f := fun lr : Api.LogRecord => lr.view)] at hlength
    exact List.length_filter_eq_length_iff.1 hlength
  · intro hall
    rw [List.filter_eq_self.2 hall, List.map_map]
    rfl

/-- **Every record comes back**, in order and as it was, and counts as sent, if and only if none is blank. -/
theorem log_records_kept_iff (logs : List Api.LogRecord)
    {serviceName schemaUrl scopeName scopeVersion : Option Bytes} {attrs : List KeyValue} {h h' : Heap} {b b' : PbBuf}
    (hb : b.bytes = [])
    (hok : otlpEncodeExportLogsServiceRequest serviceName schemaUrl attrs scopeName scopeVersion
      (logs.map (·.view)) h b = (.ok, b', h')) :
    ((∃ req, decodeExportRequest decodeLogRecord b'.bytes = some req ∧ req.items = logs.map fun lr => logMsg lr.view) ∧
      CountsAll logs) ↔ ∀ lr ∈ logs, ¬BlankLog lr.view := by
  obtain ⟨req, hreq, hitems⟩ := decodeLogsRequest hb hok
  rw [← filter_logs_eq_iff, ← hitems]
  constructor
  · rintro ⟨⟨req', hreq', hitems'⟩, -⟩
    rw [hreq] at hreq'
    cases hreq'
    exact hitems'
  · intro heq
    exact ⟨⟨req, hreq, heq⟩, countsAll logs⟩

theorem error_created : (otlpLogRecordCreate .granting 17 (some (ascii "disk full"))).1.isSome = true := by
  decide +kernel

theorem blank_created : (otlpLogRecordCreate .granting 0 (some [])).1.isSome = true := by decide +kernel

theorem error_encodes : (otlpEncodeExportLogsServiceRequest none none [] none none
    ([(otlpLogRecordCreate .granting 17 (some (ascii "disk full"))).1.get error_created].map (·.view)) .granting
    .inline).1 = .ok := by decide +kernel

theorem blank_encodes : (otlpEncodeExportLogsServiceRequest none none [] none none
    ([(otlpLogRecordCreate .granting 0 (some [])).1.get blank_created].map (·.view)) .granting .inline).1 = .ok := by
  decide +kernel

theorem log_records_kept_iff_error : ∃ lr h₁ b' h₂,
    otlpLogRecordCreate .granting 17 (some (ascii "disk full")) = (some lr, h₁) ∧
    otlpEncodeExportLogsServiceRequest none none [] none none ([lr].map (·.view)) .granting .inline = (.ok, b', h₂) ∧
    (∃ req, decodeExportRequest decodeLogRecord b'.bytes = some req ∧ req.items = [logMsg lr.view]) ∧
    CountsAll [lr] := by
  have hok := eq_of_ok error_encodes
  refine ⟨_, _, _, _, eq_of_isSome error_created, hok, (log_records_kept_iff _ rfl hok).2 fun lr hlr hblank => ?_⟩
  have hsev := hblank.severity
  rw [List.mem_singleton.1 hlr] at hsev
  exact absurd hsev (by decide +kernel)

/-- A record without a severity and with an empty body is encoded, and the collector gets no record. -/
theorem blank_record_dropped : ∃ lr h₁ b' h₂,
    otlpLogRecordCreate .granting 0 (some []) = (some lr, h₁) ∧
    otlpEncodeExportLogsServiceRequest none none [] none none ([lr].map (·.view)) .granting .inline = (.ok, b', h₂) ∧
    ¬((∃ req, decodeExportRequest decodeLogRecord b'.bytes = some req ∧ req.items = [logMsg lr.view]) ∧
      CountsAll [lr]) := by
  have hok := eq_of_ok blank_encodes
  refine ⟨_, _, _, _, eq_of_isSome blank_created, hok, ?_⟩
  rintro ⟨⟨req, hreq, hitems⟩, -⟩
  obtain ⟨req', hreq', hitems'⟩ := decodeLogsRequest rfl hok
  rw [hreq] at hreq'
  cases hreq'
  rw [hitems] at hitems'
  refine (filter_logs_eq_iff _).1 hitems'.symm _ (List.mem_singleton_self _) ?_
  constructor <;> decide +kernel

end OtlpC.Proto
