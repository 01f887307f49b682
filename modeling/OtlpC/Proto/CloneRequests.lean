import OtlpC.Api.Clones
import OtlpC.Proto.LogReading
import OtlpC.Proto.MetricRoundTrip
import OtlpC.Proto.TraceRoundTrip

/-!
# A clone is sent as its original

An emit that copies sends the same bytes as one that takes the object over: the encoders read of the clone what they
read of the original, and nothing that happens to the original afterwards touches a block of the clone.
-/

namespace OtlpC.Proto

open Api Proto3 Otlp

/-! ### Requests -/

/-- A batch with a place in it, and the resource of the exporter that sends it. -/
structure Batch (β : Type) where
  before : List β
  after : List β
  serviceName : Option Bytes
  schemaUrl : Option Bytes
  attrs : List KeyValue

def spanRequest (b : Batch SpanView) (s : Api.Span) : Enc :=
  otlpEncodeExportTraceServiceRequest b.serviceName b.schemaUrl b.attrs none none (b.before ++ s.view :: b.after)

def metricRequest (b : Batch MetricView) (m : Api.Metric) : Enc :=
  otlpEncodeExportMetricsServiceRequest b.serviceName b.schemaUrl b.attrs none none (b.before ++ m.view :: b.after)

def logRequest (b : Batch LogView) (lr : Api.LogRecord) : Enc :=
  otlpEncodeExportLogsServiceRequest b.serviceName b.schemaUrl b.attrs none none (b.before ++ lr.view :: b.after)

theorem spanRequest_congr (b : Batch SpanView) {s s' : Api.Span} (hview : s'.view = s.view) :
    spanRequest b s' = spanRequest b s := by
  rw [spanRequest, hview, spanRequest]

theorem metricRequest_congr (b : Batch MetricView) {m m' : Api.Metric} (hview : m'.view = m.view) :
    metricRequest b m' = metricRequest b m := by
  rw [metricRequest, hview, metricRequest]

theorem logRequest_congr (b : Batch LogView) {lr lr' : Api.LogRecord} (hview : lr'.view = lr.view) :
    logRequest b lr' = logRequest b lr := by
  rw [logRequest, hview, logRequest]

/-! ### Clones -/

/-- There is a clone `y` of `x`, it encodes as `x` does in every batch, and for as long as `x` lives, through any calls
and until it is freed, it owns no block of `y`. -/
def StandsFor {α β κ : Type} (leaves : α → List Leaf) (run : Heap → α → κ → OtlpStatus × α × Heap)
    (request : Batch β → α → Enc) (x : α) (res : Option α × Heap) : Prop :=
  ∃ y, res.1 = some y ∧ (∀ b, request b y = request b x) ∧
    ∀ k x', Life run (res.2, x) (k, x') → ∀ l ∈ leaves y, ∀ l' ∈ leaves x', l.block ≠ l'.block

theorem standsFor_of_clones {α β γ κ : Type} {leaves : α → List Leaf} {read : α → γ}
    {run : Heap → α → κ → OtlpStatus × α × Heap} {request : Batch β → α → Enc} {h : Heap} {x : α}
    {res : Option α × Heap} (hclones : Clones leaves read h (read x) res) (howns : Owns h (leaves x))
    (hrun : ∀ h x c, Grows h (leaves x) (run h x c).2.2 (leaves (run h x c).2.1))
    (hrequest : ∀ b {x y}, read y = read x → request b y = request b x) (hgranted : res.2.refused = h.refused) :
    StandsFor leaves run request x res := by
  obtain ⟨_ | y, h'⟩ := res
  · exact absurd (hclones.refused rfl) (by rw [hgranted]; exact lt_irrefl _)
  · exact ⟨y, rfl, fun b => hrequest b (hclones.read_eq y rfl), fun k x' hlife => hclones.apart howns hrun hlife⟩

/-- **Copying emit and moving emit send the same bytes.** When no allocation of the clone is refused, the clone of a
span, of a metric and of a log record that a program built exists, encodes to what the original encodes to, in every
batch and for every exporter, and shares no memory with it, now and later. -/
theorem clone_sent_as_original (fp : Fp) :
    (∀ {hist : SpanHistory} {h : Heap} {s : Api.Span}, SpanBuilt hist h s →
      (otlpSpanClone h s).2.refused = h.refused →
      StandsFor Span.leaves SpanCall.run spanRequest s (otlpSpanClone h s)) ∧
    (∀ {exs : List Api.Exemplar} {h : Heap} {m : Api.Metric}, MetricBuilt fp exs h m →
      (otlpMetricClone h m).2.refused = h.refused →
      StandsFor Metric.leaves (MetricCall.run fp) metricRequest m (otlpMetricClone h m)) ∧
    (∀ {h : Heap} {lr : Api.LogRecord}, LogBuilt h lr → (otlpLogRecordClone h lr).2.refused = h.refused →
      StandsFor LogRecord.leaves LogCall.run logRequest lr (otlpLogRecordClone h lr)) := by
  refine ⟨fun {hist h s} hs hgranted => ?_, fun {exs h m} hm hgranted => ?_, fun {h lr} hlr hgranted => ?_⟩
  · have hclones := clones_otlpSpanClone h fun l hl => (hs.owns l hl).2
    exact standsFor_of_clones hclones hs.owns (fun h s c => (c.run_spec h s).parts.grows) spanRequest_congr hgranted
  · exact standsFor_of_clones (clones_otlpMetricClone h m) hm.owns (fun h m c => c.run_grows fp h m)
      (fun b _ _ hread => metricRequest_congr b (Prod.mk.inj hread).1) hgranted
  · exact standsFor_of_clones (clones_otlpLogRecordClone h lr) hlr.owns (fun h lr c => c.run_grows h lr)
      logRequest_congr hgranted

/-- A span with an event, a gauge with an exemplar and a log record. -/
theorem clone_sent_as_original_granted :
    StandsFor Span.leaves SpanCall.run spanRequest (spanWithEvent (ascii "retry") 1).span
      (otlpSpanClone (spanWithEvent (ascii "retry") 1).heap (spanWithEvent (ascii "retry") 1).span) ∧
    StandsFor Metric.leaves (MetricCall.run .trivial) metricRequest gaugeWithExemplar.metric
      (otlpMetricClone gaugeWithExemplar.heap gaugeWithExemplar.metric) ∧
    StandsFor LogRecord.leaves LogCall.run logRequest
      ((otlpLogRecordCreate .granting 17 (some (ascii "disk full"))).1.get error_created)
      (otlpLogRecordClone (otlpLogRecordCreate .granting 17 (some (ascii "disk full"))).2
        ((otlpLogRecordCreate .granting 17 (some (ascii "disk full"))).1.get error_created)) :=
  ⟨(clone_sent_as_original .trivial).1 (spanWithEvent (ascii "retry") 1).built (by decide +kernel),
    (clone_sent_as_original .trivial).2.1 gaugeWithExemplar.built (by decide +kernel),
    (clone_sent_as_original .trivial).2.2 (.create (eq_of_isSome error_created)) (by decide +kernel)⟩

end OtlpC.Proto
