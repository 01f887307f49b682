import OtlpC.Api.Tracer

/-!
# Spans that a program builds

A span comes from `otlp_span_create` or from a tracer, and then goes through calls of the public API, accepted
or not, with anything else that takes memory in between. What it reads as follows from the calls alone.
-/

namespace OtlpC.Api

open Exporter Otlp

/-- How a span came about. The identifiers that a tracer drew, its decision on sampling and the reading of the
clock are part of it. -/
inductive SpanHistory where
  | create (name : Option Bytes)
  | start (name : Option Bytes) (traceId : TraceId) (spanId : SpanId) (sampled : Bool) (now : Option UInt64)
  | startChild (parent : SpanHistory) (name : Option Bytes) (spanId : SpanId) (sampled : Bool)
    (now : Option UInt64)
  | call (past : SpanHistory) (c : SpanCall) (st : OtlpStatus)

def SpanHistory.view : SpanHistory → SpanView
  | create name => .new (name.getD [])
  | start name traceId spanId sampled now =>
    { SpanView.new (name.getD []) with traceId, spanId, sampled, startTime := now }
  | startChild parent name spanId sampled now =>
    { SpanView.new (name.getD []) with
      traceId := parent.view.traceId
      parentSpanId := if otlpIdIsAllZero parent.view.spanId then none else some parent.view.spanId
      spanId
      sampled
      startTime := now }
  | call past c st => past.view.apply c st

/-- The span was built as the history says, up to the given state of the allocator. -/
inductive SpanBuilt : SpanHistory → Heap → Span → Prop where
  | create {h h' : Heap} {name : Option Bytes} {s : Span} (hs : otlpSpanCreate h name = (some s, h')) :
      SpanBuilt (.create name) h' s
  | start {h h' : Heap} {t t' : Tracer} {name : Option Bytes} {now : Option UInt64} {s : Span}
      (hs : otlpTracerStartSpan h t name now = (some s, t', h')) :
      SpanBuilt (.start name s.traceId s.spanId s.sampled now) h' s
  | startChild {parent : SpanHistory} {h h' : Heap} {p s : Span} {t t' : Tracer} {name : Option Bytes}
      {now : Option UInt64} (hp : SpanBuilt parent h p)
      (hs : otlpTracerStartChildSpan h t name (some p) now = (some s, t', h')) :
      SpanBuilt (.startChild parent name s.spanId s.sampled now) h' s
  | call {past : SpanHistory} {h h' : Heap} {s s' : Span} {c : SpanCall} {st : OtlpStatus}
      (hs : SpanBuilt past h s) (hc : c.run h s = (st, s', h')) : SpanBuilt (.call past c st) h' s'
  | meanwhile {past : SpanHistory} {h h' : Heap} {s : Span} (hs : SpanBuilt past h s) (hle : h.Le h') :
      SpanBuilt past h' s

/-! ### Spans that a tracer starts -/

theorem startSpanSample_some {sampler : Option Sampler} {span s : Span} {name : Option Bytes}
    (hs : startSpanSample sampler span name = some s) : ∃ sampled, s = (otlpSpanSetSampled span sampled).2 := by
  unfold startSpanSample at hs
  dsimp only at hs
  split at hs
  · cases hs
  · exact ⟨_, (Option.some.inj hs).symm⟩

theorem startSpanInternal_some {h h' : Heap} {t t' : Tracer} {name : Option Bytes} {parent : Option Span}
    {now : Option UInt64} {s : Span} (hs : startSpanInternal h t name parent now = (some s, t', h')) :
    ∃ (span : Span) (sampled : Bool), otlpSpanCreate h name = (some span, h') ∧
      s = (otlpSpanMarkStart (otlpSpanSetSampled ((startSpanTrace t.prngState span parent).1.writeSpanId
        (fillRandomBytes (startSpanTrace t.prngState span parent).2 1).1) sampled).2 now).2 := by
  rcases hcreate : otlpSpanCreate h name with ⟨_ | span, h₁⟩
  · rw [startSpanInternal, hcreate] at hs
    cases (Prod.mk.inj hs).1
  · rw [startSpanInternal, hcreate] at hs
    dsimp only at hs
    split at hs
    · cases (Prod.mk.inj hs).1
    · next span' hsample =>
      obtain ⟨hspan, hrest⟩ := Prod.mk.inj hs
      obtain ⟨-, rfl⟩ := Prod.mk.inj hrest
      obtain ⟨sampled, rfl⟩ := startSpanSample_some hsample
      exact ⟨span, sampled, rfl, (Option.some.inj hspan).symm⟩

theorem Span.writeTraceId_leaves (span : Span) (traceId : TraceId) :
    (span.writeTraceId traceId).leaves = span.leaves := rfl

theorem Span.writeTraceId_view (span : Span) (traceId : TraceId) :
    (span.writeTraceId traceId).view = { span.view with traceId } := rfl

theorem Span.writeSpanId_leaves (span : Span) (spanId : SpanId) :
    (span.writeSpanId spanId).leaves = span.leaves := rfl

theorem startSpanTrace_leaves (prng : PrngState) (span : Span) (parent : Option Span) :
    (startSpanTrace prng span parent).1.leaves = span.leaves := by
  cases parent with
  | none => exact span.writeTraceId_leaves _
  | some p =>
    rw [startSpanTrace, otlpSpanSetParentSpanId]
    split <;> rfl

theorem otlpSpanMarkStart_leaves (span : Span) (now : Option UInt64) :
    (otlpSpanMarkStart span now).2.leaves = span.leaves := by
  cases now <;> rfl

theorem view_started {span : Span} (hspan : span.view.startTime = none) (spanId : SpanId) (sampled : Bool)
    (now : Option UInt64) :
    (otlpSpanMarkStart (otlpSpanSetSampled (span.writeSpanId spanId) sampled).2 now).2.view =
      { span.view with spanId, sampled, startTime := now } := by
  cases now with
  | none => exact congrArg (fun startTime => { span.view with spanId, sampled, startTime }) hspan
  | some t => rfl

theorem view_startSpanTrace_child (prng : PrngState) {span : Span} (hspan : span.view.parentSpanId = none) (p : Span) :
    (startSpanTrace prng span (some p)).1.view = { span.view with
      traceId := p.traceId
      parentSpanId := if otlpIdIsAllZero p.spanId then none else some p.spanId } := by
  rw [startSpanTrace, otlpSpanSetParentSpanId]
  split
  · exact congrArg (fun parentSpanId => { span.view with traceId := p.traceId, parentSpanId }) hspan
  · rfl

theorem started {h h' : Heap} {prng : PrngState} {name : Option Bytes} {span : Span} {parent : Option Span}
    {now : Option UInt64} {sampled : Bool} {spanId : SpanId} (hcreate : otlpSpanCreate h name = (some span, h'))
    {s : Span} (hs : s = (otlpSpanMarkStart (otlpSpanSetSampled
      ((startSpanTrace prng span parent).1.writeSpanId spanId) sampled).2 now).2) :
    h.Le h' ∧ ∀ l ∈ s.leaves, l.Fresh h h' ∧ l.Valid := by
  obtain ⟨hle, hleaves, -⟩ := otlpSpanCreate_some hcreate
  have hsame : s.leaves = span.leaves := by
    rw [hs, otlpSpanMarkStart_leaves]
    exact (Span.writeSpanId_leaves _ spanId).trans (startSpanTrace_leaves prng span parent)
  exact ⟨hle, hsame ▸ hleaves⟩

/-- **`otlp_tracer_start_span`** returns a span with identifiers that are not zero. -/
theorem otlpTracerStartSpan_some {h h' : Heap} {t t' : Tracer} {name : Option Bytes} {now : Option UInt64} {s : Span}
    (hs : otlpTracerStartSpan h t name now = (some s, t', h')) :
    (h.Le h' ∧ ∀ l ∈ s.leaves, l.Fresh h h' ∧ l.Valid) ∧
    s.view = (SpanHistory.start name s.traceId s.spanId s.sampled now).view ∧
    otlpIdIsAllZero s.traceId = false ∧ otlpIdIsAllZero s.spanId = false := by
  obtain ⟨span, sampled, hcreate, hs⟩ := startSpanInternal_some hs
  have hnew := (otlpSpanCreate_some hcreate).2.2
  have hview : s.view = { SpanView.new (name.getD []) with
      traceId := (fillRandomBytes t.prngState 2).1
      spanId := (fillRandomBytes (fillRandomBytes t.prngState 2).2 1).1
      sampled
      startTime := now } := by
    rw [hs, startSpanTrace]
    dsimp only
    have hstart : (span.writeTraceId (fillRandomBytes t.prngState 2).1).view.startTime = none :=
      congrArg SpanView.startTime hnew
    rw [view_started hstart, Span.writeTraceId_view, hnew]
  have htrace : s.traceId = (fillRandomBytes t.prngState 2).1 := congrArg SpanView.traceId hview
  have hspan : s.spanId = (fillRandomBytes (fillRandomBytes t.prngState 2).2 1).1 := congrArg SpanView.spanId hview
  have hsampled : s.sampled = sampled := congrArg SpanView.sampled hview
  refine ⟨started hcreate hs, ?_, ?_, ?_⟩
  · rw [htrace, hspan, hsampled]
    exact hview
  · rw [htrace]
    exact fillRandomBytes_ne_zero t.prngState 1
  · rw [hspan]
    exact fillRandomBytes_ne_zero _ 0

/-- **`otlp_tracer_start_child_span`** takes over the trace id as it is, and the span id unless it is zero. -/
theorem otlpTracerStartChildSpan_some {h h' : Heap} {t t' : Tracer} {name : Option Bytes} {p : Span}
    {now : Option UInt64} {s : Span}
    (hs : otlpTracerStartChildSpan h t name (some p) now = (some s, t', h')) :
    (h.Le h' ∧ ∀ l ∈ s.leaves, l.Fresh h h' ∧ l.Valid) ∧
    s.view = { SpanView.new (name.getD []) with
      traceId := p.traceId
      parentSpanId := if otlpIdIsAllZero p.spanId then none else some p.spanId
      spanId := s.spanId
      sampled := s.sampled
      startTime := now } ∧
    otlpIdIsAllZero s.spanId = false := by
  obtain ⟨span, sampled, hcreate, hs⟩ := startSpanInternal_some hs
  have hnew := (otlpSpanCreate_some hcreate).2.2
  have htrace := view_startSpanTrace_child t.prngState (congrArg SpanView.parentSpanId hnew) p
  have hview := congrArg Span.view hs
  rw [view_started (by rw [htrace, hnew]; rfl), htrace, hnew] at hview
  have hspan : s.spanId = (fillRandomBytes t.prngState 1).1 := congrArg SpanView.spanId hview
  have hsampled : s.sampled = sampled := congrArg SpanView.sampled hview
  refine ⟨started hcreate hs, ?_, ?_⟩
  · rw [hspan, hsampled]
    exact hview
  · rw [hspan]
    exact fillRandomBytes_ne_zero t.prngState 0

/-! ### Runs -/

section Runs

variable {hist : SpanHistory} {h : Heap} {s : Span}

/-- **What a span reads as** follows from its history. -/
theorem SpanBuilt.view_eq (hs : SpanBuilt hist h s) : s.view = hist.view := by
  induction hs with
  | create hs => exact (otlpSpanCreate_some hs).2.2
  | start hs => exact (otlpTracerStartSpan_some hs).2.1
  | startChild hp hs ih =>
    rw [SpanHistory.view, ← ih]
    exact (otlpTracerStartChildSpan_some hs).2.1
  | @call past h h' s s' c st hs hc ih =>
    have hspec := (c.run_spec h s).view_eq
    rw [hc] at hspec
    rw [SpanHistory.view, ← ih]
    exact hspec
  | meanwhile hs hle ih => exact ih

/-- **What a span owns** was allocated before, and the text in it is valid. -/
theorem SpanBuilt.owns (hs : SpanBuilt hist h s) : Owns h s.leaves := by
  induction hs with
  | create hs => exact .of_fresh (otlpSpanCreate_some hs).2.1
  | start hs => exact .of_fresh (otlpTracerStartSpan_some hs).1.2
  | startChild hp hs ih => exact .of_fresh (otlpTracerStartChildSpan_some hs).1.2
  | @call past h h' s s' c st hs hc ih =>
    have hgrows := (c.run_spec h s).parts.grows
    rw [hc] at hgrows
    exact ih.grows hgrows
  | meanwhile hs hle ih => exact ih.grows (.of_le hle _)

end Runs

end OtlpC.Api
