import OtlpC.Api.Owned

/-!
# Where identifiers come from

A trace id or span id that is zero is refused by the setters of spans, log records and exemplars and never drawn by a
tracer. A span that was created without a tracer starts with both zero, and a link takes whatever it is given. So what
a span's identifiers are follows from where its history got them.
-/

namespace OtlpC.Api

open Exporter Otlp

/-! ### Spans -/

def SpanCall.givesTraceId : SpanCall → Bool
  | setTraceId (some _) => true
  | _ => false

def SpanCall.givesSpanId : SpanCall → Bool
  | setSpanId (some _) => true
  | _ => false

def SpanCall.linksTo : SpanCall → List (TraceId × SpanId)
  | addLink (some traceId) (some spanId) => [(traceId, spanId)]
  | _ => []

/-- The span has a trace id: from a tracer, from a parent that has one, or from an accepted call. -/
def SpanHistory.hasTraceId : SpanHistory → Bool
  | create _ => false
  | start _ _ _ _ _ => true
  | startChild parent _ _ _ _ => parent.hasTraceId
  | call past c st => past.hasTraceId || (decide (st = .ok) && c.givesTraceId)

def SpanHistory.hasSpanId : SpanHistory → Bool
  | create _ => false
  | start _ _ _ _ _ => true
  | startChild _ _ _ _ _ => true
  | call past c st => past.hasSpanId || (decide (st = .ok) && c.givesSpanId)

/-- The links that were accepted, in order. -/
def SpanHistory.linkIds : SpanHistory → List (TraceId × SpanId)
  | create _ | start _ _ _ _ _ | startChild _ _ _ _ _ => []
  | call past c st => if st = .ok then past.linkIds ++ c.linksTo else past.linkIds

/-- The span got both identifiers, and no accepted link has a zero one. -/
structure SpanHistory.Identified (hist : SpanHistory) : Prop where
  traceId : hist.hasTraceId = true
  spanId : hist.hasSpanId = true
  links : ∀ l ∈ hist.linkIds, otlpIdIsAllZero l.1 = false ∧ otlpIdIsAllZero l.2 = false

theorem SpanView.accept_traceId (v : SpanView) {c : SpanCall} (hc : c.givesTraceId = false) :
    (v.accept c).traceId = v.traceId := by
  cases c with
  | setTraceId id =>
    cases id with
    | none => rfl
    | some id => cases hc
  | _ => rfl

theorem SpanView.accept_spanId (v : SpanView) {c : SpanCall} (hc : c.givesSpanId = false) :
    (v.accept c).spanId = v.spanId := by
  cases c with
  | setSpanId id =>
    cases id with
    | none => rfl
    | some id => cases hc
  | _ => rfl

section Accepted

variable {h : Heap} {s : Span}

theorem accept_traceId_of_accepted {c : SpanCall} (hok : (c.run h s).1 = .ok) (hc : c.givesTraceId = true)
    (v : SpanView) : otlpIdIsAllZero (v.accept c).traceId = false := by
  unfold SpanCall.givesTraceId at hc
  split at hc
  · next id =>
    rw [SpanCall.run, otlpSpanSetTraceId] at hok
    split at hok
    · cases hok
    · next hzero => exact Bool.eq_false_iff.2 hzero
  · cases hc

theorem accept_spanId_of_accepted {c : SpanCall} (hok : (c.run h s).1 = .ok) (hc : c.givesSpanId = true)
    (v : SpanView) : otlpIdIsAllZero (v.accept c).spanId = false := by
  unfold SpanCall.givesSpanId at hc
  split at hc
  · next id =>
    rw [SpanCall.run, otlpSpanSetSpanId] at hok
    split at hok
    · cases hok
    · next hzero => exact Bool.eq_false_iff.2 hzero
  · cases hc

theorem apply_id_eq {n : ℕ} {get : SpanView → Vector UInt8 n} {gives : SpanCall → Bool}
    (hkeep : ∀ (v : SpanView) {c : SpanCall}, gives c = false → get (v.accept c) = get v)
    (hgive : ∀ {c : SpanCall}, (c.run h s).1 = .ok → gives c = true →
      ∀ v : SpanView, otlpIdIsAllZero (get (v.accept c)) = false)
    {v : SpanView} {had : Bool} (hv : otlpIdIsAllZero (get v) = !had) {c : SpanCall} {st : OtlpStatus}
    (hc : (c.run h s).1 = st) :
    otlpIdIsAllZero (get (v.apply c st)) = !(had || (decide (st = .ok) && gives c)) := by
  rw [SpanView.apply]
  by_cases hst : st = .ok
  · rw [if_pos hst, decide_eq_true hst, Bool.true_and]
    cases hgives : gives c with
    | false => rw [hkeep v hgives, hv, Bool.or_false]
    | true => rw [hgive (hc.trans hst) hgives v, Bool.or_true, Bool.not_true]
  · rw [if_neg hst, decide_eq_false hst, Bool.false_and, Bool.or_false, hv]

theorem parentSpanId_of_accepted {id : SpanId} (hok : ((SpanCall.setParentSpanId (some id)).run h s).1 = .ok) :
    otlpIdIsAllZero id = false := by
  rw [SpanCall.run, otlpSpanSetParentSpanId] at hok
  split at hok
  · cases hok
  · next hzero => exact Bool.eq_false_iff.2 hzero

theorem linksTo_of_accepted {traceId : Option TraceId} {spanId : Option SpanId}
    (hok : ((SpanCall.addLink traceId spanId).run h s).1 = .ok) :
    (SpanCall.addLink traceId spanId).linksTo = [(traceId.getD zeroTraceId, spanId.getD zeroSpanId)] := by
  cases traceId with
  | none => cases hok
  | some traceId =>
    cases spanId with
    | none => cases hok
    | some spanId => rfl

end Accepted

def SpanView.linkIds (v : SpanView) : List (TraceId × SpanId) := v.links.map fun l => (l.traceId, l.spanId)

theorem SpanView.accept_linkIds {h : Heap} {s : Span} {c : SpanCall} (hok : (c.run h s).1 = .ok) (v : SpanView) :
    (v.accept c).linkIds = v.linkIds ++ c.linksTo := by
  cases c with
  | addLink traceId spanId =>
    rw [linksTo_of_accepted hok]
    exact List.map_append
  | setLinkAttribute key arg =>
    have hmap := @map_modify LinkView (TraceId × SpanId) (fun l => (l.traceId, l.spanId))
      (fun l => { l with attrs := upsert (key.getD []) arg.any l.attrs }) id (fun _ => rfl) v.links (v.links.length - 1)
    exact (hmap.trans (List.modify_id _ _)).trans (List.append_nil _).symm
  | _ => exact (List.append_nil _).symm

theorem zeroTraceId_isAllZero : otlpIdIsAllZero zeroTraceId = true := by decide

theorem zeroSpanId_isAllZero : otlpIdIsAllZero zeroSpanId = true := by decide

section Built

variable {hist : SpanHistory} {h : Heap} {s : Span}

/-- **A span's trace id is zero** until its history gets one. -/
theorem SpanBuilt.traceId_eq (hs : SpanBuilt hist h s) : otlpIdIsAllZero hist.view.traceId = !hist.hasTraceId := by
  induction hs with
  | create hs => exact zeroTraceId_isAllZero
  | start hs => exact (otlpTracerStartSpan_some hs).2.2.1
  | startChild hp hs ih => exact ih
  | call hs hc ih =>
    exact apply_id_eq SpanView.accept_traceId accept_traceId_of_accepted ih (congrArg Prod.fst hc)
  | meanwhile hs hle ih => exact ih

/-- **Its span id** as well. -/
theorem SpanBuilt.spanId_eq (hs : SpanBuilt hist h s) : otlpIdIsAllZero hist.view.spanId = !hist.hasSpanId := by
  induction hs with
  | create hs => exact zeroSpanId_isAllZero
  | start hs => exact (otlpTracerStartSpan_some hs).2.2.2
  | startChild hp hs ih => exact (otlpTracerStartChildSpan_some hs).2.2
  | call hs hc ih =>
    exact apply_id_eq SpanView.accept_spanId accept_spanId_of_accepted ih (congrArg Prod.fst hc)
  | meanwhile hs hle ih => exact ih

/-- **A parent** is never zero. -/
theorem SpanBuilt.parentSpanId_ne_zero (hs : SpanBuilt hist h s) :
    ∀ id ∈ hist.view.parentSpanId, otlpIdIsAllZero id = false := by
  induction hs with
  | create hs => exact fun id hid => nomatch hid
  | start hs => exact fun id hid => nomatch hid
  | @startChild parent h h' p s t t' name now hp hs ih =>
    intro id hid
    change id ∈ (if otlpIdIsAllZero parent.view.spanId then none else some parent.view.spanId) at hid
    split at hid
    · cases hid
    · next hzero =>
      cases hid
      exact Bool.eq_false_iff.2 hzero
  | @call past h h' s s' c st hs hc ih =>
    rw [SpanHistory.view, SpanView.apply]
    split
    · next hst =>
      cases c with
      | setParentSpanId parent =>
        intro id hid
        obtain rfl : parent = some id := hid
        exact parentSpanId_of_accepted ((congrArg Prod.fst hc).trans hst)
      | _ => exact ih
    · exact ih
  | meanwhile hs hle ih => exact ih

/-- **The links** are those that were accepted. -/
theorem SpanBuilt.linkIds_eq (hs : SpanBuilt hist h s) : hist.view.linkIds = hist.linkIds := by
  induction hs with
  | create hs => rfl
  | start hs => rfl
  | startChild hp hs ih => rfl
  | @call past h h' s s' c st hs hc ih =>
    rw [SpanHistory.view, SpanHistory.linkIds, SpanView.apply]
    by_cases hst : st = .ok
    · rw [if_pos hst, if_pos hst, SpanView.accept_linkIds ((congrArg Prod.fst hc).trans hst), ih]
    · rw [if_neg hst, if_neg hst, ih]
  | meanwhile hs hle ih => exact ih

end Built

/-! ### Log records and exemplars -/

/-- The identifiers that are there are not zero. -/
structure IdsNonzero (traceId : Option TraceId) (spanId : Option SpanId) : Prop where
  traceId : ∀ id ∈ traceId, otlpIdIsAllZero id = false
  spanId : ∀ id ∈ spanId, otlpIdIsAllZero id = false

theorem idsNonzero_none : IdsNonzero none none := ⟨fun _ hid => (nomatch hid), fun _ hid => (nomatch hid)⟩

theorem LogCall.run_ids {h : Heap} {lr : LogRecord} (hlr : IdsNonzero lr.view.traceId lr.view.spanId) (c : LogCall) :
    IdsNonzero (c.run h lr).2.1.view.traceId (c.run h lr).2.1.view.spanId := by
  cases c with
  | setTimestamp t => exact hlr
  | markTimestamp now => cases now <;> exact hlr
  | setTraceId id =>
    cases id with
    | none => exact hlr
    | some id =>
      rw [run, otlpLogRecordSetTraceId]
      split
      · exact hlr
      · next hzero =>
        refine ⟨fun id' hid => ?_, hlr.spanId⟩
        cases hid
        exact Bool.eq_false_iff.2 hzero
  | setSpanId id =>
    cases id with
    | none => exact hlr
    | some id =>
      rw [run, otlpLogRecordSetSpanId]
      split
      · exact hlr
      · next hzero =>
        refine ⟨hlr.traceId, fun id' hid => ?_⟩
        cases hid
        exact Bool.eq_false_iff.2 hzero
  | setSeverityText text =>
    rw [run, otlpLogRecordSetSeverityText]
    split
    · exact hlr
    · dsimp only
      split <;> exact hlr
  | setAttribute key arg => exact hlr

/-- **A log record's identifiers** are not zero. -/
theorem LogBuilt.ids {h : Heap} {lr : LogRecord} (hlr : LogBuilt h lr) :
    IdsNonzero lr.view.traceId lr.view.spanId := by
  induction hlr with
  | create hlr =>
    rw [(otlpLogRecordCreate_some hlr).2.2]
    exact idsNonzero_none
  | later hlr hlife ih =>
    cases hlife with
    | call c => exact c.run_ids ih
    | meanwhile hle => exact ih

inductive ExemplarBuilt : Exemplar → Prop where
  | create {h h' : Heap} {ex : Exemplar} (hex : otlpExemplarCreate h = (some ex, h')) : ExemplarBuilt ex
  | call {ex : Exemplar} (hex : ExemplarBuilt ex) (c : ExemplarCall) : ExemplarBuilt (c.run ex).2
  | clone {h h' : Heap} {ex ex' : Exemplar} (hex : ExemplarBuilt ex)
      (hclone : otlpExemplarClone h ex = (some ex', h')) : ExemplarBuilt ex'

/-- The trace id is stored before the span id is looked at; both are checked. -/
theorem otlpExemplarSetTraceContext_ids {ex : Exemplar} (hex : IdsNonzero ex.view.traceId ex.view.spanId)
    (traceId : Option TraceId) (spanId : Option SpanId) :
    IdsNonzero (otlpExemplarSetTraceContext ex traceId spanId).2.view.traceId
      (otlpExemplarSetTraceContext ex traceId spanId).2.view.spanId := by
  have htrace : traceId.any otlpIdIsAllZero = false → ∀ id ∈ (if (ex.hasTrace || traceId.isSome) = true then
      some (traceId.getD ex.traceId) else none), otlpIdIsAllZero id = false := by
    intro hchecked id hid
    cases traceId with
    | none =>
      rw [Option.isSome_none, Bool.or_false] at hid
      exact hex.traceId id hid
    | some traceId =>
      rw [Option.isSome_some, Bool.or_true, if_pos rfl] at hid
      cases hid
      exact hchecked
  unfold otlpExemplarSetTraceContext
  split
  · exact hex
  next hchecked =>
  have htrace := htrace (Bool.eq_false_iff.2 hchecked)
  dsimp only
  split
  · exact ⟨htrace, hex.spanId⟩
  next hspan =>
  refine ⟨htrace, fun id hid => ?_⟩
  cases spanId with
  | none =>
    change id ∈ (if (ex.hasSpan || false) = true then some ex.spanId else none) at hid
    rw [Bool.or_false] at hid
    exact hex.spanId id hid
  | some spanId =>
    change id ∈ (if (ex.hasSpan || true) = true then some spanId else none) at hid
    rw [Bool.or_true, if_pos rfl] at hid
    cases hid
    exact Bool.eq_false_iff.2 hspan

/-- **An exemplar's identifiers** are not zero. -/
theorem ExemplarBuilt.ids {ex : Exemplar} (hex : ExemplarBuilt ex) :
    IdsNonzero ex.view.traceId ex.view.spanId := by
  induction hex with
  | create hex =>
    unfold otlpExemplarCreate at hex
    split at hex
    · cases (Prod.mk.inj hex).1
    · cases hex
      exact idsNonzero_none
  | call hex c ih =>
    cases c with
    | setDoubleValue v => exact ih
    | setIntValue v => exact ih
    | setTraceContext traceId spanId => exact otlpExemplarSetTraceContext_ids ih traceId spanId
    | markTime now => cases now <;> exact ih
    | setTimestamp t => exact ih
  | clone hex hclone ih =>
    unfold otlpExemplarClone at hclone
    split at hclone
    · cases (Prod.mk.inj hclone).1
    · cases hclone
      exact ih

end OtlpC.Api
