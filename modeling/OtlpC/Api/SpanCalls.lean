import OtlpC.Api.Span

/-!
# What the calls do to a span

A call that is accepted does what it says to what the encoder reads, a call that fails does nothing; and
whatever a call does, the span owns what it owned before or memory allocated since, with valid text in it.
-/

namespace OtlpC.Api

open Exporter Otlp

/-! ### Memory -/

theorem Span.mem_leaves {s : Span} {l : Leaf} : l ∈ s.leaves ↔ l = blockLeaf s.block ∨ l = s.name.leaf ∨
    l ∈ strLeaves s.statusMessage ∨ l ∈ strLeaves s.traceState ∨ l ∈ s.events.leaves Event.leaves ∨
    l ∈ s.links.leaves Link.leaves ∨ l ∈ attrLeaves s.attrs := by
  simp only [Span.leaves, List.mem_cons, List.mem_append, or_assoc]

/-- The parts of a span that own memory, each with what it may turn into. -/
structure Span.PartsGrow (h : Heap) (s : Span) (h' : Heap) (s' : Span) : Prop where
  le : h.Le h'
  block_eq : s'.block = s.block
  name : Grows h [s.name.leaf] h' [s'.name.leaf]
  statusMessage : Grows h (strLeaves s.statusMessage) h' (strLeaves s'.statusMessage)
  traceState : Grows h (strLeaves s.traceState) h' (strLeaves s'.traceState)
  events : Grows h (s.events.leaves Event.leaves) h' (s'.events.leaves Event.leaves)
  links : Grows h (s.links.leaves Link.leaves) h' (s'.links.leaves Link.leaves)
  attrs : Grows h (attrLeaves s.attrs) h' (attrLeaves s'.attrs)

theorem Span.PartsGrow.grows {h h' : Heap} {s s' : Span} (hparts : s.PartsGrow h h' s') :
    Grows h s.leaves h' s'.leaves := by
  refine ⟨hparts.le, fun l hl => ?_⟩
  rw [Span.mem_leaves] at hl ⊢
  rcases hl with hl | hl | hl | hl | hl | hl | hl
  · exact .inl (.inl (by rw [hl, hparts.block_eq]))
  · exact (hparts.name.mem l (by simpa using hl)).imp (fun hl => .inr (.inl (by simpa using hl))) id
  · exact (hparts.statusMessage.mem l hl).imp (fun hl => .inr (.inr (.inl hl))) id
  · exact (hparts.traceState.mem l hl).imp (fun hl => .inr (.inr (.inr (.inl hl)))) id
  · exact (hparts.events.mem l hl).imp (fun hl => .inr (.inr (.inr (.inr (.inl hl))))) id
  · exact (hparts.links.mem l hl).imp (fun hl => .inr (.inr (.inr (.inr (.inr (.inl hl)))))) id
  · exact (hparts.attrs.mem l hl).imp (fun hl => .inr (.inr (.inr (.inr (.inr (.inr hl)))))) id

theorem Span.PartsGrow.of_le {h h' : Heap} (hle : h.Le h') (s : Span) : s.PartsGrow h h' s :=
  ⟨hle, rfl, .of_le hle _, .of_le hle _, .of_le hle _, .of_le hle _, .of_le hle _, .of_le hle _⟩

theorem grows_dupStr {h h' : Heap} {s : Bytes} {c : HeapStr} (hdup : otlpDupStr h (some s) = (some c, h'))
    (hutf8 : otlpStrIsUtf8 s = true) (ls : List Leaf) : Grows h ls h' [c.leaf] := by
  have hle := otlpDupStr_le h (some s)
  rw [hdup] at hle
  obtain ⟨htext, hfresh⟩ := otlpDupStr_some hdup
  refine ⟨hle, fun l hl => .inr ?_⟩
  obtain rfl : l = c.leaf := by simpa using hl
  refine ⟨hfresh, fun t ht => ?_⟩
  cases ht
  rwa [← Option.some.inj htext]

theorem grows_nil {h h' : Heap} (hle : h.Le h') (ls : List Leaf) : Grows h ls h' [] :=
  ⟨hle, fun _ hl => absurd hl List.not_mem_nil⟩

theorem grows_modify_attrs {α : Type} {size : ℕ} {elem : α → List Leaf} {h h' : Heap} {v : GrowVec α size}
    {i : ℕ} {x : α} {f : α → α} (hx : v.items[i]? = some x) (hgrows : Grows h (elem x) h' (elem (f x))) :
    Grows h (v.leaves elem) h' ((v.modify i f).leaves elem) := by
  refine ⟨hgrows.le, fun l hl => ?_⟩
  rcases GrowVec.mem_leaves_modify hl with hl | ⟨y, hy, hl⟩
  · exact .inl hl
  · obtain rfl : x = y := Option.some.inj (hx.symm.trans hy)
    exact (hgrows.mem l hl).imp (GrowVec.leaves_subset_of_mem (List.mem_of_getElem? hx)) id

theorem getElem?_of_getLast? {α : Type} {xs : List α} {x : α} (h : xs.getLast? = some x) :
    xs[xs.length - 1]? = some x := by
  rw [← List.getLast?_eq_getElem?, h]

/-! ### The view -/

def SpanView.new (name : Bytes) : SpanView where
  name := name
  traceId := zeroTraceId
  spanId := zeroSpanId
  parentSpanId := none
  startTime := none
  endTime := none
  kind := spanKindInternal
  attrs := []
  statusCode := statusCodeUnset
  statusMessage := none
  sampled := true
  traceState := none
  events := []
  links := []

theorem otlpSpanCreate_some {h h' : Heap} {name : Option Bytes} {s : Span}
    (hs : otlpSpanCreate h name = (some s, h')) :
    h.Le h' ∧ (∀ l ∈ s.leaves, l.Fresh h h' ∧ l.Valid) ∧ s.view = SpanView.new (name.getD []) := by
  have hle := otlpMalloc_le h sizeofSpan
  unfold otlpSpanCreate at hs
  split at hs
  · cases (Prod.mk.inj hs).1
  · next c h₁ heq =>
    rw [heq] at hle
    split at hs
    · cases (Prod.mk.inj hs).1
    · next hutf8 =>
      have hle₁ := otlpDupStr_le h₁ (some (name.getD []))
      split at hs
      · cases (Prod.mk.inj hs).1
      · next copy h₂ heq₂ =>
        rw [heq₂] at hle₁
        obtain ⟨hs, rfl⟩ := Prod.mk.inj hs
        cases hs
        have htext := (Option.some.inj (otlpDupStr_some heq₂).1).symm
        have hname := grows_dupStr heq₂ (by simpa [isUtf8] using hutf8) []
        refine ⟨hle.trans hle₁, fun l hl => ?_, ?_⟩
        · rcases Span.mem_leaves.1 hl with hl | hl | hl | hl | hl | hl | hl
          · exact hl ▸ ⟨(otlpMalloc_fresh heq none).mono (.refl h) hle₁, valid_blockLeaf _⟩
          · obtain ⟨hfresh, hvalid⟩ := (hname.mem l (by simpa using hl)).resolve_left List.not_mem_nil
            exact ⟨hfresh.mono hle (.refl _), hvalid⟩
          all_goals exact absurd hl List.not_mem_nil
        · simp [Span.view, SpanView.new, htext, attrKvs, GrowVec.empty]

theorem otlpSpanCreate_le (h : Heap) (name : Option Bytes) : h.Le (otlpSpanCreate h name).2 := by
  have hle := otlpMalloc_le h sizeofSpan
  unfold otlpSpanCreate
  split
  · next heq => rwa [heq] at hle
  · next c h₁ heq =>
    rw [heq] at hle
    split
    · exact hle
    · have hle₁ := otlpDupStr_le h₁ (some (name.getD []))
      split <;> next heq => exact hle.trans (by rwa [heq] at hle₁)

/-- What an accepted call does to what the encoder reads. -/
def SpanView.accept (v : SpanView) : SpanCall → SpanView
  | .setTraceId id => { v with traceId := id.getD v.traceId }
  | .setSpanId id => { v with spanId := id.getD v.spanId }
  | .setParentSpanId id => { v with parentSpanId := id }
  | .setStartTime t => { v with startTime := some t }
  | .setEndTime t => { v with endTime := some t }
  | .markStart now => { v with startTime := now }
  | .markEnd now => { v with endTime := now }
  | .setKind kind => { v with kind }
  | .setName name => { v with name := name.getD [] }
  | .setAttribute key arg => { v with attrs := upsert (key.getD []) arg.any v.attrs }
  | .setStatus code description => { v with statusCode := code, statusMessage := description }
  | .setSampled sampled => { v with sampled }
  | .addEvent name t => { v with events := v.events ++ [⟨name.getD [], t, []⟩] }
  | .addLink traceId spanId =>
    { v with links := v.links ++ [⟨traceId.getD zeroTraceId, spanId.getD zeroSpanId, []⟩] }
  | .setTraceState traceState => { v with traceState }
  | .setEventAttribute key arg =>
    { v with events := v.events.modify (v.events.length - 1) fun e =>
      { e with attrs := upsert (key.getD []) arg.any e.attrs } }
  | .setLinkAttribute key arg =>
    { v with links := v.links.modify (v.links.length - 1) fun l =>
      { l with attrs := upsert (key.getD []) arg.any l.attrs } }

def SpanView.apply (v : SpanView) (c : SpanCall) (st : OtlpStatus) : SpanView :=
  if st = .ok then v.accept c else v

/-- The result of a call on a span: what the span owns now, and what it reads as. -/
structure CallSpec (h : Heap) (s : Span) (c : SpanCall) (r : OtlpStatus × Span × Heap) : Prop where
  parts : s.PartsGrow h r.2.2 r.2.1
  view_eq : r.2.1.view = s.view.apply c r.1

theorem CallSpec.failed {h h' : Heap} {s : Span} {c : SpanCall} (st : OtlpStatus) (hle : h.Le h') (hst : st ≠ .ok) :
    CallSpec h s c (st, s, h') :=
  ⟨.of_le hle s, (if_neg hst).symm⟩

theorem CallSpec.plain {h : Heap} {s : Span} {c : SpanCall} (s' : Span) (hparts : s.PartsGrow h h s')
    (hview : s'.view = s.view.accept c) : CallSpec h s c (.ok, s', h) :=
  ⟨hparts, hview.trans (if_pos rfl).symm⟩

theorem otlpSpanSetTraceId_spec (h : Heap) (s : Span) (id : Option TraceId) :
    CallSpec h s (.setTraceId id) (onHeap h (otlpSpanSetTraceId s id)) := by
  cases id with
  | none => exact .failed .errNull (.refl h) (by decide)
  | some id =>
    dsimp only [otlpSpanSetTraceId]
    split
    · exact .failed .errInvalidArgument (.refl h) (by decide)
    · exact .plain { s with traceId := id } { Span.PartsGrow.of_le (.refl h) s with } rfl

theorem otlpSpanSetSpanId_spec (h : Heap) (s : Span) (id : Option SpanId) :
    CallSpec h s (.setSpanId id) (onHeap h (otlpSpanSetSpanId s id)) := by
  cases id with
  | none => exact .failed .errNull (.refl h) (by decide)
  | some id =>
    dsimp only [otlpSpanSetSpanId]
    split
    · exact .failed .errInvalidArgument (.refl h) (by decide)
    · exact .plain { s with spanId := id } { Span.PartsGrow.of_le (.refl h) s with } rfl

theorem otlpSpanSetParentSpanId_spec (h : Heap) (s : Span) (id : Option SpanId) :
    CallSpec h s (.setParentSpanId id) (onHeap h (otlpSpanSetParentSpanId s id)) := by
  cases id with
  | none =>
    exact .plain { s with parentSpanId := zeroSpanId, hasParent := false }
      { Span.PartsGrow.of_le (.refl h) s with } rfl
  | some id =>
    dsimp only [otlpSpanSetParentSpanId]
    split
    · exact .failed .errInvalidArgument (.refl h) (by decide)
    · exact .plain { s with parentSpanId := id, hasParent := true }
        { Span.PartsGrow.of_le (.refl h) s with } rfl

theorem otlpSpanSetStartTime_spec (h : Heap) (s : Span) (t : UInt64) :
    CallSpec h s (.setStartTime t) (onHeap h (otlpSpanSetStartTime s t)) :=
  .plain { s with startTimeUnixNano := t, hasStartTime := true }
    { Span.PartsGrow.of_le (.refl h) s with } rfl

theorem otlpSpanSetEndTime_spec (h : Heap) (s : Span) (t : UInt64) :
    CallSpec h s (.setEndTime t) (onHeap h (otlpSpanSetEndTime s t)) :=
  .plain { s with endTimeUnixNano := t, hasEndTime := true } { Span.PartsGrow.of_le (.refl h) s with } rfl

theorem otlpSpanMarkStart_spec (h : Heap) (s : Span) (now : Option UInt64) :
    CallSpec h s (.markStart now) (onHeap h (otlpSpanMarkStart s now)) := by
  cases now with
  | none => exact .failed .errNetwork (.refl h) (by decide)
  | some t =>
    exact .plain { s with startTimeUnixNano := t, hasStartTime := true }
      { Span.PartsGrow.of_le (.refl h) s with } rfl

theorem otlpSpanMarkEnd_spec (h : Heap) (s : Span) (now : Option UInt64) :
    CallSpec h s (.markEnd now) (onHeap h (otlpSpanMarkEnd s now)) := by
  cases now with
  | none => exact .failed .errNetwork (.refl h) (by decide)
  | some t =>
    exact .plain { s with endTimeUnixNano := t, hasEndTime := true }
      { Span.PartsGrow.of_le (.refl h) s with } rfl

theorem otlpSpanSetKind_spec (h : Heap) (s : Span) (kind : UInt32) :
    CallSpec h s (.setKind kind) (onHeap h (otlpSpanSetKind s kind)) :=
  .plain { s with kind } { Span.PartsGrow.of_le (.refl h) s with } rfl

theorem otlpSpanSetSampled_spec (h : Heap) (s : Span) (sampled : Bool) :
    CallSpec h s (.setSampled sampled) (onHeap h (otlpSpanSetSampled s sampled)) :=
  .plain { s with sampled } { Span.PartsGrow.of_le (.refl h) s with } rfl

theorem otlpSpanSetName_spec (h : Heap) (s : Span) (name : Option Bytes) :
    CallSpec h s (.setName name) (otlpSpanSetName h s name) := by
  have hle := otlpDupStr_le h (some (name.getD []))
  unfold otlpSpanSetName
  split
  · exact .failed _ (.refl h) (by decide)
  · next hutf8 =>
    split
    · next heq =>
      rw [heq] at hle
      exact .failed _ hle (by decide)
    · next c h' heq =>
      rw [heq] at hle
      have hgrows := grows_dupStr heq (by simpa [isUtf8] using hutf8) [s.name.leaf]
      refine ⟨{ Span.PartsGrow.of_le hle s with name := hgrows }, ?_⟩
      have htext := (Option.some.inj (otlpDupStr_some heq).1).symm
      simp [Span.view, SpanView.apply, SpanView.accept, htext]

theorem otlpSpanSetAttribute_spec (h : Heap) (s : Span) (key : Option Bytes) (arg : AttrArg) :
    CallSpec h s (.setAttribute key arg) (otlpSpanSetAttribute h s key arg) := by
  obtain ⟨hgrows, hkvs⟩ := setAttribute_spec h s.attrs otlpSpanMaxAttributes key arg
  refine ⟨{ Span.PartsGrow.of_le hgrows.le s with attrs := hgrows }, ?_⟩
  unfold SpanView.apply
  split
  · next hst =>
    have hkvs := hkvs.trans (if_pos hst)
    exact congrArg (fun attrs => { s.view with attrs }) hkvs
  · next hst =>
    have hkvs := hkvs.trans (if_neg hst)
    exact congrArg (fun attrs => { s.view with attrs }) hkvs

theorem otlpSpanSetStatus_spec (h : Heap) (s : Span) (code : UInt32) (description : Option Bytes) :
    CallSpec h s (.setStatus code description) (otlpSpanSetStatus h s code description) := by
  unfold otlpSpanSetStatus
  split
  · exact .failed _ (.refl h) (by decide)
  · next hutf8 =>
    cases description with
    | none =>
      exact .plain _ { Span.PartsGrow.of_le (.refl h) s with statusMessage := grows_nil (.refl h) _ } rfl
    | some description =>
      have hle := otlpDupStr_le h (some description)
      dsimp only
      split
      · next heq =>
        rw [heq] at hle
        exact .failed _ hle (by decide)
      · next c h' heq =>
        rw [heq] at hle
        have hgrows := grows_dupStr heq (by simpa [isUtf8] using hutf8) (strLeaves s.statusMessage)
        refine ⟨{ Span.PartsGrow.of_le hle s with statusMessage := hgrows }, ?_⟩
        have htext := (Option.some.inj (otlpDupStr_some heq).1).symm
        simp [Span.view, SpanView.apply, SpanView.accept, htext]

theorem otlpSpanSetTraceState_spec (h : Heap) (s : Span) (traceState : Option Bytes) :
    CallSpec h s (.setTraceState traceState) (otlpSpanSetTraceState h s traceState) := by
  unfold otlpSpanSetTraceState
  split
  · exact .failed _ (.refl h) (by decide)
  · next hutf8 =>
    cases traceState with
    | none =>
      exact .plain _ { Span.PartsGrow.of_le (.refl h) s with traceState := grows_nil (.refl h) _ } rfl
    | some traceState =>
      have hle := otlpDupStr_le h (some traceState)
      dsimp only
      split
      · next heq =>
        rw [heq] at hle
        exact .failed _ hle (by decide)
      · next c h' heq =>
        rw [heq] at hle
        have hgrows := grows_dupStr heq (by simpa [isUtf8] using hutf8) (strLeaves s.traceState)
        refine ⟨{ Span.PartsGrow.of_le hle s with traceState := hgrows }, ?_⟩
        have htext := (Option.some.inj (otlpDupStr_some heq).1).symm
        simp [Span.view, SpanView.apply, SpanView.accept, htext]

theorem attrLeaves_empty : attrLeaves .empty = [] := rfl

theorem otlpSpanAddEvent_spec (h : Heap) (s : Span) (name : Option Bytes) (t : UInt64) :
    CallSpec h s (.addEvent name t) (otlpSpanAddEvent h s name t) := by
  cases name with
  | none => exact .failed _ (.refl h) (by decide)
  | some name =>
    unfold otlpSpanAddEvent
    dsimp only
    split
    · next hlt =>
      split
      · exact .failed _ (.refl h) (by decide)
      · next hutf8 =>
        have hle := otlpDupStr_le h (some name)
        split
        · next heq =>
          rw [heq] at hle
          exact .failed _ hle (by decide)
        · next c h₁ heq =>
          rw [heq] at hle
          have hle₁ := s.events.grow_le otlpSpanMaxEvents hlt (by decide) h₁
          split
          · next hgrow =>
            rw [hgrow] at hle₁
            exact .failed _ (hle.trans hle₁) (by decide)
          · next events h₂ hgrow =>
            rw [hgrow] at hle₁
            obtain ⟨hitems, hgrows⟩ := GrowVec.grow_some hgrow Event.leaves
            have hname := grows_dupStr heq (by simpa using hutf8) []
            have htext := (Option.some.inj (otlpDupStr_some heq).1).symm
            refine ⟨{ Span.PartsGrow.of_le (hle.trans hle₁) s with
              events := ⟨hle.trans hle₁, fun l hl => ?_⟩ }, ?_⟩
            · rcases GrowVec.mem_leaves_push hl with hl | hl
              · exact ((Grows.of_le hle _).trans hgrows).mem l hl
              · rw [Event.leaves, attrLeaves_empty] at hl
                obtain ⟨hfresh, hvalid⟩ := (hname.mem l hl).resolve_left List.not_mem_nil
                exact .inr ⟨hfresh.mono (.refl h) hle₁, hvalid⟩
            · simp [Span.view, SpanView.apply, SpanView.accept, GrowVec.push, hitems, Event.view, htext, attrKvs,
                GrowVec.empty]
    · exact .failed _ (.refl h) (by decide)

theorem otlpSpanAddLink_spec (h : Heap) (s : Span) (traceId : Option TraceId) (spanId : Option SpanId) :
    CallSpec h s (.addLink traceId spanId) (otlpSpanAddLink h s traceId spanId) := by
  unfold otlpSpanAddLink
  split
  · next traceId spanId =>
    split
    · next hlt =>
      have hle := s.links.grow_le otlpSpanMaxLinks hlt (by decide) h
      split
      · next hgrow =>
        rw [hgrow] at hle
        exact .failed _ hle (by decide)
      · next links h₁ hgrow =>
        rw [hgrow] at hle
        obtain ⟨hitems, hgrows⟩ := GrowVec.grow_some hgrow Link.leaves
        refine ⟨{ Span.PartsGrow.of_le hle s with links := ⟨hle, fun l hl => ?_⟩ }, ?_⟩
        · rcases GrowVec.mem_leaves_push hl with hl | hl
          · exact hgrows.mem l hl
          · rw [Link.leaves, attrLeaves_empty] at hl
            exact absurd hl List.not_mem_nil
        · simp [Span.view, SpanView.apply, SpanView.accept, GrowVec.push, hitems, Link.view, attrKvs, GrowVec.empty]
    · exact .failed _ (.refl h) (by decide)
  · exact .failed _ (.refl h) (by decide)

theorem map_modify_last {α β : Type} {f : α → β} {g : α → α} {k : β → β} {xs : List α} {x : α}
    (hlast : xs.getLast? = some x) (hg : f (g x) = k (f x)) :
    (xs.modify (xs.length - 1) g).map f = (xs.map f).modify ((xs.map f).length - 1) k := by
  obtain ⟨ys, rfl⟩ := List.getLast?_eq_some_iff.1 hlast
  simp [List.modify_eq_take_drop, hg]

theorem otlpSpanSetEventAttribute_spec (h : Heap) (s : Span) (key : Option Bytes) (arg : AttrArg) :
    CallSpec h s (.setEventAttribute key arg) (otlpSpanSetEventAttribute h s key arg) := by
  unfold otlpSpanSetEventAttribute
  split
  · exact .failed _ (.refl h) (by decide)
  · next ev hlast =>
    obtain ⟨hgrows, hkvs⟩ := setAttribute_spec h ev.attrs otlpEventMaxAttrs key arg
    have hev := getElem?_of_getLast? hlast
    refine ⟨{ Span.PartsGrow.of_le hgrows.le s with events := grows_modify_attrs hev ?_ }, ?_⟩
    · exact (hgrows.append [ev.name.leaf] []).of_eq (by simp [Event.leaves]) (by simp [Event.leaves])
    · unfold SpanView.apply
      split
      · next hst =>
        have hkvs := hkvs.trans (if_pos hst)
        refine congrArg (fun events => { s.view with events }) ?_
        exact map_modify_last (f := Event.view) hlast (congrArg (fun attrs => { ev.view with attrs }) hkvs)
      · next hst =>
        have hkvs := hkvs.trans (if_neg hst)
        refine congrArg (fun events => { s.view with events }) ?_
        refine (map_modify_last hlast (k := id) (congrArg (fun attrs => { ev.view with attrs }) hkvs)).trans ?_
        exact List.modify_id _ _

theorem otlpSpanSetLinkAttribute_spec (h : Heap) (s : Span) (key : Option Bytes) (arg : AttrArg) :
    CallSpec h s (.setLinkAttribute key arg) (otlpSpanSetLinkAttribute h s key arg) := by
  unfold otlpSpanSetLinkAttribute
  split
  · exact .failed _ (.refl h) (by decide)
  · next lk hlast =>
    obtain ⟨hgrows, hkvs⟩ := setAttribute_spec h lk.attrs otlpLinkMaxAttrs key arg
    have hlk := getElem?_of_getLast? hlast
    refine ⟨{ Span.PartsGrow.of_le hgrows.le s with links := grows_modify_attrs hlk hgrows }, ?_⟩
    unfold SpanView.apply
    split
    · next hst =>
      have hkvs := hkvs.trans (if_pos hst)
      refine congrArg (fun links => { s.view with links }) ?_
      exact map_modify_last (f := Link.view) hlast (congrArg (fun attrs => { lk.view with attrs }) hkvs)
    · next hst =>
      have hkvs := hkvs.trans (if_neg hst)
      refine congrArg (fun links => { s.view with links }) ?_
      refine (map_modify_last hlast (k := id) (congrArg (fun attrs => { lk.view with attrs }) hkvs)).trans ?_
      exact List.modify_id _ _

/-- **Every call** does to what the encoder reads what it says, if it is accepted, and nothing if it is not. -/
theorem SpanCall.run_spec (h : Heap) (s : Span) (c : SpanCall) : CallSpec h s c (c.run h s) := by
  cases c with
  | setTraceId id => exact otlpSpanSetTraceId_spec h s id
  | setSpanId id => exact otlpSpanSetSpanId_spec h s id
  | setParentSpanId id => exact otlpSpanSetParentSpanId_spec h s id
  | setStartTime t => exact otlpSpanSetStartTime_spec h s t
  | setEndTime t => exact otlpSpanSetEndTime_spec h s t
  | markStart now => exact otlpSpanMarkStart_spec h s now
  | markEnd now => exact otlpSpanMarkEnd_spec h s now
  | setKind kind => exact otlpSpanSetKind_spec h s kind
  | setName name => exact otlpSpanSetName_spec h s name
  | setAttribute key arg => exact otlpSpanSetAttribute_spec h s key arg
  | setStatus code description => exact otlpSpanSetStatus_spec h s code description
  | setSampled sampled => exact otlpSpanSetSampled_spec h s sampled
  | addEvent name t => exact otlpSpanAddEvent_spec h s name t
  | addLink traceId spanId => exact otlpSpanAddLink_spec h s traceId spanId
  | setTraceState traceState => exact otlpSpanSetTraceState_spec h s traceState
  | setEventAttribute key arg => exact otlpSpanSetEventAttribute_spec h s key arg
  | setLinkAttribute key arg => exact otlpSpanSetLinkAttribute_spec h s key arg

end OtlpC.Api
