import OtlpC.Memory.Log

/-!
# Spans that are given back

The functions of `span.c` that take or free memory.
-/

namespace OtlpC.Memory

open Exporter Api

/-! ### Functions -/

/-- An event in the loop of `otlp_span_free`. -/
def releaseEvent (e : Event) : MemM Unit := do
  otlpFree (some e.name.block)
  otlpAttrVecFree e.attrs

def otlpSpanFree (s : Span) : MemM Unit := do
  otlpFree (some s.name.block)
  otlpFree (s.statusMessage.map HeapStr.block)
  otlpFree (s.traceState.map HeapStr.block)
  releaseAll releaseEvent s.events.items
  otlpFree s.events.block
  releaseAll (fun l => otlpAttrVecFree l.attrs) s.links.items
  otlpFree s.links.block
  otlpAttrVecFree s.attrs
  otlpFree (some s.block)

def otlpSpanCreate (name : Option Bytes) : MemM (Option Span) := do
  match ← otlpMalloc sizeofSpan with
  | none => return none
  | some c =>
    if !isUtf8 name then
      otlpFree (some c.block)
      return none
    else
      match ← otlpDupStr (some (name.getD [])) with
      | none =>
        otlpFree (some c.block)
        return none
      | some nameCopy =>
        return some {
          block := c.block
          name := nameCopy
          traceId := zeroTraceId
          spanId := zeroSpanId
          parentSpanId := zeroSpanId
          hasParent := false
          startTimeUnixNano := 0
          endTimeUnixNano := 0
          hasStartTime := false
          hasEndTime := false
          kind := spanKindInternal
          attrs := .empty
          statusCode := statusCodeUnset
          statusMessage := none
          sampled := true
          traceState := none
          events := .empty
          links := .empty
          events_le := Nat.zero_le _
          links_le := Nat.zero_le _ }

/-- The old name is freed once there is the new one. -/
def otlpSpanSetName (s : Span) (name : Option Bytes) : MemM (OtlpStatus × Span) := do
  if !isUtf8 name then return (.errUtf8, s)
  else
    match ← otlpDupStr (some (name.getD [])) with
    | none => return (.errNomem, s)
    | some name =>
      otlpFree (some s.name.block)
      return (.ok, { s with name })

def otlpSpanSetAttribute (s : Span) (key : Option Bytes) (arg : AttrArg) : MemM (OtlpStatus × Span) := do
  let (st, attrs) ← setAttribute s.attrs otlpSpanMaxAttributes key arg
  return (st, { s with attrs })

def otlpSpanSetStatus (s : Span) (code : UInt32) (description : Option Bytes) : MemM (OtlpStatus × Span) := do
  if !isUtf8 description then return (.errUtf8, s)
  else
    match description with
    | none =>
      otlpFree (s.statusMessage.map HeapStr.block)
      return (.ok, { s with statusMessage := none, statusCode := code })
    | some description =>
      match ← otlpDupStr (some description) with
      | none => return (.errNomem, s)
      | some msg =>
        otlpFree (s.statusMessage.map HeapStr.block)
        return (.ok, { s with statusMessage := some msg, statusCode := code })

def otlpSpanSetTraceState (s : Span) (traceState : Option Bytes) : MemM (OtlpStatus × Span) := do
  if !isUtf8 traceState then return (.errUtf8, s)
  else
    match traceState with
    | none =>
      otlpFree (s.traceState.map HeapStr.block)
      return (.ok, { s with traceState := none })
    | some traceState =>
      match ← otlpDupStr (some traceState) with
      | none => return (.errNomem, s)
      | some copy =>
        otlpFree (s.traceState.map HeapStr.block)
        return (.ok, { s with traceState := some copy })

theorem sizeofEvent_le : sizeofEvent ≤ 64 := by decide

theorem sizeofLink_le : sizeofLink ≤ 64 := by decide

/-- The name that finds no slot is given up. -/
def otlpSpanAddEvent (s : Span) (name : Option Bytes) (timeUnixNano : UInt64) : MemM (OtlpStatus × Span) := do
  match name with
  | none => return (.errNull, s)
  | some name =>
    if hlt : s.events.items.length < otlpSpanMaxEvents then
      if !otlpStrIsUtf8 name then return (.errUtf8, s)
      else
        match ← otlpDupStr (some name) with
        | none => return (.errNomem, s)
        | some name =>
          match ← grow s.events otlpSpanMaxEvents hlt sizeofEvent_le with
          | none =>
            otlpFree (some name.block)
            return (.errNomem, s)
          | some events =>
            return (.ok, { s with
              events := GrowVec.push events.toRoomyVec { name, timeUnixNano, attrs := .empty }
              events_le := by
                rw [GrowVec.push, List.length_append, events.items_eq]
                exact hlt })
    else return (.errOverflow, s)

def otlpSpanAddLink (s : Span) (traceId : Option TraceId) (spanId : Option SpanId) : MemM (OtlpStatus × Span) := do
  match traceId, spanId with
  | some traceId, some spanId =>
    if hlt : s.links.items.length < otlpSpanMaxLinks then
      match ← grow s.links otlpSpanMaxLinks hlt sizeofLink_le with
      | none => return (.errNomem, s)
      | some links =>
        return (.ok, { s with
          links := GrowVec.push links.toRoomyVec { traceId, spanId, attrs := .empty }
          links_le := by
            rw [GrowVec.push, List.length_append, links.items_eq]
            exact hlt })
    else return (.errOverflow, s)
  | _, _ => return (.errNull, s)

def otlpSpanSetEventAttribute (s : Span) (key : Option Bytes) (arg : AttrArg) : MemM (OtlpStatus × Span) := do
  match s.events.items.getLast? with
  | none => return (.errInvalidArgument, s)
  | some ev =>
    let (st, attrs) ← setAttribute ev.attrs otlpEventMaxAttrs key arg
    return (st, withEventAttrs s attrs)

def otlpSpanSetLinkAttribute (s : Span) (key : Option Bytes) (arg : AttrArg) : MemM (OtlpStatus × Span) := do
  match s.links.items.getLast? with
  | none => return (.errInvalidArgument, s)
  | some lk =>
    let (st, attrs) ← setAttribute lk.attrs otlpLinkMaxAttrs key arg
    return (st, withLinkAttrs s attrs)

/-! ### Clone -/

/-- The copy of an owned string that may be NULL: `none` when memory is short. -/
def dupOptStr : Option HeapStr → MemM (Option (Option HeapStr))
  | none => return some none
  | some s => do
    match ← otlpDupStr (some s.bytes) with
    | none => return none
    | some c => return some (some c)

/-- The answer when a part cannot be copied. -/
def giveUp (dst : Span) : MemM (Option Span) := do
  otlpSpanFree dst
  return none

/-- A `for` of `otlp_span_clone`; the whole copy is given up when an element cannot be copied. -/
def cloneItems {α : Type} (add : Span → α → MemM (OtlpStatus × Span)) (attrs : α → AttrVec)
    (withAttrs : Span → AttrVec → Span) (dst : Span) : List α → MemM (Option Span)
  | [] => return some dst
  | x :: xs => do
    match ← add dst x with
    | (.ok, dst) =>
      if 0 < (attrs x).items.length then
        match ← otlpAttrVecCopy (attrs x) with
        | .error _ => giveUp dst
        | .ok copy => cloneItems add attrs withAttrs (withAttrs dst copy) xs
      else cloneItems add attrs withAttrs dst xs
    | (_, dst) => giveUp dst

def cloneEvents : Span → List Event → MemM (Option Span) :=
  cloneItems (fun dst ev => otlpSpanAddEvent dst (some ev.name.bytes) ev.timeUnixNano) Event.attrs withEventAttrs

def cloneLinks : Span → List Link → MemM (Option Span) :=
  cloneItems (fun dst lk => otlpSpanAddLink dst (some lk.traceId) (some lk.spanId)) Link.attrs withLinkAttrs

/-- The fields of `src` that are copied without an allocation. -/
def copyFields (dst src : Span) : Span :=
  { dst with
    traceId := src.traceId
    spanId := src.spanId
    hasParent := src.hasParent
    parentSpanId := if src.hasParent then src.parentSpanId else dst.parentSpanId
    hasStartTime := src.hasStartTime
    startTimeUnixNano := src.startTimeUnixNano
    hasEndTime := src.hasEndTime
    endTimeUnixNano := src.endTimeUnixNano
    kind := src.kind
    statusCode := src.statusCode
    sampled := src.sampled }

def cloneAttrs (dst src : Span) : MemM (Option Span) := do
  match ← otlpAttrVecCopy src.attrs with
  | .error _ => giveUp dst
  | .ok attrs =>
    match ← cloneEvents { dst with attrs } src.events.items with
    | none => return none
    | some dst => cloneLinks dst src.links.items

def cloneTraceState (dst src : Span) : MemM (Option Span) := do
  match ← dupOptStr src.traceState with
  | none => giveUp dst
  | some traceState => cloneAttrs { dst with traceState } src

def cloneStatusMessage (dst src : Span) : MemM (Option Span) := do
  match ← dupOptStr src.statusMessage with
  | none => giveUp dst
  | some statusMessage => cloneTraceState { dst with statusMessage } src

/-- `otlp_span_clone`; the parts that take memory come one after the other. -/
def otlpSpanClone (src : Span) : MemM (Option Span) := do
  match ← otlpSpanCreate (some src.name.bytes) with
  | none => return none
  | some dst => cloneStatusMessage (copyFields dst src) src

def spanCall (s : Span) : SpanCall → MemM (OtlpStatus × Span)
  | .setTraceId id => return otlpSpanSetTraceId s id
  | .setSpanId id => return otlpSpanSetSpanId s id
  | .setParentSpanId id => return otlpSpanSetParentSpanId s id
  | .setStartTime t => return otlpSpanSetStartTime s t
  | .setEndTime t => return otlpSpanSetEndTime s t
  | .markStart now => return otlpSpanMarkStart s now
  | .markEnd now => return otlpSpanMarkEnd s now
  | .setKind kind => return otlpSpanSetKind s kind
  | .setName name => otlpSpanSetName s name
  | .setAttribute key arg => otlpSpanSetAttribute s key arg
  | .setStatus code description => otlpSpanSetStatus s code description
  | .setSampled sampled => return otlpSpanSetSampled s sampled
  | .addEvent name t => otlpSpanAddEvent s name t
  | .addLink traceId spanId => otlpSpanAddLink s traceId spanId
  | .setTraceState traceState => otlpSpanSetTraceState s traceState
  | .setEventAttribute key arg => otlpSpanSetEventAttribute s key arg
  | .setLinkAttribute key arg => otlpSpanSetLinkAttribute s key arg

/-! ### What each owns -/

theorem frees_releaseEvent : Frees Event.leaves releaseEvent := fun e =>
  (owns_otlpFree _).step rfl fun _ => (frees_otlpAttrVecFree e.attrs).conseq (zero_add _) fun _ => rfl

theorem blocks_spanLeaves (s : Span) : blocks s.leaves = {s.name.block} + (optBlock (s.statusMessage.map HeapStr.block) +
    (optBlock (s.traceState.map HeapStr.block) + (blocks (s.events.leaves Event.leaves) +
      (blocks (s.links.leaves Link.leaves) + (blocks (attrLeaves s.attrs) + {s.block}))))) := by
  simp only [Span.leaves, blocks_cons, blocks_append, blocks_strLeaves, block_blockLeaf, block_strLeaf]
  abel

theorem frees_otlpSpanFree : Frees Span.leaves otlpSpanFree := by
  intro s
  refine (owns_otlpFree (some s.name.block)).step (blocks_spanLeaves s) fun _ => ?_
  refine (owns_otlpFree _).step (zero_add _) fun _ => ?_
  refine (owns_otlpFree _).step (zero_add _) fun _ => ?_
  rw [blocks_vecLeaves, blocks_vecLeaves, add_comm (optBlock s.events.block), add_comm (optBlock s.links.block),
    add_assoc, add_assoc]
  refine (owning_releaseAll frees_releaseEvent s.events.items).step (zero_add _) fun _ => ?_
  refine (owns_otlpFree _).step (zero_add _) fun _ => ?_
  refine (owning_releaseAll (fun l : Link => frees_otlpAttrVecFree l.attrs) s.links.items).step (zero_add _) fun _ => ?_
  refine (owns_otlpFree _).step (zero_add _) fun _ => ?_
  refine (frees_otlpAttrVecFree s.attrs).step (zero_add _) fun _ => ?_
  exact (owns_otlpFree (some s.block)).conseq (zero_add _) fun _ => rfl

theorem creates_otlpSpanCreate (name : Option Bytes) : Creates Span.leaves (otlpSpanCreate name) := by
  refine (owns_otlpMalloc _).bind fun c => ?_
  cases c with
  | none => exact .pure rfl
  | some c =>
    dsimp only
    split
    · exact (owns_otlpFree (some c.block)).bind fun _ => .pure rfl
    refine (owns_otlpDupStr _).step (zero_add _).symm fun s => ?_
    cases s with
    | none => exact (owns_otlpFree (some c.block)).step (add_comm _ _) fun _ => .pure rfl
    | some s => exact .pure (add_comm _ _)

theorem returns_otlpSpanAddEvent (s : Span) (name : Option Bytes) (timeUnixNano : UInt64) :
    Returns (otlpSpanAddEvent s name timeUnixNano) fun r =>
      r.1 = .ok → ∃ e, r.2.events.items[r.2.events.items.length - 1]? = some e ∧ e.attrs = .empty := by
  unfold otlpSpanAddEvent
  split
  · exact .pure fun hr => by cases hr
  split
  · split
    · exact .pure fun hr => by cases hr
    refine .bind fun name => ?_
    cases name with
    | none => exact .pure fun hr => by cases hr
    | some name =>
      refine .bind fun events => ?_
      cases events with
      | none => exact .bind fun _ => .pure fun hr => by cases hr
      | some events => exact .pure fun _ => ⟨⟨name, timeUnixNano, .empty⟩, by simp [GrowVec.push], rfl⟩
  · exact .pure fun hr => by cases hr

theorem returns_otlpSpanAddLink (s : Span) (traceId : Option TraceId) (spanId : Option SpanId) :
    Returns (otlpSpanAddLink s traceId spanId) fun r =>
      r.1 = .ok → ∃ l, r.2.links.items[r.2.links.items.length - 1]? = some l ∧ l.attrs = .empty := by
  unfold otlpSpanAddLink
  split
  · next traceId spanId =>
    split
    · refine .bind fun links => ?_
      cases links with
      | none => exact .pure fun hr => by cases hr
      | some links => exact .pure fun _ => ⟨⟨traceId, spanId, .empty⟩, by simp [GrowVec.push], rfl⟩
    · exact .pure fun hr => by cases hr
  · exact .pure fun hr => by cases hr

/-! ### The parts of a span

What the rest of a span owns does not depend on the part. -/

section Parts

variable (s : Span)

theorem part_name : ∃ r, ∀ name, blocks { s with name }.leaves = {name.block} + r := by
  refine ⟨optBlock (s.statusMessage.map HeapStr.block) + (optBlock (s.traceState.map HeapStr.block) +
    (blocks (s.events.leaves Event.leaves) + (blocks (s.links.leaves Link.leaves) +
      (blocks (attrLeaves s.attrs) + {s.block})))), fun name => ?_⟩
  rw [blocks_spanLeaves]

theorem part_statusMessage : ∃ r, ∀ statusMessage, blocks { s with statusMessage }.leaves =
    optBlock (statusMessage.map HeapStr.block) + r := by
  refine ⟨{s.name.block} + (optBlock (s.traceState.map HeapStr.block) +
    (blocks (s.events.leaves Event.leaves) + (blocks (s.links.leaves Link.leaves) +
      (blocks (attrLeaves s.attrs) + {s.block})))), fun statusMessage => ?_⟩
  rw [blocks_spanLeaves, add_left_comm]

theorem part_traceState : ∃ r, ∀ traceState, blocks { s with traceState }.leaves =
    optBlock (traceState.map HeapStr.block) + r := by
  refine ⟨{s.name.block} + (optBlock (s.statusMessage.map HeapStr.block) +
    (blocks (s.events.leaves Event.leaves) + (blocks (s.links.leaves Link.leaves) +
      (blocks (attrLeaves s.attrs) + {s.block})))), fun traceState => ?_⟩
  rw [blocks_spanLeaves]
  abel

theorem part_events : ∃ r, ∀ events h, blocks { s with events, events_le := h }.leaves =
    blocks (events.leaves Event.leaves) + r := by
  refine ⟨{s.name.block} + (optBlock (s.statusMessage.map HeapStr.block) +
    (optBlock (s.traceState.map HeapStr.block) + (blocks (s.links.leaves Link.leaves) +
      (blocks (attrLeaves s.attrs) + {s.block})))), fun events h => ?_⟩
  rw [blocks_spanLeaves]
  abel

theorem part_links : ∃ r, ∀ links h, blocks { s with links, links_le := h }.leaves =
    blocks (links.leaves Link.leaves) + r := by
  refine ⟨{s.name.block} + (optBlock (s.statusMessage.map HeapStr.block) +
    (optBlock (s.traceState.map HeapStr.block) + (blocks (s.events.leaves Event.leaves) +
      (blocks (attrLeaves s.attrs) + {s.block})))), fun links h => ?_⟩
  rw [blocks_spanLeaves]
  abel

theorem part_attrs : ∃ r, ∀ attrs, blocks { s with attrs }.leaves = blocks (attrLeaves attrs) + r := by
  refine ⟨{s.name.block} + (optBlock (s.statusMessage.map HeapStr.block) +
    (optBlock (s.traceState.map HeapStr.block) + (blocks (s.events.leaves Event.leaves) +
      (blocks (s.links.leaves Link.leaves) + {s.block})))), fun attrs => ?_⟩
  rw [blocks_spanLeaves]
  abel

theorem part_eventAttrs {e : Event} (he : s.events.items[s.events.items.length - 1]? = some e) :
    ∃ r, blocks s.leaves = blocks (attrLeaves e.attrs) + r ∧
      ∀ attrs, blocks (withEventAttrs s attrs).leaves = blocks (attrLeaves attrs) + r := by
  obtain ⟨r, hr⟩ := part_events s
  obtain ⟨r', hr', hmodify⟩ := blocks_modify Event.leaves he
  refine ⟨{e.name.block} + r' + r, ?_, fun attrs => ?_⟩
  · rw [show blocks s.leaves = _ from hr s.events s.events_le, hr', Event.leaves, blocks_cons, block_strLeaf]
    abel
  · rw [show blocks (withEventAttrs s attrs).leaves = _ from hr _ _, hmodify, Event.leaves, blocks_cons, block_strLeaf]
    abel

theorem part_linkAttrs {l : Link} (hl : s.links.items[s.links.items.length - 1]? = some l) :
    ∃ r, blocks s.leaves = blocks (attrLeaves l.attrs) + r ∧
      ∀ attrs, blocks (withLinkAttrs s attrs).leaves = blocks (attrLeaves attrs) + r := by
  obtain ⟨r, hr⟩ := part_links s
  obtain ⟨r', hr', hmodify⟩ := blocks_modify Link.leaves hl
  refine ⟨r' + r, ?_, fun attrs => ?_⟩
  · rw [show blocks s.leaves = _ from hr s.links s.links_le, hr', Link.leaves, add_assoc]
  · rw [show blocks (withLinkAttrs s attrs).leaves = _ from hr _ _, hmodify, Link.leaves, add_assoc]

end Parts

/-! ### Calls -/

theorem changes_otlpSpanAddEvent (s : Span) (name : Option Bytes) (timeUnixNano : UInt64) :
    Changes Span.leaves s (otlpSpanAddEvent s name timeUnixNano) := by
  unfold otlpSpanAddEvent
  split
  · exact .pure rfl
  split
  · split
    · exact .pure rfl
    refine (owns_otlpDupStr _).step (zero_add _).symm fun name => ?_
    cases name with
    | none => exact .pure (zero_add _)
    | some name =>
      obtain ⟨r, hr⟩ := part_events s
      have hs : blocks s.leaves = _ := hr s.events s.events_le
      refine (owns_grow Event.leaves s.events _ _ _).step (r := {name.block} + r) ?_ fun events => ?_
      · rw [hs]
        exact add_left_comm _ _ _
      cases events with
      | none =>
        refine (owns_otlpFree (some name.block)).step (r := blocks s.leaves) ?_ fun _ => .pure (zero_add _)
        rw [hs]
        exact add_left_comm _ _ _
      | some events =>
        refine .pure ?_
        rw [hr, blocks_push, ← add_assoc]
        rfl
  · exact .pure rfl

theorem changes_otlpSpanAddLink (s : Span) (traceId : Option TraceId) (spanId : Option SpanId) :
    Changes Span.leaves s (otlpSpanAddLink s traceId spanId) := by
  unfold otlpSpanAddLink
  split
  · split
    · obtain ⟨r, hr⟩ := part_links s
      have hs : blocks s.leaves = _ := hr s.links s.links_le
      refine (owns_grow Link.leaves s.links _ _ _).step hs fun links => ?_
      cases links with
      | none => exact .pure hs.symm
      | some links =>
        refine .pure ?_
        rw [hr, blocks_push, show blocks (Link.leaves { traceId := _, spanId := _, attrs := .empty }) = 0 from rfl,
          add_zero]
        rfl
    · exact .pure rfl
  · exact .pure rfl

theorem changes_otlpSpanSetName (s : Span) (name : Option Bytes) : Changes Span.leaves s (otlpSpanSetName s name) := by
  unfold otlpSpanSetName
  split
  · exact .pure rfl
  refine (owns_otlpDupStr _).step (zero_add _).symm fun copy => ?_
  cases copy with
  | none => exact .pure (zero_add _)
  | some copy =>
    obtain ⟨r, hr⟩ := part_name s
    refine (owns_otlpFree (some s.name.block)).step (r := {copy.block} + r) ?_ fun _ => .pure ?_
    · rw [show blocks s.leaves = _ from hr s.name]
      exact add_left_comm _ _ _
    · rw [hr, zero_add]

theorem owns_replace {r whole : Multiset ℕ} {old new : Option HeapStr} {res : OtlpStatus × Span}
    (hs : whole = optBlock (old.map HeapStr.block) + r)
    (hres : blocks res.2.leaves = optBlock (new.map HeapStr.block) + r) :
    Owns (optBlock (new.map HeapStr.block) + whole) (do
      otlpFree (old.map HeapStr.block)
      return res) fun r => blocks r.2.leaves := by
  refine (owns_otlpFree _).step (r := optBlock (new.map HeapStr.block) + r) ?_ fun _ => .pure ?_
  · rw [hs]
    exact add_left_comm _ _ _
  · rw [hres, zero_add]

theorem changes_otlpSpanSetStatus (s : Span) (code : UInt32) (description : Option Bytes) :
    Changes Span.leaves s (otlpSpanSetStatus s code description) := by
  obtain ⟨r, hr⟩ := part_statusMessage { s with statusCode := code }
  unfold otlpSpanSetStatus
  split
  · exact .pure rfl
  split
  · refine (owns_otlpFree _).step (hr s.statusMessage) fun _ => .pure ?_
    exact (hr none).symm
  · refine (owns_otlpDupStr _).step (zero_add _).symm fun msg => ?_
    cases msg with
    | none => exact .pure (zero_add _)
    | some msg => exact owns_replace (hr s.statusMessage) (hr (some msg))

theorem changes_otlpSpanSetTraceState (s : Span) (traceState : Option Bytes) :
    Changes Span.leaves s (otlpSpanSetTraceState s traceState) := by
  obtain ⟨r, hr⟩ := part_traceState s
  unfold otlpSpanSetTraceState
  split
  · exact .pure rfl
  split
  · exact (owns_otlpFree _).step (hr s.traceState) fun _ => .pure (hr none).symm
  · refine (owns_otlpDupStr _).step (zero_add _).symm fun copy => ?_
    cases copy with
    | none => exact .pure (zero_add _)
    | some copy => exact owns_replace (hr s.traceState) (hr (some copy))

theorem changes_otlpSpanSetEventAttribute (s : Span) (key : Option Bytes) (arg : AttrArg) :
    Changes Span.leaves s (otlpSpanSetEventAttribute s key arg) := by
  unfold otlpSpanSetEventAttribute
  split
  · exact .pure rfl
  · next ev hev =>
    obtain ⟨r, hs, hr⟩ := part_eventAttrs s (getElem?_of_getLast? hev)
    exact (owns_setAttribute _ _ key arg).step hs fun a => .pure (hr a.2).symm

theorem changes_otlpSpanSetLinkAttribute (s : Span) (key : Option Bytes) (arg : AttrArg) :
    Changes Span.leaves s (otlpSpanSetLinkAttribute s key arg) := by
  unfold otlpSpanSetLinkAttribute
  split
  · exact .pure rfl
  · next lk hlk =>
    obtain ⟨r, hs, hr⟩ := part_linkAttrs s (getElem?_of_getLast? hlk)
    exact (owns_setAttribute _ _ key arg).step hs fun a => .pure (hr a.2).symm

theorem changes_pure {s : Span} {r : OtlpStatus × Span} (h : r.2.leaves = s.leaves) :
    Changes Span.leaves s (pure r) := .pure (congrArg blocks h.symm)

/-- **A call on a span** leaks nothing and frees nothing twice. -/
theorem changes_spanCall (s : Span) (c : SpanCall) : Changes Span.leaves s (spanCall s c) := by
  cases c with
  | setTraceId id =>
    refine changes_pure ?_
    cases id with
    | none => rfl
    | some id =>
      rw [otlpSpanSetTraceId]
      split <;> rfl
  | setSpanId id =>
    refine changes_pure ?_
    cases id with
    | none => rfl
    | some id =>
      rw [otlpSpanSetSpanId]
      split <;> rfl
  | setParentSpanId id =>
    refine changes_pure ?_
    cases id with
    | none => rfl
    | some id =>
      rw [otlpSpanSetParentSpanId]
      split <;> rfl
  | setStartTime t | setEndTime t | setKind t | setSampled t => exact changes_pure rfl
  | markStart now | markEnd now => cases now <;> exact changes_pure rfl
  | setName name => exact changes_otlpSpanSetName s name
  | setAttribute key arg =>
    obtain ⟨r, hr⟩ := part_attrs s
    exact (owns_setAttribute s.attrs _ key arg).step (hr s.attrs) fun a => .pure (hr a.2).symm
  | setStatus code description => exact changes_otlpSpanSetStatus s code description
  | addEvent name t => exact changes_otlpSpanAddEvent s name t
  | addLink traceId spanId => exact changes_otlpSpanAddLink s traceId spanId
  | setTraceState traceState => exact changes_otlpSpanSetTraceState s traceState
  | setEventAttribute key arg => exact changes_otlpSpanSetEventAttribute s key arg
  | setLinkAttribute key arg => exact changes_otlpSpanSetLinkAttribute s key arg

/-! ### Clone -/

theorem owns_dupOptStr (s : Option HeapStr) :
    Owns 0 (dupOptStr s) fun r => (r.map fun c => optBlock (c.map HeapStr.block)).getD 0 := by
  cases s with
  | none => exact .pure rfl
  | some s =>
    refine (owns_otlpDupStr _).bind fun c => ?_
    cases c <;> exact .pure rfl

theorem owns_giveUp (dst : Span) :
    Owns (blocks dst.leaves) (giveUp dst) fun r => (r.map fun s => blocks s.leaves).getD 0 :=
  (frees_otlpSpanFree dst).bind fun _ => .pure rfl

/-- A loop over events or links keeps to what the clone owns, when an added element has no attributes of its own
yet. -/
theorem owns_cloneItems {α : Type} {add : Span → α → MemM (OtlpStatus × Span)} {attrs : α → AttrVec}
    {withAttrs : Span → AttrVec → Span} (hadd : ∀ dst x, Changes Span.leaves dst (add dst x))
    (hempty : ∀ dst x, Returns (add dst x) fun r => r.1 = .ok →
      ∀ copy, blocks (withAttrs r.2 copy).leaves = blocks (attrLeaves copy) + blocks r.2.leaves)
    (dst : Span) (xs : List α) : Owns (blocks dst.leaves) (cloneItems add attrs withAttrs dst xs) fun r =>
      (r.map fun s => blocks s.leaves).getD 0 := by
  induction xs generalizing dst with
  | nil => exact .pure rfl
  | cons x xs ih =>
    refine (hadd dst x).step_of (hempty dst x) (add_zero _).symm fun r hr => ?_
    rw [add_zero]
    obtain ⟨st, dst⟩ := r
    split
    · next dst' heq =>
      obtain ⟨rfl, rfl⟩ := Prod.mk.inj heq
      split
      · refine (builds_otlpAttrVecCopy (attrs x)).step (zero_add _).symm fun copy => ?_
        cases copy with
        | error st => exact (owns_giveUp dst).conseq (zero_add _) fun _ => rfl
        | ok copy => exact (ih (withAttrs dst copy)).conseq (hr rfl copy).symm fun _ => rfl
      · exact ih dst
    · next st' dst' _ heq =>
      obtain ⟨-, rfl⟩ := Prod.mk.inj heq
      exact owns_giveUp dst

theorem owns_cloneEvents (dst : Span) (evs : List Event) :
    Owns (blocks dst.leaves) (cloneEvents dst evs) fun r => (r.map fun s => blocks s.leaves).getD 0 := by
  refine owns_cloneItems (fun dst ev => changes_otlpSpanAddEvent dst _ _) (fun dst ev => ?_) dst evs
  refine (returns_otlpSpanAddEvent dst _ _).conseq fun r hr hok copy => ?_
  obtain ⟨e, he, hempty⟩ := hr hok
  obtain ⟨rest, hs, hpart⟩ := part_eventAttrs r.2 he
  rw [hpart, hs, hempty, blocks_attrLeaves_empty, zero_add]

theorem owns_cloneLinks (dst : Span) (lks : List Link) :
    Owns (blocks dst.leaves) (cloneLinks dst lks) fun r => (r.map fun s => blocks s.leaves).getD 0 := by
  refine owns_cloneItems (fun dst lk => changes_otlpSpanAddLink dst _ _) (fun dst lk => ?_) dst lks
  refine (returns_otlpSpanAddLink dst _ _).conseq fun r hr hok copy => ?_
  obtain ⟨l, hl, hempty⟩ := hr hok
  obtain ⟨rest, hs, hpart⟩ := part_linkAttrs r.2 hl
  rw [hpart, hs, hempty, blocks_attrLeaves_empty, zero_add]

theorem returns_otlpSpanCreate (name : Option Bytes) : Returns (otlpSpanCreate name) fun r =>
    ∀ s, r = some s → s.statusMessage = none ∧ s.traceState = none ∧ s.attrs = .empty := by
  refine .bind fun c => ?_
  cases c with
  | none => exact .pure fun s hs => by cases hs
  | some c =>
    dsimp only
    split
    · exact .bind fun _ => .pure fun s hs => by cases hs
    refine .bind fun copy => ?_
    cases copy with
    | none => exact .bind fun _ => .pure fun s hs => by cases hs
    | some copy =>
      refine .pure fun s hs => ?_
      cases hs
      exact ⟨rfl, rfl, rfl⟩

section CloneParts

variable (dst src : Span)

theorem owns_cloneAttrs (hattrs : dst.attrs = .empty) :
    Owns (blocks dst.leaves) (cloneAttrs dst src) fun r => (r.map fun s => blocks s.leaves).getD 0 := by
  refine (builds_otlpAttrVecCopy src.attrs).step (zero_add _).symm fun attrs => ?_
  cases attrs with
  | error st => exact (owns_giveUp dst).conseq (zero_add _) fun _ => rfl
  | ok attrs =>
    obtain ⟨r, hr⟩ := part_attrs dst
    have hdst : blocks dst.leaves = r := by
      rw [show blocks dst.leaves = _ from hr dst.attrs, hattrs]
      exact zero_add r
    rw [hdst, okOwned_ok, ← hr]
    refine (owns_cloneEvents _ src.events.items).bind fun s => ?_
    cases s with
    | none => exact .pure rfl
    | some s => exact owns_cloneLinks s src.links.items

theorem owns_cloneTraceState (hstate : dst.traceState = none) (hattrs : dst.attrs = .empty) :
    Owns (blocks dst.leaves) (cloneTraceState dst src) fun r => (r.map fun s => blocks s.leaves).getD 0 := by
  refine (owns_dupOptStr src.traceState).step (zero_add _).symm fun traceState => ?_
  cases traceState with
  | none => exact (owns_giveUp dst).conseq (zero_add _) fun _ => rfl
  | some traceState =>
    obtain ⟨r, hr⟩ := part_traceState dst
    have hdst : blocks dst.leaves = r := by
      rw [show blocks dst.leaves = _ from hr dst.traceState, hstate]
      exact zero_add r
    rw [hdst, Option.map_some, Option.getD_some, ← hr]
    exact owns_cloneAttrs _ src hattrs

theorem owns_cloneStatusMessage (hmsg : dst.statusMessage = none) (hstate : dst.traceState = none)
    (hattrs : dst.attrs = .empty) :
    Owns (blocks dst.leaves) (cloneStatusMessage dst src) fun r => (r.map fun s => blocks s.leaves).getD 0 := by
  refine (owns_dupOptStr src.statusMessage).step (zero_add _).symm fun statusMessage => ?_
  cases statusMessage with
  | none => exact (owns_giveUp dst).conseq (zero_add _) fun _ => rfl
  | some statusMessage =>
    obtain ⟨r, hr⟩ := part_statusMessage dst
    have hdst : blocks dst.leaves = r := by
      rw [show blocks dst.leaves = _ from hr dst.statusMessage, hmsg]
      exact zero_add r
    rw [hdst, Option.map_some, Option.getD_some, ← hr]
    exact owns_cloneTraceState _ src hstate hattrs

end CloneParts

/-- **The copy of a span** is all there or leaves nothing behind. -/
theorem creates_otlpSpanClone (src : Span) : Creates Span.leaves (otlpSpanClone src) := by
  refine (creates_otlpSpanCreate _).step_of (returns_otlpSpanCreate _) (add_zero 0).symm fun r hr => ?_
  rw [add_zero]
  cases r with
  | none => exact .pure rfl
  | some dst =>
    obtain ⟨hmsg, hstate, hattrs⟩ := hr dst rfl
    exact owns_cloneStatusMessage (copyFields dst src) src hmsg hstate hattrs

end OtlpC.Memory
