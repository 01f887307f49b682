import OtlpC.Api.SpanCalls

/-!
# The clone of a span

`otlp_span_clone` goes through the public functions, event by event and link by link. A span whose text passes
the checks of those functions is cloned whole, unless memory is short.
-/

namespace OtlpC.Api

open Exporter Otlp

/-- The clone while it is made: all it owns was allocated since, and it reads as `v`. -/
structure CloneInv (h₀ h : Heap) (dst : Span) (v : SpanView) : Prop where
  le : h₀.Le h
  leaf : ∀ l ∈ dst.leaves, l.Fresh h₀ h
  view_eq : dst.view = v

section

variable {h₀ h h' : Heap} {dst : Span} {v : SpanView}

theorem CloneInv.call (hinv : CloneInv h₀ h dst v) {c : SpanCall} {dst' : Span}
    (hcall : c.run h dst = (.ok, dst', h')) : CloneInv h₀ h' dst' (v.accept c) := by
  have hspec := c.run_spec h dst
  rw [hcall] at hspec
  have hgrows := hspec.parts.grows
  refine ⟨hinv.le.trans hgrows.le, fun l hl => ?_, hinv.view_eq ▸ hspec.view_eq⟩
  rcases hgrows.mem l hl with hl | ⟨hfresh, -⟩
  · exact (hinv.leaf l hl).mono (.refl h₀) hgrows.le
  · exact hfresh.mono hinv.le (.refl h')

/-! ### Refused memory -/

theorem otlpSpanAddEvent_refused {s : Span} {name : Bytes} {t : UInt64} (hutf8 : otlpStrIsUtf8 name = true)
    (hfits : name.length + 1 ≤ ptrdiffMax) (hlt : s.events.items.length < otlpSpanMaxEvents)
    (hst : (otlpSpanAddEvent h s (some name) t).1 ≠ .ok) :
    h.refused < (otlpSpanAddEvent h s (some name) t).2.2.refused := by
  have hle := otlpDupStr_le h (some name)
  unfold otlpSpanAddEvent at hst ⊢
  simp only [hlt, hutf8, dite_true, Bool.not_true, Bool.false_eq_true, if_false] at hst ⊢
  split at hst
  · next heq => exact otlpDupStr_none hfits heq
  · next c h₁ heq =>
    rw [heq] at hle
    split at hst
    · next h₂ hgrow => exact hle.refused_le.trans_lt (GrowVec.grow_none hgrow)
    · exact absurd rfl hst

theorem otlpSpanAddLink_refused {s : Span} {traceId : TraceId} {spanId : SpanId}
    (hlt : s.links.items.length < otlpSpanMaxLinks)
    (hst : (otlpSpanAddLink h s (some traceId) (some spanId)).1 ≠ .ok) :
    h.refused < (otlpSpanAddLink h s (some traceId) (some spanId)).2.2.refused := by
  unfold otlpSpanAddLink at hst ⊢
  simp only [hlt, dite_true] at hst ⊢
  split at hst
  · next h₁ hgrow => exact GrowVec.grow_none hgrow
  · exact absurd rfl hst

/-! ### Events and links -/

theorem getLast?_of_map {α β : Type} {f : α → β} {xs : List α} {ys : List β} {y : β}
    (h : xs.map f = ys ++ [y]) : ∃ x, xs.getLast? = some x ∧ f x = y := by
  have hlast := congrArg List.getLast? h
  rw [List.getLast?_map, List.getLast?_append, List.getLast?_singleton, Option.some_or] at hlast
  exact Option.map_eq_some_iff.1 hlast

/-- What the attributes of the last element turn into, in memory. -/
theorem fresh_modify_attrs {α : Type} {size : ℕ} {elem : α → List Leaf} {vec : GrowVec α size} {i : ℕ}
    {f : α → α} (hvec : ∀ l ∈ vec.leaves elem, l.Fresh h₀ h) (hle : h.Le h')
    (hf : ∀ x ∈ vec.items, ∀ l ∈ elem (f x), l ∈ elem x ∨ l.Fresh h₀ h') :
    ∀ l ∈ (vec.modify i f).leaves elem, l.Fresh h₀ h' := by
  intro l hl
  rcases GrowVec.mem_leaves_modify hl with hl | ⟨x, hx, hl⟩
  · exact (hvec l hl).mono (.refl h₀) hle
  · have hx := List.mem_of_getElem? hx
    rcases hf x hx l hl with hl | hfresh
    · exact (hvec l (GrowVec.leaves_subset_of_mem hx hl)).mono (.refl h₀) hle
    · exact hfresh

theorem map_modify_last_of {α β : Type} {f : α → β} {g : α → α} {xs : List α} {ys : List β} {y z : β}
    (hxs : xs.map f = ys ++ [y]) (hg : ∀ x, f x = y → f (g x) = z) :
    (xs.modify (xs.length - 1) g).map f = ys ++ [z] := by
  obtain ⟨x, hlast, hx⟩ := getLast?_of_map hxs
  rw [map_modify_last (k := fun _ => z) hlast (hg x hx), hxs]
  simp [List.modify_eq_take_drop]

theorem CloneInv.eventAttrs {evs : List EventView} {name : Bytes} {t : UInt64} {attrs : AttrVec}
    {kvs : List KeyValue} (hinv : CloneInv h₀ h dst { v with events := evs ++ [⟨name, t, []⟩] })
    (hcopy : Copies attrLeaves attrKvs h kvs (.ok attrs, h')) :
    CloneInv h₀ h' (withEventAttrs dst attrs) { v with events := evs ++ [⟨name, t, kvs⟩] } := by
  refine ⟨hinv.le.trans hcopy.le, fun l hl => ?_, ?_⟩
  · have hfresh : ∀ l ∈ dst.leaves, l.Fresh h₀ h' := fun l hl => (hinv.leaf l hl).mono (.refl h₀) hcopy.le
    have hevents := fun l hl => hinv.leaf l (Span.mem_leaves.2 (.inr (.inr (.inr (.inr (.inl hl))))))
    rw [Span.mem_leaves] at hl
    rcases hl with hl | hl | hl | hl | hl | hl | hl
    · exact hfresh l (Span.mem_leaves.2 (.inl hl))
    · exact hfresh l (Span.mem_leaves.2 (.inr (.inl hl)))
    · exact hfresh l (Span.mem_leaves.2 (.inr (.inr (.inl hl))))
    · exact hfresh l (Span.mem_leaves.2 (.inr (.inr (.inr (.inl hl)))))
    · refine fresh_modify_attrs hevents hcopy.le (fun e _ l hl => ?_) l hl
      rcases List.mem_cons.1 hl with rfl | hl
      · exact .inl List.mem_cons_self
      · exact .inr ((hcopy.leaf attrs rfl l hl).mono hinv.le (.refl h'))
    · exact hfresh l (Span.mem_leaves.2 (.inr (.inr (.inr (.inr (.inr (.inl hl)))))))
    · exact hfresh l (Span.mem_leaves.2 (.inr (.inr (.inr (.inr (.inr (.inr hl)))))))
  · have hview := hinv.view_eq
    have hmap := map_modify_last_of (f := Event.view) (g := fun e => { e with attrs }) (z := ⟨name, t, kvs⟩)
      (congrArg SpanView.events hview) fun e he => by
        rw [Event.view, EventView.mk.injEq] at he ⊢
        exact ⟨he.1, he.2.1, hcopy.read_eq attrs rfl⟩
    exact (congrArg (fun events => { dst.view with events }) hmap).trans (by rw [hview])

theorem CloneInv.linkAttrs {lks : List LinkView} {traceId : TraceId} {spanId : SpanId} {attrs : AttrVec}
    {kvs : List KeyValue} (hinv : CloneInv h₀ h dst { v with links := lks ++ [⟨traceId, spanId, []⟩] })
    (hcopy : Copies attrLeaves attrKvs h kvs (.ok attrs, h')) :
    CloneInv h₀ h' (withLinkAttrs dst attrs) { v with links := lks ++ [⟨traceId, spanId, kvs⟩] } := by
  refine ⟨hinv.le.trans hcopy.le, fun l hl => ?_, ?_⟩
  · have hfresh : ∀ l ∈ dst.leaves, l.Fresh h₀ h' := fun l hl => (hinv.leaf l hl).mono (.refl h₀) hcopy.le
    have hlinks := fun l hl => hinv.leaf l (Span.mem_leaves.2 (.inr (.inr (.inr (.inr (.inr (.inl hl)))))))
    rw [Span.mem_leaves] at hl
    rcases hl with hl | hl | hl | hl | hl | hl | hl
    · exact hfresh l (Span.mem_leaves.2 (.inl hl))
    · exact hfresh l (Span.mem_leaves.2 (.inr (.inl hl)))
    · exact hfresh l (Span.mem_leaves.2 (.inr (.inr (.inl hl))))
    · exact hfresh l (Span.mem_leaves.2 (.inr (.inr (.inr (.inl hl)))))
    · exact hfresh l (Span.mem_leaves.2 (.inr (.inr (.inr (.inr (.inl hl))))))
    · refine fresh_modify_attrs hlinks hcopy.le (fun lk _ l hl => .inr ?_) l hl
      exact (hcopy.leaf attrs rfl l hl).mono hinv.le (.refl h')
    · exact hfresh l (Span.mem_leaves.2 (.inr (.inr (.inr (.inr (.inr (.inr hl)))))))
  · have hview := hinv.view_eq
    have hmap := map_modify_last_of (f := Link.view) (g := fun l => { l with attrs }) (z := ⟨traceId, spanId, kvs⟩)
      (congrArg SpanView.links hview) fun l hl => by
        rw [Link.view, LinkView.mk.injEq] at hl ⊢
        exact ⟨hl.1, hl.2.1, hcopy.read_eq attrs rfl⟩
    exact (congrArg (fun links => { dst.view with links }) hmap).trans (by rw [hview])

theorem attrKvs_of_length_eq_zero {attrs : AttrVec} (h : ¬0 < attrs.items.length) : attrKvs attrs = [] := by
  rw [attrKvs, List.length_eq_zero_iff.1 (Nat.eq_zero_of_not_pos h), List.map_nil]

/-- **A loop over events or links.** `bare` is what the clone reads as once an element has been added without its
attributes, `next` what it reads as with them, and `Ok` says that the elements still to come can be added. -/
theorem clones_cloneItems {α : Type} {add : Heap → Span → α → OtlpStatus × Span × Heap} {attrs : α → AttrVec}
    {withAttrs : Span → AttrVec → Span} (bare : SpanView → α → SpanView) {next : SpanView → α → SpanView}
    (Ok : SpanView → List α → Prop) (hok : ∀ {v x xs}, Ok v (x :: xs) → Ok (next v x) xs)
    (hadd : ∀ {h dst v x dst' h'}, CloneInv h₀ h dst v → add h dst x = (.ok, dst', h') →
      CloneInv h₀ h' dst' (bare v x))
    (hrefused : ∀ {h dst v x xs st dst' h'}, CloneInv h₀ h dst v → Ok v (x :: xs) →
      add h dst x = (st, dst', h') → st ≠ .ok → h.Le h' ∧ h.refused < h'.refused)
    (hattrs : ∀ {h dst v x h' copy}, CloneInv h₀ h dst (bare v x) →
      Copies attrLeaves attrKvs h (attrKvs (attrs x)) (.ok copy, h') → CloneInv h₀ h' (withAttrs dst copy) (next v x))
    (hbare : ∀ {v x}, attrKvs (attrs x) = [] → bare v x = next v x) {xs : List α} (hinv : CloneInv h₀ h dst v)
    (hxs : Ok v xs) :
    Clones Span.leaves Span.view h₀ (xs.foldl next v) (cloneItems add attrs withAttrs h dst xs) := by
  induction xs generalizing h dst v with
  | nil => exact .some hinv.le hinv.leaf hinv.view_eq
  | cons x xs ih =>
    rw [List.foldl_cons, cloneItems]
    split
    · next dst₁ h₁ heq =>
      have hinv₁ := hadd hinv heq
      split
      · have hcopy := copies_otlpAttrVecCopy h₁ (attrs x)
        split
        · next st h₂ heq₂ =>
          rw [heq₂] at hcopy
          exact .none (hinv₁.le.trans hcopy.le) (hinv₁.le.refused_le.trans_lt (hcopy.refused st rfl))
        · next copy h₂ heq₂ =>
          rw [heq₂] at hcopy
          exact ih (hattrs hinv₁ hcopy) (hok hxs)
      · next hnone =>
        rw [hbare (attrKvs_of_length_eq_zero hnone)] at hinv₁
        exact ih hinv₁ (hok hxs)
    · next st dst₁ h₁ hne heq =>
      obtain ⟨hle, hlt⟩ := hrefused hinv hxs heq fun hst => hne (by rw [hst])
      exact .none (hinv.le.trans hle) (hinv.le.refused_le.trans_lt hlt)

theorem clones_cloneEvents (hinv : CloneInv h₀ h dst v) {evs : List Event}
    (hevs : ∀ e ∈ evs, otlpStrIsUtf8 e.name.bytes = true) (hle : v.events.length + evs.length ≤ otlpSpanMaxEvents) :
    Clones Span.leaves Span.view h₀ { v with events := v.events ++ evs.map Event.view } (cloneEvents h dst evs) := by
  have hfold : evs.foldl (fun v e => { v with events := v.events ++ [e.view] }) v =
      { v with events := v.events ++ evs.map Event.view } := by
    clear hevs hle hinv
    induction evs generalizing v with
    | nil => simp
    | cons e evs ih => simp [ih, List.append_assoc]
  rw [← hfold]
  refine clones_cloneItems (fun v e => v.accept (.addEvent (some e.name.bytes) e.timeUnixNano))
    (fun v evs => (∀ e ∈ evs, otlpStrIsUtf8 e.name.bytes = true) ∧
      v.events.length + evs.length ≤ otlpSpanMaxEvents) ?_ ?_ ?_ ?_ ?_ hinv ⟨hevs, hle⟩
  · rintro v e evs ⟨hutf8, hle⟩
    refine ⟨fun e' he => hutf8 e' (List.mem_cons_of_mem e he), ?_⟩
    rw [List.length_cons] at hle
    simp only [List.length_append, List.length_singleton]
    omega
  · exact fun hinv heq => hinv.call (c := .addEvent _ _) heq
  · rintro h dst v e evs st dst' h' hinv ⟨hutf8, hle⟩ heq hst
    have hlength : dst.events.items.length = v.events.length := by
      rw [← hinv.view_eq]
      exact (List.length_map _).symm
    rw [List.length_cons] at hle
    have hcall := (SpanCall.addEvent (some e.name.bytes) e.timeUnixNano).run_spec h dst
    have hrefused := otlpSpanAddEvent_refused (h := h) (s := dst) (t := e.timeUnixNano)
      (hutf8 e List.mem_cons_self) e.name.fits (by omega)
    rw [SpanCall.run] at hcall
    rw [heq] at hcall hrefused
    exact ⟨hcall.parts.le, hrefused hst⟩
  · exact fun hinv hcopy => hinv.eventAttrs hcopy
  · intro v e hnone
    rw [Event.view, hnone]
    rfl

theorem clones_cloneLinks (hinv : CloneInv h₀ h dst v) {lks : List Link}
    (hle : v.links.length + lks.length ≤ otlpSpanMaxLinks) :
    Clones Span.leaves Span.view h₀ { v with links := v.links ++ lks.map Link.view } (cloneLinks h dst lks) := by
  have hfold : lks.foldl (fun v l => { v with links := v.links ++ [l.view] }) v =
      { v with links := v.links ++ lks.map Link.view } := by
    clear hle hinv
    induction lks generalizing v with
    | nil => simp
    | cons l lks ih => simp [ih, List.append_assoc]
  rw [← hfold]
  refine clones_cloneItems (fun v l => v.accept (.addLink (some l.traceId) (some l.spanId)))
    (fun v lks => v.links.length + lks.length ≤ otlpSpanMaxLinks) ?_ ?_ ?_ ?_ ?_ hinv hle
  · intro v l lks hle
    rw [List.length_cons] at hle
    simp only [List.length_append, List.length_singleton]
    omega
  · exact fun hinv heq => hinv.call (c := .addLink _ _) heq
  · intro h dst v l lks st dst' h' hinv hle heq hst
    have hlength : dst.links.items.length = v.links.length := by
      rw [← hinv.view_eq]
      exact (List.length_map _).symm
    rw [List.length_cons] at hle
    have hcall := (SpanCall.addLink (some l.traceId) (some l.spanId)).run_spec h dst
    have hrefused := @otlpSpanAddLink_refused h dst l.traceId l.spanId (by omega)
    rw [SpanCall.run] at hcall
    rw [heq] at hcall hrefused
    exact ⟨hcall.parts.le, hrefused hst⟩
  · exact fun hinv hcopy => hinv.linkAttrs hcopy
  · intro v l hnone
    rw [Link.view, hnone]
    rfl

/-! ### The span -/

theorem otlpSpanCreate_none {name : HeapStr} (hutf8 : otlpStrIsUtf8 name.bytes = true)
    (hs : otlpSpanCreate h (some name.bytes) = (none, h')) : h.refused < h'.refused := by
  have hle := otlpMalloc_le h sizeofSpan
  unfold otlpSpanCreate at hs
  split at hs
  · next heq => exact (Prod.mk.inj hs).2 ▸ otlpMalloc_none heq
  · next c h₁ heq =>
    rw [heq] at hle
    rw [isUtf8, Option.getD_some, hutf8] at hs
    rcases otlpDupStr_cases h₁ name with ⟨h₂, heq₂, -, hlt⟩ | ⟨c₂, h₂, heq₂, -⟩
    · rw [heq₂] at hs
      exact (Prod.mk.inj hs).2 ▸ hle.refused_le.trans_lt hlt
    · rw [heq₂] at hs
      cases (Prod.mk.inj hs).1

theorem dupOptStr_cases (h : Heap) (s : Option HeapStr) :
    (∃ h', dupOptStr h s = (none, h') ∧ h.Le h' ∧ h.refused < h'.refused) ∨
    ∃ c h', dupOptStr h s = (some c, h') ∧ h.Le h' ∧ c.map (·.bytes) = s.map (·.bytes) ∧
      ∀ l ∈ strLeaves c, l.Fresh h h' := by
  cases s with
  | none => exact .inr ⟨none, h, rfl, .refl h, rfl, fun l hl => absurd hl List.not_mem_nil⟩
  | some s =>
    rw [dupOptStr]
    rcases otlpDupStr_cases h s with ⟨h₁, heq, hle, hlt⟩ | ⟨c, h₁, heq, hle, htext, hfresh⟩
    · rw [heq]
      exact .inl ⟨h₁, rfl, hle, hlt⟩
    · rw [heq]
      refine .inr ⟨some c, h₁, rfl, hle, congrArg some htext, fun l hl => ?_⟩
      obtain rfl : l = c.leaf := by simpa [strLeaves] using hl
      exact hfresh

theorem CloneInv.fields {src : Span} {h₁ h₂ h₃ h₄ : Heap} {msg state : Option HeapStr} {attrs : AttrVec}
    (hinv : CloneInv h₀ h₁ dst v) (hname : v.name = src.name.bytes) (hevents : v.events = [])
    (hlinks : v.links = []) (hle₂ : h₁.Le h₂)
    (hmsg : msg.map (·.bytes) = src.statusMessage.map (·.bytes)) (hmsgFresh : ∀ l ∈ strLeaves msg, l.Fresh h₁ h₂)
    (hle₃ : h₂.Le h₃) (hstate : state.map (·.bytes) = src.traceState.map (·.bytes))
    (hstateFresh : ∀ l ∈ strLeaves state, l.Fresh h₂ h₃)
    (hcopy : Copies attrLeaves attrKvs h₃ (attrKvs src.attrs) (.ok attrs, h₄)) :
    CloneInv h₀ h₄ { dst with
      traceId := src.traceId
      spanId := src.spanId
      hasParent := src.hasParent
      parentSpanId := if src.hasParent then src.parentSpanId else dst.parentSpanId
      hasStartTime := src.hasStartTime
      startTimeUnixNano := src.startTimeUnixNano
      hasEndTime := src.hasEndTime
      endTimeUnixNano := src.endTimeUnixNano
      kind := src.kind
      statusCode := src.statusCode
      sampled := src.sampled
      statusMessage := msg
      traceState := state
      attrs := attrs } { src.view with events := [], links := [] } := by
  have hle₄ := hle₂.trans (hle₃.trans hcopy.le)
  refine ⟨hinv.le.trans hle₄, fun l hl => ?_, ?_⟩
  · have hfresh : ∀ l ∈ dst.leaves, l.Fresh h₀ h₄ := fun l hl => (hinv.leaf l hl).mono (.refl h₀) hle₄
    rcases Span.mem_leaves.1 hl with hl | hl | hl | hl | hl | hl | hl
    · exact hfresh l (Span.mem_leaves.2 (.inl hl))
    · exact hfresh l (Span.mem_leaves.2 (.inr (.inl hl)))
    · exact (hmsgFresh l hl).mono hinv.le (hle₃.trans hcopy.le)
    · exact (hstateFresh l hl).mono (hinv.le.trans hle₂) hcopy.le
    · exact hfresh l (Span.mem_leaves.2 (.inr (.inr (.inr (.inr (.inl hl))))))
    · exact hfresh l (Span.mem_leaves.2 (.inr (.inr (.inr (.inr (.inr (.inl hl)))))))
    · exact (hcopy.leaf attrs rfl l hl).mono (hinv.le.trans (hle₂.trans hle₃)) (.refl h₄)
  · have hname := (congrArg SpanView.name hinv.view_eq).trans hname
    have hevents := (congrArg SpanView.events hinv.view_eq).trans hevents
    have hlinks := (congrArg SpanView.links hinv.view_eq).trans hlinks
    have hattrs := hcopy.read_eq attrs rfl
    simp only [Span.view] at hname hevents hlinks ⊢
    rw [hname, hevents, hlinks, hattrs, hmsg, hstate]
    congr 1
    split <;> rfl

/-- **`otlp_span_clone`**: unless an allocation is refused there is a clone, it reads as the original and all it
owns was allocated for it. -/
theorem clones_otlpSpanClone (h : Heap) {src : Span} (hvalid : ∀ l ∈ src.leaves, l.Valid) :
    Clones Span.leaves Span.view h src.view (otlpSpanClone h src) := by
  have hname : otlpStrIsUtf8 src.name.bytes = true :=
    hvalid src.name.leaf (Span.mem_leaves.2 (.inr (.inl rfl))) _ rfl
  have hevs : ∀ e ∈ src.events.items, otlpStrIsUtf8 e.name.bytes = true := fun e he =>
    hvalid e.name.leaf (Span.mem_leaves.2 (.inr (.inr (.inr (.inr (.inl
      (GrowVec.leaves_subset_of_mem he List.mem_cons_self))))))) _ rfl
  have hcreate := otlpSpanCreate_le h (some src.name.bytes)
  unfold otlpSpanClone
  split
  · next h₁ heq₁ =>
    rw [heq₁] at hcreate
    exact .none hcreate (otlpSpanCreate_none hname heq₁)
  next dst h₁ heq₁ =>
  obtain ⟨hle₁, hleaves, hnew⟩ := otlpSpanCreate_some heq₁
  have hinv : CloneInv h h₁ dst (SpanView.new src.name.bytes) := ⟨hle₁, fun l hl => (hleaves l hl).1, hnew⟩
  rcases dupOptStr_cases h₁ src.statusMessage with ⟨h₂, heq₂, hle₂, hlt₂⟩ | ⟨msg, h₂, heq₂, hle₂, hmsg, hmsgFresh⟩
  · rw [heq₂]
    exact .none (hinv.le.trans hle₂) (hinv.le.refused_le.trans_lt hlt₂)
  rw [heq₂]
  dsimp only
  rcases dupOptStr_cases h₂ src.traceState with ⟨h₃, heq₃, hle₃, hlt₃⟩ | ⟨state, h₃, heq₃, hle₃, hstate, hstateFresh⟩
  · rw [heq₃]
    exact .none (hinv.le.trans (hle₂.trans hle₃)) ((hinv.le.trans hle₂).refused_le.trans_lt hlt₃)
  rw [heq₃]
  dsimp only
  have hcopy := copies_otlpAttrVecCopy h₃ src.attrs
  have hle := hinv.le.trans (hle₂.trans hle₃)
  split
  · next st h₄ heq₄ =>
    rw [heq₄] at hcopy
    exact .none (hle.trans hcopy.le) (hle.refused_le.trans_lt (hcopy.refused st rfl))
  next attrs h₄ heq₄ =>
  rw [heq₄] at hcopy
  have hinv₄ := hinv.fields rfl rfl rfl hle₂ hmsg hmsgFresh hle₃ hstate hstateFresh hcopy
  have hevents := clones_cloneEvents hinv₄ hevs (by simpa using src.events_le)
  split
  · next h₅ heq₅ =>
    rw [heq₅] at hevents
    exact .none hevents.le (hevents.refused rfl)
  next dst₅ h₅ heq₅ =>
  rw [heq₅] at hevents
  have hinv₅ : CloneInv h h₅ dst₅ _ := ⟨hevents.le, hevents.leaf dst₅ rfl, hevents.read_eq dst₅ rfl⟩
  simpa [Span.view] using @clones_cloneLinks _ _ _ _ hinv₅ src.links.items (by simpa using src.links_le)

end

end OtlpC.Api
