import Mathlib.Logic.Function.Basic
import OtlpC.Context.W3c

/-!
# Context propagation

`context.c`: a context is injected into a carrier and extracted from one through the carrier's own functions, which
may keep any state and answer anything. What is extracted from a carrier survives a carrier that is a map
(`otlpContextExtract_inject`).
-/

namespace OtlpC.Context

open Api

/-! ### Data -/

abbrev otlpContextTracestateMax : ℕ := 512
abbrev otlpContextBaggageMax : ℕ := 2048

def otlpContextTraceparentHeader : Bytes := ascii "traceparent"
def otlpContextTracestateHeader : Bytes := ascii "tracestate"
def otlpContextBaggageHeader : Bytes := ascii "baggage"

/-- The string in a `char[max]`, with its NUL. -/
structure CharBuf (max : ℕ) where
  text : CString
  fits : text.bytes.length < max
deriving Repr, DecidableEq

/-- A `char[max]` of zeros. -/
def CharBuf.empty (max : ℕ) [NeZero max] : CharBuf max where
  text := { bytes := [], no_nul := List.not_mem_nil }
  fits := NeZero.pos max

structure OtlpContext where
  traceId : TraceId
  spanId : SpanId
  hasContext : Bool
  sampled : Bool
  tracestate : CharBuf otlpContextTracestateMax
  baggage : CharBuf otlpContextBaggageMax
deriving Repr, DecidableEq

/-- `{ 0 }`. -/
def OtlpContext.zero : OtlpContext :=
  { traceId := zeroTraceId, spanId := zeroSpanId, hasContext := false, sampled := false,
    tracestate := .empty _, baggage := .empty _ }

abbrev OtlpCarrierSetFn (σ : Type) := σ → Bytes → CString → OtlpStatus × σ

/-- `otlp_carrier_get_fn`; it may return NULL. -/
abbrev OtlpCarrierGetFn (σ : Type) := σ → Bytes → Option CString × σ

/-! ### Functions -/

def containsControl (s : CString) : Bool := s.bytes.any fun c => c < 0x20 || c == 0x7f

def otlpContextFromSpan : Option Span → OtlpContext
  | none => .zero
  | some span =>
    { OtlpContext.zero with
      traceId := span.traceId, spanId := span.spanId, sampled := span.sampled, hasContext := true }

def setPresent {σ : Type} (set : OtlpCarrierSetFn σ) (key : Bytes) (value : CString) (carrier : σ) : OtlpStatus × σ :=
  if value.byteAt 0 != 0 then set carrier key value else (.ok, carrier)

def otlpContextInject {σ : Type} (ctx : OtlpContext) (set : Option (OtlpCarrierSetFn σ)) (carrier : σ) :
    OtlpStatus × σ :=
  match set with
  | none => (.errNull, carrier)
  | some set =>
    if !ctx.hasContext then (.errInvalidArgument, carrier)
    else
      match otlpTraceparentFormatRaw (some ctx.traceId) (some ctx.spanId) ctx.sampled
        (some otlpTraceparentBufSize) with
      | .error st => (st, carrier)
      | .ok (buf, _) =>
        match setPresent set otlpContextTracestateHeader ctx.tracestate.text carrier with
        | (.ok, carrier) =>
          match setPresent set otlpContextBaggageHeader ctx.baggage.text carrier with
          | (.ok, carrier) => set carrier otlpContextTraceparentHeader (.ofBuffer buf)
          | failed => failed
        | failed => failed

/-- The first `n` bytes of a string. -/
def CString.truncate (s : CString) (n : ℕ) : CString where
  bytes := s.bytes.take n
  no_nul h := s.no_nul (List.mem_of_mem_take h)

/-- What a `char[max]` of the extracted context holds of a header's value. -/
def CharBuf.copied (max : ℕ) [NeZero max] : Option CString → CharBuf max
  | none => .empty max
  | some value =>
    if value.byteAt 0 != 0 && !containsControl value then
      { text := value.truncate (if max ≤ value.bytes.length then max - 1 else value.bytes.length)
        fits := by
          have hpos := NeZero.pos max
          rw [CString.truncate, List.length_take]
          split <;> omega }
    else .empty max

def otlpContextExtract {σ : Type} (get : Option (OtlpCarrierGetFn σ)) (carrier : σ) : OtlpContext × σ :=
  match get with
  | none => (.zero, carrier)
  | some get =>
    match get carrier otlpContextTraceparentHeader with
    | (none, carrier) => (.zero, carrier)
    | (some header, carrier) =>
      let (st, traceId, spanId, flags) :=
        otlpTraceparentParse (some header) (some zeroTraceId) (some zeroSpanId) (some 0)
      let ctx := { OtlpContext.zero with
        traceId := traceId.getD zeroTraceId, spanId := spanId.getD zeroSpanId }
      if st != .ok then (ctx, carrier)
      else
        let (ts, carrier) := get carrier otlpContextTracestateHeader
        let (bg, carrier) := get carrier otlpContextBaggageHeader
        ({ ctx with
            sampled := flags.getD 0 &&& 0x01 != 0
            hasContext := true
            tracestate := .copied _ ts
            baggage := .copied _ bg }, carrier)

/-! ### Carriers -/

/-- A carrier that is a map: what was set last under a key is what is got. -/
structure MapCarrier (σ : Type) where
  set : OtlpCarrierSetFn σ
  get : OtlpCarrierGetFn σ
  view : σ → Bytes → Option CString
  empty : σ
  view_empty : ∀ key, view empty key = none
  set_ok : ∀ carrier key value, (set carrier key value).1 = .ok
  view_set : ∀ carrier key value, view (set carrier key value).2 = Function.update (view carrier) key (some value)
  get_eq : ∀ carrier key, (get carrier key).1 = view carrier key
  view_get : ∀ carrier key, view (get carrier key).2 = view carrier

/-- A carrier with a list of the values that were handed to it. -/
def recorded {σ : Type} (set : OtlpCarrierSetFn σ) : OtlpCarrierSetFn (σ × List CString) :=
  fun carrier key value =>
    let (st, state) := set carrier.1 key value
    (st, state, carrier.2 ++ [value])

/-! ### Stored strings -/

theorem containsControl_eq_false {s : CString} :
    containsControl s = false ↔ ∀ c ∈ s.bytes, 0x20 ≤ c ∧ c ≠ 0x7f := by
  simp [containsControl]

theorem byteAt_zero_ne {s : CString} : (s.byteAt 0 != 0) = true ↔ s.bytes ≠ [] := by
  rw [bne_iff_ne, CString.byteAt]
  cases hbytes : s.bytes with
  | nil => simp
  | cons c l =>
    refine iff_of_true (fun hc => s.no_nul ?_) (List.cons_ne_nil c l)
    rw [hbytes, ← show c = 0 from hc]
    exact List.mem_cons_self

theorem CharBuf.copied_clean (max : ℕ) [NeZero max] (value : Option CString) :
    containsControl (CharBuf.copied max value).text = false := by
  rw [containsControl_eq_false]
  intro c hc
  cases value with
  | none => exact absurd hc List.not_mem_nil
  | some value =>
    rw [CharBuf.copied] at hc
    split at hc
    · next hkeep =>
      rw [Bool.and_eq_true, Bool.not_eq_true'] at hkeep
      exact containsControl_eq_false.1 hkeep.2 c (List.mem_of_mem_take hc)
    · exact absurd hc List.not_mem_nil

def headerOf {max : ℕ} (b : CharBuf max) : Option CString :=
  if b.text.byteAt 0 != 0 then some b.text else none

theorem CharBuf.copied_headerOf {max : ℕ} [NeZero max] {b : CharBuf max} (h : containsControl b.text = false) :
    CharBuf.copied max (headerOf b) = b := by
  obtain ⟨text, fits⟩ := b
  rw [headerOf]
  by_cases hne : (text.byteAt 0 != 0) = true
  · have hkeep : (text.byteAt 0 != 0 && !containsControl text) = true := by
      rw [hne, h]
      rfl
    have hroom : ¬max ≤ text.bytes.length := Nat.not_le.2 fits
    rw [if_pos hne, CharBuf.copied, if_pos hkeep, CharBuf.mk.injEq, CString.truncate]
    dsimp only
    simp only [if_neg hroom, List.take_length]
  · obtain ⟨bytes, no_nul⟩ := text
    have hnil : bytes = [] := not_not.1 (mt (@byteAt_zero_ne ⟨bytes, no_nul⟩).2 hne)
    subst hnil
    rw [if_neg hne]
    rfl

/-! ### Contexts -/

/-- A context that headers can carry. -/
structure Propagatable (ctx : OtlpContext) : Prop where
  has_context : ctx.hasContext = true
  trace_ne : otlpIdIsAllZero ctx.traceId = false
  span_ne : otlpIdIsAllZero ctx.spanId = false
  tracestate_clean : containsControl ctx.tracestate.text = false
  baggage_clean : containsControl ctx.baggage.text = false

section Extract

variable {σ : Type} {get : OtlpCarrierGetFn σ} {carrier carrier' : σ} {header : CString}

theorem otlpTraceparentParse_some (header : CString) (t : TraceId) (s : SpanId) (flags : UInt8) :
    otlpTraceparentParse (some header) (some t) (some s) (some flags) =
      ((parseFields header t s flags).1, some (parseFields header t s flags).2.1,
        some (parseFields header t s flags).2.2.1, some (parseFields header t s flags).2.2.2) := rfl

theorem otlpContextExtract_of_parse {t : TraceId} {s : SpanId} {flags : UInt8}
    (hget : get carrier otlpContextTraceparentHeader = (some header, carrier'))
    (hparse : parseFields header zeroTraceId zeroSpanId 0 = (.ok, t, s, flags)) :
    (otlpContextExtract (some get) carrier).1 =
      { traceId := t, spanId := s, hasContext := true, sampled := flags &&& 0x01 != 0
        tracestate := .copied _ (get carrier' otlpContextTracestateHeader).1
        baggage := .copied _ (get (get carrier' otlpContextTracestateHeader).2 otlpContextBaggageHeader).1 } := by
  rw [otlpContextExtract]
  dsimp only
  rw [hget]
  dsimp only
  rw [otlpTraceparentParse_some, hparse]
  rfl

theorem exists_parse_of_hasContext {get : Option (OtlpCarrierGetFn σ)}
    (h : (otlpContextExtract get carrier).1.hasContext = true) :
    ∃ get' header carrier' t s flags, get = some get' ∧
      get' carrier otlpContextTraceparentHeader = (some header, carrier') ∧
      parseFields header zeroTraceId zeroSpanId 0 = (.ok, t, s, flags) := by
  cases get with
  | none => contradiction
  | some get =>
    rw [otlpContextExtract] at h
    dsimp only at h
    cases hget : get carrier otlpContextTraceparentHeader with
    | mk header carrier' =>
      rw [hget] at h
      cases header with
      | none => contradiction
      | some header =>
        dsimp only at h
        rw [otlpTraceparentParse_some] at h
        by_cases hst : (parseFields header zeroTraceId zeroSpanId 0).1 = .ok
        · exact ⟨get, header, carrier', _, _, _, rfl, hget, Prod.ext hst rfl⟩
        · dsimp only at h
          rw [if_pos (bne_iff_ne.2 hst)] at h
          contradiction

/-- **Whatever the carrier answers**, a context that is extracted can be carried on. -/
theorem otlpContextExtract_propagatable {get : Option (OtlpCarrierGetFn σ)}
    (h : (otlpContextExtract get carrier).1.hasContext = true) : Propagatable (otlpContextExtract get carrier).1 := by
  obtain ⟨get, header, carrier', t, s, flags, rfl, hget, hparse⟩ := exists_parse_of_hasContext h
  have hfields := Fields.of_parse hparse
  rw [otlpContextExtract_of_parse hget hparse]
  exact {
    has_context := rfl
    trace_ne := hfields.trace_ne
    span_ne := hfields.span_ne
    tracestate_clean := CharBuf.copied_clean _ _
    baggage_clean := CharBuf.copied_clean _ _ }

end Extract

theorem otlpContextFromSpan_propagatable {span : Span} (ht : otlpIdIsAllZero span.traceId = false)
    (hs : otlpIdIsAllZero span.spanId = false) : Propagatable (otlpContextFromSpan (some span)) where
  has_context := rfl
  trace_ne := ht
  span_ne := hs
  tracestate_clean := rfl
  baggage_clean := rfl

/-! ### Injection -/

section Inject

variable {σ : Type} {ctx : OtlpContext}

theorem otlpContextInject_some (h : ctx.hasContext = true) (set : OtlpCarrierSetFn σ) (carrier : σ) :
    otlpContextInject ctx (some set) carrier =
      match setPresent set otlpContextTracestateHeader ctx.tracestate.text carrier with
      | (.ok, carrier) =>
        match setPresent set otlpContextBaggageHeader ctx.baggage.text carrier with
        | (.ok, carrier) =>
          set carrier otlpContextTraceparentHeader (traceparentString ctx.traceId ctx.spanId ctx.sampled)
        | failed => failed
      | failed => failed := by
  have hbuf : otlpTraceparentFormatRaw (some ctx.traceId) (some ctx.spanId) ctx.sampled
      (some otlpTraceparentBufSize) =
      .ok (traceparentText ctx.traceId ctx.spanId ctx.sampled ++ [0], otlpTraceparentLen) := by
    rw [otlpTraceparentFormatRaw, if_neg (Nat.lt_irrefl _)]
  rw [otlpContextInject, hbuf, h, if_neg (by decide)]
  dsimp only
  rw [ofBuffer_traceparentText]

theorem MapCarrier.setPresent (M : MapCarrier σ) {max : ℕ} (b : CharBuf max) {key : Bytes} {carrier : σ}
    (hnone : M.view carrier key = none) :
    ∃ carrier', setPresent M.set key b.text carrier = (.ok, carrier') ∧
      M.view carrier' = Function.update (M.view carrier) key (headerOf b) := by
  rw [Context.setPresent, headerOf]
  cases b.text.byteAt 0 != 0 with
  | true =>
    rw [if_pos rfl, if_pos rfl]
    exact ⟨_, Prod.ext (M.set_ok carrier key b.text) rfl, M.view_set carrier key b.text⟩
  | false =>
    rw [if_neg Bool.false_ne_true, if_neg Bool.false_ne_true]
    exact ⟨carrier, rfl, (Function.update_eq_self_iff.2 hnone.symm).symm⟩

/-- What a map carries of a context. -/
def headers (ctx : OtlpContext) (key : Bytes) : Option CString :=
  if key = otlpContextTraceparentHeader then some (traceparentString ctx.traceId ctx.spanId ctx.sampled)
  else if key = otlpContextBaggageHeader then headerOf ctx.baggage
  else if key = otlpContextTracestateHeader then headerOf ctx.tracestate
  else none

/-- **A map takes every context**, and carries its headers. -/
theorem MapCarrier.inject (M : MapCarrier σ) (h : ctx.hasContext = true) :
    (otlpContextInject ctx (some M.set) M.empty).1 = .ok ∧
      M.view (otlpContextInject ctx (some M.set) M.empty).2 = headers ctx := by
  obtain ⟨c₁, hset₁, hview₁⟩ := M.setPresent ctx.tracestate (M.view_empty otlpContextTracestateHeader)
  have hnone : M.view c₁ otlpContextBaggageHeader = none := by
    rw [hview₁, Function.update_of_ne (by decide), M.view_empty]
  obtain ⟨c₂, hset₂, hview₂⟩ := M.setPresent ctx.baggage hnone
  rw [otlpContextInject_some h, hset₁]
  dsimp only
  rw [hset₂]
  refine ⟨M.set_ok _ _ _, ?_⟩
  rw [M.view_set, hview₂, hview₁]
  funext key
  simp only [Function.update_apply, headers, M.view_empty]

theorem sampled_flag (sampled : Bool) : ((if sampled then 1 else 0 : UInt8) &&& 0x01 != 0) = sampled := by
  cases sampled <;> decide

/-- **The headers are extracted** as the context they are of. -/
theorem MapCarrier.extract (M : MapCarrier σ) (h : Propagatable ctx) {carrier : σ}
    (hview : M.view carrier = headers ctx) : (otlpContextExtract (some M.get) carrier).1 = ctx := by
  have hheader : (M.get carrier otlpContextTraceparentHeader).1 =
      some (traceparentString ctx.traceId ctx.spanId ctx.sampled) := by
    rw [M.get_eq, hview]
    rfl
  have hparse := parseFields_text ctx.sampled h.trace_ne h.span_ne zeroTraceId zeroSpanId 0
  rw [otlpContextExtract_of_parse (Prod.ext hheader rfl) hparse, M.get_eq, M.get_eq, M.view_get, M.view_get,
    M.view_get, hview,
    show headers ctx otlpContextTracestateHeader = headerOf ctx.tracestate from rfl,
    show headers ctx otlpContextBaggageHeader = headerOf ctx.baggage from rfl,
    CharBuf.copied_headerOf h.tracestate_clean, CharBuf.copied_headerOf h.baggage_clean]
  rw [sampled_flag, ← h.has_context]

end Inject

/-! ### What a carrier is handed -/

section Recorded

variable {σ : Type} {carrier : σ × List CString}

theorem setPresent_recorded (set : OtlpCarrierSetFn σ) (key : Bytes) (value : CString) (carrier : σ × List CString) :
    ∃ log, setPresent (recorded set) key value carrier =
      ((setPresent set key value carrier.1).1, (setPresent set key value carrier.1).2, log) := by
  unfold setPresent
  split
  · exact ⟨_, rfl⟩
  · exact ⟨carrier.2, rfl⟩

/-- The list does not change what the carrier does. -/
theorem otlpContextInject_recorded (ctx : OtlpContext) (set : OtlpCarrierSetFn σ) (carrier : σ × List CString) :
    ∃ log, otlpContextInject ctx (some (recorded set)) carrier =
      ((otlpContextInject ctx (some set) carrier.1).1, (otlpContextInject ctx (some set) carrier.1).2, log) := by
  cases h : ctx.hasContext with
  | false =>
    refine ⟨carrier.2, ?_⟩
    simp [otlpContextInject, h]
  | true =>
    rw [otlpContextInject_some h, otlpContextInject_some h]
    obtain ⟨log₁, h₁⟩ := setPresent_recorded set otlpContextTracestateHeader ctx.tracestate.text carrier
    rw [h₁]
    cases setPresent set otlpContextTracestateHeader ctx.tracestate.text carrier.1 with
    | mk st₁ c₁ =>
      cases st₁ with
      | ok =>
        obtain ⟨log₂, h₂⟩ := setPresent_recorded set otlpContextBaggageHeader ctx.baggage.text (c₁, log₁)
        dsimp only
        rw [h₂]
        cases setPresent set otlpContextBaggageHeader ctx.baggage.text c₁ with
        | mk st₂ c₂ => cases st₂ <;> exact ⟨_, rfl⟩
      | _ => exact ⟨log₁, rfl⟩

def AllClean (values : List CString) : Prop := ∀ v ∈ values, ∀ c ∈ v.bytes, 0x20 ≤ c ∧ c ≠ 0x7f

theorem AllClean.recorded (set : OtlpCarrierSetFn σ) (h : AllClean carrier.2) (key : Bytes) {value : CString}
    (hvalue : containsControl value = false) : AllClean (Context.recorded set carrier key value).2.2 := by
  intro v hv
  rw [Context.recorded, List.mem_append, List.mem_singleton] at hv
  rcases hv with hv | rfl
  · exact h v hv
  · exact containsControl_eq_false.1 hvalue

theorem AllClean.setPresent (set : OtlpCarrierSetFn σ) (h : AllClean carrier.2) (key : Bytes) {value : CString}
    (hvalue : containsControl value = false) :
    AllClean (Context.setPresent (Context.recorded set) key value carrier).2.2 := by
  rw [Context.setPresent]
  split
  · exact h.recorded set key hvalue
  · exact h

/-- **No control byte is handed to a carrier**, whatever it answers. -/
theorem AllClean.inject {ctx : OtlpContext} (hctx : Propagatable ctx) (set : OtlpCarrierSetFn σ)
    (h : AllClean carrier.2) :
    AllClean (otlpContextInject ctx (some (Context.recorded set)) carrier).2.2 := by
  have htrace : containsControl (traceparentString ctx.traceId ctx.spanId ctx.sampled) = false :=
    containsControl_eq_false.2 fun c hc => traceparentText_printable hc
  have h₁ := h.setPresent set otlpContextTracestateHeader hctx.tracestate_clean
  rw [otlpContextInject_some hctx.has_context]
  split
  · next carrier₁ hset₁ =>
    rw [hset₁] at h₁
    have h₂ := h₁.setPresent set otlpContextBaggageHeader hctx.baggage_clean
    split
    · next carrier₂ hset₂ =>
      rw [hset₂] at h₂
      exact h₂.recorded set otlpContextTraceparentHeader htrace
    · exact h₂
  · exact h₁

end Recorded

/-! ### Round trip -/

/-- **A context is propagated as it was extracted.** Whatever a carrier answers: a context that is extracted from it
is injected into every map, is extracted from the map as the same context, and hands no control byte to any
carrier. -/
theorem otlpContextExtract_inject {σ τ : Type} (get : Option (OtlpCarrierGetFn σ)) (carrier : σ) (M : MapCarrier τ)
    (h : (otlpContextExtract get carrier).1.hasContext = true) :
    let ctx := (otlpContextExtract get carrier).1
    (otlpContextInject ctx (some M.set) M.empty).1 = .ok ∧
      (otlpContextExtract (some M.get) (otlpContextInject ctx (some M.set) M.empty).2).1 = ctx ∧
      ∀ {υ : Type} (set : OtlpCarrierSetFn υ) (out : υ),
        ∀ v ∈ (otlpContextInject ctx (some (recorded set)) (out, [])).2.2, ∀ c ∈ v.bytes, 0x20 ≤ c ∧ c ≠ 0x7f := by
  have hctx := otlpContextExtract_propagatable h
  obtain ⟨hok, hview⟩ := M.inject hctx.has_context
  refine ⟨hok, M.extract hctx hview, fun set out => ?_⟩
  apply AllClean.inject hctx set
  intro v hv
  exact absurd hv List.not_mem_nil

def headerMap : MapCarrier (Bytes → Option CString) where
  set headers key value := (.ok, Function.update headers key (some value))
  get headers key := (headers key, headers)
  view headers := headers
  empty _ := none
  view_empty _ := rfl
  set_ok _ _ _ := rfl
  view_set _ _ _ := rfl
  get_eq _ _ := rfl
  view_get _ _ := rfl

/-- Headers of a later version, with upper case digits and unknown flags, and a line break in the baggage. -/
def incoming (key : Bytes) : Option CString :=
  if key = ascii "traceparent" then
    some { bytes := ascii "01-0AF7651916CD43DD8448EB211C80319C-b7ad6b7169203331-FF-more", no_nul := by decide }
  else if key = ascii "tracestate" then some { bytes := ascii "a=1,b=2", no_nul := by decide }
  else if key = ascii "baggage" then some { bytes := ascii "k=v\r\nX: y", no_nul := by decide }
  else none

theorem otlpContextExtract_inject_incoming :
    let ctx := (otlpContextExtract (some headerMap.get) incoming).1
    (otlpContextInject ctx (some headerMap.set) headerMap.empty).1 = .ok ∧
      (otlpContextExtract (some headerMap.get) (otlpContextInject ctx (some headerMap.set) headerMap.empty).2).1 = ctx ∧
      ∀ {υ : Type} (set : OtlpCarrierSetFn υ) (out : υ),
        ∀ v ∈ (otlpContextInject ctx (some (recorded set)) (out, [])).2.2, ∀ c ∈ v.bytes, 0x20 ≤ c ∧ c ≠ 0x7f :=
  otlpContextExtract_inject (some headerMap.get) incoming headerMap (by decide)

end OtlpC.Context
