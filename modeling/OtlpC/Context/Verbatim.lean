import OtlpC.Context.Propagation
import OtlpC.Context.TraceparentGrammar

/-!
# What is extracted of tracestate and baggage

`otlp_context_extract` copies the two values into buffers of fixed size. A value is stored whole, or not at
all, exactly when it has a control byte, or has room in its buffer and only ASCII bytes: a longer one is cut
to the size of the buffer, and a byte from 0x80 on is taken for printable.
-/

namespace OtlpC.Context

open Api

theorem ascii_le {c : UInt8} (h : c < 0x80) (hdel : c ≠ 0x7f) : c ≤ 0x7e := by
  rw [UInt8.lt_iff_toNat_lt] at h
  rw [UInt8.le_iff_toNat_le]
  have hne : c.toNat ≠ 127 := fun heq => hdel (UInt8.toNat_inj.1 heq)
  simp only [UInt8.reduceToNat] at h ⊢
  omega

/-- The stored string is the carrier's whole value or empty, and printable ASCII. -/
structure Verbatim {max : ℕ} (value : Option CString) (stored : CharBuf max) : Prop where
  whole : stored.text.bytes = [] ∨ value = some stored.text
  printable : ∀ c ∈ stored.text.bytes, 0x20 ≤ c ∧ c ≤ 0x7e

/-- The value is not used at all, or has room and only ASCII bytes. -/
def Storable (max : ℕ) (value : CString) : Prop :=
  containsControl value = true ∨ value.bytes.length < max ∧ ∀ c ∈ value.bytes, c < 0x80

variable {max : ℕ} [NeZero max]

theorem Verbatim.empty (value : Option CString) : Verbatim value (CharBuf.empty max) :=
  ⟨.inl rfl, fun _ hc => absurd hc List.not_mem_nil⟩

theorem CharBuf.copied_bytes {value : CString} (hne : value.bytes ≠ []) (hclean : containsControl value = false) :
    (CharBuf.copied max (some value)).text.bytes = value.bytes.take (max - 1) := by
  have hkeep : (value.byteAt 0 != 0 && !containsControl value) = true := by
    rw [hclean, byteAt_zero_ne.2 hne]
    rfl
  rw [CharBuf.copied, if_pos hkeep]
  dsimp only [CString.truncate]
  split
  · rfl
  · rw [List.take_length, List.take_of_length_le (by omega)]

theorem CharBuf.copied_of_control {value : CString} (h : containsControl value = true) :
    CharBuf.copied max (some value) = .empty max := by
  rw [CharBuf.copied, h, Bool.not_true, Bool.and_false, if_neg Bool.false_ne_true]

theorem CharBuf.copied_of_nil {value : CString} (h : value.bytes = []) :
    CharBuf.copied max (some value) = .empty max := by
  have hzero : (value.byteAt 0 != 0) = false := by
    rw [CString.byteAt, h]
    rfl
  rw [CharBuf.copied, hzero, Bool.false_and, if_neg Bool.false_ne_true]

/-- **A value is kept whole, or dropped, exactly when it is storable.** -/
theorem verbatim_iff (hmax : 1 < max) (value : Option CString) :
    Verbatim value (CharBuf.copied max value) ↔ ∀ v, value = some v → Storable max v := by
  cases value with
  | none => exact ⟨fun _ v hv => absurd hv (by simp), fun _ => .empty none⟩
  | some value =>
    have hsome : (∀ v, some value = some v → Storable max v) ↔ Storable max value :=
      ⟨fun h => h value rfl, fun h v hv => Option.some.inj hv ▸ h⟩
    rw [hsome]
    by_cases hnil : value.bytes = []
    · rw [CharBuf.copied_of_nil hnil]
      refine ⟨fun _ => .inr ⟨?_, fun c hc => ?_⟩, fun _ => .empty _⟩
      · rw [hnil]
        exact NeZero.pos max
      · rw [hnil] at hc
        exact absurd hc List.not_mem_nil
    cases hcontrol : containsControl value with
    | true =>
      rw [CharBuf.copied_of_control hcontrol]
      exact ⟨fun _ => .inl hcontrol, fun _ => .empty _⟩
    | false =>
      have hbytes := @CharBuf.copied_bytes max _ _ hnil hcontrol
      have hlength : value.bytes.length ≠ 0 := fun hzero => hnil (List.length_eq_zero_iff.1 hzero)
      constructor
      · intro h
        -- the stored string is not empty, so that it is the whole value
        have hwhole : value.bytes.take (max - 1) = value.bytes := by
          rcases h.whole with hempty | hsame
          · rw [hbytes, List.take_eq_nil_iff] at hempty
            exact absurd hempty (not_or.2 ⟨by omega, hnil⟩)
          · exact hbytes.symm.trans (congrArg CString.bytes (Option.some.inj hsame)).symm
        refine .inr ⟨?_, fun c hc => ?_⟩
        · have hle := congrArg List.length hwhole
          rw [List.length_take] at hle
          omega
        · rw [← hwhole, ← hbytes] at hc
          exact UInt8.lt_of_le_of_lt (h.printable c hc).2 (by decide)
      · rintro (hyes | ⟨hlen, hascii⟩)
        · rw [hcontrol] at hyes
          cases hyes
        · have hwhole : (CharBuf.copied max (some value)).text.bytes = value.bytes :=
            hbytes.trans (List.take_of_length_le (by omega))
          refine ⟨.inr (congrArg some ?_), fun c hc => ?_⟩
          · rw [CString.mk.injEq]
            exact hwhole.symm
          · rw [hwhole] at hc
            obtain ⟨hlow, hdel⟩ := containsControl_eq_false.1 hcontrol c hc
            exact ⟨hlow, ascii_le (hascii c hc) hdel⟩

/-! ### Extraction -/

section Extract

variable {σ : Type} {get : OtlpCarrierGetFn σ} {carrier : σ}

def WellFormed (header : CString) : Prop := ∃ t s flags, Accepted header.bytes t s flags

theorem otlpContextExtract_refused
    (h : ∀ header, (get carrier otlpContextTraceparentHeader).1 = some header → ¬WellFormed header) :
    (otlpContextExtract (some get) carrier).1.tracestate = .empty _ ∧
      (otlpContextExtract (some get) carrier).1.baggage = .empty _ := by
  rw [otlpContextExtract]
  dsimp only
  cases hget : get carrier otlpContextTraceparentHeader with
  | mk header carrier' =>
    cases header with
    | none => exact ⟨rfl, rfl⟩
    | some header =>
      have hrefused : (parseFields header zeroTraceId zeroSpanId 0).1 ≠ .ok := fun hok =>
        h header (by rw [hget]) ⟨_, _, _, (Fields.of_parse (Prod.ext hok rfl)).accepted⟩
      dsimp only
      rw [otlpTraceparentParse_some]
      dsimp only
      rw [if_pos (bne_iff_ne.2 hrefused)]
      exact ⟨rfl, rfl⟩

/-- The two values that the carrier answers, behind the traceparent and in this order, are extracted whole or
not at all. -/
def ExtractsVerbatim (get : OtlpCarrierGetFn σ) (carrier : σ) : Prop :=
  let ts := get (get carrier otlpContextTraceparentHeader).2 otlpContextTracestateHeader
  let bg := get ts.2 otlpContextBaggageHeader
  Verbatim ts.1 (otlpContextExtract (some get) carrier).1.tracestate ∧
    Verbatim bg.1 (otlpContextExtract (some get) carrier).1.baggage

/-- **Tracestate and baggage are extracted verbatim or not at all exactly when the values of a carrier with a
well-formed traceparent are storable.** -/
theorem extracts_verbatim_iff (get : OtlpCarrierGetFn σ) (carrier : σ) :
    ExtractsVerbatim get carrier ↔
      ∀ header, (get carrier otlpContextTraceparentHeader).1 = some header → WellFormed header →
        let ts := get (get carrier otlpContextTraceparentHeader).2 otlpContextTracestateHeader
        let bg := get ts.2 otlpContextBaggageHeader
        (∀ v, ts.1 = some v → Storable otlpContextTracestateMax v) ∧
          ∀ v, bg.1 = some v → Storable otlpContextBaggageMax v := by
  unfold ExtractsVerbatim
  by_cases h : ∃ header, (get carrier otlpContextTraceparentHeader).1 = some header ∧ WellFormed header
  · obtain ⟨header, hget, t, s, flags, haccepted⟩ := h
    have hparse := (Fields.of_accepted haccepted).parse zeroTraceId zeroSpanId 0
    rw [otlpContextExtract_of_parse (Prod.ext hget rfl) hparse]
    dsimp only
    rw [verbatim_iff (by decide), verbatim_iff (by decide)]
    exact ⟨fun hstorable _ _ _ => hstorable, fun hall => hall header hget ⟨t, s, flags, haccepted⟩⟩
  · rw [not_exists] at h
    have hrefused : ∀ header, (get carrier otlpContextTraceparentHeader).1 = some header →
        ¬WellFormed header := fun header hget hwell => h header ⟨hget, hwell⟩
    obtain ⟨htracestate, hbaggage⟩ := otlpContextExtract_refused hrefused
    rw [htracestate, hbaggage]
    exact ⟨fun _ header hget hwell => absurd hwell (hrefused header hget), fun _ => ⟨.empty _, .empty _⟩⟩

end Extract

/-- A tracestate of 512 letters, and a baggage with a letter that is not ASCII. -/
def longIncoming (key : Bytes) : Option CString :=
  if key = ascii "traceparent" then some (traceparentString (.replicate 16 1) (.replicate 8 1) true)
  else if key = ascii "tracestate" then
    some { bytes := List.replicate 512 0x61, no_nul := fun h => absurd (List.eq_of_mem_replicate h) (by decide) }
  else if key = ascii "baggage" then some { bytes := ascii "k=" ++ [0xc3, 0xa9], no_nul := by decide }
  else none

/-- One is cut by a letter, the other is stored. -/
theorem long_tracestate_cut : ¬∀ headers, ExtractsVerbatim headerMap.get headers := by
  intro h
  have hcut : (otlpContextExtract (some headerMap.get) longIncoming).1.tracestate.text.bytes.length = 511 := by
    decide +kernel
  rcases (h longIncoming).1.whole with hempty | hwhole
  · rw [hempty] at hcut
    exact absurd hcut (by decide)
  · have hlength : (longIncoming otlpContextTracestateHeader).map (·.bytes.length) = some 512 := by
      decide +kernel
    rw [show longIncoming otlpContextTracestateHeader = _ from hwhole, Option.map_some, hcut] at hlength
    exact absurd hlength (by decide)

end OtlpC.Context
