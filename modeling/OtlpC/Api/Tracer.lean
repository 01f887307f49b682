import OtlpC.Api.SpanCalls
import Mathlib.Data.Nat.GCD.Basic

/-!
# The tracer

`tracer.c`: spans with identifiers from a pseudo-random generator. Its state is never zero, so that no identifier
is, and the retry of `fill_random_bytes` is never taken.
-/

namespace OtlpC.Api

open Exporter Otlp

/-! ### The generator -/

def xorshift64s (s : UInt64) : UInt64 :=
  let s := s ^^^ (s <<< 13)
  let s := s ^^^ (s >>> 7)
  let s := s ^^^ (s <<< 17)
  0x2545F4914F6CDD1D * s

theorem eq_zero_of_mul_mod {s c : ℕ} (hs : s < 2 ^ 64) (hc : Nat.Coprime (2 ^ 64) c) (h : s * c % 2 ^ 64 = 0) :
    s = 0 :=
  Nat.eq_zero_of_dvd_of_lt (hc.dvd_of_dvd_mul_right (Nat.dvd_of_mod_eq_zero h)) hs

theorem ne_xor_shiftLeft {s k : UInt64} (hk : Nat.Coprime (2 ^ 64) (2 ^ (k.toNat % 64) - 1)) (hs : s ≠ 0) :
    s ^^^ (s <<< k) ≠ 0 := by
  rw [Ne, UInt64.xor_eq_zero_iff, ← UInt64.toNat_inj, UInt64.toNat_shiftLeft, Nat.shiftLeft_eq]
  intro h
  refine hs (UInt64.toNat_inj.1 (eq_zero_of_mul_mod s.toNat_lt hk ?_))
  rw [Nat.mul_sub_one]
  exact Nat.sub_mod_eq_zero_of_mod_eq (h.symm.trans (Nat.mod_eq_of_lt s.toNat_lt).symm)

theorem ne_xor_shiftRight {s : UInt64} (hs : s ≠ 0) : s ^^^ (s >>> 7) ≠ 0 := by
  rw [Ne, UInt64.xor_eq_zero_iff, ← UInt64.toNat_inj, UInt64.toNat_shiftRight, Nat.shiftRight_eq_div_pow]
  rw [Ne, ← UInt64.toNat_inj] at hs
  simp only [UInt64.reduceToNat, Nat.reduceMod, Nat.reducePow] at hs ⊢
  omega

theorem ne_mul_odd {s c : UInt64} (hc : Nat.Coprime (2 ^ 64) c.toNat) (hs : s ≠ 0) : c * s ≠ 0 := by
  intro h
  have h := congrArg UInt64.toNat h
  rw [UInt64.toNat_mul, Nat.mul_comm] at h
  exact hs (UInt64.toNat_inj.1 (eq_zero_of_mul_mod s.toNat_lt hc h))

/-- Every step of the generator can be undone. -/
theorem xorshift64s_ne_zero {s : UInt64} (hs : s ≠ 0) : xorshift64s s ≠ 0 :=
  ne_mul_odd (by decide +kernel)
    (ne_xor_shiftLeft (by decide +kernel) (ne_xor_shiftRight (ne_xor_shiftLeft (by decide +kernel) hs)))

/-- The decision of a `should_sample`, from the trace id, the name and the kind; an enumeration. -/
abbrev Sampler := TraceId → Option Bytes → UInt32 → UInt32

def samplingDecisionNotRecord : UInt32 := 0
def samplingDecisionRecordAndSampled : UInt32 := 2

def otlpSamplerAlwaysOn : Sampler := fun _ _ _ => samplingDecisionRecordAndSampled

abbrev PrngState := { s : UInt64 // s ≠ 0 }

/-- `struct otlp_tracer`, less the names that no span carries. -/
structure Tracer where
  sampler : Option Sampler
  prngState : PrngState

def otlpTracerCreate (mono threadId pid : UInt64) : Tracer :=
  let seed := mono ^^^ threadId ^^^ pid
  ⟨none, if h : seed = 0 then ⟨0x9E3779B97F4A7C15, by decide⟩ else ⟨seed, h⟩⟩

def tracerPrngNext (s : PrngState) : PrngState := ⟨xorshift64s s.1, xorshift64s_ne_zero s.2⟩

def putU64Be (v : UInt64) : Vector UInt8 8 :=
  #v[(v >>> 56).toUInt8, (v >>> 48).toUInt8, (v >>> 40).toUInt8, (v >>> 32).toUInt8, (v >>> 24).toUInt8,
    (v >>> 16).toUInt8, (v >>> 8).toUInt8, v.toUInt8]

theorem mod_of_digit {n a : ℕ} (hlow : n % a = 0) (hdigit : n / a % 256 = 0) : n % (a * 256) = 0 := by
  rw [Nat.mod_mul, hlow, hdigit, Nat.mul_zero]

theorem putU64Be_ne_zero {v : UInt64} (hv : v ≠ 0) : otlpIdIsAllZero (putU64Be v) = false := by
  rw [← Bool.not_eq_true]
  intro h
  refine hv (UInt64.toNat_inj.1 ?_)
  have hlt := v.toNat_lt
  simp only [otlpIdIsAllZero, putU64Be, Vector.toList_mk, List.all_cons, List.all_nil, Bool.and_true,
    Bool.and_eq_true, beq_iff_eq, ← UInt8.toNat_inj, UInt64.toNat_toUInt8, UInt64.toNat_shiftRight,
    Nat.shiftRight_eq_div_pow, UInt64.reduceToNat, UInt8.reduceToNat, Nat.reduceMod, Nat.reducePow] at h
  obtain ⟨h7, h6, h5, h4, h3, h2, h1, h0⟩ := h
  -- from the last byte up, each one completes a multiple of the next power
  have hall := mod_of_digit (mod_of_digit (mod_of_digit (mod_of_digit (mod_of_digit (mod_of_digit (mod_of_digit
    h0 h1) h2) h3) h4) h5) h6) h7
  rw [Nat.mod_eq_of_lt hlt] at hall
  exact hall

/-- The `while` of `fill_random_bytes`, for as many words. -/
def fillWords (s : PrngState) : (words : ℕ) → Vector UInt8 (8 * words) × PrngState
  | 0 => (#v[], s)
  | words + 1 =>
    let v := tracerPrngNext s
    let rest := fillWords v words
    ((putU64Be v.1 ++ rest.1).cast (by omega), rest.2)

theorem fillWords_not_all_zero (s : PrngState) (words : ℕ) :
    ¬(0 < 8 * words ∧ otlpIdIsAllZero (fillWords s words).1 = true) := by
  rintro ⟨hpos, hzero⟩
  obtain ⟨words, rfl⟩ := Nat.exists_eq_succ_of_ne_zero (show words ≠ 0 by omega)
  have hfirst := putU64Be_ne_zero (tracerPrngNext s).2
  rw [otlpIdIsAllZero] at hfirst
  rw [otlpIdIsAllZero, fillWords, Vector.toList_cast, Vector.toList_append, List.all_append, hfirst,
    Bool.false_and] at hzero
  cases hzero

def fillRandomBytes (s : PrngState) (words : ℕ) : Vector UInt8 (8 * words) × PrngState :=
  let r := fillWords s words
  -- the retry, which is never taken
  if h : 0 < 8 * words ∧ otlpIdIsAllZero r.1 = true then absurd h (fillWords_not_all_zero s words) else r

theorem fillRandomBytes_ne_zero (s : PrngState) (words : ℕ) :
    otlpIdIsAllZero (fillRandomBytes s (words + 1)).1 = false := by
  rw [fillRandomBytes, dif_neg (fillWords_not_all_zero s (words + 1)), ← Bool.not_eq_true]
  exact fun hzero => fillWords_not_all_zero s (words + 1) ⟨by omega, hzero⟩

/-! ### Spans -/

def Span.writeTraceId (s : Span) (traceId : TraceId) : Span := { s with traceId }

def Span.writeSpanId (s : Span) (spanId : SpanId) : Span := { s with spanId }

/-- The part of `start_span_internal` that gives a new span its trace id and its parent. -/
def startSpanTrace (prng : PrngState) (span : Span) : (parent : Option Span) → Span × PrngState
  | some p => ((otlpSpanSetParentSpanId (span.writeTraceId p.traceId) (some p.spanId)).2, prng)
  | none => (span.writeTraceId (fillRandomBytes prng 2).1, (fillRandomBytes prng 2).2)

/-- The part that consults the sampler. -/
def startSpanSample (sampler : Option Sampler) (span : Span) (name : Option Bytes) : Option Span :=
  let decision := sampler.getD otlpSamplerAlwaysOn span.traceId name span.kind
  if decision = samplingDecisionNotRecord then none
  else some (otlpSpanSetSampled span (decision == samplingDecisionRecordAndSampled)).2

/-- `start_span_internal`; `now` is the clock's reading. -/
def startSpanInternal (h : Heap) (t : Tracer) (name : Option Bytes) (parent : Option Span) (now : Option UInt64) :
    Option Span × Tracer × Heap :=
  match otlpSpanCreate h name with
  | (none, h) => (none, t, h)
  | (some span, h) =>
    let traced := startSpanTrace t.prngState span parent
    let drawn := fillRandomBytes traced.2 1
    let t' := { t with prngState := drawn.2 }
    match startSpanSample t.sampler (traced.1.writeSpanId drawn.1) name with
    | none => (none, t', h)
    | some span => (some (otlpSpanMarkStart span now).2, t', h)

def otlpTracerStartSpan (h : Heap) (t : Tracer) (name : Option Bytes) (now : Option UInt64) :
    Option Span × Tracer × Heap :=
  startSpanInternal h t name none now

def otlpTracerStartChildSpan (h : Heap) (t : Tracer) (name : Option Bytes) (parent : Option Span)
    (now : Option UInt64) : Option Span × Tracer × Heap :=
  match parent with
  | none => (none, t, h)
  | some parent => startSpanInternal h t name (some parent) now

end OtlpC.Api
