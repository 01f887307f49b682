import Mathlib.Data.List.TakeWhile
import OtlpC.Api.Span
import OtlpC.Lib.Numerals

/-!
# The traceparent header

`w3c.c`: the header value that carries a trace id, a span id and the sampled flag, written and parsed at fixed
offsets. A header is accepted when its offsets hold what is read there (`Fields.of_parse`), and what is written is
parsed as what it was written from (`parseFields_text`).
-/

namespace OtlpC.Context

open Api

structure CString where
  bytes : Bytes
  no_nul : 0 ∉ bytes
deriving Repr, DecidableEq

/-- `s[i]`, the NUL included. The parser looks behind the NUL for a second digit when the first is the NUL already,
and refuses the pair whatever it finds there. -/
def CString.byteAt (s : CString) (i : ℕ) : UInt8 := s.bytes.getD i 0

def CString.ofBuffer (buf : Bytes) : CString where
  bytes := buf.takeWhile (· != 0)
  no_nul h := absurd (List.mem_takeWhile_imp h) (by decide)

abbrev dash : UInt8 := 0x2d

def otlpTraceparentLen : ℕ := 55
def otlpTraceparentBufSize : ℕ := otlpTraceparentLen + 1

def hexDigit (nibble : UInt8) : UInt8 := if nibble < 10 then 0x30 + nibble else 0x61 + nibble - 10

def hexValue (c : UInt8) : Option ℕ :=
  if 0x30 ≤ c && c ≤ 0x39 then some (c.toNat - 0x30)
  else if 0x61 ≤ c && c ≤ 0x66 then some (c.toNat - 0x61 + 10)
  else if 0x41 ≤ c && c ≤ 0x46 then some (c.toNat - 0x41 + 10)
  else none

/-- What `hexValue` accepts are the hexadecimal digits of either case, with what they stand for. -/
theorem valueOf_hexDigits (c : UInt8) : Numerals.valueOf hexDigits c = hexValue c := by
  have hall : ∀ n : Fin 256, Numerals.valueOf hexDigits (UInt8.ofNat n) = hexValue (UInt8.ofNat n) := by
    decide +kernel
  simpa using hall ⟨c.toNat, c.toNat_lt⟩

/-! ### Writing -/

def hexOf (id : Bytes) : Bytes := id.flatMap fun b : UInt8 => [hexDigit (b >>> 4), hexDigit (b &&& 0x0f)]

/-- The header value that is written. -/
def traceparentText (traceId : TraceId) (spanId : SpanId) (sampled : Bool) : Bytes :=
  [0x30, 0x30, dash] ++ (hexOf traceId.toList ++ (dash :: (hexOf spanId.toList ++
    [dash, 0x30, if sampled then 0x31 else 0x30])))

/-- `otlp_traceparent_format_raw`: what is written to `buf`, which has room for `cap` bytes, and `*out_len`. -/
def otlpTraceparentFormatRaw (traceId : Option TraceId) (spanId : Option SpanId) (sampled : Bool)
    (buf : Option ℕ) : Except OtlpStatus (Bytes × ℕ) :=
  match traceId, spanId, buf with
  | some traceId, some spanId, some cap =>
    if cap < otlpTraceparentBufSize then .error .errOverflow
    else .ok (traceparentText traceId spanId sampled ++ [0], otlpTraceparentLen)
  | _, _, _ => .error .errNull

/-! ### Parsing -/

/-- The byte of the two digits at `i`. -/
def hexPair (header : CString) (i : ℕ) : Option UInt8 :=
  match hexValue (header.byteAt i), hexValue (header.byteAt (i + 1)) with
  | some hi, some lo => some (UInt8.ofNat (hi <<< 4 ||| lo))
  | _, _ => none

/-- The loop over the bytes of an id at `off`: whether all of them are there, the id as far as it is written, and
whether a byte was not zero. -/
def parseIdLoop {n : ℕ} (header : CString) (off : ℕ) : ℕ → ℕ → Vector UInt8 n → Bool → Bool × Vector UInt8 n × Bool
  | 0, _, id, nz => (true, id, nz)
  | rounds + 1, i, id, nz =>
    match hexPair header (off + i * 2) with
    | none => (false, id, nz)
    | some b => parseIdLoop header off rounds (i + 1) (id.setIfInBounds i b) (nz || b != 0)

/-- `otlp_traceparent_parse` on pointers that are not NULL: the status, and the ids and flags as they are left. -/
def parseFields (header : CString) (traceId : TraceId) (spanId : SpanId) (flags : UInt8) :
    OtlpStatus × TraceId × SpanId × UInt8 :=
  match hexValue (header.byteAt 0), hexValue (header.byteAt 1) with
  | some hi, some lo =>
    if header.byteAt 2 != dash then (.errInvalidArgument, traceId, spanId, flags)
    else
      match parseIdLoop header 3 16 0 traceId false with
      | (false, traceId, _) => (.errInvalidArgument, traceId, spanId, flags)
      | (true, traceId, traceNz) =>
        if header.byteAt 35 != dash then (.errInvalidArgument, traceId, spanId, flags)
        else
          match parseIdLoop header 36 8 0 spanId false with
          | (false, spanId, _) => (.errInvalidArgument, traceId, spanId, flags)
          | (true, spanId, spanNz) =>
            if header.byteAt 52 != dash then (.errInvalidArgument, traceId, spanId, flags)
            else
              match hexPair header 53 with
              | none => (.errInvalidArgument, traceId, spanId, flags)
              | some flags =>
                let version := hi * 16 + lo
                if !traceNz || !spanNz then (.errInvalidArgument, traceId, spanId, flags)
                else if version == 0xff then (.errInvalidArgument, traceId, spanId, flags)
                else if version == 0x00 && header.byteAt 55 != 0 then (.errInvalidArgument, traceId, spanId, flags)
                else (.ok, traceId, spanId, flags)
  | _, _ => (.errInvalidArgument, traceId, spanId, flags)

def otlpTraceparentParse (header : Option CString) (traceId : Option TraceId) (spanId : Option SpanId)
    (flags : Option UInt8) : OtlpStatus × Option TraceId × Option SpanId × Option UInt8 :=
  match header, traceId, spanId, flags with
  | some header, some traceId, some spanId, some flags =>
    let (st, traceId, spanId, flags) := parseFields header traceId spanId flags
    (st, some traceId, some spanId, some flags)
  | _, _, _, _ => (.errNull, traceId, spanId, flags)

/-! ### Digits -/

theorem hexValue_hexDigit {n : UInt8} (h : n < 16) : hexValue (hexDigit n) = some n.toNat := by
  have hdigits : ∀ k < 16, hexValue (hexDigit (UInt8.ofNat k)) = some k := by decide
  have hn := hdigits n.toNat (UInt8.lt_iff_toNat_lt.1 h)
  rwa [UInt8.ofNat_toNat] at hn

theorem hexDigit_printable {n : UInt8} (h : n < 16) : 0x20 ≤ hexDigit n ∧ hexDigit n ≠ 0x7f := by
  have hdigits : ∀ k < 16, 0x20 ≤ hexDigit (UInt8.ofNat k) ∧ hexDigit (UInt8.ofNat k) ≠ 0x7f := by decide
  have hn := hdigits n.toNat (UInt8.lt_iff_toNat_lt.1 h)
  rwa [UInt8.ofNat_toNat] at hn

theorem shiftRight_lt (b : UInt8) : b >>> 4 < 16 := by
  have hb := b.toNat_lt
  rw [UInt8.lt_iff_toNat_lt, UInt8.toNat_shiftRight, show (4 : UInt8).toNat % 8 = 4 from rfl, Nat.shiftRight_eq_div_pow]
  show b.toNat / 2 ^ 4 < 16
  omega

theorem and_lt (b : UInt8) : b &&& 0x0f < 16 := by
  rw [UInt8.lt_iff_toNat_lt, UInt8.toNat_and, show (0x0f : UInt8).toNat = 2 ^ 4 - 1 from rfl,
    Nat.and_two_pow_sub_one_eq_mod]
  exact Nat.mod_lt _ (by decide)

theorem ofNat_halves (b : UInt8) : UInt8.ofNat ((b >>> 4).toNat <<< 4 ||| (b &&& 0x0f).toNat) = b := by
  have hlow : (b &&& 0x0f).toNat < 2 ^ 4 := UInt8.lt_iff_toNat_lt.1 (and_lt b)
  rw [← Nat.shiftLeft_add_eq_or_of_lt hlow, UInt8.toNat_shiftRight, show (4 : UInt8).toNat % 8 = 4 from rfl,
    UInt8.toNat_and, show (0x0f : UInt8).toNat = 2 ^ 4 - 1 from rfl, Nat.and_two_pow_sub_one_eq_mod,
    Nat.shiftRight_eq_div_pow, Nat.shiftLeft_eq, Nat.div_add_mod', UInt8.ofNat_toNat]

theorem length_hexOf (id : Bytes) : (hexOf id).length = id.length * 2 := by
  induction id with
  | nil => rfl
  | cons b id ih =>
    rw [hexOf, List.flatMap_cons, List.length_append, ← hexOf, ih, List.length_cons]
    simp only [List.length_cons, List.length_nil]
    omega

theorem hexOf_getD {id : Bytes} {i : ℕ} (hi : i < id.length) (tail : Bytes) :
    (hexOf id ++ tail).getD (i * 2) 0 = hexDigit (id[i] >>> 4) ∧
      (hexOf id ++ tail).getD (i * 2 + 1) 0 = hexDigit (id[i] &&& 0x0f) := by
  induction id generalizing i with
  | nil => exact absurd hi (Nat.not_lt_zero i)
  | cons b id ih =>
    cases i with
    | zero => exact ⟨rfl, rfl⟩
    | succ i =>
      have hrest := ih (Nat.lt_of_succ_lt_succ hi)
      rw [show (i + 1) * 2 = i * 2 + 1 + 1 by omega]
      exact hrest

/-! ### Ids -/

section Ids

variable {n : ℕ} {header : CString}

theorem byteAt_append {pre rest : Bytes} (h : header.bytes = pre ++ rest) (i : ℕ) :
    header.byteAt (pre.length + i) = rest.getD i 0 := by
  rw [CString.byteAt, h, List.getD_append_right _ _ _ _ (Nat.le_add_right _ _), Nat.add_sub_cancel_left]

theorem hexPair_hexOf {pre tail : Bytes} {id : Vector UInt8 n} (h : header.bytes = pre ++ (hexOf id.toList ++ tail))
    {i : ℕ} (hi : i < n) : hexPair header (pre.length + i * 2) = some id[i] := by
  have hlen : i < id.toList.length := by
    rw [Vector.length_toList]
    exact hi
  obtain ⟨hhi, hlo⟩ := hexOf_getD hlen tail
  rw [hexPair, Nat.add_assoc, byteAt_append h, byteAt_append h, hhi, hlo, hexValue_hexDigit (shiftRight_lt _),
    hexValue_hexDigit (and_lt _), Vector.getElem_toList]
  dsimp only
  rw [ofNat_halves]

/-- The loop with `id` to write over and a given part of the digits left. -/
theorem parseIdLoop_from {off rounds i : ℕ} {id ids : Vector UInt8 n} {nz : Bool} (hrounds : i + rounds = n)
    (hpairs : ∀ j (hj : j < n), hexPair header (off + j * 2) = some ids[j])
    (hid : ∀ j (hj : j < n), j < i → id[j] = ids[j]) :
    parseIdLoop header off rounds i id nz = (true, ids, nz || (ids.toList.drop i).any (· != 0)) := by
  induction rounds generalizing i id nz with
  | zero =>
    have heq : id = ids := Vector.ext fun j hj => hid j hj (by omega)
    have hnil : ids.toList.drop i = [] := by
      rw [List.drop_eq_nil_iff, Vector.length_toList]
      omega
    rw [parseIdLoop, heq, hnil, List.any_nil, Bool.or_false]
  | succ rounds ih =>
    have hi : i < n := by omega
    have hlen : i < ids.toList.length := by
      rw [Vector.length_toList]
      exact hi
    rw [parseIdLoop, hpairs i hi, List.drop_eq_getElem_cons hlen, List.any_cons, ← Bool.or_assoc,
      Vector.getElem_toList]
    refine ih (by omega) fun j hj hji => ?_
    rw [Vector.getElem_setIfInBounds hj]
    split
    · next heq => subst heq; rfl
    · next hne => exact hid j hj (by omega)

theorem parseIdLoop_eq {off : ℕ} {ids : Vector UInt8 n} (id : Vector UInt8 n)
    (hpairs : ∀ i (hi : i < n), hexPair header (off + i * 2) = some ids[i]) :
    parseIdLoop header off n 0 id false = (true, ids, !otlpIdIsAllZero ids) := by
  rw [parseIdLoop_from (Nat.zero_add n) hpairs fun j _ hj => absurd hj (Nat.not_lt_zero j), Bool.false_or,
    List.drop_zero, otlpIdIsAllZero, List.not_all_eq_any_not]
  rfl

theorem parseIdLoop_isSome {off rounds i : ℕ} {id : Vector UInt8 n} {nz : Bool}
    (h : (parseIdLoop header off rounds i id nz).1 = true) {j : ℕ} (hij : i ≤ j) (hj : j < i + rounds) :
    (hexPair header (off + j * 2)).isSome = true := by
  induction rounds generalizing i id nz with
  | zero => omega
  | succ rounds ih =>
    rw [parseIdLoop] at h
    cases hpair : hexPair header (off + i * 2) with
    | none =>
      rw [hpair] at h
      contradiction
    | some b =>
      rw [hpair] at h
      rcases Nat.eq_or_lt_of_le hij with rfl | hlt
      · rw [hpair]
        rfl
      · exact ih h hlt (by omega)

theorem parseIdLoop_true {off : ℕ} {id ids : Vector UInt8 n} {nz : Bool}
    (h : parseIdLoop header off n 0 id false = (true, ids, nz)) :
    (∀ i (hi : i < n), hexPair header (off + i * 2) = some ids[i]) ∧ nz = !otlpIdIsAllZero ids := by
  have hsome : ∀ i : Fin n, (hexPair header (off + i * 2)).isSome = true := fun i =>
    parseIdLoop_isSome (congrArg Prod.fst h) (Nat.zero_le _) (by omega)
  have hpairs : ∀ i (hi : i < n),
      hexPair header (off + i * 2) = some (Vector.ofFn fun i => (hexPair header (off + i * 2)).get (hsome i))[i] := by
    intro i hi
    rw [Vector.getElem_ofFn, Option.some_get]
  rw [parseIdLoop_eq id hpairs, Prod.mk.injEq, Prod.mk.injEq] at h
  obtain ⟨-, rfl, rfl⟩ := h
  exact ⟨hpairs, rfl⟩

end Ids

/-! ### The header -/

/-- What a header holds at the offsets that the parser reads. -/
structure Fields (header : CString) (t : TraceId) (s : SpanId) (flags : UInt8) : Prop where
  version : ∃ hi lo, hexValue (header.byteAt 0) = some hi ∧ hexValue (header.byteAt 1) = some lo ∧
    hi * 16 + lo ≠ 0xff ∧ (hi * 16 + lo = 0 → header.byteAt 55 = 0)
  before_trace : header.byteAt 2 = dash
  trace : ∀ i (hi : i < 16), hexPair header (3 + i * 2) = some t[i]
  before_span : header.byteAt 35 = dash
  span : ∀ i (hi : i < 8), hexPair header (36 + i * 2) = some s[i]
  before_flags : header.byteAt 52 = dash
  flags_eq : hexPair header 53 = some flags
  trace_ne : otlpIdIsAllZero t = false
  span_ne : otlpIdIsAllZero s = false

variable {header : CString} {t : TraceId} {s : SpanId} {flags : UInt8}

theorem Fields.parse (h : Fields header t s flags) (t₀ : TraceId) (s₀ : SpanId) (flags₀ : UInt8) :
    parseFields header t₀ s₀ flags₀ = (.ok, t, s, flags) := by
  obtain ⟨hi, lo, hhi, hlo, hff, hend⟩ := h.version
  have htail : (hi * 16 + lo == 0 && header.byteAt 55 != 0) = false := by
    rw [Bool.and_eq_false_imp]
    intro hzero
    rw [hend (beq_iff_eq.1 hzero)]
    rfl
  rw [parseFields, hhi, hlo]
  dsimp only
  rw [h.before_trace, parseIdLoop_eq t₀ h.trace]
  dsimp only
  rw [h.before_span, parseIdLoop_eq s₀ h.span]
  dsimp only
  rw [h.before_flags, h.flags_eq]
  dsimp only
  rw [h.trace_ne, h.span_ne, beq_false_of_ne hff, htail]
  rfl

/-- **A header that is accepted** holds what the parser has written. -/
theorem Fields.of_parse {t₀ : TraceId} {s₀ : SpanId} {flags₀ : UInt8}
    (h : parseFields header t₀ s₀ flags₀ = (.ok, t, s, flags)) : Fields header t s flags := by
  unfold parseFields at h
  split at h
  · next hi lo hhi hlo =>
    split at h
    · simp at h
    · next hdash₀ =>
      split at h
      · simp at h
      · next t' traceNz htrace =>
        obtain ⟨hpairs₀, rfl⟩ := parseIdLoop_true htrace
        split at h
        · simp at h
        · next hdash₁ =>
          split at h
          · simp at h
          · next s' spanNz hspan =>
            obtain ⟨hpairs₁, rfl⟩ := parseIdLoop_true hspan
            split at h
            · simp at h
            · next hdash₂ =>
              split at h
              · simp at h
              · next flags' hflags =>
                split at h
                · simp at h
                · next hnz =>
                  dsimp only at h
                  split at h
                  · simp at h
                  · next hff =>
                    split at h
                    · simp at h
                    · next hend =>
                      rw [Bool.not_not, Bool.not_not, Bool.or_eq_true, not_or, Bool.not_eq_true,
                        Bool.not_eq_true] at hnz
                      simp only [Prod.mk.injEq, true_and] at h
                      obtain ⟨rfl, rfl, rfl⟩ := h
                      exact {
                        version := ⟨hi, lo, hhi, hlo, by simpa using hff, by simpa using hend⟩
                        before_trace := by simpa using hdash₀
                        trace := hpairs₀
                        before_span := by simpa using hdash₁
                        span := hpairs₁
                        before_flags := by simpa using hdash₂
                        flags_eq := hflags
                        trace_ne := hnz.1
                        span_ne := hnz.2 }
  · simp at h

/-! ### Round trip -/

theorem hexOf_printable {id : Bytes} {c : UInt8} (h : c ∈ hexOf id) : 0x20 ≤ c ∧ c ≠ 0x7f := by
  rw [hexOf, List.mem_flatMap] at h
  obtain ⟨b, -, hc⟩ := h
  rcases List.mem_pair.1 hc with rfl | rfl
  · exact hexDigit_printable (shiftRight_lt b)
  · exact hexDigit_printable (and_lt b)

theorem traceparentText_printable {sampled : Bool} {c : UInt8} (h : c ∈ traceparentText t s sampled) :
    0x20 ≤ c ∧ c ≠ 0x7f := by
  simp only [traceparentText, List.mem_append, List.mem_cons, List.not_mem_nil, or_false] at h
  rcases h with (rfl | rfl | rfl) | ht | rfl | hs | rfl | rfl | hc
  · decide
  · decide
  · decide
  · exact hexOf_printable ht
  · decide
  · exact hexOf_printable hs
  · decide
  · decide
  · cases sampled <;> subst hc <;> decide

/-- The header value as a C string. -/
def traceparentString (t : TraceId) (s : SpanId) (sampled : Bool) : CString where
  bytes := traceparentText t s sampled
  no_nul h := absurd (traceparentText_printable h).1 (by decide)

/-- `buf` holds the header value, and nothing else. -/
theorem ofBuffer_traceparentText (t : TraceId) (s : SpanId) (sampled : Bool) (tail : Bytes) :
    CString.ofBuffer (traceparentText t s sampled ++ 0 :: tail) = traceparentString t s sampled := by
  have hkeep : ∀ c ∈ traceparentText t s sampled, (c != 0) = true := by
    intro c hc
    rw [bne_iff_ne]
    rintro rfl
    exact (traceparentString t s sampled).no_nul hc
  rw [CString.ofBuffer, CString.mk.injEq, List.takeWhile_append_of_pos hkeep]
  exact List.append_nil _

theorem Fields.of_text (sampled : Bool) (ht : otlpIdIsAllZero t = false) (hs : otlpIdIsAllZero s = false) :
    Fields (traceparentString t s sampled) t s (if sampled then 1 else 0) := by
  have hlt : ([0x30, 0x30, dash] ++ hexOf t.toList).length = 35 := by
    rw [List.length_append, length_hexOf, Vector.length_toList]
    rfl
  have hls : ([0x30, 0x30, dash] ++ hexOf t.toList ++ (dash :: hexOf s.toList)).length = 52 := by
    rw [List.length_append, hlt, List.length_cons, length_hexOf, Vector.length_toList]
  have hspan : (traceparentString t s sampled).bytes = ([0x30, 0x30, dash] ++ hexOf t.toList) ++
      ([dash] ++ (hexOf s.toList ++ [dash, 0x30, if sampled then 0x31 else 0x30])) := by
    rw [List.append_assoc]
    rfl
  have hflags : (traceparentString t s sampled).bytes =
      ([0x30, 0x30, dash] ++ hexOf t.toList ++ (dash :: hexOf s.toList)) ++
        [dash, 0x30, if sampled then 0x31 else 0x30] := by
    rw [hspan, List.append_assoc _ (dash :: _), List.cons_append]
    rfl
  have htext : (traceparentString t s sampled).bytes = [0x30, 0x30, dash] ++ (hexOf t.toList ++
      (dash :: (hexOf s.toList ++ [dash, 0x30, if sampled then 0x31 else 0x30]))) := rfl
  have hids : (traceparentString t s sampled).bytes = ([0x30, 0x30, dash] ++ hexOf t.toList ++ [dash]) ++
      (hexOf s.toList ++ [dash, 0x30, if sampled then 0x31 else 0x30]) := by
    rw [hspan, ← List.append_assoc]
  have hpair := fun i (hi : i < 8) => hexPair_hexOf hids hi
  rw [List.length_append, hlt] at hpair
  have hafter := byteAt_append hspan
  have hlast := byteAt_append hflags
  rw [hlt] at hafter
  rw [hls] at hlast
  exact {
    version := ⟨0, 0, rfl, rfl, by decide, fun _ => hlast 3⟩
    before_trace := rfl
    trace := fun i hi => hexPair_hexOf htext hi
    before_span := hafter 0
    span := hpair
    before_flags := hlast 0
    flags_eq := by
      rw [hexPair, hlast 1, hlast 2]
      cases sampled <;> rfl
    trace_ne := ht
    span_ne := hs }

/-- **What is written is parsed** as what it was written from. -/
theorem parseFields_text (sampled : Bool) (ht : otlpIdIsAllZero t = false) (hs : otlpIdIsAllZero s = false)
    (t₀ : TraceId) (s₀ : SpanId) (flags₀ : UInt8) :
    parseFields (traceparentString t s sampled) t₀ s₀ flags₀ = (.ok, t, s, if sampled then 1 else 0) :=
  (Fields.of_text sampled ht hs).parse t₀ s₀ flags₀

end OtlpC.Context
