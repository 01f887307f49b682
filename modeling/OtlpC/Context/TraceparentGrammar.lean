import OtlpC.Context.W3c

/-!
# The grammar of a traceparent

The header as it is specified, `VV-T-S-F` with a version-dependent rest, stated on the text and not on the
offsets that the parser reads. The parser accepts this grammar and one kind of header more: behind the flags
of a version other than 00 it takes any byte for the start of further fields, where the grammar asks for `-`.
-/

namespace OtlpC.Context

open Api Numerals

/-- The bytes that a string of hex digits spells. -/
def hexBytes : Bytes → Option Bytes
  | [] => some []
  | [_] => none
  | c :: d :: digits =>
    match valueOf hexDigits c, valueOf hexDigits d with
    | some hi, some lo => (hexBytes digits).map (UInt8.ofNat (hi * 16 + lo) :: ·)
    | _, _ => none

/-- `VV-T-S-F`: the text spells a version other than ff, two ids that are not zero, and flags. -/
structure FourFields (text : Bytes) (version : UInt8) (t : TraceId) (s : SpanId) (flags : UInt8) : Prop where
  spells : ∃ vv tt ss ff, text = vv ++ dash :: (tt ++ dash :: (ss ++ dash :: ff)) ∧
    hexBytes vv = some [version] ∧ hexBytes tt = some t.toList ∧ hexBytes ss = some s.toList ∧
    hexBytes ff = some [flags]
  version_ne : version ≠ 0xff
  trace_ne : otlpIdIsAllZero t = false
  span_ne : otlpIdIsAllZero s = false

/-- The header is four fields, which end it or, in a version other than 00, are separated from the rest. -/
def Grammar (header : Bytes) (t : TraceId) (s : SpanId) (flags : UInt8) : Prop :=
  ∃ version text rest, header = text ++ rest ∧ FourFields text version t s flags ∧
    (rest = [] ∨ version ≠ 0 ∧ rest.head? = some dash)

/-- What the parser accepts: in a version other than 00 the rest is free. -/
def Accepted (header : Bytes) (t : TraceId) (s : SpanId) (flags : UInt8) : Prop :=
  ∃ version text rest, header = text ++ rest ∧ FourFields text version t s flags ∧ (version = 0 → rest = [])

/-- Four fields of a version other than 00, followed by something else than `-`. -/
def Stray (header : Bytes) : Prop :=
  ∃ version text rest t s flags, header = text ++ rest ∧ FourFields text version t s flags ∧ version ≠ 0 ∧
    rest ≠ [] ∧ rest.head? ≠ some dash

/-! ### Digits -/

theorem hexValue_lt {c : UInt8} {v : ℕ} (h : hexValue c = some v) : v < 16 := by
  rw [← valueOf_hexDigits] at h
  obtain ⟨table, hmem, hat⟩ := exists_of_valueOf h
  have hlength : ∀ table ∈ hexDigits, table.length = 16 := by decide
  have hlt := (List.getElem?_eq_some_iff.1 hat).1
  rwa [hlength table hmem] at hlt

theorem shiftLeft_or {hi lo : ℕ} (h : lo < 16) : hi <<< 4 ||| lo = hi * 16 + lo := by
  have hlow : lo < 2 ^ 4 := h
  rw [← Nat.shiftLeft_add_eq_or_of_lt hlow, Nat.shiftLeft_eq]

theorem hexPair_eq_some {header : CString} {i : ℕ} {b : UInt8} :
    hexPair header i = some b ↔ ∃ hi lo, hexValue (header.byteAt i) = some hi ∧
      hexValue (header.byteAt (i + 1)) = some lo ∧ b = UInt8.ofNat (hi * 16 + lo) := by
  unfold hexPair
  constructor
  · intro h
    split at h
    · next hi lo hhi hlo =>
      refine ⟨hi, lo, hhi, hlo, ?_⟩
      rw [Option.some.injEq] at h
      rw [← h, shiftLeft_or (hexValue_lt hlo)]
    · contradiction
  · rintro ⟨hi, lo, hhi, hlo, rfl⟩
    rw [hhi, hlo]
    dsimp only
    rw [shiftLeft_or (hexValue_lt hlo)]

theorem hexBytes_cons {c d : UInt8} {digits bytes : Bytes} {b : UInt8} :
    hexBytes (c :: d :: digits) = some (b :: bytes) ↔
      (∃ hi lo, hexValue c = some hi ∧ hexValue d = some lo ∧ b = UInt8.ofNat (hi * 16 + lo)) ∧
        hexBytes digits = some bytes := by
  rw [hexBytes, valueOf_hexDigits, valueOf_hexDigits]
  constructor
  · intro h
    split at h
    · next hi lo hhi hlo =>
      obtain ⟨bytes', hdigits, heq⟩ := Option.map_eq_some_iff.1 h
      rw [List.cons.injEq] at heq
      exact ⟨⟨hi, lo, hhi, hlo, heq.1.symm⟩, by rw [hdigits, heq.2]⟩
    · contradiction
  · rintro ⟨⟨hi, lo, hhi, hlo, rfl⟩, hdigits⟩
    rw [hhi, hlo, hdigits]
    rfl

theorem hexBytes_cons_inv {digits bytes : Bytes} {b : UInt8} (h : hexBytes digits = some (b :: bytes)) :
    ∃ c d rest, digits = c :: d :: rest := by
  match digits with
  | [] => simp [hexBytes] at h
  | [_] => simp [hexBytes] at h
  | c :: d :: rest => exact ⟨c, d, rest, rfl⟩

theorem length_hexBytes {digits bytes : Bytes} (h : hexBytes digits = some bytes) :
    digits.length = 2 * bytes.length := by
  induction bytes generalizing digits with
  | nil =>
    match digits with
    | [] => rfl
    | [_] => simp [hexBytes] at h
    | c :: d :: rest =>
      rw [hexBytes] at h
      split at h
      · obtain ⟨_, -, heq⟩ := Option.map_eq_some_iff.1 h
        simp at heq
      · contradiction
  | cons b bytes ih =>
    obtain ⟨c, d, rest, rfl⟩ := hexBytes_cons_inv h
    have hrest := ih (hexBytes_cons.1 h).2
    simp only [List.length_cons, hrest]
    omega

/-! ### Text and offsets -/

section Offsets

variable {header : CString}

theorem hexPair_of_hexBytes {pre digits tail bytes : Bytes} (htext : header.bytes = pre ++ (digits ++ tail))
    (h : hexBytes digits = some bytes) {i : ℕ} (hi : i < bytes.length) :
    hexPair header (pre.length + i * 2) = some bytes[i] := by
  induction bytes generalizing pre digits i with
  | nil => exact absurd hi (Nat.not_lt_zero i)
  | cons b bytes ih =>
    obtain ⟨c, d, rest, rfl⟩ := hexBytes_cons_inv h
    obtain ⟨⟨vhi, vlo, hhi, hlo, hb⟩, hrest⟩ := hexBytes_cons.1 h
    cases i with
    | zero =>
      rw [hexPair_eq_some]
      refine ⟨vhi, vlo, ?_, ?_, hb⟩
      · rw [Nat.zero_mul, byteAt_append htext]
        exact hhi
      · rw [Nat.zero_mul, Nat.add_zero, byteAt_append htext]
        exact hlo
    | succ i =>
      have hsplit : header.bytes = (pre ++ [c, d]) ++ (rest ++ tail) := by
        rw [htext, List.append_assoc]
        rfl
      have hpair := ih hsplit hrest (Nat.lt_of_succ_lt_succ hi)
      rw [List.length_append] at hpair
      rw [List.getElem_cons_succ, ← hpair]
      congr 1
      simp only [List.length_cons, List.length_nil]
      omega

theorem lt_length_of_byteAt {i : ℕ} (h : header.byteAt i ≠ 0) : i < header.bytes.length := by
  by_contra hge
  exact h (List.getD_eq_default _ _ (Nat.not_lt.1 hge))

theorem byteAt_ne_of_hexValue {i v : ℕ} (h : hexValue (header.byteAt i) = some v) : header.byteAt i ≠ 0 := by
  intro hzero
  rw [hzero] at h
  cases h

theorem drop_eq_byteAt_cons {i : ℕ} (h : i < header.bytes.length) :
    header.bytes.drop i = header.byteAt i :: header.bytes.drop (i + 1) := by
  rw [CString.byteAt, List.getD_eq_getElem _ _ h, List.drop_eq_getElem_cons h]

theorem hexBytes_of_hexPair {off : ℕ} {bytes : Bytes}
    (h : ∀ i (hi : i < bytes.length), hexPair header (off + i * 2) = some bytes[i]) :
    ∃ digits, header.bytes.drop off = digits ++ header.bytes.drop (off + bytes.length * 2) ∧
      hexBytes digits = some bytes := by
  induction bytes generalizing off with
  | nil => exact ⟨[], rfl, rfl⟩
  | cons b bytes ih =>
    obtain ⟨vhi, vlo, hhi, hlo, hb⟩ := hexPair_eq_some.1 (h 0 (Nat.zero_lt_succ _))
    rw [Nat.zero_mul, Nat.add_zero] at hhi hlo
    obtain ⟨digits, hdrop, hdigits⟩ := @ih (off + 2) fun i hi => by
      have hpair := h (i + 1) (Nat.succ_lt_succ hi)
      rw [List.getElem_cons_succ] at hpair
      rw [← hpair]
      congr 1
      omega
    refine ⟨header.byteAt off :: header.byteAt (off + 1) :: digits, ?_, ?_⟩
    · have hoff : off + (b :: bytes).length * 2 = off + 2 + bytes.length * 2 := by
        rw [List.length_cons]
        omega
      rw [drop_eq_byteAt_cons (lt_length_of_byteAt (byteAt_ne_of_hexValue hhi)),
        drop_eq_byteAt_cons (lt_length_of_byteAt (byteAt_ne_of_hexValue hlo)), hoff]
      exact congrArg (fun rest => header.byteAt off :: header.byteAt (off + 1) :: rest) hdrop
    · exact hexBytes_cons.2 ⟨⟨vhi, vlo, hhi, hlo, hb⟩, hdigits⟩

theorem hexPair_of_id {n off : ℕ} {id : Vector UInt8 n}
    (h : ∀ i (hi : i < n), hexPair header (off + i * 2) = some id[i]) {i : ℕ} (hi : i < id.toList.length) :
    hexPair header (off + i * 2) = some id.toList[i] := by
  rw [Vector.getElem_toList]
  exact h i (by rwa [Vector.length_toList] at hi)

theorem drop_dash {i : ℕ} (h : header.byteAt i = dash) :
    header.bytes.drop i = dash :: header.bytes.drop (i + 1) := by
  have hne : header.byteAt i ≠ 0 := by
    rw [h]
    decide
  rw [drop_eq_byteAt_cons (lt_length_of_byteAt hne), h]

end Offsets

variable {header : CString} {t : TraceId} {s : SpanId} {flags : UInt8}

theorem ofNat_eq_iff {n m : ℕ} (hn : n < 256) (hm : m < 256) : UInt8.ofNat n = UInt8.ofNat m ↔ n = m := by
  rw [← UInt8.toNat_inj, UInt8.toNat_ofNat_of_lt' hn, UInt8.toNat_ofNat_of_lt' hm]

/-- **The offsets of the parser spell the text.** -/
theorem Fields.accepted (h : Fields header t s flags) : Accepted header.bytes t s flags := by
  obtain ⟨hi, lo, hhi, hlo, hff, hend⟩ := h.version
  have hpair : hexPair header 0 = some (UInt8.ofNat (hi * 16 + lo)) :=
    hexPair_eq_some.2 ⟨hi, lo, hhi, hlo, rfl⟩
  have hlt : hi * 16 + lo < 256 := by
    have := hexValue_lt hhi
    have := hexValue_lt hlo
    omega
  obtain ⟨vv, hvv, hversion⟩ := @hexBytes_of_hexPair header 0 [UInt8.ofNat (hi * 16 + lo)]
    fun i hi => by
      obtain rfl : i = 0 := Nat.lt_one_iff.1 hi
      exact hpair
  obtain ⟨tt, htt, htrace⟩ := @hexBytes_of_hexPair header 3 _ fun i hi => hexPair_of_id h.trace hi
  obtain ⟨ss, hss, hspan⟩ := @hexBytes_of_hexPair header 36 _ fun i hi => hexPair_of_id h.span hi
  obtain ⟨ff, hfd, hflags⟩ := @hexBytes_of_hexPair header 53 [flags] fun i hi => by
      obtain rfl : i = 0 := Nat.lt_one_iff.1 hi
      exact h.flags_eq
  rw [Vector.length_toList] at htt hss
  refine ⟨UInt8.ofNat (hi * 16 + lo), vv ++ dash :: (tt ++ dash :: (ss ++ dash :: ff)),
    header.bytes.drop 55, ?_, ⟨⟨vv, tt, ss, ff, rfl, hversion, htrace, hspan, hflags⟩, ?_, h.trace_ne,
      h.span_ne⟩, fun hzero => ?_⟩
  · calc header.bytes = vv ++ header.bytes.drop 2 := hvv
      _ = vv ++ dash :: header.bytes.drop 3 := by rw [drop_dash h.before_trace]
      _ = vv ++ dash :: (tt ++ header.bytes.drop 35) := by rw [htt]
      _ = vv ++ dash :: (tt ++ dash :: header.bytes.drop 36) := by rw [drop_dash h.before_span]
      _ = vv ++ dash :: (tt ++ dash :: (ss ++ header.bytes.drop 52)) := by rw [hss]
      _ = vv ++ dash :: (tt ++ dash :: (ss ++ dash :: header.bytes.drop 53)) := by
        rw [drop_dash h.before_flags]
      _ = vv ++ dash :: (tt ++ dash :: (ss ++ dash :: (ff ++ header.bytes.drop 55))) := by
        rw [hfd]
        rfl
      _ = (vv ++ dash :: (tt ++ dash :: (ss ++ dash :: ff))) ++ header.bytes.drop 55 := by
        simp only [List.append_assoc, List.cons_append]
  · exact fun heq => hff ((ofNat_eq_iff hlt (by decide)).1 heq)
  · have hnul := hend ((ofNat_eq_iff hlt (by decide)).1 hzero)
    by_contra hrest
    rw [← ne_eq, ← List.length_pos_iff, List.length_drop] at hrest
    have hmem : header.byteAt 55 ∈ header.bytes := by
      rw [CString.byteAt, List.getD_eq_getElem _ _ (by omega)]
      exact List.getElem_mem _
    rw [hnul] at hmem
    exact header.no_nul hmem

/-- **The text is found at the offsets of the parser.** -/
theorem Fields.of_accepted (h : Accepted header.bytes t s flags) : Fields header t s flags := by
  obtain ⟨version, text, rest, htext, ⟨⟨vv, tt, ss, ff, rfl, hvv, htt, hss, hfd⟩, hne, ht, hs⟩, hend⟩ := h
  have hlv : vv.length = 2 := length_hexBytes hvv
  have hlt : tt.length = 32 := (length_hexBytes htt).trans (by rw [Vector.length_toList])
  have hls : ss.length = 16 := (length_hexBytes hss).trans (by rw [Vector.length_toList])
  have hlf : ff.length = 2 := length_hexBytes hfd
  have hat₀ : header.bytes = [] ++ (vv ++ (dash :: (tt ++ dash :: (ss ++ dash :: (ff ++ rest))))) := by
    rw [htext]
    simp only [List.append_assoc, List.cons_append, List.nil_append]
  have hat₂ : header.bytes = vv ++ (dash :: (tt ++ dash :: (ss ++ dash :: (ff ++ rest)))) := hat₀
  have hat₃ : header.bytes = (vv ++ [dash]) ++ (tt ++ (dash :: (ss ++ dash :: (ff ++ rest)))) := by
    rw [hat₀]
    simp only [List.append_assoc, List.cons_append, List.nil_append]
  have hat₃₅ : header.bytes = (vv ++ dash :: tt) ++ (dash :: (ss ++ dash :: (ff ++ rest))) := by
    rw [hat₀]
    simp only [List.append_assoc, List.cons_append, List.nil_append]
  have hat₃₆ : header.bytes = (vv ++ dash :: (tt ++ [dash])) ++ (ss ++ (dash :: (ff ++ rest))) := by
    rw [hat₀]
    simp only [List.append_assoc, List.cons_append, List.nil_append]
  have hat₅₂ : header.bytes = (vv ++ dash :: (tt ++ dash :: ss)) ++ (dash :: (ff ++ rest)) := by
    rw [hat₀]
    simp only [List.append_assoc, List.cons_append, List.nil_append]
  have hat₅₃ : header.bytes = (vv ++ dash :: (tt ++ dash :: (ss ++ [dash]))) ++ (ff ++ rest) := by
    rw [hat₀]
    simp only [List.append_assoc, List.cons_append, List.nil_append]
  have hat₅₅ : header.bytes = (vv ++ dash :: (tt ++ dash :: (ss ++ dash :: ff))) ++ rest := htext
  have hversion := hexPair_of_hexBytes hat₀ hvv (i := 0) Nat.zero_lt_one
  obtain ⟨hi, lo, hhi, hlo, hpair⟩ := hexPair_eq_some.1 hversion
  have hlt' : hi * 16 + lo < 256 := by
    have := hexValue_lt hhi
    have := hexValue_lt hlo
    omega
  refine ⟨⟨hi, lo, hhi, hlo, ?_, fun hzero => ?_⟩, ?_, fun i hi => ?_, ?_, fun i hi => ?_, ?_, ?_, ht, hs⟩
  · intro heq
    rw [heq] at hpair
    exact hne hpair
  · rw [hzero] at hpair
    have hbyte := byteAt_append hat₅₅ 0
    rw [hend hpair] at hbyte
    simpa [hlv, hlt, hls, hlf] using hbyte
  · simpa [hlv] using byteAt_append hat₂ 0
  · have hid := hexPair_of_hexBytes hat₃ htt (i := i) (by rwa [Vector.length_toList])
    rw [Vector.getElem_toList] at hid
    simpa [hlv] using hid
  · simpa [hlv, hlt] using byteAt_append hat₃₅ 0
  · have hid := hexPair_of_hexBytes hat₃₆ hss (i := i) (by rwa [Vector.length_toList])
    rw [Vector.getElem_toList] at hid
    simpa [hlv, hlt] using hid
  · simpa [hlv, hlt, hls] using byteAt_append hat₅₂ 0
  · simpa [hlv, hlt, hls] using hexPair_of_hexBytes hat₅₃ hfd (i := 0) Nat.zero_lt_one

/-- What the parser returns is exactly what it accepts. -/
theorem otlpTraceparentParse_ok_iff {t₀ : TraceId} {s₀ : SpanId} {flags₀ : UInt8} :
    otlpTraceparentParse (some header) (some t₀) (some s₀) (some flags₀) =
      (.ok, some t, some s, some flags) ↔ Accepted header.bytes t s flags := by
  constructor
  · intro h
    have hparse : parseFields header t₀ s₀ flags₀ = (.ok, t, s, flags) := by
      simp only [otlpTraceparentParse, Prod.mk.injEq, Option.some.injEq] at h
      obtain ⟨hst, ht, hs, hflags⟩ := h
      exact Prod.ext hst (Prod.ext ht (Prod.ext hs hflags))
    exact (Fields.of_parse hparse).accepted
  · intro h
    rw [otlpTraceparentParse, (Fields.of_accepted h).parse]

/-! ### The parser and the grammar -/

theorem FourFields.length_eq {text : Bytes} {version : UInt8} (h : FourFields text version t s flags) :
    text.length = otlpTraceparentLen := by
  obtain ⟨vv, tt, ss, ff, rfl, hvv, htt, hss, hfd⟩ := h.spells
  simp only [List.length_append, List.length_cons, length_hexBytes hvv, length_hexBytes htt,
    length_hexBytes hss, length_hexBytes hfd, Vector.length_toList, List.length_nil]
  rfl

theorem rest_unique {text text' rest rest' : Bytes} {version version' : UInt8} {t' : TraceId} {s' : SpanId}
    {flags' : UInt8} (h : FourFields text version t s flags) (h' : FourFields text' version' t' s' flags')
    (heq : text ++ rest = text' ++ rest') : rest = rest' :=
  (List.append_inj heq (h.length_eq.trans h'.length_eq.symm)).2

/-- The parser accepts the header exactly when it is in the grammar, and returns its fields. -/
def ParsesGrammar (header : CString) : Prop :=
  ∀ t₀ s₀ flags₀ t s flags, otlpTraceparentParse (some header) (some t₀) (some s₀) (some flags₀) =
    (.ok, some t, some s, some flags) ↔ Grammar header.bytes t s flags

/-- What is written to a buffer that is large enough is parsed as the ids and the sampled bit. -/
def ParsesWritten (t : TraceId) (s : SpanId) (sampled : Bool) : Prop :=
  ∀ cap, otlpTraceparentBufSize ≤ cap →
    ∃ buf, otlpTraceparentFormatRaw (some t) (some s) sampled (some cap) = .ok (buf, otlpTraceparentLen) ∧
      ∀ t₀ s₀ flags₀, ∃ flags, (flags &&& 1 = if sampled then 1 else 0) ∧
        otlpTraceparentParse (some (.ofBuffer buf)) (some t₀) (some s₀) (some flags₀) =
          (.ok, some t, some s, some flags)

theorem parsesWritten (ht : otlpIdIsAllZero t = false) (hs : otlpIdIsAllZero s = false) (sampled : Bool) :
    ParsesWritten t s sampled := by
  intro cap hcap
  refine ⟨traceparentText t s sampled ++ [0], ?_, fun t₀ s₀ flags₀ => ⟨if sampled then 1 else 0, ?_, ?_⟩⟩
  · rw [otlpTraceparentFormatRaw, if_neg (by omega)]
  · cases sampled <;> rfl
  · rw [ofBuffer_traceparentText, otlpTraceparentParse, parseFields_text sampled ht hs]

/-- **The parser decides the grammar exactly on the headers that are not stray**, and reads back what is
written. -/
theorem traceparent_grammar_iff (header : CString) :
    (ParsesGrammar header ↔ ¬Stray header.bytes) ∧
      ∀ t s sampled, otlpIdIsAllZero t = false → otlpIdIsAllZero s = false → ParsesWritten t s sampled := by
  refine ⟨⟨?_, ?_⟩, fun t s sampled ht hs => parsesWritten ht hs sampled⟩
  · rintro hparses ⟨version, text, rest, t, s, flags, htext, hfour, hversion, hrest, hhead⟩
    have haccepted : Accepted header.bytes t s flags :=
      ⟨version, text, rest, htext, hfour, fun hzero => absurd hzero hversion⟩
    obtain ⟨version', text', rest', htext', hfour', hend⟩ :=
      (hparses 0 0 0 t s flags).1 (otlpTraceparentParse_ok_iff.2 haccepted)
    obtain rfl := rest_unique hfour hfour' (htext.symm.trans htext')
    rcases hend with hnil | ⟨-, hdash⟩
    · exact hrest hnil
    · exact hhead hdash
  · intro hstray t₀ s₀ flags₀ t s flags
    rw [otlpTraceparentParse_ok_iff]
    constructor
    · rintro ⟨version, text, rest, htext, hfour, hend⟩
      refine ⟨version, text, rest, htext, hfour, ?_⟩
      by_contra hnot
      rw [not_or] at hnot
      have hversion : version ≠ 0 := fun hzero => hnot.1 (hend hzero)
      exact hstray ⟨version, text, rest, t, s, flags, htext, hfour, hversion, hnot.1, fun hdash =>
        hnot.2 ⟨hversion, hdash⟩⟩
    · rintro ⟨version, text, rest, htext, hfour, hend⟩
      refine ⟨version, text, rest, htext, hfour, fun hzero => ?_⟩
      rcases hend with hnil | ⟨hversion, -⟩
      · exact hnil
      · exact absurd hzero hversion

/-- Version 01 and a letter directly behind the flags. -/
def strayHeader : CString where
  bytes := (traceparentText (.replicate 16 1) (.replicate 8 1) true).set 1 0x31 ++ [0x78]
  no_nul := by decide +kernel

theorem traceparent_grammar_iff_ones :
    (ParsesGrammar strayHeader ↔ ¬Stray strayHeader.bytes) ∧
      ParsesWritten (.replicate 16 1) (.replicate 8 1) true :=
  ⟨(traceparent_grammar_iff strayHeader).1,
    (traceparent_grammar_iff strayHeader).2 _ _ true (by decide) (by decide)⟩

/-- The letter is taken for the start of a further field. -/
theorem stray_accepted : ¬∀ header, ParsesGrammar header := by
  intro h
  obtain ⟨version, text, rest, htext, hfour, hend⟩ :=
    (h strayHeader 0 0 0 (.replicate 16 1) (.replicate 8 1) 1).1 (by decide +kernel)
  have hrest : rest = [0x78] := by
    calc rest = (text ++ rest).drop otlpTraceparentLen := (List.drop_left' hfour.length_eq).symm
      _ = strayHeader.bytes.drop otlpTraceparentLen := by rw [htext]
      _ = [0x78] := by decide +kernel
  rw [hrest] at hend
  rcases hend with hnil | ⟨-, hdash⟩
  · exact absurd hnil (by decide)
  · exact absurd hdash (by decide)

end OtlpC.Context
