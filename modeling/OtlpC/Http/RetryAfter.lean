import Mathlib.Tactic.Ring
import OtlpC.Http.Framing

/-!
# Retry-After

The number of a `Retry-After` line against the one that the scan keeps. The scan takes at most ten digits, leading
zeros among them, so what is kept is the number up to the cap exactly when there are no more digits than that, or
the number is 0, or its first ten digits reach the cap already (`retryAfterMs_iff`).
-/

namespace OtlpC.Http

open Occurrence SkipScan

def isRetryAfter (line : Bytes) : Bool := startsWithCi line (ascii "Retry-After:")

/-- The last `Retry-After` line of the header block, and its value: spaces and digits. -/
structure DeltaSeconds (head line digits : Bytes) : Prop where
  last : ∃ before after, blockLines head = before ++ line :: after ∧ ∀ w ∈ after, isRetryAfter w = false
  retryAfter : isRetryAfter line = true
  value : ∃ spaces, line.drop 12 = List.replicate spaces space ++ digits
  ne_nil : digits ≠ []
  digits : ∀ c ∈ digits, isDigit c = true

/-- The first ten digits of a number say as much about it as the cap leaves. -/
def TenDigitsSuffice (digits : Bytes) : Prop :=
  digits.length ≤ 10 ∨ decimalNumber digits = 0 ∨
    otlpRetryAfterMaxS * 10 ^ (digits.length - 10) ≤ decimalNumber digits

def scannedDigits (line : Bytes) : Bytes := ((skipSpaces (line.drop 12)).takeWhile isDigit).take 10

/-- The digits that the scan reads of another line say the same as a number, or both reach the cap. -/
def SameSeconds (line digits : Bytes) : Prop :=
  decimalNumber (scannedDigits line) = decimalNumber digits ∨
    otlpRetryAfterMaxS ≤ decimalNumber (scannedDigits line) ∧ otlpRetryAfterMaxS ≤ decimalNumber digits

/-- The last line that the scan takes for a `Retry-After`. -/
def takenRetryAfter (head : Bytes) : Option Bytes :=
  (((lineStarts head).map (lineAt head)).filter isRetryAfter).getLast?

/-! ### Numbers -/

theorem foldl_digits (digits : Bytes) (n : ℕ) :
    digits.foldl (fun n c => n * 10 + digitValue c) n = n * 10 ^ digits.length + decimalNumber digits := by
  induction digits generalizing n with
  | nil => simp [decimalNumber]
  | cons c digits ih =>
    rw [decimalNumber, List.foldl_cons, List.foldl_cons, ih, ih (0 * 10 + digitValue c), List.length_cons, pow_succ]
    ring

theorem decimalNumber_append (as bs : Bytes) :
    decimalNumber (as ++ bs) = decimalNumber as * 10 ^ bs.length + decimalNumber bs := by
  rw [decimalNumber, List.foldl_append]
  exact foldl_digits bs _

theorem digitValue_lt {c : UInt8} (hc : isDigit c = true) : digitValue c < 10 := by
  rw [isDigit, Bool.and_eq_true, decide_eq_true_eq, decide_eq_true_eq, UInt8.le_iff_toNat_le,
    UInt8.le_iff_toNat_le] at hc
  have hupper : c.toNat ≤ 57 := hc.2
  rw [digitValue]
  omega

theorem decimalNumber_lt {digits : Bytes} (h : ∀ c ∈ digits, isDigit c = true) :
    decimalNumber digits < 10 ^ digits.length := by
  induction digits with
  | nil => decide
  | cons c digits ih =>
    rw [List.forall_mem_cons] at h
    have hc := digitValue_lt h.1
    have hrest := ih h.2
    have hsplit := decimalNumber_append [c] digits
    rw [List.singleton_append] at hsplit
    have hhead : decimalNumber [c] = digitValue c := by simp [decimalNumber]
    have hmul : digitValue c * 10 ^ digits.length ≤ 9 * 10 ^ digits.length := Nat.mul_le_mul_right _ (by omega)
    rw [hsplit, hhead, List.length_cons, pow_succ]
    omega

/-- The cap on the first ten digits is the cap on the number when they suffice. -/
theorem min_take_ten_iff {digits : Bytes} (h : ∀ c ∈ digits, isDigit c = true) :
    min (decimalNumber (digits.take 10)) otlpRetryAfterMaxS = min (decimalNumber digits) otlpRetryAfterMaxS ↔
      TenDigitsSuffice digits := by
  rcases Nat.lt_or_ge 10 digits.length with hgt | hle
  · have hsplit := decimalNumber_append (digits.take 10) (digits.drop 10)
    rw [List.take_append_drop, List.length_drop] at hsplit
    have hrest : decimalNumber (digits.drop 10) < 10 ^ (digits.length - 10) := by
      rw [← List.length_drop]
      exact decimalNumber_lt fun c hc => h c (List.mem_of_mem_drop hc)
    rw [TenDigitsSuffice]
    have hten : 10 ≤ 10 ^ (digits.length - 10) := Nat.le_self_pow (by omega) 10
    generalize 10 ^ (digits.length - 10) = base at hsplit hrest hten ⊢
    generalize decimalNumber (digits.take 10) = first at hsplit ⊢
    generalize decimalNumber (digits.drop 10) = rest at hsplit hrest
    generalize decimalNumber digits = n at hsplit ⊢
    generalize otlpRetryAfterMaxS = cap
    have hcap : cap * base ≤ n ↔ cap ≤ first := by
      constructor
      · intro hle
        by_contra hlt
        have hnext : (first + 1) * base ≤ cap * base := Nat.mul_le_mul_right base (by omega)
        rw [Nat.succ_mul] at hnext
        omega
      · intro hle
        have hmul : cap * base ≤ first * base := Nat.mul_le_mul_right base hle
        omega
    have hgrows : first * 10 ≤ first * base := Nat.mul_le_mul_left first hten
    rw [hcap]
    omega
  · rw [List.take_of_length_le hle]
    exact ⟨fun _ => .inl hle, fun _ => rfl⟩

theorem retryAfterLoop_eq (room sec : ℕ) (v : Bytes) : retryAfterLoop room sec v =
    ((v.takeWhile isDigit).take room).foldl (fun n c => n * 10 + digitValue c) sec := by
  induction v generalizing room sec with
  | nil => cases room <;> rfl
  | cons c v ih =>
    cases room with
    | zero => rfl
    | succ room =>
      rw [retryAfterLoop, List.takeWhile_cons]
      by_cases hc : isDigit c = true
      · rw [if_neg (by simpa using hc), if_pos hc, List.take_succ_cons, List.foldl_cons]
        exact ih room _
      · rw [if_pos (by simpa using hc), if_neg hc]
        rfl

/-! ### What the scan keeps -/

def retryAfterOf (line : Bytes) : ℕ := min (decimalNumber (scannedDigits line)) otlpRetryAfterMaxS * 1000

theorem headerLine_retryAfterMs {s s' : HeaderScan} {w : Bytes} (h : headerLine s w = some s') :
    s'.retryAfterMs = if isRetryAfter w then retryAfterOf w else s.retryAfterMs := by
  obtain ⟨field, hnamed, hact, hothers⟩ | ⟨hnone, rfl⟩ := headerLine_cases h
  · cases field with
    | contentLength =>
      have hw : isRetryAfter w = false := hothers .retryAfter (by decide)
      rw [hw, if_neg Bool.false_ne_true]
      rw [ScanField.act] at hact
      split at hact
      · contradiction
      split at hact
      · contradiction
      · rw [Option.some.injEq] at hact
        rw [← hact]
    | transferEncoding =>
      have hw : isRetryAfter w = false := hothers .retryAfter (by decide)
      rw [hw, if_neg Bool.false_ne_true]
      rw [ScanField.act, Option.some.injEq] at hact
      rw [← hact]
    | retryAfter =>
      have hw : isRetryAfter w = true := hnamed
      have hdrop : ScanField.retryAfter.name.length = 12 := by decide
      rw [hw, if_pos rfl]
      rw [ScanField.act, Option.some.injEq, hdrop] at hact
      rw [← hact, retryAfterOf, scannedDigits, decimalNumber, ← retryAfterLoop_eq]
    | connection =>
      have hw : isRetryAfter w = false := hothers .retryAfter (by decide)
      rw [hw, if_neg Bool.false_ne_true]
      rw [ScanField.act] at hact
      split at hact
      · rw [Option.some.injEq] at hact
        rw [← hact]
      split at hact <;> rw [Option.some.injEq] at hact <;> rw [← hact]
  · have hw : isRetryAfter w = false := hnone .retryAfter
    rw [hw, if_neg Bool.false_ne_true]

theorem foldlM_retryAfterMs {head : Bytes} {ps : List ℕ} {s s' : HeaderScan}
    (h : ps.foldlM (fun s p => headerLine s (lineAt head p)) s = some s') :
    s'.retryAfterMs =
      (((ps.map (lineAt head)).filter isRetryAfter).getLast?).elim s.retryAfterMs retryAfterOf := by
  induction ps generalizing s with
  | nil =>
    rw [List.foldlM_nil, Option.pure_def, Option.some.injEq] at h
    rw [h]
    rfl
  | cons p ps ih =>
    rw [List.foldlM_cons, Option.bind_eq_bind, Option.bind_eq_some_iff] at h
    obtain ⟨t, ht, hrest⟩ := h
    rw [ih hrest, headerLine_retryAfterMs ht, List.map_cons, List.filter_cons]
    split
    · rw [List.getLast?_cons]
      cases ((ps.map (lineAt head)).filter isRetryAfter).getLast? <;> rfl
    · rfl

/-! ### Which line the scan takes last -/

theorem isRetryAfter_lineAt (head : Bytes) (p : ℕ) : isRetryAfter (lineAt head p) = isRetryAfter (crlfLine head p) :=
  startsWithCi_lineAt .retryAfter

theorem fieldAt_of_isRetryAfter {head : Bytes} {p : ℕ} (h : isRetryAfter (lineAt head p) = true) : FieldAt head p := by
  have hname : ascii "Retry-After:" ∈ fieldNames := by decide
  refine ⟨_, hname, ?_⟩
  rwa [isRetryAfter, lineAt, startsWithCi_takeWhile (fieldName_ok hname).1] at h

theorem DeltaSeconds.exists_start {head line digits : Bytes} (h : DeltaSeconds head line digits) :
    ∃ p, AfterCrlf head p ∧ crlfLine head p = line ∧
      ∀ q, p < q → AfterCrlf head q → isRetryAfter (crlfLine head q) = false := by
  obtain ⟨before, after, hlines, hafter⟩ := h.last
  obtain ⟨e, hocc, hsplit⟩ := exists_of_tail_splitPair hlines
  refine ⟨e + 2, ⟨e, rfl, hocc⟩, by rw [crlfLine, hsplit]; rfl, ?_⟩
  rintro q hlt ⟨e', rfl, hocc'⟩
  apply hafter
  -- the later separator does not begin within the earlier one
  have hge : e + 2 ≤ e' := by
    have hlf := (occursAt_crlf.1 hocc).2
    have hcr := (occursAt_crlf.1 hocc').1
    by_contra hshort
    obtain rfl : e' = e + 1 := by omega
    rw [hlf] at hcr
    exact absurd hcr (by decide)
  have hrest : crlfLine head (e' + 2) ∈ (splitPair cr lf (head.drop (e + 2))).tail := by
    obtain ⟨v, vs, hv⟩ := List.exists_cons_of_ne_nil (splitPair_ne_nil cr lf (head.drop (e' + 2)))
    refine (mem_tail_splitPair (by decide)).2 ⟨e' - (e + 2), ?_, ?_⟩
    · rw [OccursAt, List.drop_drop, show e + 2 + (e' - (e + 2)) = e' by omega]
      exact hocc'
    · rw [List.drop_drop, show e + 2 + (e' - (e + 2) + 2) = e' + 2 by omega, crlfLine, hv]
      rfl
  rwa [hsplit] at hrest

theorem getLast?_filter_map {f : ℕ → Bytes} {P : Bytes → Bool} {ps : List ℕ} {p : ℕ} (hps : ps.Pairwise (· < ·))
    (hmem : p ∈ ps) (hp : P (f p) = true) (hlast : ∀ q ∈ ps, p < q → P (f q) = false) :
    ((ps.map f).filter P).getLast? = some (f p) := by
  obtain ⟨as, bs, rfl⟩ := List.append_of_mem hmem
  have hlater : ∀ q ∈ bs, p < q := fun q => List.rel_of_pairwise_cons (List.pairwise_append.1 hps).2.1
  have hnone : (bs.map f).filter P = [] := by
    rw [List.filter_eq_nil_iff]
    intro w hw
    obtain ⟨q, hq, rfl⟩ := List.mem_map.1 hw
    rw [hlast q (List.mem_append_right _ (List.mem_cons_of_mem _ hq)) (hlater q hq)]
    exact Bool.false_ne_true
  rw [List.map_append, List.map_cons, List.filter_append, List.filter_cons_of_pos hp, hnone, List.getLast?_append]
  rfl

/-- Where no field name stands at a position that the scan gets wrong, it takes the last line of the block. -/
theorem DeltaSeconds.taken {buf line digits : Bytes} {i : ℕ} (h : findSubstring buf crlfcrlf = some i)
    (haligned : FieldsAligned (buf.take (i + 4))) (hline : DeltaSeconds (buf.take (i + 4)) line digits) :
    takenRetryAfter (buf.take (i + 4)) = some line := by
  obtain ⟨p, hp, rfl, hlast⟩ := hline.exists_start
  have hstarts := (lineStarts_aligned_iff h).2 haligned
  have hvalue : cr ∉ (crlfLine (buf.take (i + 4)) p).drop (ascii "Retry-After:").length := by
    obtain ⟨spaces, hvalue⟩ := hline.value
    change cr ∉ (crlfLine (buf.take (i + 4)) p).drop 12
    rw [hvalue, List.mem_append, not_or]
    refine ⟨fun hmem => ?_, fun hmem => ?_⟩
    · exact absurd (List.eq_of_mem_replicate hmem) (by decide)
    · exact absurd (hline.digits cr hmem) (by decide)
  have hsame := lineAt_eq_crlfLine (cr_notMem_of_value (by decide) hline.retryAfter hvalue)
  rw [← hsame]
  have hretry : isRetryAfter (lineAt (buf.take (i + 4)) p) = true := by
    rw [hsame]
    exact hline.retryAfter
  refine getLast?_filter_map (pairwise_starts _ _ _) ((hstarts p (fieldAt_of_isRetryAfter hretry)).2 hp) hretry
    fun q hq hlt => ?_
  rw [← Bool.not_eq_true]
  intro hother
  have hat := (hstarts q (fieldAt_of_isRetryAfter hother)).1 hq
  rw [isRetryAfter_lineAt, hlast q hlt hat] at hother
  cases hother

section Accepted

variable {buf : Bytes} {atEof : Bool} {resp : OtlpHttpResp}

/-- What an accepted response gives is what the line that was taken last says. -/
theorem retryAfterMs_eq (h : (otlpHttpRespParse buf atEof).2 = .complete resp) : resp.retryAfterMs =
    min ((takenRetryAfter (buf.take resp.bodyOff)).elim 0 fun w => decimalNumber (scannedDigits w)) 4294967 *
      1000 := by
  obtain ⟨hd, bodyLen, i, keepalive, hdr, scan, rfl, -, hparsed, hscan⟩ := exists_parsedHead h
  have hms : (hd.resp bodyLen).retryAfterMs = scan.retryAfterMs := hparsed.retryAfter_eq
  have hoff : (hd.resp bodyLen).bodyOff = i + 4 := hparsed.bodyOff_eq
  have hlast : scan.retryAfterMs = (takenRetryAfter (buf.take (i + 4))).elim 0 retryAfterOf :=
    foldlM_retryAfterMs hscan
  rw [hms, hoff, hlast]
  cases takenRetryAfter (buf.take (i + 4)) <;> rfl

theorem DeltaSeconds.scanned {head line digits : Bytes} (h : DeltaSeconds head line digits) :
    scannedDigits line = digits.take 10 := by
  obtain ⟨spaces, hvalue⟩ := h.value
  have hskip : skipSpaces (line.drop 12) = digits := by
    rw [hvalue, skipSpaces_replicate]
    obtain ⟨c, cs, rfl⟩ := List.exists_cons_of_ne_nil h.ne_nil
    have hc : ¬(c == space) = true := by
      intro heq
      have hdigit := h.digits c List.mem_cons_self
      rw [beq_iff_eq.1 heq, isDigit_space] at hdigit
      cases hdigit
    rw [skipSpaces, List.dropWhile_cons, if_neg hc]
  rw [scannedDigits, hskip, List.takeWhile_eq_self_iff.2 h.digits]

/-- **Retry-After.** The number of the last line is what is kept, up to the cap, exactly when the scan takes that
line last and its first ten digits suffice, or takes no line and the number is 0, or takes another line whose text
says as many seconds. -/
theorem retryAfterMs_iff (h : (otlpHttpRespParse buf atEof).2 = .complete resp) {line digits : Bytes}
    (hline : DeltaSeconds (buf.take resp.bodyOff) line digits) :
    resp.retryAfterMs < 2 ^ 32 ∧
      (FieldsAligned (buf.take resp.bodyOff) → takenRetryAfter (buf.take resp.bodyOff) = some line) ∧
      (resp.retryAfterMs = min (decimalNumber digits) 4294967 * 1000 ↔
        (takenRetryAfter (buf.take resp.bodyOff) = some line ∧ TenDigitsSuffice digits) ∨
        (takenRetryAfter (buf.take resp.bodyOff) = none ∧ decimalNumber digits = 0) ∨
        ∃ other, takenRetryAfter (buf.take resp.bodyOff) = some other ∧ other ≠ line ∧ SameSeconds other digits) := by
  have hms := retryAfterMs_eq h
  refine ⟨by omega, ?_, ?_⟩
  · obtain ⟨hd, bodyLen, i, keepalive, hdr, scan, rfl, -, hparsed, -⟩ := exists_parsedHead h
    have hoff : (hd.resp bodyLen).bodyOff = i + 4 := hparsed.bodyOff_eq
    rw [hoff] at hline ⊢
    exact fun haligned => hline.taken hparsed.find_eq haligned
  · rw [hms, Nat.mul_left_inj (by decide)]
    cases takenRetryAfter (buf.take resp.bodyOff) with
    | none =>
      simp only [Option.elim_none, reduceCtorEq, false_and, true_and, false_or, exists_const, or_false]
      omega
    | some other =>
      simp only [Option.elim_some, Option.some.injEq, reduceCtorEq, false_and, false_or, exists_eq_left']
      by_cases hsame : other = line
      · rw [hsame, hline.scanned]
        simp only [true_and, ne_eq, not_true_eq_false, false_and, or_false]
        exact min_take_ten_iff hline.digits
      · have hcap : otlpRetryAfterMaxS = 4294967 := rfl
        simp only [hsame, false_and, ne_eq, not_false_eq_true, true_and, false_or, SameSeconds, hcap]
        omega

end Accepted

/-- Ten digits of a number that is above the cap. -/
theorem retryAfterMs_iff_saturated :
    ∃ buf resp, (otlpHttpRespParse buf false).2 = .complete resp ∧
      DeltaSeconds (buf.take resp.bodyOff) (ascii "retry-after:  4294968000") (ascii "4294968000") ∧
      resp.retryAfterMs = min (decimalNumber (ascii "4294968000")) 4294967 * 1000 := by
  let buf := ascii "HTTP/1.1 429 X\r\nRetry-After: 3\r\nretry-after:  4294968000\r\nContent-Length: 0\r\n\r\n"
  have hparse : (otlpHttpRespParse buf false).2 = .complete ⟨429, 4294967000, true, 79, 0⟩ := by decide +kernel
  have hline : DeltaSeconds (buf.take 79) (ascii "retry-after:  4294968000") (ascii "4294968000") := by
    have hlines : blockLines (buf.take 79) = [ascii "Retry-After: 3"] ++ ascii "retry-after:  4294968000" ::
        [ascii "Content-Length: 0", [], []] := by decide +kernel
    exact ⟨⟨_, _, hlines, by decide +kernel⟩, by decide +kernel, ⟨2, by decide +kernel⟩, by decide, by decide +kernel⟩
  have htaken : takenRetryAfter (buf.take 79) = some (ascii "retry-after:  4294968000") := by decide +kernel
  refine ⟨buf, _, hparse, hline, (retryAfterMs_iff hparse hline).2.2.2 ?_⟩
  exact .inl ⟨htaken, .inl (by decide)⟩

/-- Eleven digits, ten of them zeros in front, are read as 0. -/
theorem leading_zeros_dropped :
    ∃ buf resp, (otlpHttpRespParse buf false).2 = .complete resp ∧
      DeltaSeconds (buf.take resp.bodyOff) (ascii "Retry-After: 00000000005") (ascii "00000000005") ∧
      decimalNumber (ascii "00000000005") = 5 ∧ resp.retryAfterMs = 0 ∧
      resp.retryAfterMs ≠ min (decimalNumber (ascii "00000000005")) 4294967 * 1000 := by
  let buf := ascii "HTTP/1.1 429 X\r\nRetry-After: 00000000005\r\nContent-Length: 0\r\n\r\n"
  have hparse : (otlpHttpRespParse buf false).2 = .complete ⟨429, 0, true, 63, 0⟩ := by decide +kernel
  have hlines : blockLines (buf.take 63) = [] ++ ascii "Retry-After: 00000000005" ::
      [ascii "Content-Length: 0", [], []] := by decide +kernel
  exact ⟨buf, _, hparse, ⟨⟨_, _, hlines, by decide +kernel⟩, by decide +kernel, ⟨1, by decide +kernel⟩, by decide,
    by decide +kernel⟩, by decide +kernel, rfl, by decide +kernel⟩

end OtlpC.Http
