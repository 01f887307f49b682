import OtlpC.Context.W3c

/-!
# Which bytes of a traceparent are read

The parser with the indices of the header that it looks at, in their order. It reads at fixed offsets and
stops at the first byte that does not fit, so that it stays in the string, but for one place: of a pair of
digits it reads both before it tests the first. A header that ends just where a pair begins is read one byte
beyond its NUL.
-/

namespace OtlpC.Context

open Api

abbrev Logged (α : Type) := List ℕ × α

variable {α β : Type}

/-- Read `header[i]` and go on with it. -/
def look (header : CString) (i : ℕ) (k : UInt8 → Logged α) : Logged α :=
  let r := k (header.byteAt i)
  (i :: r.1, r.2)

/-- Go on with a result. -/
def Logged.andThen (r : Logged α) (k : α → Logged β) : Logged β :=
  let r' := k r.2
  (r.1 ++ r'.1, r'.2)

def done (a : α) : Logged α := ([], a)

/-- `parseIdLoop` with its reads: `hi` and `lo` are both read before either is tested. -/
def lookIdLoop {n : ℕ} (header : CString) (off : ℕ) :
    ℕ → ℕ → Vector UInt8 n → Bool → Logged (Bool × Vector UInt8 n × Bool)
  | 0, _, id, nz => done (true, id, nz)
  | rounds + 1, i, id, nz =>
    look header (off + i * 2) fun hi => look header (off + i * 2 + 1) fun lo =>
      match hexValue hi, hexValue lo with
      | some hi, some lo =>
        let b := UInt8.ofNat (hi <<< 4 ||| lo)
        lookIdLoop header off rounds (i + 1) (id.setIfInBounds i b) (nz || b != 0)
      | _, _ => done (false, id, nz)

/-- The rules on the version, for which the header is read again. -/
def lookVersion (header : CString) (traceId : TraceId) (spanId : SpanId) (flags : UInt8) :
    Logged (OtlpStatus × TraceId × SpanId × UInt8) :=
  look header 0 fun hi => look header 1 fun lo =>
    let version := (hexValue hi).getD 0 * 16 + (hexValue lo).getD 0
    if version == 0xff then done (.errInvalidArgument, traceId, spanId, flags)
    else if version == 0x00 then
      look header 55 fun c =>
        if c != 0 then done (.errInvalidArgument, traceId, spanId, flags) else done (.ok, traceId, spanId, flags)
    else done (.ok, traceId, spanId, flags)

def lookFlags (header : CString) (traceId : TraceId) (traceNz : Bool) (spanId : SpanId) (spanNz : Bool)
    (flags : UInt8) : Logged (OtlpStatus × TraceId × SpanId × UInt8) :=
  look header 52 fun c =>
    if c != dash then done (.errInvalidArgument, traceId, spanId, flags)
    else
      look header 53 fun hi => look header 54 fun lo =>
        match hexValue hi, hexValue lo with
        | some hi, some lo =>
          let flags := UInt8.ofNat (hi <<< 4 ||| lo)
          if !traceNz || !spanNz then done (.errInvalidArgument, traceId, spanId, flags)
          else lookVersion header traceId spanId flags
        | _, _ => done (.errInvalidArgument, traceId, spanId, flags)

/-- The span id and what follows. -/
def lookSpan (header : CString) (traceId : TraceId) (traceNz : Bool) (spanId : SpanId) (flags : UInt8) :
    Logged (OtlpStatus × TraceId × SpanId × UInt8) :=
  look header 35 fun c =>
    if c != dash then done (.errInvalidArgument, traceId, spanId, flags)
    else
      (lookIdLoop header 36 8 0 spanId false).andThen fun
        | (false, spanId, _) => done (.errInvalidArgument, traceId, spanId, flags)
        | (true, spanId, spanNz) => lookFlags header traceId traceNz spanId spanNz flags

/-- `otlp_traceparent_parse` with its reads. -/
def lookFields (header : CString) (traceId : TraceId) (spanId : SpanId) (flags : UInt8) :
    Logged (OtlpStatus × TraceId × SpanId × UInt8) :=
  look header 0 fun v₀ =>
    match hexValue v₀ with
    | none => done (.errInvalidArgument, traceId, spanId, flags)
    | some _ => look header 1 fun v₁ =>
      match hexValue v₁ with
      | none => done (.errInvalidArgument, traceId, spanId, flags)
      | some _ => look header 2 fun c =>
        if c != dash then done (.errInvalidArgument, traceId, spanId, flags)
        else
          (lookIdLoop header 3 16 0 traceId false).andThen fun
            | (false, traceId, _) => done (.errInvalidArgument, traceId, spanId, flags)
            | (true, traceId, traceNz) => lookSpan header traceId traceNz spanId flags

/-! ### The same parser -/

variable {header : CString} {i : ℕ} {k : UInt8 → Logged α}

@[simp] theorem look_result : (look header i k).2 = (k (header.byteAt i)).2 := rfl

@[simp] theorem andThen_result {r : Logged α} {k : α → Logged β} : (r.andThen k).2 = (k r.2).2 := rfl

@[simp] theorem done_result (a : α) : (done a).2 = a := rfl

theorem lookIdLoop_result {n : ℕ} (header : CString) (off rounds : ℕ) (i : ℕ) (id : Vector UInt8 n) (nz : Bool) :
    (lookIdLoop header off rounds i id nz).2 = parseIdLoop header off rounds i id nz := by
  induction rounds generalizing i id nz with
  | zero => rfl
  | succ rounds ih =>
    rw [lookIdLoop, parseIdLoop, look_result, look_result, hexPair]
    cases hexValue (header.byteAt (off + i * 2)) with
    | none => rfl
    | some hi =>
      cases hexValue (header.byteAt (off + i * 2 + 1)) with
      | none => rfl
      | some lo => exact ih (i + 1) _ _

/-- **The reads are those of the parser**: without them it is `parseFields`. -/
theorem lookFields_result (header : CString) (traceId : TraceId) (spanId : SpanId) (flags : UInt8) :
    (lookFields header traceId spanId flags).2 = parseFields header traceId spanId flags := by
  rw [lookFields, parseFields, look_result]
  cases h₀ : hexValue (header.byteAt 0) with
  | none => rfl
  | some hi =>
    dsimp only
    rw [look_result]
    cases h₁ : hexValue (header.byteAt 1) with
    | none => rfl
    | some lo =>
      dsimp only
      rw [look_result]
      by_cases hdash : (header.byteAt 2 != dash) = true
      · rw [if_pos hdash, if_pos hdash]
        rfl
      rw [if_neg hdash, if_neg hdash, andThen_result, lookIdLoop_result]
      obtain ⟨ok, traceId, traceNz⟩ := parseIdLoop header 3 16 0 traceId false
      cases ok with
      | false => rfl
      | true =>
        dsimp only
        rw [lookSpan, look_result]
        by_cases hdash : (header.byteAt 35 != dash) = true
        · rw [if_pos hdash, if_pos hdash]
          rfl
        rw [if_neg hdash, if_neg hdash, andThen_result, lookIdLoop_result]
        obtain ⟨ok, spanId, spanNz⟩ := parseIdLoop header 36 8 0 spanId false
        cases ok with
        | false => rfl
        | true =>
          dsimp only
          rw [lookFlags, look_result]
          by_cases hdash : (header.byteAt 52 != dash) = true
          · rw [if_pos hdash, if_pos hdash]
            rfl
          rw [if_neg hdash, if_neg hdash, look_result, look_result, hexPair]
          cases hexValue (header.byteAt 53) with
          | none => rfl
          | some fhi =>
            cases hexValue (header.byteAt (53 + 1)) with
            | none => rfl
            | some flo =>
              dsimp only
              by_cases hnz : (!traceNz || !spanNz) = true
              · rw [if_pos hnz, if_pos hnz]
                rfl
              rw [if_neg hnz, if_neg hnz, lookVersion, look_result, look_result, h₀, h₁]
              dsimp only [Option.getD_some]
              by_cases hff : (hi * 16 + lo == 0xff) = true
              · rw [if_pos hff, if_pos hff]
                rfl
              rw [if_neg hff, if_neg hff]
              by_cases hzero : (hi * 16 + lo == 0) = true
              · rw [if_pos hzero, look_result, hzero, Bool.true_and]
                split_ifs <;> rfl
              · rw [if_neg hzero, Bool.not_eq_true _ |>.mp hzero, Bool.false_and]
                rfl

/-! ### Inside the string -/

def Inside (header : CString) (r : Logged α) : Prop := ∀ j ∈ r.1, j ≤ header.bytes.length

theorem inside_look : Inside header (look header i k) ↔
    i ≤ header.bytes.length ∧ Inside header (k (header.byteAt i)) :=
  List.forall_mem_cons

theorem inside_andThen {r : Logged α} {k : α → Logged β} :
    Inside header (r.andThen k) ↔ Inside header r ∧ Inside header (k r.2) :=
  List.forall_mem_append

theorem inside_done (a : α) : Inside header (done a) := fun _ h => absurd h List.not_mem_nil

/-- The byte is what a header has at position `i` of its four fields. -/
def fits (i : ℕ) (c : UInt8) : Bool :=
  if i == 2 || i == 35 || i == 52 then c == dash else (hexValue c).isSome

def FitsUpTo (header : CString) (n : ℕ) : Prop := ∀ i < n, fits i (header.byteAt i) = true

/-- A pair of digits that is read as one begins here: a byte of the trace id, of the span id, or the flags. -/
def BeginsPair (i : ℕ) : Prop := (3 ≤ i ∧ i < 35 ∧ i % 2 = 1) ∨ (36 ≤ i ∧ i < 52 ∧ i % 2 = 0) ∨ i = 53

/-- The header fits as far as it goes, and ends where a pair of digits is to begin. -/
def CutBeforePair (header : CString) : Prop :=
  BeginsPair header.bytes.length ∧ FitsUpTo header header.bytes.length

theorem fits_zero (i : ℕ) : fits i 0 = false := by
  unfold fits
  split_ifs <;> rfl

theorem FitsUpTo.le_length {n : ℕ} (h : FitsUpTo header n) : n ≤ header.bytes.length := by
  by_contra hlt
  have hfits := h header.bytes.length (Nat.not_le.1 hlt)
  rw [CString.byteAt, List.getD_eq_default _ _ (le_refl _), fits_zero] at hfits
  cases hfits

theorem FitsUpTo.mono {n m : ℕ} (h : FitsUpTo header n) (hle : m ≤ n) : FitsUpTo header m :=
  fun i hi => h i (hi.trans_le hle)

theorem fitsUpTo_succ {n : ℕ} (h : FitsUpTo header n) :
    FitsUpTo header (n + 1) ↔ fits n (header.byteAt n) = true := by
  refine ⟨fun hn => hn n (Nat.lt_succ_self n), fun hn i hi => ?_⟩
  rcases Nat.lt_succ_iff_lt_or_eq.1 hi with hlt | rfl
  · exact h i hlt
  · exact hn

theorem fits_digit {p : ℕ} (h₁ : p ≠ 2) (h₂ : p ≠ 35) (h₃ : p ≠ 52) (c : UInt8) :
    fits p c = (hexValue c).isSome := by
  unfold fits
  rw [if_neg]
  simp [h₁, h₂, h₃]

/-- The loop over an id stays inside unless the header ends where one of its pairs begins. -/
theorem inside_lookIdLoop {n : ℕ} {off rounds i : ℕ} {id : Vector UInt8 n} {nz : Bool}
    (hdigits : ∀ p, off + i * 2 ≤ p → p < off + (i + rounds) * 2 → p ≠ 2 ∧ p ≠ 35 ∧ p ≠ 52)
    (h : FitsUpTo header (off + i * 2)) :
    (Inside header (lookIdLoop header off rounds i id nz) ↔
        ¬∃ j, i ≤ j ∧ j < i + rounds ∧ header.bytes.length = off + j * 2 ∧
          FitsUpTo header header.bytes.length) ∧
      ((lookIdLoop header off rounds i id nz).2.1 = true ↔ FitsUpTo header (off + (i + rounds) * 2)) := by
  induction rounds generalizing i id nz with
  | zero =>
    refine ⟨⟨fun _ => ?_, fun _ => inside_done _⟩, fun _ => h, fun _ => rfl⟩
    rintro ⟨j, hij, hj, -⟩
    omega
  | succ rounds ih =>
    have hp := hdigits (off + i * 2) (le_refl _) (by omega)
    have hp' := hdigits (off + i * 2 + 1) (by omega) (by omega)
    have hlast : off + i * 2 + 2 ≤ off + (i + (rounds + 1)) * 2 := by omega
    have hle := h.le_length
    have hfirst := fitsUpTo_succ h
    rw [fits_digit hp.1 hp.2.1 hp.2.2] at hfirst
    rw [lookIdLoop, inside_look, inside_look, look_result, look_result]
    cases hhi : hexValue (header.byteAt (off + i * 2)) with
    | none =>
      -- the first digit is missing: this is where the header may end
      rw [hhi] at hfirst
      have hstop {m : ℕ} (hm : off + i * 2 < m) : ¬FitsUpTo header m := fun hup =>
        absurd (hfirst.1 (hup.mono hm)) Bool.false_ne_true
      refine ⟨⟨?_, fun hnot => ⟨hle, ?_, inside_done _⟩⟩, fun hfalse => absurd hfalse Bool.false_ne_true,
        fun hup => absurd hup (hstop (by omega))⟩
      · rintro ⟨-, hin, -⟩ ⟨j, -, -, -, hup⟩
        exact hstop hin hup
      · by_contra hout
        have hlen : header.bytes.length = off + i * 2 := by omega
        exact hnot ⟨i, le_refl _, by omega, hlen, hlen ▸ h⟩
    | some hi =>
      rw [hhi] at hfirst
      have hup := hfirst.2 rfl
      have hle' := hup.le_length
      have hsecond := fitsUpTo_succ hup
      rw [fits_digit hp'.1 hp'.2.1 hp'.2.2] at hsecond
      cases hlo : hexValue (header.byteAt (off + i * 2 + 1)) with
      | none =>
        rw [hlo] at hsecond
        have hstop {m : ℕ} (hm : off + i * 2 + 1 < m) : ¬FitsUpTo header m := fun hup =>
          absurd (hsecond.1 (hup.mono hm)) Bool.false_ne_true
        refine ⟨⟨?_, fun _ => ⟨hle, hle', inside_done _⟩⟩, fun hfalse => absurd hfalse Bool.false_ne_true,
          fun hup => absurd hup (hstop (by omega))⟩
        rintro - ⟨j, -, -, hlen, hup⟩
        exact hstop (by omega) hup
      | some lo =>
        rw [hlo] at hsecond
        have hnext : off + (i + 1) * 2 = off + i * 2 + 1 + 1 := by omega
        have hup' : FitsUpTo header (off + (i + 1) * 2) := hnext ▸ hsecond.2 rfl
        have hle'' := hup'.le_length
        obtain ⟨hinside, hresult⟩ := @ih (i + 1) (id.setIfInBounds i (UInt8.ofNat (hi <<< 4 ||| lo)))
          (nz || UInt8.ofNat (hi <<< 4 ||| lo) != 0)
          (fun p hlow hhigh => hdigits p (by omega) (by omega)) hup'
        have hend : i + 1 + rounds = i + (rounds + 1) := by omega
        rw [hend] at hinside hresult
        refine ⟨⟨?_, fun hnot => ⟨hle, hle', hinside.2 ?_⟩⟩, hresult⟩
        · rintro ⟨-, -, hin⟩ ⟨j, -, hj, hlen, hfit⟩
          exact hinside.1 hin ⟨j, by omega, hj, hlen, hfit⟩
        · rintro ⟨j, hij, hj, hlen, hfit⟩
          exact hnot ⟨j, by omega, hj, hlen, hfit⟩

/-! ### The stages -/

variable {traceId : TraceId} {spanId : SpanId} {flags : UInt8} {traceNz spanNz : Bool}

/-- Behind the flags every index that is read has been read, or comes next. -/
theorem inside_lookVersion (h : FitsUpTo header 55) :
    Inside header (lookVersion header traceId spanId flags) := by
  have hle := h.le_length
  rw [lookVersion, inside_look, inside_look]
  refine ⟨by omega, by omega, ?_⟩
  dsimp only
  split_ifs
  · exact inside_done _
  · rw [inside_look]
    refine ⟨hle, ?_⟩
    split_ifs
    · exact inside_done _
    · exact inside_done _
  · exact inside_done _

theorem fits_dash {c : UInt8} (i : ℕ) (hi : i = 2 ∨ i = 35 ∨ i = 52) : fits i c = true ↔ c = dash := by
  unfold fits
  rw [if_pos (by simpa [or_assoc] using hi), beq_iff_eq]

theorem inside_lookFlags (h : FitsUpTo header 52) :
    Inside header (lookFlags header traceId traceNz spanId spanNz flags) ↔
      ¬(header.bytes.length = 53 ∧ FitsUpTo header header.bytes.length) := by
  have hle := h.le_length
  have hdash := fitsUpTo_succ h
  rw [fits_dash 52 (.inr (.inr rfl))] at hdash
  rw [lookFlags, inside_look]
  by_cases hc : header.byteAt 52 = dash
  · have h53 := hdash.2 hc
    have hle53 := h53.le_length
    have hfirst := fitsUpTo_succ h53
    rw [fits_digit (by decide) (by decide) (by decide)] at hfirst
    rw [if_neg (by simpa using hc), inside_look, inside_look]
    refine ⟨?_, fun hnot => ?_⟩
    · rintro ⟨-, -, hin, -⟩ ⟨hlen, -⟩
      omega
    · have hne : header.bytes.length ≠ 53 := fun hlen => hnot ⟨hlen, hlen ▸ h53⟩
      refine ⟨hle, hle53, by omega, ?_⟩
      cases hhi : hexValue (header.byteAt 53) with
      | none => exact inside_done _
      | some hi =>
        rw [hhi] at hfirst
        have hsecond := fitsUpTo_succ (hfirst.2 rfl)
        rw [fits_digit (by decide) (by decide) (by decide)] at hsecond
        cases hlo : hexValue (header.byteAt 54) with
        | none => exact inside_done _
        | some lo =>
          rw [hlo] at hsecond
          dsimp only
          split_ifs
          · exact inside_done _
          · exact inside_lookVersion (hsecond.2 rfl)
  · rw [if_pos (by simpa using hc)]
    refine ⟨?_, fun _ => ⟨hle, inside_done _⟩⟩
    rintro - ⟨hlen, hup⟩
    exact hc (hdash.1 (hup.mono (by omega)))

theorem inside_lookSpan (h : FitsUpTo header 35) :
    Inside header (lookSpan header traceId traceNz spanId flags) ↔
      ¬(36 ≤ header.bytes.length ∧ CutBeforePair header) := by
  have hle := h.le_length
  have hdash := fitsUpTo_succ h
  rw [fits_dash 35 (.inr (.inl rfl))] at hdash
  rw [lookSpan, inside_look]
  by_cases hc : header.byteAt 35 = dash
  · obtain ⟨hloop, hresult⟩ := @inside_lookIdLoop header _ 36 8 0 spanId false (fun p _ _ => by omega) (hdash.2 hc)
    rw [if_neg (by simpa using hc), inside_andThen, hloop]
    generalize (lookIdLoop header 36 8 0 spanId false).2 = r at hresult ⊢
    obtain ⟨ok, spanId', nz⟩ := r
    cases ok with
    | false =>
      have hstop : ¬FitsUpTo header 52 := fun hup => absurd (hresult.2 hup) Bool.false_ne_true
      constructor
      · rintro ⟨-, hnot, -⟩ ⟨hlen, hbegins, hup⟩
        rcases hbegins with ⟨-, hlt, -⟩ | ⟨hge, hlt, heven⟩ | heq
        · omega
        · exact hnot ⟨(header.bytes.length - 36) / 2, by omega, by omega, by omega, hup⟩
        · exact hstop (hup.mono (by omega))
      · intro hnot
        refine ⟨hle, ?_, inside_done _⟩
        rintro ⟨j, -, hj, hlen, hup⟩
        exact hnot ⟨by omega, .inr (.inl ⟨by omega, by omega, by omega⟩), hup⟩
    | true =>
      have h52 : FitsUpTo header 52 := hresult.1 rfl
      have hle52 := h52.le_length
      dsimp only
      rw [inside_lookFlags h52]
      constructor
      · rintro ⟨-, -, hnot⟩ ⟨-, hbegins, hup⟩
        rcases hbegins with ⟨-, hlt, -⟩ | ⟨-, hlt, -⟩ | heq
        · omega
        · omega
        · exact hnot ⟨heq, hup⟩
      · intro hnot
        refine ⟨hle, ?_, ?_⟩
        · rintro ⟨j, -, hj, hlen, -⟩
          omega
        · rintro ⟨heq, hup⟩
          exact hnot ⟨by omega, .inr (.inr heq), hup⟩
  · rw [if_pos (by simpa using hc)]
    refine ⟨?_, fun _ => ⟨hle, inside_done _⟩⟩
    rintro - ⟨hlen, -, hup⟩
    exact hc (hdash.1 (hup.mono hlen))

/-- **The parser stays in the string exactly when the header is not cut before a pair of digits.** -/
theorem reads_inside_iff (header : CString) (traceId : TraceId) (spanId : SpanId) (flags : UInt8) :
    Inside header (lookFields header traceId spanId flags) ↔ ¬CutBeforePair header := by
  have h₀ : FitsUpTo header 0 := fun i hi => absurd hi (Nat.not_lt_zero i)
  -- a header that is cut before a pair fits at all positions of the version
  have hversion {n : ℕ} (hn : n ≤ 3) (hcut : CutBeforePair header) : FitsUpTo header n := by
    obtain ⟨hbegins, hup⟩ := hcut
    refine hup.mono (hn.trans ?_)
    rcases hbegins with ⟨hge, -⟩ | ⟨hge, -⟩ | heq <;> omega
  have hfirst := fitsUpTo_succ h₀
  rw [fits_digit (by decide) (by decide) (by decide)] at hfirst
  rw [lookFields, inside_look]
  cases hv₀ : hexValue (header.byteAt 0) with
  | none =>
    rw [hv₀] at hfirst
    refine ⟨fun _ hcut => absurd (hfirst.1 (hversion (by decide) hcut)) Bool.false_ne_true, fun _ =>
      ⟨Nat.zero_le _, inside_done _⟩⟩
  | some hi =>
    rw [hv₀] at hfirst
    have h₁ := hfirst.2 rfl
    have hsecond := fitsUpTo_succ h₁
    rw [fits_digit (by decide) (by decide) (by decide)] at hsecond
    dsimp only
    rw [inside_look]
    cases hv₁ : hexValue (header.byteAt 1) with
    | none =>
      rw [hv₁] at hsecond
      refine ⟨fun _ hcut => absurd (hsecond.1 (hversion (by decide) hcut)) Bool.false_ne_true, fun _ =>
        ⟨Nat.zero_le _, h₁.le_length, inside_done _⟩⟩
    | some lo =>
      rw [hv₁] at hsecond
      have h₂ := hsecond.2 rfl
      have hdash := fitsUpTo_succ h₂
      rw [fits_dash 2 (.inl rfl)] at hdash
      dsimp only
      rw [inside_look]
      by_cases hc : header.byteAt 2 = dash
      · have h₃ := hdash.2 hc
        obtain ⟨hloop, hresult⟩ := @inside_lookIdLoop header _ 3 16 0 traceId false (fun p _ _ => by omega) h₃
        rw [if_neg (by simpa using hc), inside_andThen, hloop]
        generalize (lookIdLoop header 3 16 0 traceId false).2 = r at hresult ⊢
        obtain ⟨ok, traceId', nz⟩ := r
        have hle : 2 ≤ header.bytes.length := h₂.le_length
        cases ok with
        | false =>
          have hstop : ¬FitsUpTo header 35 := fun hup => absurd (hresult.2 hup) Bool.false_ne_true
          constructor
          · rintro ⟨-, -, -, hnot, -⟩ ⟨hbegins, hup⟩
            rcases hbegins with ⟨hge, hlt, hodd⟩ | ⟨hge, -⟩ | heq
            · exact hnot ⟨(header.bytes.length - 3) / 2, by omega, by omega, by omega, hup⟩
            · exact hstop (hup.mono (by omega))
            · exact hstop (hup.mono (by omega))
          · intro hnot
            refine ⟨Nat.zero_le _, h₁.le_length, hle, ?_, inside_done _⟩
            rintro ⟨j, -, hj, hlen, hup⟩
            exact hnot ⟨.inl ⟨by omega, by omega, by omega⟩, hup⟩
        | true =>
          have h35 : FitsUpTo header 35 := hresult.1 rfl
          have hle35 := h35.le_length
          dsimp only
          rw [inside_lookSpan h35]
          constructor
          · rintro ⟨-, -, -, -, hnot⟩ hcut
            refine hnot ⟨?_, hcut⟩
            rcases hcut.1 with ⟨-, hlt, -⟩ | ⟨hge, -⟩ | heq <;> omega
          · intro hnot
            refine ⟨Nat.zero_le _, h₁.le_length, hle, ?_, fun hcut => hnot hcut.2⟩
            rintro ⟨j, -, hj, hlen, -⟩
            omega
      · rw [if_pos (by simpa using hc)]
        refine ⟨fun _ hcut => hc (hdash.1 (hversion (le_refl _) hcut)), fun _ =>
          ⟨Nat.zero_le _, h₁.le_length, h₂.le_length, inside_done _⟩⟩

/-- A header of a version and nothing else. -/
def cutHeader : CString where
  bytes := [0x30, 0x30, dash]
  no_nul := by decide

/-- The byte behind the NUL is read for the second digit of a trace id that is not there. -/
theorem cut_read_beyond : ¬∀ header traceId spanId flags, Inside header (lookFields header traceId spanId flags) := by
  intro h
  exact absurd (h cutHeader 0 0 0 4 (by decide +kernel)) (by decide)

end OtlpC.Context
