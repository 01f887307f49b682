import OtlpC.Http.HeaderLines
import OtlpC.Http.Stability

/-!
# Which framing is accepted

What the framing lines of an accepted response say about its body, read as the lines between the CRLF of the
header block. The scan rejects what contradicts itself and a coding that is not `chunked` where no line says
`chunked`, but takes any text behind the digits of a `Content-Length`, any coding beside a line that says `chunked`,
and does not look at a line that hides behind two CR. Nothing else goes wrong (`framed_iff`).
-/

namespace OtlpC.Http

open Numerals Occurrence SkipScan

def blockLines (head : Bytes) : List Bytes := (splitPair cr lf head).tail

def crlfLine (head : Bytes) (p : ℕ) : Bytes := (splitPair cr lf (head.drop p)).headD []

def isContentLength (line : Bytes) : Bool := startsWithCi line (ascii "Content-Length:")
def isTransferEncoding (line : Bytes) : Bool := startsWithCi line (ascii "Transfer-Encoding:")

def decimalNumber (digits : Bytes) : ℕ := digits.foldl (fun n c => n * 10 + digitValue c) 0

/-- The value is digits with nothing but spaces around them, and they denote `n`. -/
def Denotes (value : Bytes) (n : ℕ) : Prop :=
  ∃ before digits after, value = List.replicate before space ++ digits ++ List.replicate after space ∧
    digits ≠ [] ∧ numeral decimalDigits 10 0 digits = some n

def IsChunked (value : Bytes) : Prop :=
  (skipSpaces value).length = 7 ∧ startsWithCi (skipSpaces value) (ascii "chunked") = true

/-- The framing lines agree: not both kinds, every coding is `chunked`, and every length is the length of the
body. -/
structure Framed (head : Bytes) (bodyLen : ℕ) : Prop where
  exclusive : ¬((∃ w ∈ blockLines head, isContentLength w) ∧ ∃ w ∈ blockLines head, isTransferEncoding w)
  chunked : ∀ w ∈ blockLines head, isTransferEncoding w → IsChunked (w.drop 18)
  length : ∀ w ∈ blockLines head, isContentLength w → Denotes (w.drop 15) bodyLen ∧ bodyLen ≤ otlpHttpRespMax

instance (value : Bytes) : Decidable (IsChunked value) := inferInstanceAs (Decidable (_ ∧ _))

theorem decide_isChunked (value : Bytes) : decide (IsChunked value) =
    ((skipSpaces value).length == 7 && startsWithCi (skipSpaces value) (ascii "chunked")) := by
  rw [Bool.eq_iff_iff, decide_eq_true_iff, IsChunked, Bool.and_eq_true, beq_iff_eq]

def headBlock (buf : Bytes) : Bytes := (findSubstring buf crlfcrlf).elim [] fun i => buf.take (i + 4)

/-- The lines that the scan looks at, each up to its first CR. -/
def scannedLines (head : Bytes) : List Bytes := (lineStarts head).map (lineAt head)

/-- A line of the block starts at `p`, and the scan looks at it. -/
def Visible (head : Bytes) (p : ℕ) : Prop := AfterCrlf head p ∧ p ∈ lineStarts head

/-- A line of the block starts at `p`, and the scan does not look at it. -/
def Hidden (head : Bytes) (p : ℕ) : Prop := AfterCrlf head p ∧ p ∉ lineStarts head

def leadingDigits (value : Bytes) : Bytes := (skipSpaces value).takeWhile isDigit

/-- There are no digits where the number of a value should stand, or there is other text than spaces behind them. -/
def strayText (value : Bytes) : Bool :=
  (leadingDigits value).isEmpty || ((skipSpaces value).dropWhile isDigit).any (· != space)

def lineLength (line : Bytes) : ℕ := decimalNumber (leadingDigits (line.drop 15))

def isChunkedCoding (line : Bytes) : Bool := isTransferEncoding line && decide (IsChunked (line.drop 18))

/-- The framing that some lines say: the first length among them, else chunks where one names a coding, else all
that is left. -/
def framingOf (lines : List Bytes) : Framing :=
  match lines.find? isContentLength with
  | some line => .length (lineLength line)
  | none => if lines.any isTransferEncoding then .chunked else .untilEof

/-- How many bytes the lines that the scan looks at give the body. -/
def framedLength (buf : Bytes) : ℕ :=
  (framingOf (scannedLines (headBlock buf))).bodyLen (buf.drop (headBlock buf).length)

/-- What the scan does not see to: no length that it looks at has text beside its digits, no other coding stands
beside one that it takes for `chunked`, and a framing line that it does not look at says what the others say. -/
structure FramingClean (buf : Bytes) : Prop where
  noStray : ∀ p, Visible (headBlock buf) p → isContentLength (crlfLine (headBlock buf) p) →
    strayText ((crlfLine (headBlock buf) p).drop 15) = false
  noMixed : ∀ w ∈ scannedLines (headBlock buf), isChunkedCoding w → ∀ p, Visible (headBlock buf) p →
    isTransferEncoding (crlfLine (headBlock buf) p) → IsChunked ((crlfLine (headBlock buf) p).drop 18)
  hiddenLength : ∀ p, Hidden (headBlock buf) p → isContentLength (crlfLine (headBlock buf) p) →
    Denotes ((crlfLine (headBlock buf) p).drop 15) (framedLength buf) ∧ framedLength buf ≤ otlpHttpRespMax ∧
      ∀ w ∈ blockLines (headBlock buf), ¬isTransferEncoding w
  hiddenCoding : ∀ p, Hidden (headBlock buf) p → isTransferEncoding (crlfLine (headBlock buf) p) →
    IsChunked ((crlfLine (headBlock buf) p).drop 18) ∧ ∀ w ∈ blockLines (headBlock buf), ¬isContentLength w

/-! ### Values -/

theorem contentLengthLoop_eq {val n : ℕ} {v : Bytes} (h : contentLengthLoop val v = some n) :
    n = (v.takeWhile isDigit).foldl (fun n c => n * 10 + digitValue c) val ∧
      (val ≤ otlpHttpRespMax → n ≤ otlpHttpRespMax) := by
  induction v generalizing val with
  | nil =>
    rw [contentLengthLoop, Option.some.injEq] at h
    exact ⟨h.symm, fun hval => h ▸ hval⟩
  | cons c v ih =>
    rw [contentLengthLoop] at h
    by_cases hc : isDigit c = true
    · rw [if_neg (by simpa using hc)] at h
      split at h
      · contradiction
      next hsmall =>
        obtain ⟨heq, hmax⟩ := ih h
        rw [List.takeWhile_cons, if_pos hc, List.foldl_cons]
        exact ⟨heq, fun _ => hmax (Nat.not_lt.1 hsmall)⟩
    · rw [if_pos (by simpa using hc), Option.some.injEq] at h
      rw [List.takeWhile_cons, if_neg hc]
      exact ⟨h.symm, fun hval => h ▸ hval⟩

theorem skipSpaces_replicate (n : ℕ) (v : Bytes) : skipSpaces (List.replicate n space ++ v) = skipSpaces v := by
  rw [skipSpaces, skipSpaces, List.dropWhile_append, List.dropWhile_replicate]
  simp

theorem numeral_eq_some_iff {digits : Bytes} {n : ℕ} : numeral decimalDigits 10 0 digits = some n ↔
    (∀ c ∈ digits, isDigit c = true) ∧ decimalNumber digits = n :=
  numeral_eq_some valueOf_decimalDigits

theorem isDigit_space : isDigit space = false := by decide

/-- A value without stray text is its digits, with spaces around them. -/
theorem denotes_of_strayText {value : Bytes} (h : strayText value = false) :
    Denotes value (decimalNumber (leadingDigits value)) := by
  rw [strayText, Bool.or_eq_false_iff, List.isEmpty_eq_false_iff, List.any_eq_false] at h
  obtain ⟨hne, hrest⟩ := h
  have hspaces : ∀ l : Bytes, (∀ c ∈ l, (c == space) = true) → l = List.replicate l.length space :=
    fun l hl => List.eq_replicate_of_mem fun c hc => beq_iff_eq.1 (hl c hc)
  have hbefore := hspaces (value.takeWhile (· == space)) fun c => List.mem_takeWhile_imp
  have hafter := hspaces ((skipSpaces value).dropWhile isDigit) fun c hc => by simpa using hrest c hc
  have hdigits : ∀ c ∈ leadingDigits value, isDigit c = true := fun c => List.mem_takeWhile_imp
  refine ⟨(value.takeWhile (· == space)).length, leadingDigits value,
    ((skipSpaces value).dropWhile isDigit).length, ?_, hne, numeral_eq_some_iff.2 ⟨hdigits, rfl⟩⟩
  rw [← hbefore, ← hafter, List.append_assoc, leadingDigits, List.takeWhile_append_dropWhile, skipSpaces,
    List.takeWhile_append_dropWhile]

theorem Denotes.strayText {value : Bytes} {n : ℕ} (h : Denotes value n) : strayText value = false := by
  obtain ⟨before, digits, after, rfl, hne, hnumeral⟩ := h
  have hdigits := (numeral_eq_some_iff.1 hnumeral).1
  have hskip : skipSpaces (List.replicate before space ++ digits ++ List.replicate after space) =
      digits ++ List.replicate after space := by
    rw [List.append_assoc, skipSpaces_replicate]
    obtain ⟨c, digits, rfl⟩ := List.exists_cons_of_ne_nil hne
    have hc : ¬(c == space) = true := by
      intro heq
      have hdigit := hdigits c List.mem_cons_self
      rw [beq_iff_eq.1 heq, isDigit_space] at hdigit
      contradiction
    rw [skipSpaces, List.cons_append, List.dropWhile_cons, if_neg hc]
  have htake : (digits ++ List.replicate after space).takeWhile isDigit = digits := by
    rw [List.takeWhile_append, List.takeWhile_eq_self_iff.2 hdigits, if_pos rfl, List.takeWhile_replicate,
      isDigit_space]
    simp
  have hdrop : (digits ++ List.replicate after space).dropWhile isDigit = List.replicate after space := by
    rw [List.dropWhile_append, List.dropWhile_eq_nil_iff.2 hdigits, List.dropWhile_replicate, isDigit_space]
    simp
  rw [OtlpC.Http.strayText, leadingDigits, hskip, htake, hdrop]
  simp [hne]

theorem strayText_of_cr {value : Bytes} (h : cr ∈ value) : strayText value = true := by
  rw [← Bool.not_eq_false]
  intro hclean
  obtain ⟨before, digits, after, hvalue, -, hnumeral⟩ := denotes_of_strayText hclean
  have hspace : cr ≠ space := by decide
  rw [hvalue] at h
  simp only [List.mem_append, List.mem_replicate, hspace, and_false, false_or, or_false] at h
  exact absurd ((numeral_eq_some_iff.1 hnumeral).1 cr h) (by decide)

theorem cr_notMem_of_map {s name : Bytes} (hname : cr ∉ name.map toLower)
    (h : s.map toLower = name.map toLower) : cr ∉ s :=
  fun hmem => hname (h ▸ List.mem_map.2 ⟨cr, hmem, rfl⟩)

/-! ### Lines -/

section Lines

variable {head name w : Bytes} {p : ℕ}

theorem mem_blockLines : w ∈ blockLines head ↔ ∃ p, AfterCrlf head p ∧ crlfLine head p = w := by
  have hcrlf : cr ≠ lf := by decide
  have hline : ∀ p, (splitPair cr lf (head.drop p)).head? = some (crlfLine head p) := by
    intro p
    obtain ⟨v, vs, hv⟩ := List.exists_cons_of_ne_nil (splitPair_ne_nil cr lf (head.drop p))
    rw [crlfLine, hv]
    rfl
  rw [blockLines, mem_tail_splitPair hcrlf]
  constructor
  · rintro ⟨e, hocc, hhead⟩
    rw [hline, Option.some.injEq] at hhead
    exact ⟨e + 2, ⟨e, rfl, hocc⟩, hhead⟩
  · rintro ⟨p, ⟨e, rfl, hocc⟩, hw⟩
    exact ⟨e, hocc, by rw [hline, hw]⟩

theorem lineAt_eq_takeWhile (head : Bytes) (p : ℕ) : lineAt head p = (crlfLine head p).takeWhile (· != cr) := by
  have hhead : (splitPair cr lf (head.drop p)).head? = some (crlfLine head p) := by
    obtain ⟨v, vs, hv⟩ := List.exists_cons_of_ne_nil (splitPair_ne_nil cr lf (head.drop p))
    rw [crlfLine, hv]
    rfl
  rw [lineAt]
  obtain heq | ⟨s, hs⟩ := splitPair_head hhead
  · rw [heq]
  · rw [hs, List.takeWhile_append]
    split
    · next hall =>
      have hself := (List.takeWhile_prefix (· != cr)).eq_of_length hall
      rw [hself]
      simp
    · rfl

theorem lineAt_eq_crlfLine (h : cr ∉ crlfLine head p) : lineAt head p = crlfLine head p := by
  rw [lineAt_eq_takeWhile]
  exact List.takeWhile_eq_self_iff.2 fun z hz => bne_iff_ne.2 fun hcr => h (hcr ▸ hz)

/-- The scan sees which field a line is. -/
theorem startsWithCi_lineAt (field : ScanField) :
    startsWithCi (lineAt head p) field.name = startsWithCi (crlfLine head p) field.name := by
  rw [lineAt_eq_takeWhile]
  exact startsWithCi_takeWhile (fieldName_ok field.name_mem).1 _

theorem cr_notMem_of_value (hname : cr ∉ name.map toLower) (hstarts : startsWithCi w name = true)
    (hvalue : cr ∉ w.drop name.length) : cr ∉ w := by
  rw [startsWithCi, beq_iff_eq] at hstarts
  intro hmem
  rw [← List.take_append_drop name.length w, List.mem_append] at hmem
  exact hmem.elim (cr_notMem_of_map hname hstarts) hvalue

/-! ### What the scan finds -/

/-- What a line that is handled was: a field that did what such a field does, or no field. -/
theorem headerLine_cases {s s' : HeaderScan} (h : headerLine s w = some s') :
    (∃ field : ScanField, startsWithCi w field.name = true ∧ field.act s (w.drop field.name.length) = some s' ∧
      ∀ other : ScanField, other ≠ field → startsWithCi w other.name = false) ∨
    (∀ field : ScanField, startsWithCi w field.name = false) ∧ s' = s := by
  by_cases hfield : ∃ field : ScanField, startsWithCi w field.name = true
  · obtain ⟨field, hnamed⟩ := hfield
    refine .inl ⟨field, hnamed, (headerLine_field hnamed s).symm.trans h, fun other hne => ?_⟩
    rw [← Bool.not_eq_true]
    exact fun hother => hne (ScanField.eq_of_startsWithCi hnamed hother)
  · have hnone : ∀ field : ScanField, ¬startsWithCi w field.name = true :=
      fun field hnamed => hfield ⟨field, hnamed⟩
    rw [headerLine_other hnone, Option.some.injEq] at h
    exact .inr ⟨fun field => Bool.eq_false_iff.2 (hnone field), h.symm⟩

/-- What a scan that went from `s` to `s'` has found in the lines between. -/
structure Found (lines : List Bytes) (s s' : HeaderScan) : Prop where
  length_eq : s'.contentLength = s.contentLength.or ((lines.find? isContentLength).map lineLength)
  length_same : ∀ w ∈ lines, isContentLength w →
    s'.contentLength = some (lineLength w) ∧ lineLength w ≤ otlpHttpRespMax
  teSeen_eq : s'.teSeen = (s.teSeen || lines.any isTransferEncoding)
  teChunked_eq : s'.teChunked = (s.teChunked || lines.any isChunkedCoding)

theorem Found.nil (s : HeaderScan) : Found [] s s where
  length_eq := by simp
  length_same := by simp
  teSeen_eq := by simp
  teChunked_eq := by simp

theorem Found.of_other {s s' : HeaderScan} (hlength : isContentLength w = false)
    (hcoding : isTransferEncoding w = false) (hkept : s'.contentLength = s.contentLength)
    (hte : s'.teSeen = s.teSeen) (hchunked : s'.teChunked = s.teChunked) : Found [w] s s' where
  length_eq := by rw [List.find?_singleton, hlength, hkept]; simp
  length_same := by simp [hlength]
  teSeen_eq := by rw [List.any_cons, hcoding, hte]; simp
  teChunked_eq := by rw [List.any_cons, isChunkedCoding, hcoding, hchunked]; simp

/-- What one line adds. -/
theorem headerLine_found {s s' : HeaderScan} (h : headerLine s w = some s') : Found [w] s s' := by
  obtain ⟨field, hnamed, hact, hothers⟩ | ⟨hnone, rfl⟩ := headerLine_cases h
  · cases field with
    | contentLength =>
      have hlength : isContentLength w = true := hnamed
      have hcoding : isTransferEncoding w = false := hothers .transferEncoding (by decide)
      rw [ScanField.act] at hact
      split at hact
      · contradiction
      next val hval =>
      obtain ⟨hnumber, hmax⟩ := contentLengthLoop_eq hval
      have heq : lineLength w = val := hnumber.symm
      have hle : val ≤ otlpHttpRespMax := hmax (Nat.zero_le _)
      split at hact
      · contradiction
      next hsame =>
      rw [Option.some.injEq] at hact
      subst hact
      refine ⟨?_, ?_, ?_, ?_⟩
      · rw [List.find?_singleton, hlength, if_pos rfl, Option.map_some, heq]
        cases hkept : s.contentLength with
        | none => rfl
        | some n =>
          simp only [hkept, Option.isSome_some, Bool.true_and, bne_iff_ne, ne_eq, Option.some.injEq, not_not] at hsame
          rw [hsame]
          rfl
      · intro w' hw'
        rw [List.mem_singleton.1 hw', heq]
        exact fun _ => ⟨rfl, hle⟩
      · rw [List.any_cons, hcoding]
        simp
      · rw [List.any_cons, isChunkedCoding, hcoding]
        simp
    | transferEncoding =>
      have hcoding : isTransferEncoding w = true := hnamed
      have hlength : isContentLength w = false := hothers .contentLength (by decide)
      rw [ScanField.act, Option.some.injEq] at hact
      subst hact
      have hdrop : ScanField.transferEncoding.name.length = 18 := by decide
      refine ⟨?_, ?_, ?_, ?_⟩
      · rw [List.find?_singleton, hlength]
        simp
      · simp [hlength]
      · rw [List.any_cons, hcoding]
        simp
      · rw [List.any_cons, isChunkedCoding, hcoding, hdrop, decide_isChunked]
        simp
    | retryAfter =>
      rw [ScanField.act, Option.some.injEq] at hact
      subst hact
      exact .of_other (hothers .contentLength (by decide)) (hothers .transferEncoding (by decide)) rfl rfl rfl
    | connection =>
      have hkept : s'.contentLength = s.contentLength ∧ s'.teSeen = s.teSeen ∧ s'.teChunked = s.teChunked := by
        rw [ScanField.act] at hact
        split at hact
        · rw [Option.some.injEq] at hact
          subst hact
          exact ⟨rfl, rfl, rfl⟩
        split at hact <;> rw [Option.some.injEq] at hact <;> subst hact <;> exact ⟨rfl, rfl, rfl⟩
      exact .of_other (hothers .contentLength (by decide)) (hothers .transferEncoding (by decide)) hkept.1 hkept.2.1
        hkept.2.2
  · exact .of_other (hnone .contentLength) (hnone .transferEncoding) rfl rfl rfl

theorem Found.cons {lines : List Bytes} {s t s' : HeaderScan} (h : Found [w] s t) (hrest : Found lines t s') :
    Found (w :: lines) s s' where
  length_eq := by
    rw [hrest.length_eq, h.length_eq, Option.or_assoc, List.find?_singleton, List.find?_cons]
    cases isContentLength w <;> rfl
  length_same := by
    intro w' hw' hlength
    rcases List.mem_cons.1 hw' with rfl | hw'
    · obtain ⟨hkept, hle⟩ := h.length_same w' List.mem_cons_self hlength
      rw [hrest.length_eq, hkept]
      exact ⟨rfl, hle⟩
    · exact hrest.length_same w' hw' hlength
  teSeen_eq := by
    rw [hrest.teSeen_eq, h.teSeen_eq, List.any_cons, List.any_cons, List.any_nil, Bool.or_false, Bool.or_assoc]
  teChunked_eq := by
    rw [hrest.teChunked_eq, h.teChunked_eq, List.any_cons, List.any_cons, List.any_nil, Bool.or_false, Bool.or_assoc]

/-- **What a scan that ends has found.** -/
theorem foldlM_found {ps : List ℕ} {s s' : HeaderScan}
    (h : ps.foldlM (fun s p => headerLine s (lineAt head p)) s = some s') : Found (ps.map (lineAt head)) s s' := by
  induction ps generalizing s with
  | nil =>
    rw [List.foldlM_nil, Option.pure_def, Option.some.injEq] at h
    subst h
    exact .nil s
  | cons p ps ih =>
    rw [List.foldlM_cons, Option.bind_eq_bind, Option.bind_eq_some_iff] at h
    obtain ⟨t, ht, hrest⟩ := h
    exact (headerLine_found ht).cons (ih hrest)

end Lines

/-! ### Accepted responses -/

section Accepted

variable {buf : Bytes} {atEof : Bool} {resp : OtlpHttpResp}

/-- The header block of an accepted response, with the scan over the lines at its line starts. -/
theorem exists_parsedHead (h : (otlpHttpRespParse buf atEof).2 = .complete resp) :
    ∃ hd bodyLen i keepalive hdr scan, resp = hd.resp bodyLen ∧
      bodyLen = hd.framing.bodyLen (buf.drop hd.bodyOff) ∧ ParsedHead buf hd i keepalive hdr scan ∧
        (lineStarts (buf.take (i + 4))).foldlM
          (fun s p => headerLine s (lineAt (buf.take (i + 4)) p)) (.start keepalive) = some scan := by
  obtain ⟨hd, bodyLen, hhead, hresp, -, hbodyLen⟩ := exists_head_of_complete h
  obtain ⟨i, keepalive, hdr, scan, hparsed⟩ := parseHead_eq_head hhead
  obtain ⟨hdr', hlines, hscan⟩ := headerScan_lines hparsed.find_eq
  have hsame : hdr' = hdr := by
    rw [hparsed.lines_eq, List.cons.injEq] at hlines
    exact hlines.2.symm
  rw [hsame] at hscan
  exact ⟨hd, bodyLen, i, keepalive, hdr, scan, hresp, hbodyLen, hparsed,
    (hscan (.start keepalive)).symm.trans hparsed.scan_eq⟩

/-- What the lines of an accepted response say to the scan: one kind of framing, `chunked` where there is a coding,
the same length each time, and the length of the body. -/
structure AcceptedLines (buf : Bytes) (resp : OtlpHttpResp) : Prop where
  headBlock_eq : buf.take resp.bodyOff = headBlock buf
  bodyLen_eq : resp.bodyLen = framedLength buf
  length : ∀ w ∈ scannedLines (headBlock buf), isContentLength w → framedLength buf = lineLength w ∧
    lineLength w ≤ otlpHttpRespMax ∧ ∀ w' ∈ scannedLines (headBlock buf), ¬isTransferEncoding w'
  coding : ∀ w ∈ scannedLines (headBlock buf), isTransferEncoding w →
    ∃ w' ∈ scannedLines (headBlock buf), isChunkedCoding w'

theorem framing_of_found {lines : List Bytes} {keepalive keepalive' : Bool} {scan : HeaderScan} {framing : Framing}
    (hfound : Found lines (.start keepalive) scan) (hframes : scan.frames framing keepalive') :
    framing = framingOf lines := by
  have hlength : scan.contentLength = (lines.find? isContentLength).map lineLength := hfound.length_eq
  have hte : scan.teSeen = lines.any isTransferEncoding := hfound.teSeen_eq
  rw [framingOf]
  cases framing with
  | chunked =>
    obtain ⟨hseen, hnone, -⟩ := hframes
    rw [hnone, eq_comm, Option.map_eq_none_iff] at hlength
    rw [hseen] at hte
    rw [hlength, ← hte]
    rfl
  | length n =>
    obtain ⟨-, hsome, -⟩ := hframes
    rw [hsome, eq_comm, Option.map_eq_some_iff] at hlength
    obtain ⟨line, hline, rfl⟩ := hlength
    rw [hline]
  | untilEof =>
    obtain ⟨hseen, hnone, -⟩ := hframes
    rw [hnone, eq_comm, Option.map_eq_none_iff] at hlength
    rw [hseen] at hte
    rw [hlength, ← hte]
    rfl

theorem acceptedLines (h : (otlpHttpRespParse buf atEof).2 = .complete resp) : AcceptedLines buf resp := by
  obtain ⟨hd, bodyLen, i, keepalive, hdr, scan, rfl, hbodyLen, hparsed, hscan⟩ := exists_parsedHead h
  have hfound : Found (scannedLines (buf.take (i + 4))) (.start keepalive) scan := foldlM_found hscan
  have hframes := hparsed.framed
  have hoff : (hd.resp bodyLen).bodyOff = i + 4 := hparsed.bodyOff_eq
  have hblock : headBlock buf = buf.take (i + 4) := by rw [headBlock, hparsed.find_eq, Option.elim_some]
  have hblockLen : (headBlock buf).length = hd.bodyOff := by
    rw [hblock, hparsed.bodyOff_eq]
    exact List.length_take_of_le (findSubstring_le (by decide) hparsed.find_eq)
  have hframing : hd.framing = framingOf (scannedLines (headBlock buf)) := by
    rw [hblock]
    exact framing_of_found hfound hframes
  have hlen : (hd.resp bodyLen).bodyLen = framedLength buf := by
    rw [framedLength, hblockLen, ← hframing, ← hbodyLen]
    rfl
  refine ⟨by rw [hoff, hblock], hlen, fun w hw hlength => ?_, fun w hw hcoding => ?_⟩
  · rw [hblock] at hw ⊢
    obtain ⟨hkept, hle⟩ := hfound.length_same w hw hlength
    -- the scan has seen a length, so that it can only have framed the body with it
    cases hcase : hd.framing with
    | chunked =>
      rw [hcase] at hframes
      exact absurd (hkept.symm.trans hframes.2.1) (by simp)
    | length m =>
      rw [hcase] at hframes hframing
      have hsame : lineLength w = m := Option.some.inj (hkept.symm.trans hframes.2.1)
      refine ⟨?_, hle, fun w' hw' hother => ?_⟩
      · rw [framedLength, ← hframing, hsame]
        rfl
      · have hseen := hfound.teSeen_eq
        rw [hframes.1, List.any_eq_true.2 ⟨w', hw', hother⟩, Bool.or_true] at hseen
        cases hseen
    | untilEof =>
      rw [hcase] at hframes
      exact absurd (hkept.symm.trans hframes.2.1) (by simp)
  · rw [hblock] at hw ⊢
    have hseen : scan.teSeen = true := by
      rw [hfound.teSeen_eq, List.any_eq_true.2 ⟨w, hw, hcoding⟩, Bool.or_true]
    cases hcase : hd.framing with
    | chunked =>
      rw [hcase] at hframes
      have hchunked := hfound.teChunked_eq
      rw [hframes.2.2.1, Bool.false_or, eq_comm, List.any_eq_true] at hchunked
      exact hchunked
    | length m =>
      rw [hcase] at hframes
      exact absurd (hseen.symm.trans hframes.1) (by simp)
    | untilEof =>
      rw [hcase] at hframes
      exact absurd (hseen.symm.trans hframes.1) (by simp)

theorem Visible.scanned {head : Bytes} {p : ℕ} (h : Visible head p) : lineAt head p ∈ scannedLines head :=
  List.mem_map.2 ⟨p, h.2, rfl⟩

/-- A clean length line that the scan looks at has the number that the scan reads. -/
theorem Visible.denotes {head : Bytes} {p : ℕ} (hlength : isContentLength (crlfLine head p) = true)
    (hclean : strayText ((crlfLine head p).drop 15) = false) :
    isContentLength (lineAt head p) = true ∧ Denotes ((crlfLine head p).drop 15) (lineLength (lineAt head p)) := by
  have hvalue : cr ∉ (crlfLine head p).drop 15 := by
    intro hcr
    rw [strayText_of_cr hcr] at hclean
    cases hclean
  have hname : cr ∉ ScanField.contentLength.name.map toLower := by decide
  have hsame : lineAt head p = crlfLine head p := lineAt_eq_crlfLine (cr_notMem_of_value hname hlength hvalue)
  rw [hsame]
  exact ⟨hlength, denotes_of_strayText hclean⟩

/-- **Ambiguous framing is rejected**, apart from what the scan does not see to: the framing lines of an accepted
response agree exactly when no length has text beside its digits, no other coding stands beside `chunked`, and the
lines that the scan does not look at say what the others say. -/
theorem framed_iff (h : (otlpHttpRespParse buf atEof).2 = .complete resp) :
    Framed (buf.take resp.bodyOff) resp.bodyLen ↔ FramingClean buf := by
  have hlines := acceptedLines h
  rw [hlines.headBlock_eq, hlines.bodyLen_eq]
  have hlengths := hlines.length
  have hcodings := hlines.coding
  constructor
  · intro hframed
    have hmem : ∀ p, AfterCrlf (headBlock buf) p → crlfLine (headBlock buf) p ∈ blockLines (headBlock buf) :=
      fun p hp => mem_blockLines.2 ⟨p, hp, rfl⟩
    refine ⟨fun p hp hlength => ?_, fun w _ _ p hp hcoding => ?_, fun p hp hlength => ?_, fun p hp hcoding => ?_⟩
    · exact (hframed.length _ (hmem p hp.1) hlength).1.strayText
    · exact hframed.chunked _ (hmem p hp.1) hcoding
    · obtain ⟨hdenotes, hmax⟩ := hframed.length _ (hmem p hp.1) hlength
      exact ⟨hdenotes, hmax, fun w hw hcoding => hframed.exclusive ⟨⟨_, hmem p hp.1, hlength⟩, w, hw, hcoding⟩⟩
    · exact ⟨hframed.chunked _ (hmem p hp.1) hcoding,
        fun w hw hlength => hframed.exclusive ⟨⟨w, hw, hlength⟩, _, hmem p hp.1, hcoding⟩⟩
  · intro hclean
    have hseen : ∀ p, AfterCrlf (headBlock buf) p → Visible (headBlock buf) p ∨ Hidden (headBlock buf) p := by
      intro p hp
      by_cases hstart : p ∈ lineStarts (headBlock buf)
      · exact .inl ⟨hp, hstart⟩
      · exact .inr ⟨hp, hstart⟩
    have hcodingAt : ∀ p, isTransferEncoding (crlfLine (headBlock buf) p) = true →
        isTransferEncoding (lineAt (headBlock buf) p) = true := by
      intro p hcoding
      exact (startsWithCi_lineAt .transferEncoding).trans hcoding
    refine ⟨?_, fun w hw hcoding => ?_, fun w hw hlength => ?_⟩
    · rintro ⟨⟨w, hw, hlength⟩, w', hw', hcoding⟩
      obtain ⟨p, hp, rfl⟩ := mem_blockLines.1 hw
      obtain ⟨q, hq, rfl⟩ := mem_blockLines.1 hw'
      rcases hseen p hp with hvisible | hhidden
      · rcases hseen q hq with hvisible' | hhidden'
        · -- the scan has seen both lines, and would have rejected them
          obtain ⟨hat, -⟩ := Visible.denotes hlength (hclean.noStray p hvisible hlength)
          exact (hlengths _ hvisible.scanned hat).2.2 _ hvisible'.scanned (hcodingAt q hcoding)
        · exact (hclean.hiddenCoding q hhidden' hcoding).2 _ hw hlength
      · exact (hclean.hiddenLength p hhidden hlength).2.2 _ hw' hcoding
    · obtain ⟨p, hp, rfl⟩ := mem_blockLines.1 hw
      rcases hseen p hp with hvisible | hhidden
      · -- some line says `chunked`, or the scan would have rejected this one
        obtain ⟨w', hw', hchunked⟩ := hcodings _ hvisible.scanned (hcodingAt p hcoding)
        exact hclean.noMixed w' hw' hchunked p hvisible hcoding
      · exact (hclean.hiddenCoding p hhidden hcoding).1
    · obtain ⟨p, hp, rfl⟩ := mem_blockLines.1 hw
      rcases hseen p hp with hvisible | hhidden
      · obtain ⟨hat, hdenotes⟩ := Visible.denotes hlength (hclean.noStray p hvisible hlength)
        obtain ⟨hsame, hmax, -⟩ := hlengths _ hvisible.scanned hat
        rw [hsame]
        exact ⟨hdenotes, hmax⟩
      · obtain ⟨hdenotes, hmax, -⟩ := hclean.hiddenLength p hhidden hlength
        exact ⟨hdenotes, hmax⟩

end Accepted

/-- Two lengths that are the same number. -/
theorem framed_iff_twice :
    ∃ buf resp, (otlpHttpRespParse buf false).2 = .complete resp ∧
      blockLines (buf.take resp.bodyOff) = [ascii "Content-Length: 2", ascii "content-length:02 ", [], []] ∧
      Framed (buf.take resp.bodyOff) resp.bodyLen := by
  let buf := ascii "HTTP/1.1 200 OK\r\nContent-Length: 2\r\ncontent-length:02 \r\n\r\nok"
  have hparse : (otlpHttpRespParse buf false).2 = .complete ⟨200, 0, true, 58, 2⟩ := by decide +kernel
  have hlines : blockLines (buf.take 58) = [ascii "Content-Length: 2", ascii "content-length:02 ", [], []] := by
    decide +kernel
  have hblock : headBlock buf = buf.take 58 := by decide +kernel
  have hat : ∀ p < 59, AfterCrlf (buf.take 58) p → isTransferEncoding (crlfLine (buf.take 58) p) = false ∧
      (isContentLength (crlfLine (buf.take 58) p) = true → p ∈ lineStarts (buf.take 58) ∧
        strayText ((crlfLine (buf.take 58) p).drop 15) = false) := by decide +kernel
  have hlast : ∀ p, AfterCrlf (buf.take 58) p → p < 59 := by
    rintro p ⟨e, rfl, hocc⟩
    have hle := hocc.le (List.cons_ne_nil _ _)
    rw [List.length_take] at hle
    simp only [List.length_cons, List.length_nil] at hle
    omega
  refine ⟨buf, _, hparse, hlines, (framed_iff hparse).2 ⟨fun p hp hlength => ?_, fun _ _ _ p hp hcoding => ?_,
    fun p hp hlength => ?_, fun p hp hcoding => ?_⟩⟩
  · rw [hblock] at hp hlength ⊢
    exact ((hat p (hlast p hp.1) hp.1).2 hlength).2
  · rw [hblock] at hp hcoding
    exact absurd hcoding (Bool.eq_false_iff.1 (hat p (hlast p hp.1) hp.1).1)
  · rw [hblock] at hp hlength
    exact absurd ((hat p (hlast p hp.1) hp.1).2 hlength).1 hp.2
  · rw [hblock] at hp hcoding
    exact absurd hcoding (Bool.eq_false_iff.1 (hat p (hlast p hp.1) hp.1).1)

/-- A second coding besides `chunked`, and text behind the digits of a length, are accepted. -/
theorem unclean_framing_accepted :
    (∃ buf resp, (otlpHttpRespParse buf false).2 = .complete resp ∧
      ascii "Transfer-Encoding: gzip" ∈ blockLines (buf.take resp.bodyOff) ∧
      ¬Framed (buf.take resp.bodyOff) resp.bodyLen) ∧
    ∃ buf resp, (otlpHttpRespParse buf false).2 = .complete resp ∧
      ascii "Content-Length: 2x" ∈ blockLines (buf.take resp.bodyOff) ∧
      ¬Framed (buf.take resp.bodyOff) resp.bodyLen := by
  constructor
  · have hparse : (otlpHttpRespParse (ascii
        "HTTP/1.1 200 OK\r\nTransfer-Encoding: chunked\r\nTransfer-Encoding: gzip\r\n\r\n0\r\n\r\n") false).2 =
          .complete ⟨200, 0, true, 72, 0⟩ := by decide +kernel
    have hmem : ascii "Transfer-Encoding: gzip" ∈ blockLines ((ascii
        "HTTP/1.1 200 OK\r\nTransfer-Encoding: chunked\r\nTransfer-Encoding: gzip\r\n\r\n0\r\n\r\n").take 72) := by
      decide +kernel
    exact ⟨_, _, hparse, hmem, fun h => absurd (h.chunked _ hmem (by decide)) (by decide)⟩
  · have hparse : (otlpHttpRespParse (ascii "HTTP/1.1 200 OK\r\nContent-Length: 2x\r\n\r\nok") false).2 =
        .complete ⟨200, 0, true, 39, 2⟩ := by decide +kernel
    have hmem : ascii "Content-Length: 2x" ∈
        blockLines ((ascii "HTTP/1.1 200 OK\r\nContent-Length: 2x\r\n\r\nok").take 39) := by decide +kernel
    refine ⟨_, _, hparse, hmem, fun h => ?_⟩
    obtain ⟨before, digits, after, heq, -, hnumeral⟩ := (h.length _ hmem (by decide)).1
    -- the `x` is neither a digit nor a space
    have hx : (0x78 : UInt8) ∈ (ascii "Content-Length: 2x").drop 15 := by decide
    rw [heq] at hx
    simp only [List.mem_append, List.mem_replicate, show ¬(0x78 : UInt8) = space by decide, and_false, false_or,
      or_false] at hx
    exact absurd ((numeral_eq_some_iff.1 hnumeral).1 _ hx) (by decide)

end OtlpC.Http
