import OtlpC.Http.Boundary
import OtlpC.Http.ChunkedEncoding
import OtlpC.Http.RetryAfter

/-!
# Replies that are well formed

`Reply` is what a server may answer: a status line, fields with a name and a value, and a body that the fields
frame. The parser reads every reply back, with the meaning that the fields have by their names and values
(`otlpHttpRespParse_reply`), and asks for more on everything that is cut off it (`needMore_of_cut`).
-/

namespace OtlpC.Http

open Occurrence

/-! ### Fields -/

/-- A line `name: value`, with any number of blanks before the value. -/
structure HeaderField where
  name : Bytes
  blanks : ℕ
  value : Bytes
  name_ok : cr ∉ name ∧ lf ∉ name ∧ colon ∉ name
  value_ok : cr ∉ value ∧ lf ∉ value ∧ value.head? ≠ some space

def HeaderField.line (f : HeaderField) : Bytes := f.name ++ colon :: (List.replicate f.blanks space ++ f.value)

/-- Names are compared without case. -/
def HeaderField.isNamed (f : HeaderField) (name : Bytes) : Bool := f.name.map toLower == name.map toLower

theorem toLower_eq_colon {c : UInt8} (h : toLower c = colon) : c = colon := by
  unfold toLower at h
  split at h
  · next hupper =>
    exfalso
    simp only [Bool.and_eq_true, decide_eq_true_eq, UInt8.le_iff_toNat_le] at hupper
    have hnat := congrArg UInt8.toNat h
    rw [UInt8.toNat_add] at hnat
    have hcolon : colon.toNat = 58 := rfl
    simp only [UInt8.reduceToNat] at hupper hnat
    omega
  · exact h

theorem startsWithCi_line (f : HeaderField) (name : Bytes) (hname : colon ∉ name) :
    startsWithCi f.line (name ++ [colon]) = f.isNamed name := by
  suffices h : ∀ (a n rest : Bytes), colon ∉ a → colon ∉ n →
      startsWithCi (a ++ colon :: rest) (n ++ [colon]) = (a.map toLower == n.map toLower) from
    h f.name name _ f.name_ok.2.2 hname
  intro a
  induction a with
  | nil =>
    intro n rest _ hn
    cases n with
    | nil => exact beq_self_eq_true _
    | cons z n =>
      have hz : (toLower colon == toLower z) = false := by
        rw [beq_eq_false_iff_ne]
        intro heq
        exact hn (toLower_eq_colon heq.symm ▸ List.mem_cons_self)
      show (toLower colon == toLower z && _) = false
      rw [hz, Bool.false_and]
  | cons c a ih =>
    intro n rest ha hn
    rw [List.mem_cons, not_or] at ha
    cases n with
    | nil =>
      have hc : (toLower c == toLower colon) = false := by
        rw [beq_eq_false_iff_ne]
        intro heq
        exact ha.1 (toLower_eq_colon heq).symm
      show (toLower c == toLower colon && _) = false
      rw [hc, Bool.false_and]
    | cons z n =>
      rw [List.mem_cons, not_or] at hn
      have hrest := ih n rest ha.2 hn.2
      show (toLower c == toLower z && startsWithCi (a ++ colon :: rest) (n ++ [colon])) = _
      rw [hrest]
      rfl

theorem length_of_isNamed {f : HeaderField} {name : Bytes} (h : f.isNamed name = true) :
    f.name.length = name.length := by
  have heq := congrArg List.length (beq_iff_eq.1 h)
  rwa [List.length_map, List.length_map] at heq

theorem skipSpaces_line {f : HeaderField} {name : Bytes} (h : f.isNamed name = true) :
    skipSpaces (f.line.drop (name.length + 1)) = f.value := by
  have hdrop : f.line.drop (name.length + 1) = List.replicate f.blanks space ++ f.value := by
    rw [← length_of_isNamed h, HeaderField.line, List.drop_append, List.drop_eq_nil_of_le (by omega)]
    simp
  have hvalue : f.value.dropWhile (· == space) = f.value := by
    cases hv : f.value with
    | nil => rfl
    | cons c v =>
      have hc : (c == space) = false := by
        rw [beq_eq_false_iff_ne]
        rintro rfl
        exact f.value_ok.2.2 (by rw [hv]; rfl)
      rw [List.dropWhile_cons, hc]
      rfl
  rw [hdrop, skipSpaces, List.dropWhile_append_of_pos, hvalue]
  intro c hc
  rw [List.eq_of_mem_replicate hc]
  rfl

/-! ### What the fields mean -/

def leadingNumber (value : Bytes) : ℕ := decimalNumber (value.takeWhile isDigit)

/-- `Retry-After` in milliseconds, from at most ten digits. -/
def delayOf (value : Bytes) : ℕ := min (decimalNumber ((value.takeWhile isDigit).take 10)) otlpRetryAfterMaxS * 1000

def connectionOption (value : Bytes) : Option Bool :=
  if startsWithCi value (ascii "close") then some false
  else if startsWithCi value (ascii "keep-alive") then some true
  else none

abbrev contentLengthName : Bytes := ascii "Content-Length"
abbrev transferEncodingName : Bytes := ascii "Transfer-Encoding"
abbrev retryAfterName : Bytes := ascii "Retry-After"
abbrev connectionName : Bytes := ascii "Connection"

/-- The value of the last field that has one. -/
def lastOf {β : Type} (get : HeaderField → Option β) (fields : List HeaderField) : Option β :=
  (fields.filterMap get).getLast?

def lengthIn (f : HeaderField) : Option ℕ :=
  if f.isNamed contentLengthName then some (leadingNumber f.value) else none

def delayIn (f : HeaderField) : Option ℕ := if f.isNamed retryAfterName then some (delayOf f.value) else none

def connectionIn (f : HeaderField) : Option Bool :=
  if f.isNamed connectionName then connectionOption f.value else none

def codesChunked (f : HeaderField) : Bool :=
  f.isNamed transferEncodingName && (f.value.length == 7 && startsWithCi f.value (ascii "chunked"))

/-- What the header scan should collect from the fields. -/
def scanned (keepalive : Bool) (fields : List HeaderField) : HeaderScan where
  contentLength := lastOf lengthIn fields
  teSeen := fields.any (·.isNamed transferEncodingName)
  teChunked := fields.any codesChunked
  retryAfterMs := (lastOf delayIn fields).getD 0
  keepaliveEligible := (lastOf connectionIn fields).getD keepalive

theorem lastOf_concat {β : Type} (get : HeaderField → Option β) (fields : List HeaderField) (f : HeaderField) :
    lastOf get (fields ++ [f]) = (get f).or (lastOf get fields) := by
  rw [lastOf, List.filterMap_append, List.getLast?_append, lastOf]
  cases hf : get f with
  | none => simp [hf]
  | some b => simp [hf]

theorem isNamed_unique {f : HeaderField} {name : Bytes} (h : f.isNamed name = true) (other : Bytes)
    (hne : name.map toLower ≠ other.map toLower) : f.isNamed other = false := by
  rw [HeaderField.isNamed, beq_iff_eq] at h
  rw [HeaderField.isNamed, beq_eq_false_iff_ne, h]
  exact hne

/-- The value digits of a `Content-Length` are read to their end when what they denote is allowed. -/
theorem contentLengthLoop_eq_some {v : Bytes} {val : ℕ}
    (h : (v.takeWhile isDigit).foldl (fun n c => n * 10 + digitValue c) val ≤ otlpHttpRespMax) :
    contentLengthLoop val v = some ((v.takeWhile isDigit).foldl (fun n c => n * 10 + digitValue c) val) := by
  induction v generalizing val with
  | nil => rfl
  | cons c v ih =>
    rw [contentLengthLoop]
    cases hc : isDigit c with
    | false => simp [hc]
    | true =>
      rw [List.takeWhile_cons_of_pos hc, List.foldl_cons] at h ⊢
      have hle : val * 10 + digitValue c ≤ otlpHttpRespMax := by
        rw [foldl_digits] at h
        have hpow : 0 < 10 ^ (v.takeWhile isDigit).length := Nat.pow_pos (by omega)
        have hmul := Nat.le_mul_of_pos_right (val * 10 + digitValue c) hpow
        omega
      rw [Bool.not_true, if_neg Bool.false_ne_true, if_neg (by omega)]
      exact ih h

theorem scanned_concat (keepalive : Bool) (fields : List HeaderField) (f : HeaderField) :
    scanned keepalive (fields ++ [f]) = {
      contentLength := (lengthIn f).or (lastOf lengthIn fields)
      teSeen := fields.any (·.isNamed transferEncodingName) || f.isNamed transferEncodingName
      teChunked := fields.any codesChunked || codesChunked f
      retryAfterMs := ((delayIn f).or (lastOf delayIn fields)).getD 0
      keepaliveEligible := ((connectionIn f).or (lastOf connectionIn fields)).getD keepalive } := by
  rw [scanned, lastOf_concat, lastOf_concat, lastOf_concat, List.any_append, List.any_append]
  simp

theorem eq_of_lastOf_lengthIn {fields : List HeaderField} {n m : ℕ}
    (hlengths : ∀ g ∈ fields, g.isNamed contentLengthName = true → leadingNumber g.value = n)
    (h : lastOf lengthIn fields = some m) : m = n := by
  obtain ⟨g, hg, hget⟩ := List.mem_filterMap.1 (List.mem_of_getLast? h)
  rw [lengthIn] at hget
  split at hget
  · next hname => exact (Option.some.inj hget).symm.trans (hlengths g hg hname)
  · cases hget

/-- **One more field**, whose length is allowed and agrees with those before. -/
theorem headerLine_scanned (keepalive : Bool) {fields : List HeaderField} {f : HeaderField} {n : ℕ}
    (hn : n ≤ otlpHttpRespMax)
    (hlengths : ∀ g ∈ fields ++ [f], g.isNamed contentLengthName = true → leadingNumber g.value = n) :
    headerLine (scanned keepalive fields) f.line = some (scanned keepalive (fields ++ [f])) := by
  have hcl : startsWithCi f.line (ascii "Content-Length:") = f.isNamed contentLengthName :=
    startsWithCi_line f contentLengthName (by decide)
  have hte : startsWithCi f.line (ascii "Transfer-Encoding:") = f.isNamed transferEncodingName :=
    startsWithCi_line f transferEncodingName (by decide)
  have hra : startsWithCi f.line (ascii "Retry-After:") = f.isNamed retryAfterName :=
    startsWithCi_line f retryAfterName (by decide)
  have hco : startsWithCi f.line (ascii "Connection:") = f.isNamed connectionName :=
    startsWithCi_line f connectionName (by decide)
  rw [headerLine, hcl, hte, hra, hco, scanned_concat]
  by_cases hlength : f.isNamed contentLengthName = true
  · have hte := isNamed_unique hlength transferEncodingName (by decide)
    have hra := isNamed_unique hlength retryAfterName (by decide)
    have hco := isNamed_unique hlength connectionName (by decide)
    have hvalue : skipSpaces (f.line.drop 15) = f.value := skipSpaces_line hlength
    have hnumber : leadingNumber f.value = n := hlengths f (by simp) hlength
    have hloop : contentLengthLoop 0 f.value = some n := by
      rw [← hnumber]
      exact contentLengthLoop_eq_some (hnumber.le.trans hn)
    rw [if_pos hlength, hvalue, hloop]
    have hagree : ((scanned keepalive fields).contentLength.isSome &&
        (scanned keepalive fields).contentLength != some n) = false := by
      cases hlast : (scanned keepalive fields).contentLength with
      | none => rfl
      | some m =>
        have hm := eq_of_lastOf_lengthIn (fun g hg => hlengths g (List.mem_append_left _ hg)) hlast
        simp [hm]
    dsimp only
    rw [hagree, if_neg Bool.false_ne_true]
    simp [scanned, lengthIn, delayIn, connectionIn, codesChunked, hlength, hte, hra, hco, hnumber]
  rw [if_neg hlength]
  by_cases hcoding : f.isNamed transferEncodingName = true
  · have hra := isNamed_unique hcoding retryAfterName (by decide)
    have hco := isNamed_unique hcoding connectionName (by decide)
    have hvalue : skipSpaces (f.line.drop 18) = f.value := skipSpaces_line hcoding
    rw [if_pos hcoding, hvalue]
    simp [scanned, lengthIn, delayIn, connectionIn, codesChunked, hlength, hcoding, hra, hco]
  rw [if_neg hcoding]
  by_cases hdelay : f.isNamed retryAfterName = true
  · have hco := isNamed_unique hdelay connectionName (by decide)
    have hvalue : skipSpaces (f.line.drop 12) = f.value := skipSpaces_line hdelay
    rw [if_pos hdelay, hvalue, retryAfterLoop_eq]
    simp [scanned, lengthIn, delayIn, connectionIn, codesChunked, hlength, hcoding, hdelay, hco, delayOf,
      decimalNumber]
  rw [if_neg hdelay]
  by_cases hconnection : f.isNamed connectionName = true
  · have hvalue : skipSpaces (f.line.drop 11) = f.value := skipSpaces_line hconnection
    rw [if_pos hconnection, hvalue]
    have hlong : startsWithCi f.value (ascii "keep-alive") = true → 10 ≤ f.value.length := startsWithCi_length
    by_cases hclose : startsWithCi f.value (ascii "close") = true
    · simp [scanned, lengthIn, delayIn, connectionIn, connectionOption, codesChunked, hlength, hcoding, hdelay,
        hconnection, hclose]
    by_cases hkeep : startsWithCi f.value (ascii "keep-alive") = true
    · simp [scanned, lengthIn, delayIn, connectionIn, connectionOption, codesChunked, hlength, hcoding, hdelay,
        hconnection, hclose, hkeep, hlong hkeep]
    · simp [scanned, lengthIn, delayIn, connectionIn, connectionOption, codesChunked, hlength, hcoding, hdelay,
        hconnection, hclose, hkeep]
  · simp [scanned, lengthIn, delayIn, connectionIn, codesChunked, hlength, hcoding, hdelay, hconnection]

theorem foldlM_scanned (keepalive : Bool) {fields : List HeaderField} {n : ℕ} (hn : n ≤ otlpHttpRespMax)
    (hlengths : ∀ g ∈ fields, g.isNamed contentLengthName = true → leadingNumber g.value = n) :
    (fields.map HeaderField.line).foldlM headerLine (HeaderScan.start keepalive) =
      some (scanned keepalive fields) := by
  induction fields using List.reverseRecOn with
  | nil => rfl
  | append_singleton fields f ih =>
    rw [List.map_append, List.foldlM_append, ih fun g hg => hlengths g (List.mem_append_left _ hg)]
    show ([f.line]).foldlM headerLine (scanned keepalive fields) = _
    rw [List.foldlM_cons, headerLine_scanned keepalive hn hlengths]
    rfl

/-! ### Replies -/

inductive HttpVersion where
  | http10
  | http11
deriving Repr, DecidableEq

def HttpVersion.bytes : HttpVersion → Bytes
  | .http10 => ascii "HTTP/1.0"
  | .http11 => ascii "HTTP/1.1"

/-- HTTP/1.1 keeps a connection unless it is told not to. -/
def HttpVersion.keeps : HttpVersion → Bool
  | .http10 => false
  | .http11 => true

inductive ReplyBody where
  | length (content : Bytes)
  | chunked (body : ChunkedBody)
  | untilClose (content : Bytes)

def ReplyBody.bytes : ReplyBody → Bytes
  | .length content => content
  | .chunked body => body.bytes
  | .untilClose content => content

/-- What it carries. -/
def ReplyBody.payload : ReplyBody → Bytes
  | .length content => content
  | .chunked body => body.payload
  | .untilClose content => content

/-- The end of the body is told before the connection is closed. -/
def ReplyBody.delimited : ReplyBody → Bool
  | .length _ | .chunked _ => true
  | .untilClose _ => false

/-- The fields frame the body: one length or as many equal ones, a `chunked` coding, or neither. -/
def Frames (fields : List HeaderField) : ReplyBody → Prop
  | .length content =>
    content.length ≤ otlpHttpRespMax ∧ (∃ f ∈ fields, f.isNamed contentLengthName = true) ∧
      ∀ f ∈ fields, (f.isNamed contentLengthName = true → leadingNumber f.value = content.length) ∧
        f.isNamed transferEncodingName = false
  | .chunked _ =>
    (∃ f ∈ fields, codesChunked f = true) ∧ ∀ f ∈ fields, f.isNamed contentLengthName = false
  | .untilClose _ =>
    ∀ f ∈ fields, f.isNamed contentLengthName = false ∧ f.isNamed transferEncodingName = false

structure Reply where
  version : HttpVersion
  status : Fin 1000
  reason : Bytes
  reason_ok : cr ∉ reason ∧ lf ∉ reason
  fields : List HeaderField
  body : ReplyBody
  framed : Frames fields body

def statusDigits (n : ℕ) : Bytes :=
  [0x30 + UInt8.ofNat (n / 100), 0x30 + UInt8.ofNat (n / 10 % 10), 0x30 + UInt8.ofNat (n % 10)]

def Reply.statusText (p : Reply) : Bytes :=
  p.version.bytes ++ (space :: (statusDigits p.status ++ space :: p.reason))

def Reply.head (p : Reply) : Bytes := trailerSection (p.statusText :: p.fields.map HeaderField.line)

def Reply.bytes (p : Reply) : Bytes := p.head ++ p.body.bytes

def Reply.retryAfterMs (p : Reply) : ℕ := (lastOf delayIn p.fields).getD 0

/-- The connection can be used again. -/
def Reply.keepsConnection (p : Reply) : Bool :=
  p.body.delimited && (lastOf connectionIn p.fields).getD p.version.keeps

def ReplyBody.framing : ReplyBody → Framing
  | .length content => .length content.length
  | .chunked _ => .chunked
  | .untilClose _ => .untilEof

/-- What the parser should make of the head. -/
def Reply.parsed (p : Reply) : Head where
  bodyOff := p.head.length
  httpStatus := p.status
  retryAfterMs := p.retryAfterMs
  keepaliveEligible := p.keepsConnection
  framing := p.body.framing

/-! ### The head -/

theorem headerScan_section (h : HeaderScan) {lines : List Bytes} (hlines : ∀ l ∈ lines, cr ∉ l) {rounds : ℕ}
    (hrounds : (trailerSection lines).length ≤ rounds) :
    headerScan rounds h (trailerSection lines) = lines.foldlM headerLine h := by
  induction lines generalizing rounds h with
  | nil =>
    obtain ⟨rounds, rfl⟩ := Nat.exists_eq_add_of_le hrounds
    have hblank : headerScan (2 + rounds) h [cr, lf] = headerScan (1 + rounds) h [] := by
      rw [show 2 + rounds = (1 + rounds) + 1 by omega]
      rfl
    show headerScan (2 + rounds) h [cr, lf] = _
    rw [hblank, show 1 + rounds = rounds + 1 by omega]
    rfl
  | cons l lines ih =>
    rw [List.forall_mem_cons] at hlines
    have hsection : trailerSection (l :: lines) = l ++ (cr :: lf :: trailerSection lines) := by
      simp [trailerSection]
    have hlength : (trailerSection (l :: lines)).length = l.length + 2 + (trailerSection lines).length := by
      rw [hsection, List.length_append, List.length_cons, List.length_cons]
      omega
    obtain ⟨rounds, rfl⟩ : ∃ k, rounds = k + 1 := ⟨rounds - 1, by omega⟩
    have hline : (l ++ (cr :: lf :: trailerSection lines)).takeWhile (· != cr) = l := takeWhile_noCr hlines.1 _
    have hnext : (l ++ (cr :: lf :: trailerSection lines)).drop (l.length + 2) = trailerSection lines := by
      rw [← List.drop_drop, List.drop_left]
      rfl
    rw [headerScan, if_neg (by rw [hsection]; simp), hsection, hline, List.foldlM_cons]
    rw [if_neg (by rw [← hsection, hlength]; omega)]
    cases headerLine h l with
    | none => rfl
    | some h' =>
      dsimp only
      rw [hnext, ih h' hlines.2 (by omega)]
      rfl

theorem digit_ok : ∀ k < 10, isDigit (0x30 + UInt8.ofNat k) = true ∧ digitValue (0x30 + UInt8.ofNat k) = k ∧
    0x30 + UInt8.ofNat k ≠ cr ∧ 0x30 + UInt8.ofNat k ≠ lf := by
  decide

theorem HeaderField.line_ok (f : HeaderField) : f.line ≠ [] ∧ cr ∉ f.line ∧ lf ∉ f.line := by
  obtain ⟨hncr, hnlf, -⟩ := f.name_ok
  obtain ⟨hvcr, hvlf, -⟩ := f.value_ok
  refine ⟨by simp [HeaderField.line], ?_, ?_⟩
  · simp [HeaderField.line, hncr, hvcr, show cr ≠ colon by decide, show cr ≠ space by decide]
  · simp [HeaderField.line, hnlf, hvlf, show lf ≠ colon by decide, show lf ≠ space by decide]

section Parsed

variable (p : Reply)

theorem Reply.statusText_ok : p.statusText ≠ [] ∧ cr ∉ p.statusText ∧ lf ∉ p.statusText := by
  have hversion : cr ∉ p.version.bytes ∧ lf ∉ p.version.bytes := by cases p.version <;> decide
  have hdigits : cr ∉ statusDigits p.status ∧ lf ∉ statusDigits p.status := by
    have hstatus := p.status.isLt
    obtain ⟨-, -, hcr, hlf⟩ := digit_ok (p.status / 100) (by omega)
    obtain ⟨-, -, hcr', hlf'⟩ := digit_ok (p.status / 10 % 10) (by omega)
    obtain ⟨-, -, hcr'', hlf''⟩ := digit_ok (p.status % 10) (by omega)
    simp only [statusDigits, List.mem_cons, List.not_mem_nil, or_false, not_or]
    exact ⟨⟨hcr.symm, hcr'.symm, hcr''.symm⟩, hlf.symm, hlf'.symm, hlf''.symm⟩
  refine ⟨by simp [Reply.statusText], ?_, ?_⟩
  · simp [Reply.statusText, hversion, hdigits, p.reason_ok, show cr ≠ space by decide]
  · simp [Reply.statusText, hversion, hdigits, p.reason_ok, show lf ≠ space by decide]

theorem Reply.lines_ok : ∀ t ∈ p.statusText :: p.fields.map HeaderField.line, t ≠ [] ∧ cr ∉ t ∧ lf ∉ t := by
  intro t ht
  rcases List.mem_cons.1 ht with rfl | ht
  · exact p.statusText_ok
  · obtain ⟨f, -, rfl⟩ := List.mem_map.1 ht
    exact f.line_ok

theorem Reply.head_eq : p.head = p.statusText ++ (cr :: lf :: trailerSection (p.fields.map HeaderField.line)) := by
  simp [Reply.head, trailerSection]

theorem Reply.findSubstring_head (s : Bytes) :
    ∃ i, findSubstring (p.head ++ s) crlfcrlf = some i ∧ i + 4 = p.head.length := by
  obtain ⟨i, hfirst, -, hdrop⟩ := exists_firstAt_lines (show cr ≠ lf by decide)
    (fun w hw => ⟨(p.lines_ok w hw).2.1, (p.lines_ok w hw).1⟩) (List.cons_ne_nil _ _) s
  rw [← List.append_assoc] at hfirst hdrop
  have hfind : findSubstring (p.head ++ s) crlfcrlf = some i := findSubstring_eq_some.2 hfirst
  refine ⟨i, hfind, ?_⟩
  have hrest : (p.head ++ s).drop (i + 4) = s := hdrop
  have hle := findSubstring_le (by decide) hfind
  have hneedle : crlfcrlf.length = 4 := rfl
  have hlength := congrArg List.length hrest
  rw [List.length_drop] at hlength
  rw [List.length_append] at hle hlength
  omega

theorem Reply.statusLine_head : statusLine p.head = some (p.status.val, p.version.keeps) := by
  obtain ⟨rest, hrest⟩ : ∃ rest, p.head = p.version.bytes ++ (space :: (statusDigits p.status ++ rest)) :=
    ⟨_, by rw [p.head_eq, Reply.statusText, List.append_assoc, List.cons_append, List.append_assoc]⟩
  have hstatus := p.status.isLt
  obtain ⟨h₁, hv₁, -⟩ := digit_ok (p.status / 100) (by omega)
  obtain ⟨h₂, hv₂, -⟩ := digit_ok (p.status / 10 % 10) (by omega)
  obtain ⟨h₃, hv₃, -⟩ := digit_ok (p.status % 10) (by omega)
  have hnumber : p.status / 100 * 100 + p.status / 10 % 10 * 10 + p.status % 10 = p.status.val := by omega
  have hhttp : p.head.take 5 = ascii "HTTP/" := by
    rw [hrest]
    cases p.version <;> rfl
  have hdigits : (p.head.drop 5).dropWhile (· != space) = space :: (statusDigits p.status ++ rest) := by
    rw [hrest]
    cases p.version <;> rfl
  have hkeeps : (byteAt p.head 5 == 0x31 && byteAt p.head 6 == 0x2e && 0x31 ≤ byteAt p.head 7) = p.version.keeps := by
    rw [hrest]
    cases p.version <;> rfl
  have hbytes : byteAt (statusDigits p.status ++ rest) 0 = 0x30 + UInt8.ofNat (p.status / 100) ∧
      byteAt (statusDigits p.status ++ rest) 1 = 0x30 + UInt8.ofNat (p.status / 10 % 10) ∧
      byteAt (statusDigits p.status ++ rest) 2 = 0x30 + UInt8.ofNat (p.status % 10) := ⟨rfl, rfl, rfl⟩
  obtain ⟨hb₁, hb₂, hb₃⟩ := hbytes
  have hlong : ¬(statusDigits p.status ++ rest).length < 3 := by
    rw [List.length_append]
    show ¬3 + rest.length < 3
    omega
  rw [statusLine, if_neg (not_not.2 hhttp), hdigits]
  dsimp only
  rw [hb₁, hb₂, hb₃, h₁, h₂, h₃, hv₁, hv₂, hv₃, hnumber, hkeeps, if_neg (by simpa using hlong)]

theorem Reply.dropWhile_head :
    p.head.dropWhile (· != lf) = lf :: trailerSection (p.fields.map HeaderField.line) := by
  have hskip : ∀ c ∈ p.statusText ++ [cr], (c != lf) = true := by
    intro c hc
    rw [bne_iff_ne]
    rintro rfl
    rcases List.mem_append.1 hc with hc | hc
    · exact p.statusText_ok.2.2 hc
    · exact absurd (List.mem_singleton.1 hc) (by decide)
  have hsplit : p.head = (p.statusText ++ [cr]) ++ (lf :: trailerSection (p.fields.map HeaderField.line)) := by
    rw [p.head_eq, List.append_assoc]
    rfl
  rw [hsplit, List.dropWhile_append_of_pos hskip]
  rfl

theorem Reply.headerScan_head {rounds : ℕ}
    (hrounds : (trailerSection (p.fields.map HeaderField.line)).length ≤ rounds) :
    headerScan rounds (HeaderScan.start p.version.keeps) (trailerSection (p.fields.map HeaderField.line)) =
      some (scanned p.version.keeps p.fields) := by
  have hlines : ∀ l ∈ p.fields.map HeaderField.line, cr ∉ l := by
    intro l hl
    exact (p.lines_ok l (List.mem_cons_of_mem _ hl)).2.1
  rw [headerScan_section _ hlines hrounds]
  -- a length is allowed where there is one
  obtain ⟨n, hn, hlengths⟩ : ∃ n ≤ otlpHttpRespMax,
      ∀ g ∈ p.fields, g.isNamed contentLengthName = true → leadingNumber g.value = n := by
    have hframed := p.framed
    cases hbody : p.body with
    | length content =>
      rw [hbody] at hframed
      exact ⟨content.length, hframed.1, fun g hg => (hframed.2.2 g hg).1⟩
    | chunked body =>
      rw [hbody] at hframed
      exact ⟨0, Nat.zero_le _, fun g hg hname => absurd hname (by simp [hframed.2 g hg])⟩
    | untilClose content =>
      rw [hbody] at hframed
      exact ⟨0, Nat.zero_le _, fun g hg hname => absurd hname (by simp [(hframed g hg).1])⟩
  exact foldlM_scanned _ hn hlengths

theorem lastOf_lengthIn_eq_none {fields : List HeaderField}
    (h : ∀ f ∈ fields, f.isNamed contentLengthName = false) : lastOf lengthIn fields = none := by
  rw [lastOf, List.getLast?_eq_none_iff, List.filterMap_eq_nil_iff]
  intro f hf
  rw [lengthIn, h f hf]
  rfl

theorem lastOf_lengthIn_eq_some {fields : List HeaderField} {n : ℕ}
    (hsome : ∃ f ∈ fields, f.isNamed contentLengthName = true)
    (hlengths : ∀ f ∈ fields, f.isNamed contentLengthName = true → leadingNumber f.value = n) :
    lastOf lengthIn fields = some n := by
  cases hlast : lastOf lengthIn fields with
  | some m => rw [eq_of_lastOf_lengthIn hlengths hlast]
  | none =>
    obtain ⟨f, hf, hname⟩ := hsome
    rw [lastOf, List.getLast?_eq_none_iff, List.filterMap_eq_nil_iff] at hlast
    have hget := hlast f hf
    rw [lengthIn, if_pos hname] at hget
    cases hget

/-- The head is read with its meaning, whatever follows it. -/
theorem Reply.parseHead_head (s : Bytes) : parseHead (p.head ++ s) = .head p.parsed := by
  obtain ⟨i, hfind, hi⟩ := p.findSubstring_head s
  have hversion : p.version.bytes.length = 8 := by cases p.version <;> rfl
  have hlong : ¬(p.head ++ s).length < 12 := by
    rw [p.head_eq, Reply.statusText, statusDigits]
    simp only [List.length_append, List.length_cons, hversion]
    omega
  have hscan := p.headerScan_head le_rfl
  rw [parseHead, hfind]
  dsimp only
  rw [hi, List.take_left, if_neg hlong, p.statusLine_head]
  dsimp only
  rw [p.dropWhile_head]
  dsimp only
  rw [hscan]
  have hframed := p.framed
  cases hbody : p.body with
  | length content =>
    rw [hbody] at hframed
    obtain ⟨-, hsome, hall⟩ := hframed
    have hte : p.fields.any (·.isNamed transferEncodingName) = false := by
      rw [List.any_eq_false]
      intro f hf
      rw [(hall f hf).2]
      exact Bool.false_ne_true
    have hlength := lastOf_lengthIn_eq_some hsome fun f hf => (hall f hf).1
    simp [scanned, hte, hlength, Reply.parsed, Reply.retryAfterMs, Reply.keepsConnection, hbody,
      ReplyBody.framing, ReplyBody.delimited]
  | chunked body =>
    rw [hbody] at hframed
    obtain ⟨⟨f, hf, hcodes⟩, hall⟩ := hframed
    have hchunked : p.fields.any codesChunked = true := List.any_eq_true.2 ⟨f, hf, hcodes⟩
    have hte : p.fields.any (·.isNamed transferEncodingName) = true :=
      List.any_eq_true.2 ⟨f, hf, (Bool.and_eq_true _ _ ▸ hcodes).1⟩
    simp [scanned, hte, hchunked, lastOf_lengthIn_eq_none hall, Reply.parsed, Reply.retryAfterMs,
      Reply.keepsConnection, hbody, ReplyBody.framing, ReplyBody.delimited]
  | untilClose content =>
    rw [hbody] at hframed
    have hte : p.fields.any (·.isNamed transferEncodingName) = false := by
      rw [List.any_eq_false]
      intro f hf
      rw [(hframed f hf).2]
      exact Bool.false_ne_true
    simp [scanned, hte, lastOf_lengthIn_eq_none fun f hf => (hframed f hf).1, Reply.parsed, Reply.retryAfterMs,
      Reply.keepsConnection, hbody, ReplyBody.framing, ReplyBody.delimited]

/-! ### A whole reply -/

theorem Reply.drop_head : p.bytes.drop p.parsed.bodyOff = p.body.bytes := List.drop_left

theorem Reply.unchunk_body {body : ChunkedBody} (hbody : p.body = .chunked body) :
    unchunk (p.bytes.drop p.parsed.bodyOff) = .complete body.payload body.bytes.length := by
  rw [p.drop_head, hbody]
  have hread := unchunk_bytes body []
  rwa [List.append_nil] at hread

/-- **A reply is read back**, at once when its end is told, and else at the end of the stream. -/
theorem Reply.parse_eq {atEof : Bool} (h : p.body.delimited = true ∨ atEof = true) :
    (otlpHttpRespParse p.bytes atEof).2 = .complete (p.parsed.resp p.body.payload.length) ∧
      respBody (otlpHttpRespParse p.bytes atEof) = some p.body.payload := by
  have hhead := p.parseHead_head p.body.bytes
  rw [← Reply.bytes] at hhead
  rw [otlpHttpRespParse_head hhead, respBody_head hhead]
  have hdrop := p.drop_head
  have hlength : p.bytes.length - p.parsed.bodyOff = p.body.bytes.length := by
    rw [← List.length_drop, hdrop]
  cases hbody : p.body with
  | length content =>
    have hframing : p.parsed.framing = .length content.length := by rw [Reply.parsed, hbody, ReplyBody.framing]
    rw [hbody, ReplyBody.bytes] at hdrop hlength
    rw [hframing, hlength, hdrop]
    dsimp only
    rw [if_neg (lt_irrefl _), if_neg (lt_irrefl _), List.take_length]
    exact ⟨rfl, rfl⟩
  | chunked body =>
    have hframing : p.parsed.framing = .chunked := by rw [Reply.parsed, hbody, ReplyBody.framing]
    rw [hframing, p.unchunk_body hbody]
    exact ⟨rfl, rfl⟩
  | untilClose content =>
    have hframing : p.parsed.framing = .untilEof := by rw [Reply.parsed, hbody, ReplyBody.framing]
    have heof : atEof = true := h.resolve_left (by rw [hbody]; exact Bool.false_ne_true)
    rw [hbody, ReplyBody.bytes] at hdrop hlength
    rw [hframing, hlength, hdrop, heof]
    exact ⟨rfl, rfl⟩

/-- Cut off anywhere, a chunked body needs more. -/
theorem unchunk_of_cut {b : ChunkedBody} {q : Bytes} (hpre : q <+: b.bytes) (hne : q ≠ b.bytes) :
    unchunk q = .needMore := by
  obtain ⟨rest, hrest⟩ := hpre
  by_contra hdone
  have hwhole := unchunk_bytes b []
  rw [List.append_nil, ← hrest, unchunk_append hdone rest] at hwhole
  have hle := unchunk_used_le hwhole
  rw [List.length_append] at hle
  apply hne
  rw [← hrest, List.length_eq_zero_iff.1 (show rest.length = 0 by omega), List.append_nil]

/-- **Cut off anywhere**, a reply needs more, and one that ends with the stream needs its end. -/
theorem Reply.needMore_of_cut {q : Bytes} (hpre : q <+: p.bytes) (hne : q ≠ p.bytes ∨ p.body.delimited = false) :
    (otlpHttpRespParse q false).2 = .needMore := by
  obtain ⟨rest, hrest⟩ := hpre
  by_cases hmore : parseHead q = .needMore
  · rw [otlpHttpRespParse_of_needMore hmore]
  have hhead : parseHead q = .head p.parsed := by
    rw [← parseHead_append hmore rest, hrest, Reply.bytes]
    exact p.parseHead_head _
  have hle := bodyOff_le hhead
  rw [otlpHttpRespParse_head hhead]
  -- what the cut leaves of the body
  have hcut : q.drop p.parsed.bodyOff ++ rest = p.body.bytes := by
    rw [← List.drop_append_of_le_length hle, hrest, p.drop_head]
  have hrestne : p.body.delimited = true → rest ≠ [] := by
    rintro hdelimited rfl
    rw [List.append_nil] at hrest
    exact hne.elim (fun h => h hrest) fun h => by rw [h] at hdelimited; cases hdelimited
  have hlength := congrArg List.length hcut
  rw [List.length_append, List.length_drop] at hlength
  cases hbody : p.body with
  | length content =>
    have hframing : p.parsed.framing = .length content.length := by rw [Reply.parsed, hbody, ReplyBody.framing]
    have hpos := List.length_pos_iff.2 (hrestne (by rw [hbody]; rfl))
    rw [hbody, ReplyBody.bytes] at hlength
    rw [hframing]
    dsimp only
    rw [if_pos (by omega)]
  | chunked body =>
    have hframing : p.parsed.framing = .chunked := by rw [Reply.parsed, hbody, ReplyBody.framing]
    have hpos := List.length_pos_iff.2 (hrestne (by rw [hbody]; rfl))
    rw [hbody, ReplyBody.bytes] at hlength hcut
    rw [hframing, unchunk_of_cut ⟨rest, hcut⟩]
    intro hwhole
    have heq := congrArg List.length hwhole
    rw [List.length_drop] at heq
    omega
  | untilClose content =>
    have hframing : p.parsed.framing = .untilEof := by rw [Reply.parsed, hbody, ReplyBody.framing]
    rw [hframing]
    rfl

end Parsed

/-- **Every well-formed reply is accepted, with its meaning and no other.** It is complete as soon as all of it has
been received, or at the end of the stream when that is how its body ends, with its status, its delay, whether it
keeps the connection, and what its body carries. Before that it needs more. -/
theorem otlpHttpRespParse_reply (p : Reply) :
    (∀ atEof, p.body.delimited = true ∨ atEof = true → ∃ resp,
      (otlpHttpRespParse p.bytes atEof).2 = .complete resp ∧
      resp.httpStatus = p.status ∧ resp.retryAfterMs = p.retryAfterMs ∧
      resp.keepaliveEligible = p.keepsConnection ∧
      ((otlpHttpRespParse p.bytes atEof).1.drop resp.bodyOff).take resp.bodyLen = p.body.payload) ∧
    ∀ q, q <+: p.bytes → q ≠ p.bytes ∨ p.body.delimited = false → (otlpHttpRespParse q false).2 = .needMore := by
  refine ⟨fun atEof h => ?_, fun q hpre hne => p.needMore_of_cut hpre hne⟩
  obtain ⟨hverdict, hbody⟩ := p.parse_eq h
  refine ⟨_, hverdict, rfl, rfl, rfl, ?_⟩
  rcases hparse : otlpHttpRespParse p.bytes atEof with ⟨buf, rc⟩
  rw [hparse] at hverdict hbody
  dsimp only at hverdict
  subst hverdict
  exact Option.some.inj hbody

end OtlpC.Http
