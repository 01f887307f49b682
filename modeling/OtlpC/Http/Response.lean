import OtlpC.Http.Url
import OtlpC.Lib.Occurrence

/-!
# The response parser

`http_response_parser.c`: `find_substring`, `decode_chunked_in_place` and `otlp_http_resp_parse`. The
buffer is the list of its `len` bytes; a parse returns the verdict and the buffer it leaves, since a
chunked body is compacted in place. A pointer into the buffer is what follows it in the buffer, and the
bounded compares read no further than the `'\r'` that ends a line, which no header name holds.
-/

namespace OtlpC.Http

open Occurrence

def otlpHttpRespMax : ℕ := 64 * 1024

def otlpRetryAfterMaxS : ℕ := 4294967

abbrev semicolon : UInt8 := 0x3b

def crlfcrlf : Bytes := [cr, lf, cr, lf]

def byteAt (buf : Bytes) (i : ℕ) : UInt8 := buf.getD i 0

/-- `find_substring`: the first position of `needle` in `hay`. -/
def findSubstring (hay needle : Bytes) : Option ℕ :=
  if hay.length < needle.length then none
  else (List.range (hay.length - needle.length + 1)).find? fun i =>
    (hay.drop i).take needle.length == needle

theorem findSubstring_eq_some {hay needle : Bytes} {i : ℕ} :
    findSubstring hay needle = some i ↔ FirstAt needle hay i := by
  unfold findSubstring
  split
  next hlt =>
    refine iff_of_false (by simp) fun h => ?_
    have hlen := h.occurs.length_le
    rw [List.length_drop] at hlen
    omega
  next hle =>
    rw [List.find?_range_eq_some]
    simp only [beq_iff_eq, List.mem_range, Bool.not_eq_true', beq_eq_false_iff_ne, ne_eq, ← occursAt_iff]
    constructor
    · rintro ⟨hocc, -, hfirst⟩
      exact ⟨hocc, hfirst⟩
    · intro h
      refine ⟨h.occurs, ?_, h.first⟩
      by_cases hne : needle = []
      · by_contra hi
        exact h.first 0 (by omega) (hne ▸ List.nil_prefix)
      · have hend := h.occurs.le hne
        omega

/-- `memmove(buf + dst, buf + src, n)`. -/
def memmove (buf : Bytes) (dst src n : ℕ) : Bytes :=
  buf.take dst ++ (buf.drop src).take n ++ buf.drop (dst + n)

/-! ### Chunked bodies -/

def hexValue (c : UInt8) : Option ℕ :=
  if 0x30 ≤ c && c ≤ 0x39 then some (c.toNat - 0x30)
  else if 0x61 ≤ c && c ≤ 0x66 then some (c.toNat - 0x61 + 10)
  else if 0x41 ≤ c && c ≤ 0x46 then some (c.toNat - 0x41 + 10)
  else none

/-- What `hexValue` accepts are the hexadecimal digits of either case, with what they stand for. -/
theorem valueOf_hexDigits (c : UInt8) : Numerals.valueOf hexDigits c = hexValue c := by
  have hall : ∀ n : Fin 256, Numerals.valueOf hexDigits (UInt8.ofNat n) = hexValue (UInt8.ofNat n) := by
    decide +kernel
  simpa using hall ⟨c.toNat, c.toNat_lt⟩

/-- The `while` over a chunk-size line: the size and the number of digits. -/
def chunkSizeLoop (size digits : ℕ) : Bytes → Option (ℕ × ℕ)
  | [] => some (size, digits)
  | c :: line =>
    if c == cr || c == semicolon then some (size, digits)
    else
      match hexValue c with
      | none => none
      | some d =>
        if otlpHttpRespMax < size * 16 + d then none
        else chunkSizeLoop (size * 16 + d) (digits + 1) line

/-- What one round of the `for (;;)` of `decode_chunked_in_place` finds at `src`. -/
inductive ChunkRound where
  | needMore
  | malformed
  | last
  | data (off size : ℕ)
deriving Repr, DecidableEq

def chunkRound (buf : Bytes) (src : ℕ) : ChunkRound :=
  match chunkSizeLoop 0 0 (buf.drop src) with
  | none => .malformed
  | some (size, digits) =>
    if digits = 0 || buf.length ≤ src + digits then .needMore
    else
      -- chunk extensions up to the CRLF
      let lineEnd := src + digits + ((buf.drop (src + digits)).takeWhile (· != cr)).length
      if buf.length ≤ lineEnd + 1 then .needMore
      else if byteAt buf (lineEnd + 1) != lf then .malformed
      else if size = 0 then
        let t := buf.drop (lineEnd + 2)
        if t.length < 2 then .needMore
        else if byteAt t 0 == cr && byteAt t 1 == lf then .last
        else
          match findSubstring t crlfcrlf with
          | none => .needMore
          | some _ => .last
      else if buf.length < lineEnd + 2 + size + 2 then .needMore
      else if byteAt buf (lineEnd + 2 + size) != cr || byteAt buf (lineEnd + 2 + size + 1) != lf then
        .malformed
      else .data (lineEnd + 2) size

/-- Its return value, with `*out_len` when it is 1. -/
inductive ChunkVerdict where
  | needMore
  | malformed
  | complete (outLen : ℕ)
deriving Repr, DecidableEq

/-- The rounds of `decode_chunked_in_place`; a round that finds data moves `src` forward, so that
`buf.length + 1` rounds are never used up. -/
def decodeChunkedLoop : ℕ → Bytes → ℕ → ℕ → Bytes × ChunkVerdict
  | 0, buf, _, _ => (buf, .needMore)
  | rounds + 1, buf, src, dst =>
    match chunkRound buf src with
    | .needMore => (buf, .needMore)
    | .malformed => (buf, .malformed)
    | .last => (buf, .complete dst)
    | .data off size => decodeChunkedLoop rounds (memmove buf dst off size) (off + size + 2) (dst + size)

def decodeChunkedInPlace (buf : Bytes) : Bytes × ChunkVerdict :=
  decodeChunkedLoop (buf.length + 1) buf 0 0

/-! ### The header block -/

def toLower (c : UInt8) : UInt8 := if 0x41 ≤ c && c ≤ 0x5a then c + 0x20 else c

/-- `otlp_strncasecmp(s, name, strlen(name)) == 0`. -/
def startsWithCi (s name : Bytes) : Bool := (s.take name.length).map toLower == name.map toLower

structure HeaderScan where
  contentLength : Option ℕ
  teSeen : Bool
  teChunked : Bool
  retryAfterMs : ℕ
  keepaliveEligible : Bool
deriving Repr, DecidableEq

def skipSpaces (v : Bytes) : Bytes := v.dropWhile (· == space)

/-- The digits of a `Content-Length`; `none` beyond `OTLP_HTTP_RESP_MAX`. -/
def contentLengthLoop (val : ℕ) : Bytes → Option ℕ
  | [] => some val
  | c :: v =>
    if !isDigit c then some val
    else if otlpHttpRespMax < val * 10 + digitValue c then none
    else contentLengthLoop (val * 10 + digitValue c) v

/-- The digits of a `Retry-After`, at most ten of them. -/
def retryAfterLoop : ℕ → ℕ → Bytes → ℕ
  | 0, sec, _ => sec
  | _ + 1, sec, [] => sec
  | room + 1, sec, c :: v =>
    if !isDigit c then sec else retryAfterLoop room (sec * 10 + digitValue c) v

def headerLine (h : HeaderScan) (line : Bytes) : Option HeaderScan :=
  if startsWithCi line (ascii "Content-Length:") then
    match contentLengthLoop 0 (skipSpaces (line.drop 15)) with
    | none => none
    | some val =>
      if h.contentLength.isSome && h.contentLength != some val then none
      else some { h with contentLength := some val }
  else if startsWithCi line (ascii "Transfer-Encoding:") then
    let v := skipSpaces (line.drop 18)
    some { h with
      teSeen := true
      teChunked := h.teChunked || (v.length == 7 && startsWithCi v (ascii "chunked")) }
  else if startsWithCi line (ascii "Retry-After:") then
    let sec := retryAfterLoop 10 0 (skipSpaces (line.drop 12))
    some { h with retryAfterMs := min sec otlpRetryAfterMaxS * 1000 }
  else if startsWithCi line (ascii "Connection:") then
    let v := skipSpaces (line.drop 11)
    if startsWithCi v (ascii "close") then some { h with keepaliveEligible := false }
    else if 10 ≤ v.length && startsWithCi v (ascii "keep-alive") then
      some { h with keepaliveEligible := true }
    else some h
  else some h

/-- The `while (hdr < hdr_end)` of the header scan; every round drops a line, so that as many rounds
as there are bytes are never used up. -/
def headerScan : ℕ → HeaderScan → Bytes → Option HeaderScan
  | 0, h, _ => some h
  | rounds + 1, h, hdr =>
    if hdr.isEmpty then some h
    else
      let line := hdr.takeWhile (· != cr)
      if line.length = hdr.length then none
      else
        match headerLine h line with
        | none => none
        | some h' => headerScan rounds h' (hdr.drop (line.length + 2))

/-- The status line of the header block `head`: the status and the keep-alive default of the version. -/
def statusLine (head : Bytes) : Option (ℕ × Bool) :=
  if head.take 5 ≠ ascii "HTTP/" then none
  else
    match (head.drop 5).dropWhile (· != space) with
    | [] => none
    | _ :: p =>
      if p.length < 3 || !isDigit (byteAt p 0) || !isDigit (byteAt p 1) || !isDigit (byteAt p 2) then none
      else some (digitValue (byteAt p 0) * 100 + digitValue (byteAt p 1) * 10 + digitValue (byteAt p 2),
        byteAt head 5 == 0x31 && byteAt head 6 == 0x2e && 0x31 ≤ byteAt head 7)

/-- How the body ends. -/
inductive Framing where
  | chunked
  | length (n : ℕ)
  | untilEof
deriving Repr, DecidableEq

/-- What the header block says. -/
structure Head where
  bodyOff : ℕ
  httpStatus : ℕ
  retryAfterMs : ℕ
  keepaliveEligible : Bool
  framing : Framing
deriving Repr, DecidableEq

inductive HeadVerdict where
  | needMore
  | malformed
  | head (h : Head)
deriving Repr, DecidableEq

/-- `otlp_http_resp_parse` up to the body. -/
def parseHead (buf : Bytes) : HeadVerdict :=
  match findSubstring buf crlfcrlf with
  | none => .needMore
  | some hdrEndOff =>
    let bodyOff := hdrEndOff + 4
    let head := buf.take bodyOff
    if buf.length < 12 then .malformed
    else
      match statusLine head with
      | none => .malformed
      | some (httpStatus, keepalive) =>
        match head.dropWhile (· != lf) with
        | [] => .malformed
        | _ :: hdr =>
          match headerScan hdr.length
            { contentLength := none, teSeen := false, teChunked := false, retryAfterMs := 0,
              keepaliveEligible := keepalive } hdr with
          | none => .malformed
          | some h =>
            if h.teSeen then
              if h.contentLength.isSome || !h.teChunked then .malformed
              else .head { bodyOff, httpStatus, retryAfterMs := h.retryAfterMs,
                           keepaliveEligible := h.keepaliveEligible, framing := .chunked }
            else
              match h.contentLength with
              | some n => .head { bodyOff, httpStatus, retryAfterMs := h.retryAfterMs,
                                  keepaliveEligible := h.keepaliveEligible, framing := .length n }
              | none => .head { bodyOff, httpStatus, retryAfterMs := h.retryAfterMs,
                                keepaliveEligible := false, framing := .untilEof }

/-! ### A whole response -/

/-- The parsed fields; `body` points `bodyOff` bytes into the buffer. -/
structure OtlpHttpResp where
  httpStatus : ℕ
  retryAfterMs : ℕ
  keepaliveEligible : Bool
  bodyOff : ℕ
  bodyLen : ℕ
deriving Repr, DecidableEq

inductive RespVerdict where
  | needMore
  | malformed
  | complete (resp : OtlpHttpResp)
deriving Repr, DecidableEq

def Head.resp (h : Head) (bodyLen : ℕ) : OtlpHttpResp :=
  { httpStatus := h.httpStatus, retryAfterMs := h.retryAfterMs,
    keepaliveEligible := h.keepaliveEligible, bodyOff := h.bodyOff, bodyLen }

def otlpHttpRespParse (buf : Bytes) (atEof : Bool) : Bytes × RespVerdict :=
  match parseHead buf with
  | .needMore => (buf, .needMore)
  | .malformed => (buf, .malformed)
  | .head h =>
    match h.framing with
    | .chunked =>
      let (body, rc) := decodeChunkedInPlace (buf.drop h.bodyOff)
      let buf' := buf.take h.bodyOff ++ body
      match rc with
      | .needMore => (buf', .needMore)
      | .malformed => (buf', .malformed)
      | .complete decoded => (buf', .complete (h.resp decoded))
    | .length n =>
      if buf.length - h.bodyOff < n then (buf, .needMore) else (buf, .complete (h.resp n))
    | .untilEof =>
      if !atEof then (buf, .needMore) else (buf, .complete (h.resp (buf.length - h.bodyOff)))

end OtlpC.Http
