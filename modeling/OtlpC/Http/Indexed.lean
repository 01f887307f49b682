import OtlpC.Http.Response

/-!
# The response parser, index by index

`http_response_parser.c` once more, as it moves through the buffer: every `buf[i]` is a `load` that faults outside
of the `len` bytes, every write is checked, and every loop is given a number of rounds and faults when it uses
them up. A pointer into the buffer is its index. `strncasecmp` reads up to its first mismatch, `memcmp` all it is
given.
-/

namespace OtlpC.Http.Indexed

/-- What a run of the C code must not do. -/
inductive Fault where
  | outOfBounds
  | diverged
deriving Repr, DecidableEq

abbrev Checked := Except Fault

def load (buf : Bytes) (i : ℕ) : Checked UInt8 :=
  if i < buf.length then .ok (byteAt buf i) else .error .outOfBounds

/-- `memmove(buf + dst, buf + src, n)`. -/
def move (buf : Bytes) (dst src n : ℕ) : Checked Bytes :=
  if dst + n ≤ buf.length ∧ src + n ≤ buf.length then .ok (memmove buf dst src n) else .error .outOfBounds

/-- As many rounds as any loop over the buffer may take. -/
def roundsOf (buf : Bytes) : ℕ := buf.length + 2

/-- `while (i < stop && p(buf[base + i])) i++`. -/
def scanWhile (p : UInt8 → Bool) (buf : Bytes) (base stop : ℕ) : ℕ → ℕ → Checked ℕ
  | 0, _ => .error .diverged
  | rounds + 1, i =>
    if i < stop then do
      let c ← load buf (base + i)
      if p c then scanWhile p buf base stop rounds (i + 1) else .ok i
    else .ok i

def memcmp (buf : Bytes) : ℕ → Bytes → Checked Bool
  | _, [] => .ok true
  | i, c :: needle => do
    let b ← load buf i
    let rest ← memcmp buf (i + 1) needle
    return b == c && rest

/-- The `for` of `find_substring`; `last` is `hay_len - needle_len`. -/
def findLoop (buf : Bytes) (base : ℕ) (needle : Bytes) (last : ℕ) : ℕ → ℕ → Checked (Option ℕ)
  | 0, _ => .error .diverged
  | rounds + 1, i =>
    if i ≤ last then do
      if ← memcmp buf (base + i) needle then .ok (some i) else findLoop buf base needle last rounds (i + 1)
    else .ok none

/-- `(int) n` of a `size_t`. -/
def int32 (n : ℕ) : ℤ := if n % 2 ^ 32 < 2 ^ 31 then n % 2 ^ 32 else n % 2 ^ 32 - 2 ^ 32

def findSubstring (buf : Bytes) (base hayLen : ℕ) (needle : Bytes) : Checked ℤ :=
  if hayLen < needle.length then .ok (-1)
  else do
    match ← findLoop buf base needle (hayLen - needle.length) (roundsOf buf) 0 with
    | some i => .ok (int32 i)
    | none => .ok (-1)

/-! ### Chunked bodies -/

/-- The `while` over a chunk-size line: the size, the number of digits and `line_end`. -/
def sizeLoop (buf : Bytes) (base len : ℕ) : ℕ → ℕ → ℕ → ℕ → Checked (Option (ℕ × ℕ × ℕ))
  | 0, _, _, _ => .error .diverged
  | rounds + 1, lineEnd, size, digits =>
    if lineEnd < len then do
      let c ← load buf (base + lineEnd)
      if c == cr || c == semicolon then .ok (some (size, digits, lineEnd))
      else
        match hexValue c with
        | none => .ok none
        | some d =>
          if otlpHttpRespMax < size * 16 + d then .ok none
          else sizeLoop buf base len rounds (lineEnd + 1) (size * 16 + d) (digits + 1)
    else .ok (some (size, digits, lineEnd))

def crlfAt (buf : Bytes) (i : ℕ) : Checked Bool := do
  let c ← load buf i
  if c == cr then do
    let d ← load buf (i + 1)
    return d == lf
  else return false

def lastRound (buf : Bytes) (base len lineEnd : ℕ) : Checked ChunkRound :=
  if len - (lineEnd + 2) < 2 then .ok .needMore
  else do
    if ← crlfAt buf (base + (lineEnd + 2)) then .ok .last
    else do
      let off ← findSubstring buf (base + (lineEnd + 2)) (len - (lineEnd + 2)) crlfcrlf
      if off < 0 then .ok .needMore else .ok .last

def dataRound (buf : Bytes) (base len lineEnd size : ℕ) : Checked ChunkRound :=
  if len < lineEnd + 2 + size + 2 then .ok .needMore
  else do
    if ← crlfAt buf (base + (lineEnd + 2 + size)) then .ok (.data (lineEnd + 2) size) else .ok .malformed

/-- One round of the `for (;;)` of `decode_chunked_in_place`, on the `len` bytes from `base` on. -/
def chunkRound (buf : Bytes) (base len src : ℕ) : Checked ChunkRound := do
  match ← sizeLoop buf base len (roundsOf buf) src 0 0 with
  | none => .ok .malformed
  | some (size, digits, lineEnd) =>
    if digits = 0 || len ≤ lineEnd then .ok .needMore
    else do
      let lineEnd ← scanWhile (· != cr) buf base len (roundsOf buf) lineEnd
      if len ≤ lineEnd + 1 then .ok .needMore
      else do
        let c ← load buf (base + (lineEnd + 1))
        if c != lf then .ok .malformed
        else if size = 0 then lastRound buf base len lineEnd
        else dataRound buf base len lineEnd size

def decodeChunkedLoop (base len : ℕ) : ℕ → Bytes → ℕ → ℕ → Checked (Bytes × ChunkVerdict)
  | 0, _, _, _ => .error .diverged
  | rounds + 1, buf, src, dst => do
    match ← chunkRound buf base len src with
    | .needMore => .ok (buf, .needMore)
    | .malformed => .ok (buf, .malformed)
    | .last => .ok (buf, .complete dst)
    | .data off size => do
      let buf ← move buf (base + dst) (base + off) size
      decodeChunkedLoop base len rounds buf (off + size + 2) (dst + size)

def decodeChunkedInPlace (buf : Bytes) (base len : ℕ) : Checked (Bytes × ChunkVerdict) :=
  decodeChunkedLoop base len (roundsOf buf) buf 0 0

/-! ### The header block -/

def strncasecmp (buf : Bytes) : ℕ → Bytes → Checked Bool
  | _, [] => .ok true
  | i, c :: name => do
    let b ← load buf i
    if toLower b == toLower c then strncasecmp buf (i + 1) name else .ok false

def skipSpaces (buf : Bytes) (v eol : ℕ) : Checked ℕ := scanWhile (· == space) buf 0 eol (roundsOf buf) v

def contentLengthLoop (buf : Bytes) (eol : ℕ) : ℕ → ℕ → ℕ → Checked (Option ℕ)
  | 0, _, _ => .error .diverged
  | rounds + 1, v, val =>
    if v < eol then do
      let c ← load buf v
      if !isDigit c then .ok (some val)
      else if otlpHttpRespMax < val * 10 + digitValue c then .ok none
      else contentLengthLoop buf eol rounds (v + 1) (val * 10 + digitValue c)
    else .ok (some val)

/-- The digits of a `Retry-After`, `room` of which may follow. -/
def retryAfterLoop (buf : Bytes) (eol : ℕ) : ℕ → ℕ → ℕ → ℕ → Checked ℕ
  | 0, _, _, _ => .error .diverged
  | rounds + 1, room, v, sec =>
    if v < eol then do
      let c ← load buf v
      if isDigit c && 0 < room then retryAfterLoop buf eol rounds (room - 1) (v + 1) (sec * 10 + digitValue c)
      else .ok sec
    else .ok sec

def headerLine (buf : Bytes) (h : HeaderScan) (line eol : ℕ) : Checked (Option HeaderScan) := do
  if ← strncasecmp buf line (ascii "Content-Length:") then do
    let v ← skipSpaces buf (line + 15) eol
    match ← contentLengthLoop buf eol (roundsOf buf) v 0 with
    | none => .ok none
    | some val =>
      if h.contentLength.isSome && h.contentLength != some val then .ok none
      else .ok (some { h with contentLength := some val })
  else if ← strncasecmp buf line (ascii "Transfer-Encoding:") then do
    let v ← skipSpaces buf (line + 18) eol
    let chunked ← if eol - v = 7 then strncasecmp buf v (ascii "chunked") else .ok false
    .ok (some { h with teSeen := true, teChunked := h.teChunked || chunked })
  else if ← strncasecmp buf line (ascii "Retry-After:") then do
    let v ← skipSpaces buf (line + 12) eol
    let sec ← retryAfterLoop buf eol (roundsOf buf) 10 v 0
    .ok (some { h with retryAfterMs := min sec otlpRetryAfterMaxS * 1000 })
  else if ← strncasecmp buf line (ascii "Connection:") then do
    let v ← skipSpaces buf (line + 11) eol
    if ← strncasecmp buf v (ascii "close") then .ok (some { h with keepaliveEligible := false })
    else do
      let keepAlive ← if 10 ≤ eol - v then strncasecmp buf v (ascii "keep-alive") else .ok false
      .ok (some (if keepAlive then { h with keepaliveEligible := true } else h))
  else .ok (some h)

def headerScan (buf : Bytes) (hdrEnd : ℕ) : ℕ → HeaderScan → ℕ → Checked (Option HeaderScan)
  | 0, _, _ => .error .diverged
  | rounds + 1, h, hdr =>
    if hdr < hdrEnd then do
      let eol ← scanWhile (· != cr) buf 0 hdrEnd (roundsOf buf) hdr
      if hdrEnd ≤ eol then .ok none
      else do
        match ← headerLine buf h hdr eol with
        | none => .ok none
        | some h => headerScan buf hdrEnd rounds h (eol + 2)
    else .ok (some h)

def digitAt (buf : Bytes) (i : ℕ) : Checked Bool := do
  let c ← load buf i
  return isDigit c

/-- `buf[5] == '1' && buf[6] == '.' && buf[7] >= '1'`. -/
def keepaliveDefault (buf : Bytes) : Checked Bool := do
  if (← load buf 5) == 0x31 then do
    if (← load buf 6) == 0x2e then do
      let c ← load buf 7
      return decide (0x31 ≤ c)
    else return false
  else return false

def statusLine (buf : Bytes) (bodyOff : ℕ) : Checked (Option (ℕ × Bool)) := do
  if ← memcmp buf 0 (ascii "HTTP/") then do
    let p ← scanWhile (· != space) buf 0 bodyOff (roundsOf buf) 5
    if bodyOff ≤ p then .ok none
    else if (← load buf p) != space then .ok none
    else if bodyOff < p + 1 + 3 then .ok none
    else if !(← digitAt buf (p + 1)) then .ok none
    else if !(← digitAt buf (p + 2)) then .ok none
    else if !(← digitAt buf (p + 3)) then .ok none
    else do
      let c ← load buf (p + 1)
      let d ← load buf (p + 2)
      let e ← load buf (p + 3)
      let keepalive ← keepaliveDefault buf
      .ok (some (digitValue c * 100 + digitValue d * 10 + digitValue e, keepalive))
  else .ok none

def otlpHttpRespParse (buf : Bytes) (atEof : Bool) (out : OtlpHttpResp) : Checked (ℤ × Bytes × OtlpHttpResp) := do
  let hdrEndOff ← findSubstring buf 0 buf.length crlfcrlf
  if hdrEndOff < 0 then .ok (0, buf, out)
  else if buf.length < 12 then .ok (-1, buf, out)
  else do
    let bodyOff := hdrEndOff.toNat + 4
    match ← statusLine buf bodyOff with
    | none => .ok (-1, buf, out)
    | some (httpStatus, keepalive) => do
      let hdr ← scanWhile (· != lf) buf 0 bodyOff (roundsOf buf) 0
      if bodyOff ≤ hdr then .ok (-1, buf, out)
      else do
        match ← headerScan buf bodyOff (roundsOf buf)
          { contentLength := none, teSeen := false, teChunked := false, retryAfterMs := 0,
            keepaliveEligible := keepalive } (hdr + 1) with
        | none => .ok (-1, buf, out)
        | some h =>
          if h.teSeen then
            if h.contentLength.isSome || !h.teChunked then .ok (-1, buf, out)
            else do
              match ← decodeChunkedInPlace buf bodyOff (buf.length - bodyOff) with
              | (buf, .needMore) => .ok (0, buf, out)
              | (buf, .malformed) => .ok (-1, buf, out)
              | (buf, .complete decoded) =>
                .ok (1, buf, { httpStatus, retryAfterMs := h.retryAfterMs,
                               keepaliveEligible := h.keepaliveEligible, bodyOff, bodyLen := decoded })
          else
            match h.contentLength with
            | some n =>
              if buf.length - bodyOff < n then .ok (0, buf, out)
              else .ok (1, buf, { httpStatus, retryAfterMs := h.retryAfterMs,
                                  keepaliveEligible := h.keepaliveEligible, bodyOff, bodyLen := n })
            | none =>
              if !atEof then .ok (0, buf, out)
              else .ok (1, buf, { httpStatus, retryAfterMs := h.retryAfterMs, keepaliveEligible := false,
                                  bodyOff, bodyLen := buf.length - bodyOff })

end OtlpC.Http.Indexed
