import OtlpC.Http.Response

/-!
# The POST state machine

`http_client.c`: a request connects, sends its bytes, reads the response and ends in DONE or FAILED.
`Net` is the sockets of the process; what a call into it or into the allocator answers is an input of
the step (`StartEnv`, `IoEnv`).
-/

namespace OtlpC.Http

/-! ### Sockets -/

/-- A socket is known by the number of the `otlp_socket_connect` that opened it. -/
abbrev Sock := ℕ

/-- Every successful `otlp_socket_connect` with its host and port, and every `otlp_socket_close`. -/
structure Net where
  connects : List (Bytes × ℕ)
  closes : List Sock
deriving Repr, DecidableEq

def Net.empty : Net := { connects := [], closes := [] }

def Net.connect (net : Net) (host : Bytes) (port : ℕ) : Net × Sock :=
  ({ net with connects := net.connects ++ [(host, port)] }, net.connects.length)

def Net.close (net : Net) (s : Sock) : Net := { net with closes := net.closes ++ [s] }

/-- `if (s) otlp_socket_close(s)`. -/
def Net.closeOpt (net : Net) : Option Sock → Net
  | none => net
  | some s => net.close s

def Net.peer (net : Net) (s : Sock) : Option (Bytes × ℕ) := net.connects[s]?

/-! ### Requests -/

inductive OtlpHttpReqState where
  | connecting
  | sending
  | reading
  | done
  | failed
deriving Repr, DecidableEq

/-- `struct otlp_http_request`; the buffers are the bytes they hold. -/
structure OtlpHttpRequest where
  state : OtlpHttpReqState
  sock : Option Sock
  reqBuf : Bytes
  reqSent : ℕ
  respBuf : Bytes
  respCap : ℕ
  httpStatus : ℕ
  retryAfterMs : ℕ
  bodyPtr : Option ℕ
  bodyLen : ℕ
  keepaliveEligible : Bool
  connectTimeoutMs : ℕ
  readTimeoutMs : ℕ
  startMs : ℕ
  lastIoMs : ℕ
deriving Repr, DecidableEq

structure OtlpHttpHeader where
  name : Option Bytes
  value : Option Bytes
deriving Repr, DecidableEq

/-- `a - b` of two `uint64_t`. -/
def sub64 (a b : ℕ) : ℕ := (a % 2 ^ 64 + 2 ^ 64 - b % 2 ^ 64) % 2 ^ 64

def crlf : Bytes := [cr, lf]

/-- `sizeof(head)` in `build_request`. -/
def headMax : ℕ := 1024

def appendHead (head text : Bytes) : Except OtlpStatus Bytes :=
  if headMax - head.length ≤ text.length then .error .errOverflow else .ok (head ++ text)

/-- An extra header that may enter the head block. -/
def headerAllowed (h : OtlpHttpHeader) : Bool :=
  match h.name with
  | none => false
  | some name => !name.isEmpty && !hasCrLf name && !hasCrLf (h.value.getD [])

def appendHeaders (head : Bytes) : List OtlpHttpHeader → Except OtlpStatus Bytes
  | [] => .ok head
  | h :: headers =>
    match appendHead head (h.name.getD [] ++ ascii ": " ++ h.value.getD [] ++ crlf) with
    | .error st => .error st
    | .ok head => appendHeaders head headers

/-- `%zu`. -/
def decimal (n : ℕ) : Bytes := (Nat.toDigits 10 n).map fun c => UInt8.ofNat c.toNat

/-- `build_request`: the head block and the body, or why not. -/
def buildRequest (url : OtlpHttpUrl) (userAgent : Option Bytes) (headers : List OtlpHttpHeader)
    (body : Bytes) (mallocOk : Bool) : Except OtlpStatus Bytes :=
  let ua := userAgent.getD (ascii "otlp-c")
  if hasCrLf ua then .error .errInvalidArgument
  else if !headers.all headerAllowed then .error .errInvalidArgument
  else
    match appendHead [] (ascii "POST " ++ url.path ++ ascii " HTTP/1.1" ++ crlf ++
      ascii "Host: " ++ url.host ++ crlf ++ ascii "User-Agent: " ++ ua ++ crlf) with
    | .error st => .error st
    | .ok head =>
      match appendHeaders head headers with
      | .error st => .error st
      | .ok head =>
        match appendHead head (ascii "Content-Type: application/x-protobuf" ++ crlf ++
          ascii "Content-Length: " ++ decimal body.length ++ crlf ++
          ascii "Connection: keep-alive" ++ crlf ++ crlf) with
        | .error st => .error st
        | .ok head =>
          if sizeMax < head.length + body.length then .error .errOverflow
          else if !mallocOk then .error .errNomem
          else .ok (head ++ body)

/-- What the calls of a start answer: the allocations, the socket layer, the clock. -/
structure StartEnv where
  callocOk : Bool
  mallocOk : Bool
  connect : OtlpStatus
  finish : OtlpStatus
  now : ℕ
deriving Repr, DecidableEq

/-- The request a start hands out. -/
def newRequest (state : OtlpHttpReqState) (sock : Sock) (reqBuf : Bytes)
    (connectTimeoutMs readTimeoutMs now : ℕ) : OtlpHttpRequest :=
  { state, sock := some sock, reqBuf, reqSent := 0, respBuf := [], respCap := 0, httpStatus := 0,
    retryAfterMs := 0, bodyPtr := none, bodyLen := 0, keepaliveEligible := false, connectTimeoutMs,
    readTimeoutMs, startMs := now, lastIoMs := now }

def otlpHttpRequestStartWithSocket (net : Net) (url : OtlpHttpUrl) (userAgent : Option Bytes)
    (headers : List OtlpHttpHeader) (body : Bytes) (connectTimeoutMs readTimeoutMs : ℕ)
    (env : StartEnv) : Option Sock → Net × Except OtlpStatus OtlpHttpRequest
  | none => (net, .error .errNull)
  | some donated =>
    if !env.callocOk then (net, .error .errNomem)
    else
      match buildRequest url userAgent headers body env.mallocOk with
      | .error st => (net.close donated, .error st)
      | .ok reqBuf =>
        (net, .ok (newRequest .sending donated reqBuf connectTimeoutMs readTimeoutMs env.now))

def otlpHttpRequestStart (net : Net) (url : OtlpHttpUrl) (userAgent : Option Bytes)
    (headers : List OtlpHttpHeader) (body : Bytes) (connectTimeoutMs readTimeoutMs : ℕ)
    (env : StartEnv) : Net × Except OtlpStatus OtlpHttpRequest :=
  if !env.callocOk then (net, .error .errNomem)
  else
    match buildRequest url userAgent headers body env.mallocOk with
    | .error st => (net, .error st)
    | .ok reqBuf =>
      match env.connect with
      | .ok =>
        let (net, sock) := net.connect url.host url.port
        match env.finish with
        | .ok =>
          (net, .ok (newRequest .sending sock reqBuf connectTimeoutMs readTimeoutMs env.now))
        | .errWouldblock =>
          (net, .ok (newRequest .connecting sock reqBuf connectTimeoutMs readTimeoutMs env.now))
        | st => (net.close sock, .error st)
      | st => (net, .error st)

/-- Its socket, when the request is done and the response keeps the connection. -/
def otlpHttpRequestDetachSocket (r : OtlpHttpRequest) : OtlpHttpRequest × Option Sock :=
  if r.state ≠ .done || !r.keepaliveEligible then (r, none) else ({ r with sock := none }, r.sock)

def otlpHttpRequestFree (net : Net) (r : OtlpHttpRequest) : Net := net.closeOpt r.sock

def otlpHttpRequestBody (r : OtlpHttpRequest) : Option Bytes :=
  r.bodyPtr.map fun off => (r.respBuf.drop off).take r.bodyLen

/-! ### Step -/

/-- What the calls of a step answer: the socket layer, the allocations, the clock. -/
structure IoEnv where
  finish : OtlpStatus
  write : OtlpStatus
  nWritten : ℕ
  read : OtlpStatus
  bytes : Bytes
  eof : Bool
  allocOk : Bool
  now : ℕ
deriving Repr, DecidableEq

def tryParseResponse (r : OtlpHttpRequest) (atEof : Bool) : OtlpHttpRequest × RespVerdict :=
  match otlpHttpRespParse r.respBuf atEof with
  | (buf, .complete resp) =>
    ({ r with
      respBuf := buf
      httpStatus := resp.httpStatus
      retryAfterMs := resp.retryAfterMs
      keepaliveEligible := resp.keepaliveEligible
      bodyPtr := some resp.bodyOff
      bodyLen := resp.bodyLen }, .complete resp)
  | (buf, rc) => ({ r with respBuf := buf }, rc)

def timedOut (now since timeoutMs : ℕ) : Bool := timeoutMs ≠ 0 && timeoutMs ≤ sub64 now since

def stepConnecting (r : OtlpHttpRequest) (env : IoEnv) : OtlpHttpRequest × OtlpStatus :=
  match env.finish with
  | .ok => ({ r with state := .sending, lastIoMs := env.now }, .ok)
  | .errWouldblock =>
    if timedOut env.now r.startMs r.connectTimeoutMs then ({ r with state := .failed }, .errTimeout)
    else (r, .errWouldblock)
  | st => (r, st)

def stepSending (r : OtlpHttpRequest) (env : IoEnv) : OtlpHttpRequest × OtlpStatus :=
  match env.write with
  | .ok =>
    -- a socket takes no more than it is offered
    let nWritten := min env.nWritten (r.reqBuf.length - r.reqSent)
    let r := { r with
      lastIoMs := if 0 < nWritten then env.now else r.lastIoMs
      reqSent := r.reqSent + nWritten }
    if r.reqSent = r.reqBuf.length then
      let r := { r with state := .reading, respCap := 4096 }
      if !env.allocOk then (r, .errNomem) else ({ r with respBuf := [] }, .ok)
    else (r, .ok)
  | .errWouldblock =>
    if timedOut env.now r.lastIoMs r.readTimeoutMs then ({ r with state := .failed }, .errTimeout)
    else (r, .errWouldblock)
  | st => (r, st)

/-- The `while` that doubles `new_cap` until `need` fits. -/
def growCap (need : ℕ) : ℕ → ℕ → Option ℕ
  | 0, cap => some cap
  | rounds + 1, cap =>
    if cap < need then (if otlpHttpRespMax < cap then none else growCap need rounds (cap * 2)) else some cap

/-- Append what was read; 64 rounds of doubling pass `OTLP_HTTP_RESP_MAX`. -/
def appendRead (r : OtlpHttpRequest) (bytes : Bytes) (allocOk : Bool) (now : ℕ) :
    Except OtlpStatus OtlpHttpRequest :=
  if bytes.isEmpty then .ok r
  else if r.respCap < r.respBuf.length + bytes.length then
    match growCap (r.respBuf.length + bytes.length) 64 r.respCap with
    | none => .error .errOverflow
    | some cap =>
      if !allocOk then .error .errNomem
      else .ok { r with respCap := cap, respBuf := r.respBuf ++ bytes, lastIoMs := now }
  else .ok { r with respBuf := r.respBuf ++ bytes, lastIoMs := now }

/-- The parse of what has been read, and once more at the end of the stream. -/
def parseRead (r : OtlpHttpRequest) (eof : Bool) : OtlpHttpRequest × OtlpStatus :=
  match tryParseResponse r false with
  | (r, .malformed) => (r, .errInvalidResponse)
  | (r, .complete _) => ({ r with state := .done }, .ok)
  | (r, .needMore) =>
    if eof then
      match tryParseResponse r true with
      | (r, .complete _) => ({ r with state := .done }, .ok)
      | (r, _) => (r, .errInvalidResponse)
    else (r, .ok)

def stepReading (r : OtlpHttpRequest) (env : IoEnv) : OtlpHttpRequest × OtlpStatus :=
  match env.read with
  | .ok =>
    match appendRead r (env.bytes.take 4096) env.allocOk env.now with
    | .error st => (r, st)
    | .ok r => parseRead r env.eof
  | .errWouldblock =>
    if timedOut env.now r.lastIoMs r.readTimeoutMs then ({ r with state := .failed }, .errTimeout)
    else (r, .errWouldblock)
  | st => (r, st)

/-- Anything but progress or `OTLP_ERR_WOULDBLOCK` is terminal. -/
def failUnlessProgress (x : OtlpHttpRequest × OtlpStatus) : OtlpHttpRequest × OtlpStatus :=
  if x.2 ≠ .ok && x.2 ≠ .errWouldblock then ({ x.1 with state := .failed }, x.2) else x

def otlpHttpRequestStep (r : OtlpHttpRequest) (env : IoEnv) : OtlpHttpRequest × OtlpStatus :=
  match r.state with
  | .connecting => failUnlessProgress (stepConnecting r env)
  | .sending => failUnlessProgress (stepSending r env)
  | .reading => failUnlessProgress (stepReading r env)
  | .done | .failed => (r, .ok)

/-! ### How a start ends -/

/-- A start on a donated socket fails with the socket closed unless there was no memory for the request. -/
theorem startWithSocket_cases (net : Net) (url : OtlpHttpUrl) (ua : Option Bytes)
    (headers : List OtlpHttpHeader) (body : Bytes) (cto rto : ℕ) (env : StartEnv) (k : Sock) :
    (∃ r, otlpHttpRequestStartWithSocket net url ua headers body cto rto env (some k) = (net, .ok r) ∧
      r.sock = some k) ∨
    (∃ st, otlpHttpRequestStartWithSocket net url ua headers body cto rto env (some k) =
      (if env.callocOk then net.close k else net, .error st)) := by
  unfold otlpHttpRequestStartWithSocket
  cases hcalloc : env.callocOk with
  | false => exact .inr ⟨.errNomem, rfl⟩
  | true =>
    cases hbuild : buildRequest url ua headers body env.mallocOk with
    | error st => exact .inr ⟨st, rfl⟩
    | ok reqBuf => exact .inl ⟨_, rfl, rfl⟩

theorem start_cases (net : Net) (url : OtlpHttpUrl) (ua : Option Bytes)
    (headers : List OtlpHttpHeader) (body : Bytes) (cto rto : ℕ) (env : StartEnv) :
    (∃ r, otlpHttpRequestStart net url ua headers body cto rto env =
      ((net.connect url.host url.port).1, .ok r) ∧ r.sock = some net.connects.length) ∨
    (∃ st, otlpHttpRequestStart net url ua headers body cto rto env = (net, .error st)) ∨
    (∃ st, otlpHttpRequestStart net url ua headers body cto rto env =
      ((net.connect url.host url.port).1.close net.connects.length, .error st)) := by
  unfold otlpHttpRequestStart
  split
  · exact .inr (.inl ⟨_, rfl⟩)
  split
  · exact .inr (.inl ⟨_, rfl⟩)
  split
  · dsimp only [Net.connect]
    split
    · exact .inl ⟨_, rfl, rfl⟩
    · exact .inl ⟨_, rfl, rfl⟩
    · exact .inr (.inr ⟨_, rfl⟩)
  · exact .inr (.inl ⟨_, rfl⟩)

/-! ### A step keeps the socket -/

@[simp] theorem failUnlessProgress_sock (x : OtlpHttpRequest × OtlpStatus) :
    (failUnlessProgress x).1.sock = x.1.sock := by
  unfold failUnlessProgress
  split <;> rfl

@[simp] theorem tryParseResponse_sock (r : OtlpHttpRequest) (atEof : Bool) :
    (tryParseResponse r atEof).1.sock = r.sock := by
  unfold tryParseResponse
  split <;> rfl

theorem stepConnecting_sock (r : OtlpHttpRequest) (env : IoEnv) :
    (stepConnecting r env).1.sock = r.sock := by
  unfold stepConnecting
  split
  · rfl
  · split <;> rfl
  · rfl

theorem stepSending_sock (r : OtlpHttpRequest) (env : IoEnv) : (stepSending r env).1.sock = r.sock := by
  unfold stepSending
  split
  · dsimp only
    split
    · split <;> rfl
    · rfl
  · split <;> rfl
  · rfl

theorem parseRead_sock (r : OtlpHttpRequest) (eof : Bool) : (parseRead r eof).1.sock = r.sock := by
  have hfirst := tryParseResponse_sock r false
  unfold parseRead
  split
  · next r' h => rw [h] at hfirst; exact hfirst
  · next r' resp h => rw [h] at hfirst; exact hfirst
  · next r' h =>
    rw [h] at hfirst
    have hagain := tryParseResponse_sock r' true
    split
    · split
      · next r'' resp h' => rw [h'] at hagain; exact hagain.trans hfirst
      · next r'' rc hne h' => rw [h'] at hagain; exact hagain.trans hfirst
    · exact hfirst

theorem appendRead_sock {r r' : OtlpHttpRequest} {bytes : Bytes} {allocOk : Bool} {now : ℕ}
    (h : appendRead r bytes allocOk now = .ok r') : r'.sock = r.sock := by
  unfold appendRead at h
  split at h
  · cases h; rfl
  split at h
  · split at h
    · contradiction
    · split at h
      · contradiction
      · cases h; rfl
  · cases h; rfl

theorem stepReading_sock (r : OtlpHttpRequest) (env : IoEnv) : (stepReading r env).1.sock = r.sock := by
  unfold stepReading
  split
  · split
    · rfl
    · next r' h => rw [parseRead_sock, appendRead_sock h]
  · split <;> rfl
  · rfl

@[simp] theorem otlpHttpRequestStep_sock (r : OtlpHttpRequest) (env : IoEnv) :
    (otlpHttpRequestStep r env).1.sock = r.sock := by
  unfold otlpHttpRequestStep
  split
  · rw [failUnlessProgress_sock, stepConnecting_sock]
  · rw [failUnlessProgress_sock, stepSending_sock]
  · rw [failUnlessProgress_sock, stepReading_sock]
  · rfl
  · rfl

end OtlpC.Http
