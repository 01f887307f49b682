import OtlpC.Exporter.State
import OtlpC.Proto.Decode
import OtlpC.Retry.Policy
import Mathlib.Logic.Function.Basic

/-!
# The exporter's operations

`exporter.c` function by function: the emits, `clear_in_flight_batch`, `try_start_post`,
`record_outcome`, the six parts of the loop of `otlp_exporter_tick`, and `otlp_exporter_free`. They act
on a `World`: the exporter, the sockets of the process, and the history of what the exporter did with
its items, its requests and its event callback.
-/

namespace OtlpC.Exporter

open Http

/-- The function that called `free_item`. -/
inductive Freer where
  | emitMoveCommon
  | clearInFlightBatch
  | drainSignal
deriving Repr, DecidableEq

/-- What can be seen of the exporter from outside. -/
inductive Obs (ι : Type*) where
  /-- An item was handed over to `emit_move_common`, by a caller or as a clone. -/
  | handed (s : Signal) (item : ι)
  /-- The queue accepted the item. -/
  | accepted (s : Signal) (item : ι)
  | freed (s : Signal) (item : ι) (by_ : Freer)
  /-- The encoder read these items. -/
  | encoded (s : Signal) (items : List ι)
  /-- `try_start_post` started a request with these items in its body, to be written to `sock`. -/
  | posted (s : Signal) (items : List ι) (sock : Option Sock)
  /-- The request with these items ended; status 0 when it failed. -/
  | answered (s : Signal) (items : List ι) (status : ℤ)
  | event (ev : OtlpEvent)
deriving DecidableEq

/-- The exporter in its environment. `inFlightItems` are the items that the body of the last request
was encoded from. -/
structure World (ι : Type*) (cap : ℕ) where
  exp : OtlpExporter ι cap
  net : Net
  inFlightItems : List ι
  history : List (Obs ι)

variable {ι : Type*} {cap : ℕ}

/-- Change `sig[s]`. -/
def World.modSig (w : World ι cap) (s : Signal) (f : SignalState ι cap → SignalState ι cap) :
    World ι cap :=
  { w with exp := { w.exp with sig := Function.update w.exp.sig s (f (w.exp.sig s)) } }

def World.observe (w : World ι cap) (obs : List (Obs ι)) : World ι cap :=
  { w with history := w.history ++ obs }

/-- `otlp_exporter_event_log`. -/
def World.event (w : World ι cap) (ev : OtlpEvent) : World ι cap := w.observe [.event ev]

@[simp] theorem modSig_net (w : World ι cap) (s : Signal) (f : SignalState ι cap → SignalState ι cap) :
    (w.modSig s f).net = w.net := rfl
@[simp] theorem modSig_inFlightItems (w : World ι cap) (s : Signal)
    (f : SignalState ι cap → SignalState ι cap) : (w.modSig s f).inFlightItems = w.inFlightItems := rfl
@[simp] theorem modSig_history (w : World ι cap) (s : Signal)
    (f : SignalState ι cap → SignalState ι cap) : (w.modSig s f).history = w.history := rfl
@[simp] theorem modSig_exp (w : World ι cap) (s : Signal) (f : SignalState ι cap → SignalState ι cap) :
    (w.modSig s f).exp = { w.exp with sig := Function.update w.exp.sig s (f (w.exp.sig s)) } := rfl
@[simp] theorem observe_net (w : World ι cap) (obs : List (Obs ι)) : (w.observe obs).net = w.net := rfl
@[simp] theorem observe_inFlightItems (w : World ι cap) (obs : List (Obs ι)) :
    (w.observe obs).inFlightItems = w.inFlightItems := rfl
@[simp] theorem observe_history (w : World ι cap) (obs : List (Obs ι)) :
    (w.observe obs).history = w.history ++ obs := rfl
@[simp] theorem observe_exp (w : World ι cap) (obs : List (Obs ι)) : (w.observe obs).exp = w.exp := rfl

/-! ### Emit -/

/-- `emit_move_common` of a non-NULL item that has been handed over. -/
def emitHanded (w : World ι cap) (s : Signal) (item : ι) : World ι cap × OtlpStatus :=
  if w.exp.shutdownRequested then (w.observe [.freed s item .emitMoveCommon], .errShutdown)
  else
    match (w.exp.sig s).queue.push item with
    | none =>
      (((w.observe [.freed s item .emitMoveCommon]).modSig s fun sg =>
        { sg with droppedFull := sg.droppedFull + 1 }).event
          { code := .queueFull, level := .warn, signal := s, count := 1, dropReason := .queueFull },
        .errBufferFull)
    | some queue =>
      ((w.observe [.accepted s item]).modSig s fun sg => { sg with queue, emitted := sg.emitted + 1 },
        .ok)

def emitMoveCommon (w : World ι cap) (s : Signal) : Option ι → World ι cap × OtlpStatus
  | none => (w, .errNull)
  | some item => emitHanded (w.observe [.handed s item]) s item

/-- `emit_clone_common` of an item that is NULL or not, with the clone made of it. -/
def emitCloneCommon (w : World ι cap) (s : Signal) (isNull : Bool) (clone : Option ι) :
    World ι cap × OtlpStatus :=
  if isNull then (w, .errNull)
  else if w.exp.shutdownRequested then (w, .errShutdown)
  else
    match clone with
    | none => (w, .errNomem)
    | some item => emitMoveCommon w s (some item)

def otlpExporterShutdown (w : World ι cap) : World ι cap :=
  { w with exp := { w.exp with shutdownRequested := true } }

/-! ### Building a request -/

/-- What a build learns from its environment: whether the encode buffer of a size can be had, what the
encoder returns, and how the request starts. -/
structure BuildEnv where
  bufInitOk : ℕ → Bool
  encoded : Except OtlpStatus Bytes
  start : StartEnv

def startPostCommon (net : Net) (url : OtlpHttpUrl) (userAgent : Option Bytes)
    (headers : List OtlpHttpHeader) (body : Bytes) (connectTimeoutMs readTimeoutMs : ℕ) (env : StartEnv)
    (reuseSocket : Option Sock) : Net × Except OtlpStatus OtlpHttpRequest :=
  match reuseSocket with
  | some sock =>
    otlpHttpRequestStartWithSocket net url userAgent headers body connectTimeoutMs readTimeoutMs env
      (some sock)
  | none => otlpHttpRequestStart net url userAgent headers body connectTimeoutMs readTimeoutMs env

/-- The three `otlp_exporter_otel_build_*_request`, which ask for `perItem` bytes an item and `base`
more, called with the arguments `try_start_post` passes. -/
def buildRequestWith (perItem base : ℕ) (w : World ι cap) (s : Signal) (env : BuildEnv) :
    World ι cap × Except OtlpStatus OtlpHttpRequest :=
  let items := (w.exp.sig s).pending
  if !env.bufInitOk (items.length * perItem + base) then (w, .error .errNomem)
  else
    let w := w.observe [.encoded s items]
    match env.encoded with
    | .error st => (w, .error st)
    | .ok body =>
      let (net, r) := startPostCommon w.net (w.exp.sig s).url (some w.exp.userAgent) w.exp.httpHeaders
        body w.exp.connectTimeoutMs w.exp.readTimeoutMs env.start w.exp.keepaliveSock
      ({ w with net }, r)

def otlpExporterOtelBuildSpanRequest (w : World ι cap) (env : BuildEnv) :=
  buildRequestWith 256 1024 w .span env

def otlpExporterOtelBuildMetricRequest (w : World ι cap) (env : BuildEnv) :=
  buildRequestWith 128 512 w .metric env

def otlpExporterOtelBuildLogRequest (w : World ι cap) (env : BuildEnv) :=
  buildRequestWith 128 512 w .log env

def specBuildRequest (w : World ι cap) (env : BuildEnv) :
    Signal → World ι cap × Except OtlpStatus OtlpHttpRequest
  | .span => otlpExporterOtelBuildSpanRequest w env
  | .metric => otlpExporterOtelBuildMetricRequest w env
  | .log => otlpExporterOtelBuildLogRequest w env

/-- The exporter once the request `r` of signal `s` has started. -/
def startedPost (w : World ι cap) (s : Signal) (r : OtlpHttpRequest) : World ι cap :=
  let items := (w.exp.sig s).pending
  let w := { w with
    exp := { w.exp with
      inFlight := some r
      keepaliveSock := none
      inFlightSignal := s
      inFlightCount := items.length }
    inFlightItems := items }
  (w.modSig s fun sg => { sg with firstSet := false }).observe [.posted s items r.sock]

def tryStartPost (w : World ι cap) (s : Signal) (env : BuildEnv) : World ι cap × OtlpStatus :=
  if w.exp.inFlight.isSome || (w.exp.sig s).pending.isEmpty then (w, .ok)
  else
    match specBuildRequest w env s with
    | (w, .error st) => ({ w with exp := { w.exp with keepaliveSock := none } }, st)
    | (w, .ok r) => (startedPost w s r, .ok)

/-! ### Outcomes -/

def clearInFlightBatch (w : World ι cap) (s : Signal) : World ι cap :=
  let w := w.observe ((w.exp.sig s).pending.map fun item => .freed s item .clearInFlightBatch)
  let w := w.modSig s fun sg => { sg with pending := [], firstSet := false }
  { w with exp := { w.exp with attempt := 0, backoffArmed := false } }

/-- What the HTTP exchange produced; status 0 is a network-level failure. -/
structure HttpOutcome where
  status : ℤ
  retryAfterMs : ℕ
  body : Option Bytes
deriving Repr, DecidableEq

/-- `otlp_exporter_report_partial_success`; `counted` when the signal's `rejected` counter is given. The
counter wraps: what is added to it is the server's number. -/
def otlpExporterReportPartialSuccess (w : World ι cap) (s : Signal) (counted : Bool) (count : ℕ)
    (body : Bytes) : World ι cap :=
  match Proto.otlpExporterOtelDecodePartialSuccess body with
  | none => w
  | some ps =>
    let msg := ps.errorMessage.getD []
    if ps.rejected ≤ 0 && msg.isEmpty then w
    else
      let rejected := ps.rejected.toNat
      let w :=
        if counted then w.modSig s fun sg => { sg with rejected := Queue.u64 (sg.rejected + rejected) }
        else w
      w.event { code := .partialSuccess, level := .warn, signal := s, count, rejected, detail := msg }

/-- A 2xx can still report items that the collector rejected, in a body that is not empty. -/
def reportBody (w : World ι cap) (s : Signal) (counted : Bool) (count : ℕ) : Option Bytes → World ι cap
  | none => w
  | some body => if body.isEmpty then w else otlpExporterReportPartialSuccess w s counted count body

/-- `n++` of a `uint32_t`. -/
def succ32 (n : ℕ) : ℕ := if n = 2 ^ 32 - 1 then 0 else n + 1

/-- A failure that may be retried: a network-level one (status 0), 429 or 5xx. -/
def transientFailure (w : World ι cap) (status : ℤ) (retryAfterMs now : ℕ) : World ι cap :=
  let s := w.exp.inFlightSignal
  let count := w.exp.inFlightCount
  let attempt := succ32 w.exp.attempt
  let w := { w with exp := { w.exp with attempt } }
  if w.exp.maxRetries < attempt then
    let w := w.modSig s fun sg => { sg with droppedErr := sg.droppedErr + count }
    let w := w.event { code := .itemsDropped, level := .error, signal := s, count, httpStatus := status,
                       maxRetries := w.exp.maxRetries, dropReason := .maxRetries }
    clearInFlightBatch w s
  else
    let (prng, delay, serverDriven) := Retry.otlpRetryDelayMs w.exp.jitterPrng attempt retryAfterMs
      { initialMs := w.exp.backoffInitialMs, maxMs := w.exp.backoffMaxMs }
    let w := { w with exp := { w.exp with
      jitterPrng := prng
      backoffDeadlineMono := Queue.u64 (now + delay)
      backoffArmed := true } }
    w.event { code := .retryArmed, level := .warn, signal := s, httpStatus := status, attempt,
              maxRetries := w.exp.maxRetries, delayMs := delay, serverDriven }

def successStatus (status : ℤ) : Bool := 200 ≤ status && status < 300

/-- 429 and 5xx, which are retried like a network-level failure. -/
def retryableStatus (status : ℤ) : Bool := status == 429 || (500 ≤ status && status < 600)

/-- The outcome of a batch that the collector has taken. -/
def batchSent (w : World ι cap) (o : HttpOutcome) : World ι cap :=
  let s := w.exp.inFlightSignal
  let count := w.exp.inFlightCount
  let w := { w with exp := { w.exp with http2xx := w.exp.http2xx + 1 } }
  let w := w.modSig s fun sg => { sg with sent := sg.sent + count }
  let w := w.event { code := .batchSent, level := .debug, signal := s, count, httpStatus := o.status }
  clearInFlightBatch (reportBody w s true count o.body) s

/-- The outcome of a batch that the collector has refused for good. -/
def batchRefused (w : World ι cap) (o : HttpOutcome) : World ι cap :=
  let s := w.exp.inFlightSignal
  let count := w.exp.inFlightCount
  let w := { w with exp := { w.exp with http4xx := w.exp.http4xx + 1 } }
  let w := w.modSig s fun sg => { sg with droppedErr := sg.droppedErr + count }
  let w := w.event { code := .itemsDropped, level := .error, signal := s, count,
                     httpStatus := o.status, dropReason := .httpStatus }
  clearInFlightBatch w s

def recordOutcome (w : World ι cap) (o : HttpOutcome) (now : ℕ) : World ι cap :=
  if o.status = 0 then
    transientFailure { w with exp := { w.exp with networkErr := w.exp.networkErr + 1 } } 0 0 now
  else if successStatus o.status then batchSent w o
  else if retryableStatus o.status then
    transientFailure
      (if o.status = 429 then { w with exp := { w.exp with http4xx := w.exp.http4xx + 1 } }
       else { w with exp := { w.exp with http5xx := w.exp.http5xx + 1 } }) o.status o.retryAfterMs now
  else batchRefused w o

/-! ### The parts of a tick -/

/-- One round of the inner `while` of part 1: the world after it when an item was drained. -/
def drainOne (w : World ι cap) (s : Signal) (now : ℕ) : Option (World ι cap) :=
  if (w.exp.sig s).pending.length < (w.exp.sig s).pendingCap then
    match (w.exp.sig s).queue.pop with
    | none => none
    | some (item, queue) =>
      some (w.modSig s fun sg => { sg with
        queue
        pending := sg.pending ++ [item]
        firstMono := if sg.firstSet then sg.firstMono else now
        firstSet := true })
  else none

def nullPosted (w : World ι cap) (s : Signal) : World ι cap :=
  { w with exp := { w.exp with inFlightSignal := s, inFlightCount := (w.exp.sig s).pending.length } }

/-- The outcome of a batch on the null transport, for the first signal that has one pending. -/
def nullTransportPost (w : World ι cap) (nullStatus : ℤ) (now : ℕ) : Option (World ι cap) :=
  match Signal.all.find? fun s => !(w.exp.sig s).pending.isEmpty with
  | none => none
  | some s =>
    let status := if w.exp.nullTransportStatusFn then nullStatus else 200
    some (recordOutcome (nullPosted w s) { status, retryAfterMs := 0, body := none } now)

/-- Whether part 3 starts a POST of signal `s`. -/
def batchReady (e : OtlpExporter ι cap) (s : Signal) (shutdown : Bool) (nowMs : ℕ) : Bool :=
  e.batchSize ≤ (e.sig s).pending.length ||
    ((e.sig s).firstSet && e.batchMs ≤ sub64 nowMs (e.sig s).firstMono) ||
    (shutdown && 0 < (e.sig s).pending.length)

/-- What the request in flight produced when its step ended it, with the request to be freed and the
socket it leaves to the exporter. -/
def requestEnded (keepalive : Option Sock) (r : OtlpHttpRequest) :
    Option (HttpOutcome × OtlpHttpRequest × Option Sock) :=
  match r.state with
  | .done =>
    let (r', sock) := otlpHttpRequestDetachSocket r
    some ({ status := r.httpStatus, retryAfterMs := r.retryAfterMs, body := otlpHttpRequestBody r },
      r', sock)
  | .failed => some ({ status := 0, retryAfterMs := 0, body := none }, r, keepalive)
  | _ => none

/-- The exporter once the request `r` has been answered with `o`; `keepalive` is what it has left. -/
def requestAnswered (w : World ι cap) (o : HttpOutcome) (r : OtlpHttpRequest) (keepalive : Option Sock)
    (now : ℕ) : World ι cap :=
  let w := { w with exp := { w.exp with keepaliveSock := keepalive } }
  let w := w.observe [.answered w.exp.inFlightSignal w.inFlightItems o.status]
  let w := recordOutcome w o now
  let w := { w with
    net := otlpHttpRequestFree w.net r
    exp := { w.exp with inFlight := none, inFlightCount := 0 } }
  if o.status ≠ 0 ∧ successStatus o.status = false then
    { w with net := w.net.closeOpt w.exp.keepaliveSock, exp := { w.exp with keepaliveSock := none } }
  else w

/-- Part 4: step the request in flight, if there is one. -/
def stepInFlight (w : World ι cap) (io : IoEnv) (now : ℕ) : World ι cap :=
  match w.exp.inFlight with
  | none => w
  | some r =>
    let (r, _) := otlpHttpRequestStep r io
    match requestEnded w.exp.keepaliveSock r with
    | none => { w with exp := { w.exp with inFlight := some r } }
    | some (o, r, keepalive) => requestAnswered w o r keepalive now

/-- Part 5: the retry whose backoff has passed. -/
def backoffRetry (w : World ι cap) (env : BuildEnv) (now : ℕ) : World ι cap :=
  if w.exp.backoffArmed && w.exp.inFlight.isNone && w.exp.backoffDeadlineMono ≤ now then
    let w := { w with exp := { w.exp with backoffArmed := false } }
    if w.exp.nullTransport then w else (tryStartPost w w.exp.inFlightSignal env).1
  else w

/-! ### Free -/

/-- `drain_signal`: the items are freed, and nothing refers to them any more. -/
def drainSignal (w : World ι cap) (s : Signal) : World ι cap :=
  let w := w.observe (((w.exp.sig s).queue.items ++ (w.exp.sig s).pending).map fun item =>
    .freed s item .drainSignal)
  w.modSig s fun sg => { sg with queue := .empty, pending := [] }

def otlpExporterFree (w : World ι cap) : World ι cap :=
  let w := drainSignal (drainSignal (drainSignal w .span) .metric) .log
  let net :=
    match w.exp.inFlight with
    | none => w.net
    | some r => otlpHttpRequestFree w.net r
  { w with
    net := net.closeOpt w.exp.keepaliveSock
    exp := { w.exp with inFlight := none, keepaliveSock := none } }

end OtlpC.Exporter
