import Mathlib.Data.Int.Notation
import OtlpC.Http.Request
import OtlpC.Lib.BoundedFifo
import OtlpC.Queue.Ring

/-!
# The exporter's state

`struct otlp_exporter` and `struct signal_state` of `exporter_internal.h`, and `otlp_exporter_create`.
The three queues are bounded FIFOs of the configured capacity. Spans, metrics and log records are
items of one type `ι`: the exporter moves, encodes and frees them and never looks inside.

The resource attributes are left out: the exporter hands them to the encoder and nothing else, and what
the encoder returns is an input of the model. `otlp_exporter_create` takes from them whether they could
all be copied.
-/

namespace OtlpC.Exporter

open Http

/-! ### Signals -/

inductive Signal where
  | span
  | metric
  | log
deriving Repr, DecidableEq

/-- The next signal of a `for (s = 0; s < 3; s++)`. -/
def Signal.next : Signal → Option Signal
  | .span => some .metric
  | .metric => some .log
  | .log => none

/-- All signals, in the order of the table. -/
def Signal.all : List Signal := [.span, .metric, .log]

theorem Signal.mem_all (s : Signal) : s ∈ Signal.all := by cases s <;> decide

/-- `SIGNAL_SPECS[s].default_path`. -/
def defaultPath : Signal → Bytes
  | .span => ascii "/v1/traces"
  | .metric => ascii "/v1/metrics"
  | .log => ascii "/v1/logs"

/-! ### Events -/

inductive EventCode where
  | queueFull
  | batchSent
  | retryArmed
  | itemsDropped
  | partialSuccess
  | syncFlushFailed
deriving Repr, DecidableEq

inductive LogLevel where
  | debug
  | info
  | warn
  | error
deriving Repr, DecidableEq

inductive DropReason where
  | none
  | maxRetries
  | httpStatus
  | queueFull
deriving Repr, DecidableEq

/-- `otlp_event_t`; the fields that an initialiser leaves out are zero. -/
structure OtlpEvent where
  code : EventCode
  level : LogLevel
  signal : Signal
  count : ℕ := 0
  rejected : ℕ := 0
  httpStatus : ℤ := 0
  attempt : ℕ := 0
  maxRetries : ℕ := 0
  delayMs : ℕ := 0
  timeoutMs : ℕ := 0
  status : OtlpStatus := .ok
  dropReason : DropReason := .none
  serverDriven : Bool := false
  detail : Bytes := []
deriving Repr, DecidableEq

/-- Events none of which tells of dropped items. -/
def NoDrop (evs : List OtlpEvent) : Prop := ∀ ev ∈ evs, ev.code ≠ .itemsDropped

theorem noDrop_nil : NoDrop [] := by simp [NoDrop]

theorem noDrop_singleton {ev : OtlpEvent} (h : ev.code ≠ .itemsDropped) : NoDrop [ev] := by
  simpa [NoDrop] using h

theorem NoDrop.append {evs evs' : List OtlpEvent} (h : NoDrop evs) (h' : NoDrop evs') :
    NoDrop (evs ++ evs') := by
  intro ev hmem
  exact (List.mem_append.1 hmem).elim (h ev) (h' ev)

/-! ### State -/

/-- `struct signal_state`; `pending` is `pending[0 .. pending_count)`. The counters `emitted`, `droppedFull`,
`droppedErr` and `sent` grow by one for an item, so that a `uint64_t` holds each of them for the first `2 ^ 64` items;
only `rejected`, which grows by what a server says, is taken modulo `2 ^ 64`. -/
structure SignalState (ι : Type*) (cap : ℕ) where
  url : OtlpHttpUrl
  queue : BoundedFifo ι cap
  pending : List ι
  pendingCap : ℕ
  firstSet : Bool
  firstMono : ℕ
  emitted : ℕ
  droppedFull : ℕ
  droppedErr : ℕ
  sent : ℕ
  rejected : ℕ

/-- `struct otlp_exporter`. The counters `http2xx`, `http4xx`, `http5xx` and `networkErr` grow by one for a request
that ended, so that a `uint64_t` holds each of them for the first `2 ^ 64` requests. -/
structure OtlpExporter (ι : Type*) (cap : ℕ) where
  userAgent : Bytes
  serviceName : Bytes
  schemaUrl : Option Bytes
  batchSize : ℕ
  batchMs : ℕ
  maxRetries : ℕ
  backoffInitialMs : ℕ
  backoffMaxMs : ℕ
  flushTimeoutMs : ℕ
  connectTimeoutMs : ℕ
  readTimeoutMs : ℕ
  sig : Signal → SignalState ι cap
  http2xx : ℕ
  http4xx : ℕ
  http5xx : ℕ
  networkErr : ℕ
  shutdownRequested : Bool
  inFlight : Option OtlpHttpRequest
  inFlightSignal : Signal
  inFlightCount : ℕ
  attempt : ℕ
  backoffDeadlineMono : ℕ
  backoffArmed : Bool
  httpHeaders : List OtlpHttpHeader
  keepaliveSock : Option Sock
  nullTransport : Bool
  nullTransportStatusFn : Bool
  jitterPrng : UInt64

/-! ### Create -/

/-- `otlp_exporter_opts_t`; an absent string is `none`, an absent number 0. A count of headers without
headers, which `otlp_exporter_create` refuses, has no counterpart. -/
structure OtlpExporterOpts where
  endpoint : Option Bytes
  metricsEndpoint : Option Bytes
  logsEndpoint : Option Bytes
  serviceName : Option Bytes
  schemaUrl : Option Bytes
  batchSize : ℕ
  batchMs : ℕ
  maxRetries : ℕ
  backoffInitialMs : ℕ
  backoffMaxMs : ℕ
  connectTimeoutMs : ℕ
  readTimeoutMs : ℕ
  flushTimeoutMs : ℕ
  userAgent : Option Bytes
  httpHeaders : List OtlpHttpHeader
  queueCapacity : ℕ
deriving Repr, DecidableEq

def otlpMaxBatchSize : ℕ := 1024 * 1024

def orDefault (n default : ℕ) : ℕ := if n = 0 then default else n

def normalizeOpts (o : OtlpExporterOpts) : OtlpExporterOpts :=
  { o with
    endpoint := some (o.endpoint.getD (ascii "http://localhost:4318/v1/traces"))
    serviceName := some (o.serviceName.getD [])
    batchSize := min (orDefault o.batchSize 512) otlpMaxBatchSize
    batchMs := orDefault o.batchMs 100
    maxRetries := orDefault o.maxRetries 5
    backoffInitialMs := orDefault o.backoffInitialMs 1000
    backoffMaxMs := orDefault o.backoffMaxMs 30000
    connectTimeoutMs := orDefault o.connectTimeoutMs 5000
    readTimeoutMs := orDefault o.readTimeoutMs 10000
    flushTimeoutMs := orDefault o.flushTimeoutMs 30000
    userAgent := some (o.userAgent.getD (ascii "otlp-c/1.1.19"))
    queueCapacity := Queue.roundUpPow2 (orDefault o.queueCapacity 4096) }

/-- The continuation bytes of a sequence, which a NUL ends too: the code point and what follows. -/
def utf8Tail : ℕ → ℕ → Bytes → Option (ℕ × Bytes)
  | 0, cp, p => some (cp, p)
  | _ + 1, _, [] => none
  | need + 1, cp, c :: p =>
    if c &&& 0xc0 != 0x80 then none else utf8Tail need (cp * 64 + (c &&& 0x3f).toNat) p

/-- The `while (*p)` of `otlp_str_is_utf8`; every round reads a byte. -/
def utf8Loop : ℕ → Bytes → Bool
  | 0, _ => true
  | _ + 1, [] => true
  | rounds + 1, c :: p =>
    if c < 0x80 then utf8Loop rounds p
    else
      let lead : Option (ℕ × ℕ × ℕ) :=
        if c &&& 0xe0 == 0xc0 then some (1, (c &&& 0x1f).toNat, 0x80)
        else if c &&& 0xf0 == 0xe0 then some (2, (c &&& 0x0f).toNat, 0x800)
        else if c &&& 0xf8 == 0xf0 then some (3, (c &&& 0x07).toNat, 0x10000)
        else none
      match lead with
      | none => false
      | some (need, cp, cpMin) =>
        match utf8Tail need cp p with
        | none => false
        | some (cp, p) =>
          if cp < cpMin then false
          else if 0xd800 ≤ cp && cp ≤ 0xdfff then false
          else if 0x10ffff < cp then false
          else utf8Loop rounds p

def otlpStrIsUtf8 (s : Bytes) : Bool := utf8Loop s.length s

/-- The URL of a signal: its own endpoint when one is set, else the base with the default path. -/
def signalUrl (base : OtlpHttpUrl) (override : Option Bytes) (s : Signal) : Except OtlpStatus OtlpHttpUrl :=
  match override with
  | none => .ok { base with path := defaultPath s }
  | some url => if url.isEmpty then .ok { base with path := defaultPath s } else otlpHttpParseUrl url

/-- What `otlp_exporter_create` learns from its environment: whether every allocation succeeds, whether
every resource attribute could be copied, and the seed of the jitter generator. -/
structure CreateEnv where
  allocOk : Bool
  attrsOk : Bool
  seed : UInt64
deriving Repr, DecidableEq

variable (ι : Type*)

def freshSignal (cap batchSize : ℕ) (url : OtlpHttpUrl) : SignalState ι cap :=
  { url, queue := .empty, pending := [], pendingCap := batchSize * 2, firstSet := false, firstMono := 0,
    emitted := 0, droppedFull := 0, droppedErr := 0, sent := 0, rejected := 0 }

/-- `otlp_exporter_create` with normalised options. -/
def createNormalized (o : OtlpExporterOpts) (env : CreateEnv) : Option (OtlpExporter ι o.queueCapacity) :=
  match otlpHttpParseUrl (o.endpoint.getD []) with
  | .error _ => none
  | .ok base =>
    match signalUrl base o.metricsEndpoint .metric, signalUrl base o.logsEndpoint .log with
    | .ok metrics, .ok logs =>
      if !otlpStrIsUtf8 (o.serviceName.getD []) || !otlpStrIsUtf8 (o.schemaUrl.getD []) then none
      else if !o.httpHeaders.all headerAllowed then none
      else if !env.attrsOk || !env.allocOk then none
      else
        match (Queue.mpscQueueInit o.queueCapacity true : Except OtlpStatus (Queue.MpscQueue ι)) with
        | .error _ => none
        | .ok _ =>
          some {
            userAgent := o.userAgent.getD []
            serviceName := o.serviceName.getD []
            schemaUrl := o.schemaUrl
            batchSize := o.batchSize
            batchMs := o.batchMs
            maxRetries := o.maxRetries
            backoffInitialMs := o.backoffInitialMs
            backoffMaxMs := o.backoffMaxMs
            flushTimeoutMs := o.flushTimeoutMs
            connectTimeoutMs := o.connectTimeoutMs
            readTimeoutMs := o.readTimeoutMs
            sig := fun s => freshSignal ι o.queueCapacity o.batchSize
              (match s with | .span => base | .metric => metrics | .log => logs)
            http2xx := 0
            http4xx := 0
            http5xx := 0
            networkErr := 0
            shutdownRequested := false
            inFlight := none
            inFlightSignal := .span
            inFlightCount := 0
            attempt := 0
            backoffDeadlineMono := 0
            backoffArmed := false
            httpHeaders := o.httpHeaders.map fun h => { h with value := some (h.value.getD []) }
            keepaliveSock := none
            nullTransport := false
            nullTransportStatusFn := false
            jitterPrng := if env.seed = 0 then 0x9E3779B97F4A7C15 else env.seed }
    | _, _ => none

def otlpExporterCreate (opts : OtlpExporterOpts) (env : CreateEnv) :
    Option (OtlpExporter ι (normalizeOpts opts).queueCapacity) :=
  createNormalized ι (normalizeOpts opts) env

end OtlpC.Exporter
