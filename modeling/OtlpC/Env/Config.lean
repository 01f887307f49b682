import OtlpC.Context.Propagation
import OtlpC.Http.UrlGrammar

/-!
# Configuration from the environment

The parsers of `env_config.c` that write through the caller's storage: the base endpoint and the two lists of
`k=v` pairs. What they set in the options are pointers, into the storage or left where they were, so that a
write to the storage can change what the options say without touching them.
-/

namespace OtlpC.Env

open Context (CString CharBuf)
open Http (slash otlpHttpParseUrl)

/-! ### Data -/

/-- The signals in the order in which the base endpoint is applied. -/
inductive Signal where
  | traces
  | metrics
  | logs
deriving Repr, DecidableEq

def Signal.path : Signal → Bytes
  | traces => ascii "/v1/traces"
  | metrics => ascii "/v1/metrics"
  | logs => ascii "/v1/logs"

/-- A `const char *` of the options: NULL or a string outside of the storage, or one of its endpoints. -/
inductive StrPtr where
  | elsewhere (s : Option CString)
  | storage (signal : Signal)
deriving Repr, DecidableEq

/-- A pointer to an array of pairs: any address outside of the storage, or the array of the storage. -/
inductive ListPtr where
  | elsewhere (addr : ℕ)
  | storage
deriving Repr, DecidableEq

/-- The fields of `otlp_exporter_opts_t` that are set here. -/
structure OtlpExporterOpts where
  endpoint : StrPtr
  metricsEndpoint : StrPtr
  logsEndpoint : StrPtr
  resourceAttributes : ListPtr
  nResourceAttributes : ℕ
  httpHeaders : ListPtr
  nHttpHeaders : ℕ
deriving Repr, DecidableEq

abbrev maxPairs : ℕ := 32
abbrev keyMax : ℕ := 128
abbrev valueMax : ℕ := 256
abbrev endpointMax : ℕ := 256

/-- Room for 32 pairs: the strings, the pairs of pointers to them, by their rows, and how many are in use. -/
structure PairStore where
  keys : Vector (CharBuf keyMax) maxPairs
  vals : Vector (CharBuf valueMax) maxPairs
  items : Vector (Fin maxPairs × Fin maxPairs) maxPairs
  n : ℕ
deriving Repr, DecidableEq

/-- `otlp_env_storage_t`: `attr_keys`, `attr_vals`, `attrs` and `n_attrs` are `attrs`, and `hdr_names`,
`hdr_vals`, `http_headers` and `n_http_headers` are `httpHeaders`. -/
structure OtlpEnvStorage where
  endpoint : CharBuf endpointMax
  metricsEndpoint : CharBuf endpointMax
  logsEndpoint : CharBuf endpointMax
  attrs : PairStore
  httpHeaders : PairStore
deriving Repr, DecidableEq

def OtlpExporterOpts.zero : OtlpExporterOpts where
  endpoint := .elsewhere none
  metricsEndpoint := .elsewhere none
  logsEndpoint := .elsewhere none
  resourceAttributes := .elsewhere 0
  nResourceAttributes := 0
  httpHeaders := .elsewhere 0
  nHttpHeaders := 0

def PairStore.zero : PairStore := ⟨.replicate _ (.empty _), .replicate _ (.empty _), .replicate _ (0, 0), 0⟩

def OtlpEnvStorage.zero : OtlpEnvStorage := ⟨.empty _, .empty _, .empty _, .zero, .zero⟩

/-- The pointer for a signal's endpoint. -/
def OtlpExporterOpts.endpointOf (opts : OtlpExporterOpts) : Signal → StrPtr
  | .traces => opts.endpoint
  | .metrics => opts.metricsEndpoint
  | .logs => opts.logsEndpoint

/-- The pointer for a signal's endpoint set to the storage. -/
def OtlpExporterOpts.publish (opts : OtlpExporterOpts) : Signal → OtlpExporterOpts
  | .traces => { opts with endpoint := .storage .traces }
  | .metrics => { opts with metricsEndpoint := .storage .metrics }
  | .logs => { opts with logsEndpoint := .storage .logs }

def OtlpEnvStorage.endpointOf (st : OtlpEnvStorage) : Signal → CharBuf endpointMax
  | .traces => st.endpoint
  | .metrics => st.metricsEndpoint
  | .logs => st.logsEndpoint

def OtlpEnvStorage.setEndpoint (st : OtlpEnvStorage) (b : CharBuf endpointMax) : Signal → OtlpEnvStorage
  | .traces => { st with endpoint := b }
  | .metrics => { st with metricsEndpoint := b }
  | .logs => { st with logsEndpoint := b }

/-- The bytes copied to the start of a buffer and a NUL behind them. -/
def copyString {max : ℕ} (s : Bytes) (h : s.length < max) : CharBuf max where
  text := .ofBuffer s
  fits := (List.takeWhile_sublist _).length_le.trans_lt h

/-! ### The base endpoint -/

def schemeEnd : Bytes := ascii "://"

/-- `value[0 .. base_len)` when the value has a scheme: all of it up to the path. -/
def baseOf (value : Bytes) : Option Bytes :=
  (Http.findSubstring value schemeEnd).map fun i =>
    value.take (i + 3) ++ (value.drop (i + 3)).takeWhile (· != slash)

/-- The loop over the signals: each one is published before the next is looked at. -/
def applySignals (base : Bytes) : List Signal → OtlpExporterOpts → OtlpEnvStorage →
    OtlpStatus × OtlpExporterOpts × OtlpEnvStorage
  | [], opts, st => (.ok, opts, st)
  | signal :: signals, opts, st =>
    if h : base.length + signal.path.length + 1 > endpointMax then (.errOverflow, opts, st)
    else
      let dst := copyString (base ++ signal.path) (by rw [List.length_append]; omega)
      let st := st.setEndpoint dst signal
      match otlpHttpParseUrl dst.text.bytes with
      | .error _ => (.errInvalidArgument, opts, st)
      | .ok _ => applySignals base signals (opts.publish signal) st

def otlpEnvApplyEndpoint (opts : Option OtlpExporterOpts) (value : Option CString)
    (st : Option OtlpEnvStorage) : OtlpStatus × Option OtlpExporterOpts × Option OtlpEnvStorage :=
  match opts, st with
  | some opts, some st =>
    match value with
    | none => (.ok, some opts, some st)
    | some value =>
      if value.byteAt 0 == 0 then (.ok, some opts, some st)
      else
        match baseOf value.bytes with
        | none => (.errInvalidArgument, some opts, some st)
        | some base =>
          let (status, opts, st) := applySignals base [.traces, .metrics, .logs] opts st
          (status, some opts, some st)
  | opts, st => (.errNull, opts, st)

/-! ### Lists of pairs -/

abbrev comma : UInt8 := 0x2c
abbrev equals : UInt8 := 0x3d

structure OtlpEnvPair where
  key : Bytes
  val : Bytes
deriving Repr, DecidableEq

def segmentPair (segment : Bytes) : Option OtlpEnvPair :=
  match segment.dropWhile (· != equals) with
  | [] => none
  | _ :: val =>
    let key := segment.takeWhile (· != equals)
    if key.isEmpty then none else some ⟨key, val⟩

/-- `kv_foreach`: the callback is given each pair, and its first error ends the walk. -/
def kvForeach {σ : Type} (cb : OtlpEnvPair → σ → OtlpStatus × σ) (seg : Bytes) (s : σ) : OtlpStatus × σ :=
  if seg = [] then (.ok, s)
  else
    let segment := seg.takeWhile (· != comma)
    -- behind the comma, or at the end of the string
    let next := (seg.dropWhile (· != comma)).drop 1
    match segmentPair segment with
    | none => kvForeach cb next s
    | some pair =>
      match cb pair s with
      | (.ok, s) => kvForeach cb next s
      | failed => failed
termination_by seg.length
decreasing_by
  all_goals
    have hle := (List.dropWhile_sublist (fun c : UInt8 => c != comma) (l := seg)).length_le
    have hpos := List.length_pos_iff.2 ‹seg ≠ []›
    rw [List.length_drop]
    omega

/-- What `attrs_one` and `headers_one` do with their part of the storage. -/
def storePair (pair : OtlpEnvPair) (t : PairStore) : OtlpStatus × PairStore :=
  if hn : t.n < maxPairs then
    if h : pair.key.length < keyMax ∧ pair.val.length < valueMax then
      (.ok, {
        keys := t.keys.set t.n (copyString pair.key h.1)
        vals := t.vals.set t.n (copyString pair.val h.2)
        items := t.items.set t.n (⟨t.n, hn⟩, ⟨t.n, hn⟩)
        n := t.n + 1 })
    else (.errOverflow, t)
  else (.errOverflow, t)

def attrsOne (pair : OtlpEnvPair) (st : OtlpEnvStorage) : OtlpStatus × OtlpEnvStorage :=
  let (status, attrs) := storePair pair st.attrs
  (status, { st with attrs })

def headersOne (pair : OtlpEnvPair) (st : OtlpEnvStorage) : OtlpStatus × OtlpEnvStorage :=
  let (status, httpHeaders) := storePair pair st.httpHeaders
  (status, { st with httpHeaders })

def otlpEnvApplyResourceAttrs (opts : Option OtlpExporterOpts) (value : Option CString)
    (st : Option OtlpEnvStorage) : OtlpStatus × Option OtlpExporterOpts × Option OtlpEnvStorage :=
  match opts, st with
  | some opts, some st =>
    match value with
    | none => (.ok, some opts, some st)
    | some value =>
      if value.byteAt 0 == 0 then (.ok, some opts, some st)
      else
        match kvForeach attrsOne value.bytes { st with attrs.n := 0 } with
        | (.ok, st) =>
          (.ok, some { opts with resourceAttributes := .storage, nResourceAttributes := st.attrs.n }, some st)
        | (status, st) => (status, some opts, some st)
  | opts, st => (.errNull, opts, st)

def otlpEnvApplyOtlpHeaders (opts : Option OtlpExporterOpts) (value : Option CString)
    (st : Option OtlpEnvStorage) : OtlpStatus × Option OtlpExporterOpts × Option OtlpEnvStorage :=
  match opts, st with
  | some opts, some st =>
    match value with
    | none => (.ok, some opts, some st)
    | some value =>
      if value.byteAt 0 == 0 then (.ok, some opts, some st)
      else
        match kvForeach headersOne value.bytes { st with httpHeaders.n := 0 } with
        | (.ok, st) =>
          (.ok, some { opts with httpHeaders := .storage, nHttpHeaders := st.httpHeaders.n }, some st)
        | (status, st) => (status, some opts, some st)
  | opts, st => (.errNull, opts, st)

end OtlpC.Env
