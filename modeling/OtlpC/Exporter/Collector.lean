import OtlpC.Exporter.Delivery
import OtlpC.Exporter.NetworkFailure
import OtlpC.Http.RequestHead
import OtlpC.Proto.LogReading
import OtlpC.Proto.MetricReading
import OtlpC.Proto.TraceRoundTrip
import Mathlib.Data.List.Flatten
import Mathlib.Data.List.Forall2

/-!
# What the collectors get

From the emit to the bytes at the collector: a run of the exporter is watched together with what its socket accepts of
every request. A collector splits the bytes of a request at the first blank line and decodes what follows. What it
reads in the requests that it answered with a 2xx is, in order, a part of what the queue had accepted.
-/

namespace OtlpC.Exporter

open Api Http Occurrence Otlp Proto Proto3

variable {ι : Type*} {cap : ℕ}

/-! ### What is sent and what is read -/

/-- What an item points to. -/
inductive Telemetry where
  | span (sp : Api.Span)
  | metric (m : Api.Metric)
  | log (lr : Api.LogRecord)

inductive Received where
  | span (sp : Otlp.Span)
  | metric (m : Otlp.Metric)
  | log (lr : Otlp.LogRecord)

/-- What a collector reads of an item: of a span its events that are not blank, and of a blank log record nothing. -/
def Telemetry.received : Telemetry → List Received
  | .span sp => [.span (spanMsg (written sp.view))]
  | .metric m => [.metric (metricMsg m.view)]
  | .log lr => if (message (logWire lr.view)).isEmpty then [] else [.log (logMsg lr.view)]

/-- A request as a collector reads it. -/
structure Post where
  attributes : List KeyValue
  items : List Received

def Post.ofRequest {α : Type} (f : α → Received) (req : ExportRequest α) : Post :=
  { attributes := req.flatMap fun ri => ri.resource.attributes, items := req.items.map f }

/-- The body of a request, decoded as the requests of its signal are. -/
def decodeBody : Signal → Bytes → Option Post
  | .span, body => (decodeExportRequest decodeSpan body).map (.ofRequest .span)
  | .metric, body => (decodeExportRequest decodeMetric body).map (.ofRequest .metric)
  | .log, body => (decodeExportRequest decodeLogRecord body).map (.ofRequest .log)

/-- The body of a request: what follows the first blank line, when a line above it tells its length. -/
def requestBody (bytes : Bytes) : Option Bytes :=
  (findSubstring bytes crlfcrlf).bind fun off =>
    let body := bytes.drop (off + 4)
    if ascii "Content-Length: " ++ decimal body.length ∈ splitPair cr lf (bytes.take off) then some body else none

def readPost (s : Signal) (bytes : Bytes) : Option Post := (requestBody bytes).bind (decodeBody s)

/-- What the three `otlp_exporter_otel_build_*_request` have encoded when their encoder returns `OTLP_OK`. -/
inductive EncodedBy (item : ι → Telemetry) (serviceName : Bytes) (schemaUrl : Option Bytes) (attrs : List KeyValue) :
    Signal → List ι → Bytes → Prop
  | span {items : List ι} {spans : List Api.Span} {h h' : Heap} {b b' : PbBuf} (hitems : items.map item = spans.map .span)
      (hb : b.bytes = []) (hok : otlpEncodeExportTraceServiceRequest (some serviceName) schemaUrl attrs none none
        (spans.map (·.view)) h b = (.ok, b', h')) :
      EncodedBy item serviceName schemaUrl attrs .span items b'.bytes
  | metric {items : List ι} {ms : List Api.Metric} {h h' : Heap} {b b' : PbBuf} (hitems : items.map item = ms.map .metric)
      (hb : b.bytes = []) (hok : otlpEncodeExportMetricsServiceRequest (some serviceName) schemaUrl attrs none none
        (ms.map (·.view)) h b = (.ok, b', h')) :
      EncodedBy item serviceName schemaUrl attrs .metric items b'.bytes
  | log {items : List ι} {logs : List Api.LogRecord} {h h' : Heap} {b b' : PbBuf} (hitems : items.map item = logs.map .log)
      (hb : b.bytes = []) (hok : otlpEncodeExportLogsServiceRequest (some serviceName) schemaUrl attrs none none
        (logs.map (·.view)) h b = (.ok, b', h')) :
      EncodedBy item serviceName schemaUrl attrs .log items b'.bytes

section Encoded

variable {item : ι → Telemetry} {serviceName : Bytes} {schemaUrl : Option Bytes} {attrs : List KeyValue} {s : Signal}
  {items : List ι} {body : Bytes}

theorem received_eq {α : Type} {wrap : α → Telemetry} {xs : List α} (hitems : items.map item = xs.map wrap) :
    (items.flatMap fun i => (item i).received) = xs.flatMap fun x => (wrap x).received := by
  rw [← List.flatMap_map (f := item), hitems, List.flatMap_map]

/-- **A body reads back** as its items, under the resource of the exporter. -/
theorem decodeBody_encoded (h : EncodedBy item serviceName schemaUrl attrs s items body) :
    decodeBody s body = some { attributes := resourceKvs (some serviceName) attrs
                               items := items.flatMap fun i => (item i).received } := by
  cases h with
  | @span _ spans _ _ _ _ hitems hb hok =>
    obtain ⟨req, hreq, hback⟩ := decodeTraceRequest hb hok
    rw [received_eq hitems, decodeBody, hreq, Option.map_some, Post.ofRequest, hback.items_eq, hback.attributes_eq,
      List.map_map, List.map_map, List.map_eq_flatMap]
    rfl
  | @metric _ ms _ _ _ _ hitems hb hok =>
    obtain ⟨req, hreq, hback⟩ := decodeWritten_of_emits (emits_metricsRequest _ _ _ _ _ _)
      (fun _ hlen => decodeMetric_wire hlen) hb hok
    rw [received_eq hitems, decodeBody, hreq, Option.map_some, Post.ofRequest, hback.items_eq, hback.attributes_eq,
      List.filter_eq_self.2 fun m _ => by simpa using metricWire_ne_nil m, List.map_map, List.map_map,
      List.map_eq_flatMap]
    rfl
  | @log _ logs _ _ _ _ hitems hb hok =>
    obtain ⟨req, hreq, hback⟩ := decodeWritten_of_emits (emits_logsRequest _ _ _ _ _ _)
      (fun _ hlen => decodeLogRecord_wire hlen) hb hok
    have hlogs : (((logs.map (·.view)).filter fun lr => !(message (logWire lr)).isEmpty).map logMsg).map Received.log =
        logs.flatMap fun lr => (Telemetry.log lr).received := by
      clear hitems hok hback
      induction logs with
      | nil => rfl
      | cons lr logs ih =>
        rw [List.flatMap_cons, ← ih, Telemetry.received]
        by_cases hempty : message (logWire lr.view) = [] <;> simp [hempty]
    rw [received_eq hitems, decodeBody, hreq, Option.map_some, Post.ofRequest, hback.items_eq, hback.attributes_eq, hlogs]

end Encoded

/-! ### The bytes of a request -/

def CleanUrl (url : OtlpHttpUrl) : Prop := cr ∉ url.host ∧ cr ∉ url.path

/-- A request splits at its first blank line into its lines and its body. -/
theorem built_split {url : OtlpHttpUrl} (hclean : CleanUrl url) {userAgent : Option Bytes} {headers : List OtlpHttpHeader}
    {body req : Bytes} {mallocOk : Bool} (hreq : buildRequest url userAgent headers body mallocOk = .ok req) :
    ∃ off, findSubstring req crlfcrlf = some off ∧
      splitPair cr lf (req.take off) = requestLines url (userAgent.getD (ascii "otlp-c")) headers body.length ∧
      req.drop (off + 4) = body := by
  obtain ⟨hagent, hheaders, rfl⟩ := buildRequest_eq_ok hreq
  have hlines := requestLines_noCr hclean.1 hclean.2 hagent hheaders body.length
  rw [flatMap_requestLines, List.append_assoc]
  obtain ⟨off, hfirst, hsplit, hdrop⟩ := exists_firstAt_lines (show cr ≠ lf by decide) hlines
    (List.append_ne_nil_of_right_ne_nil _ (List.cons_ne_nil _ _)) body
  exact ⟨off, findSubstring_eq_some.2 hfirst, hsplit, hdrop⟩

theorem requestBody_built {url : OtlpHttpUrl} (hclean : CleanUrl url) {userAgent : Option Bytes}
    {headers : List OtlpHttpHeader} {body req : Bytes} {mallocOk : Bool}
    (hreq : buildRequest url userAgent headers body mallocOk = .ok req) : requestBody req = some body := by
  obtain ⟨off, hfind, hsplit, hdrop⟩ := built_split hclean hreq
  rw [requestBody, hfind, Option.bind_some, hdrop, hsplit]
  exact if_pos (by simp [requestLines])

theorem reqBuf_of_startPostCommon {net : Net} {url : OtlpHttpUrl} {userAgent : Option Bytes}
    {headers : List OtlpHttpHeader} {body : Bytes} {connectTimeoutMs readTimeoutMs : ℕ} {env : StartEnv}
    {sock : Option Sock} {r : OtlpHttpRequest}
    (h : (startPostCommon net url userAgent headers body connectTimeoutMs readTimeoutMs env sock).2 = .ok r) :
    buildRequest url userAgent headers body env.mallocOk = .ok r.reqBuf := by
  unfold startPostCommon at h
  cases sock with
  | some k =>
    simp only [otlpHttpRequestStartWithSocket] at h
    split at h
    · cases h
    split at h
    · cases h
    next reqBuf hbuild =>
      cases h
      exact hbuild
  | none =>
    simp only [otlpHttpRequestStart] at h
    split at h
    · cases h
    split at h
    · cases h
    next reqBuf hbuild =>
      split at h
      · split at h <;> cases h <;> exact hbuild
      · cases h

/-! ### The request in flight -/

theorem tickStep_keeps {w : World ι cap} {r : OtlpHttpRequest} (hflight : w.exp.inFlight = some r) {f : Frame}
    (env : TickEnv) (hpc : f.pc ≠ .stepInFlight) : (tickStep w f env).world.exp.inFlight = some r := by
  unfold tickStep
  cases hf : f.pc with
  | drain s =>
    dsimp only
    split
    · next w' hdrain =>
      unfold drainOne at hdrain
      split at hdrain
      · split at hdrain
        · contradiction
        · cases hdrain
          exact hflight
      · contradiction
    · exact hflight
  | nullTransport =>
    dsimp only
    split
    · split
      · next w' hpost =>
        unfold nullTransportPost at hpost
        split at hpost
        · contradiction
        · cases hpost
          exact (recordOutcome_sockets _ _ _).2.1.trans hflight
      · exact hflight
    · exact hflight
  | beginStart =>
    dsimp only
    split <;> exact hflight
  | start s shutdown nowMs =>
    dsimp only
    rw [if_pos (by simp [hflight])]
    exact hflight
  | stepInFlight => exact absurd hf hpc
  | backoffRetry =>
    simp [backoffRetry, hflight]
  | loop =>
    dsimp only
    split <;> exact hflight

theorem step_keeps {x y : State ι cap} {l : Label ι} (h : step x l = some y) (hfree : l ≠ .free) {r : OtlpHttpRequest}
    (hflight : x.world.exp.inFlight = some r) (hin : inFlightStep x l = none) : y.world.exp.inFlight = some r := by
  cases stepped h with
  | emitMove s item hlive => exact (emitMoveCommon_inFlight _ _ _).trans hflight
  | emit s isNull clone hlive => exact (emitCloneCommon_inFlight _ _ _ _).trans hflight
  | shutdown hlive | tick maxWaitMs now hidle => exact hflight
  | tickStep f env hphase =>
    refine tickStep_keeps hflight env fun hpc => ?_
    simp [inFlightStep, hphase, hpc, hflight] at hin
  | flushMetric isNull env w st hidle hflush | flushLog isNull env w st hidle hflush =>
    exact (flushItem_inFlight hflush).trans hflight
  | free hidle => exact absurd rfl hfree

theorem step_inFlightStep {x y : State ι cap} {l : Label ι} (h : step x l = some y) {r : OtlpHttpRequest} {io : IoEnv}
    (hin : inFlightStep x l = some (r, io)) :
    (requestEnds x l = none → y.world.exp.inFlight = some (otlpHttpRequestStep r io).1) ∧
      (∀ o, requestEnds x l = some o → y.world.exp.inFlight = none) := by
  obtain ⟨hflight, -, hends⟩ := requestEnds_inFlightStep hin
  unfold inFlightStep at hin
  split at hin
  next env =>
    split at hin
    next f hphase =>
      split at hin
      next hpc =>
        rw [hflight, Option.map_some, Option.some.injEq, Prod.mk.injEq] at hin
        obtain ⟨-, rfl⟩ := hin
        simp only [step, hphase, tickStep, hpc, Option.some.injEq] at h
        subst h
        simp only [stepInFlight, hflight]
        rw [hends]
        split
        · next hended => simp [hended]
        · next o r' keepalive hended => simp [hended, inFlight_requestAnswered]
      · cases hin
    · cases hin
  · cases hin

theorem inFlightStep_of_requestEnds {x : State ι cap} {l : Label ι} {o : HttpOutcome} (h : requestEnds x l = some o) :
    ∃ a, inFlightStep x l = some a := by
  unfold requestEnds at h
  split at h
  next env =>
    split at h
    next f hphase =>
      split at h
      next hpc =>
        obtain ⟨r, hflight, -⟩ := Option.bind_eq_some_iff.1 h
        exact ⟨(r, env.io), by simp [inFlightStep, hphase, hpc, hflight]⟩
      · cases h
    · cases h
  · cases h

/-- Only a request that is done has a status. -/
theorem done_of_success {keepalive : Option Sock} {r : OtlpHttpRequest} {o : HttpOutcome}
    (h : (requestEnded keepalive r).map Prod.fst = some o) (hsuccess : successStatus o.status = true) :
    r.state = .done := by
  unfold requestEnded at h
  split at h
  · next hdone => exact hdone
  · rw [Option.map_some, Option.some.injEq] at h
    subst h
    cases hsuccess
  · cases h

theorem tryStartPost_inFlight {w : World ι cap} {s : Signal} {env : BuildEnv} (hnone : w.exp.inFlight = none)
    {r : OtlpHttpRequest} (hr : (tryStartPost w s env).1.exp.inFlight = some r) :
    (specBuildRequest w env s).2 = .ok r := by
  unfold tryStartPost at hr
  split at hr
  · rw [hnone] at hr
    cases hr
  split at hr
  next w' st hbuild =>
    obtain ⟨net, obs, rfl, -, -⟩ := specBuildRequest_error hbuild
    rw [hnone] at hr
    cases hr
  next w' r' hbuild =>
    rw [hbuild]
    exact congrArg Except.ok (Option.some.inj hr)

theorem step_started {x y : State ι cap} {l : Label ι} (h : step x l = some y) {s : Signal} {env : BuildEnv}
    (hattempt : startAttempt x l = some (s, env)) {r : OtlpHttpRequest} (hr : y.world.exp.inFlight = some r) :
    (specBuildRequest x.world env s).2 = .ok r := by
  unfold startAttempt at hattempt
  split at hattempt
  next tenv =>
    split at hattempt
    next f hphase =>
      simp only [step, hphase, Option.some.injEq] at h
      subst h
      split at hattempt
      next s' shutdown nowMs hpc =>
        split at hattempt
        next hgo =>
          cases hattempt
          simp only [Bool.and_eq_true, Option.isNone_iff_eq_none, Bool.not_eq_true'] at hgo
          obtain ⟨⟨⟨hnone, hunarmed⟩, hready⟩, -⟩ := hgo
          simp only [tickStep, hpc, hnone, hunarmed, hready, Option.isSome_none, Bool.or_false, Bool.false_eq_true,
            if_false, if_true] at hr
          exact tryStartPost_inFlight hnone hr
        · cases hattempt
      next hpc =>
        split at hattempt
        next hgo =>
          cases hattempt
          simp only [Bool.and_eq_true, Option.isNone_iff_eq_none, Bool.not_eq_true', decide_eq_true_eq] at hgo
          obtain ⟨⟨⟨⟨harmed, hnone⟩, hdue⟩, hreal⟩, -⟩ := hgo
          have hretry : backoffRetry x.world tenv.build tenv.now =
              (tryStartPost x.world.disarm x.world.exp.inFlightSignal tenv.build).1 := by
            unfold backoffRetry
            rw [if_pos (by simp [harmed, hnone, hdue])]
            exact if_neg (by simp [hreal])
          simp only [tickStep, hpc, hretry] at hr
          have hspec := tryStartPost_inFlight (w := x.world.disarm) hnone hr
          rw [specBuildRequest_snd] at hspec ⊢
          exact hspec
        · cases hattempt
      · cases hattempt
    · cases hattempt
  · cases hattempt

/-- A new request in flight was started for its signal, with what was pending. -/
theorem Effect.new_request {x : State ι cap} {l : Label ι} {w : World ι cap} (h : Effect x l w)
    (hnone : x.world.exp.inFlight = none) {r : OtlpHttpRequest} (hr : w.exp.inFlight = some r) :
    ∃ s env, startAttempt x l = some (s, env) ∧ w.exp.inFlightSignal = s ∧
      w.inFlightItems = (x.world.exp.sig s).pending := by
  have hno : ¬x.world.exp.inFlight = some r := by simp [hnone]
  cases h with
  | quiet | refused | accepted | drained | disarmed | startFailed | flushed | shutdown => exact absurd hr hno
  | started s env net r k hattempt => exact ⟨s, env, hattempt, rfl, rfl⟩
  | progressed hcall r₀ r' hflight | answeredRetry r₀ o net kept t ev hflight
  | answeredFinal r₀ o net kept t rejected more hflight =>
    rw [hnone] at hflight
    cases hflight
  | nullOutcome hcall s status now hnull => exact absurd ((recordOutcome_sockets _ _ _).2.1.symm.trans hr) hno
  | freed hcall h => cases hr

/-- As long as a request is in flight, it is the one for these items. -/
theorem Effect.same_request {x : State ι cap} {l : Label ι} {w : World ι cap} (h : Effect x l w)
    (hreal : x.world.exp.nullTransport = false) {r : OtlpHttpRequest} (hflight : x.world.exp.inFlight = some r) :
    w.exp.inFlightSignal = x.world.exp.inFlightSignal ∧ w.inFlightItems = x.world.inFlightItems := by
  cases h with
  | startFailed s env net obs hattempt hfails hidle | started s env net r' k hattempt hstarts hidle =>
    rw [hidle] at hflight
    cases hflight
  | nullOutcome hcall s status now hnull =>
    rw [hreal] at hnull
    cases hnull
  | _ => exact ⟨rfl, rfl⟩

theorem Effect.acked_kept {x : State ι cap} {l : Label ι} {w : World ι cap} (h : Effect x l w)
    (hreal : x.world.exp.nullTransport = false) (hends : requestEnds x l = none) (s : Signal) :
    ackedBodies s w.history = ackedBodies s x.world.history := by
  have hobs : ∀ obs : List (Obs ι), ackedBodies s obs = [] →
      ackedBodies s (x.world.history ++ obs) = ackedBodies s x.world.history := fun obs hnone => by
    rw [ackedBodies_append, hnone, List.append_nil]
  cases h with
  | quiet | shutdown | disarmed | progressed | drained => rfl
  | refused | accepted | started | flushed => exact hobs _ (by simp [ackedBodies])
  | startFailed t env net obs hattempt hfails hidle hnet hwhich =>
    refine hobs _ ?_
    rcases hwhich with rfl | rfl <;> rfl
  | answeredRetry r o net kept t ev hflight hends' | answeredFinal r o net kept t rejected more hflight hends' =>
    rw [hends] at hends'
    cases hends'
  | nullOutcome hcall t status now hnull =>
    rw [hreal] at hnull
    cases hnull
  | freed hcall h =>
    rw [otlpExporterFree_history]
    exact hobs _ (by simp [ackedBodies, heldObs, Signal.all])

theorem Effect.acked_ended {x : State ι cap} {l : Label ι} {w : World ι cap} (h : Effect x l w) {o : HttpOutcome}
    (hends : requestEnds x l = some o) (s : Signal) :
    ackedBodies s w.history = ackedBodies s x.world.history ++
      if x.world.exp.inFlightSignal = s ∧ successStatus o.status = true then [x.world.inFlightItems] else [] := by
  have hno : ∀ {P : Prop}, requestEnds x l = none → P := fun hnone => by
    rw [hends] at hnone
    cases hnone
  cases h with
  | quiet hcall | shutdown hcall | disarmed hcall | progressed hcall | drained hcall | refused hcall | accepted hcall
  | flushed hcall | nullOutcome hcall | freed hcall => exact hno hcall.requestEnds_eq
  | started t env net r k hattempt | startFailed t env net obs hattempt =>
    exact hno (requestEnds_of_startAttempt hattempt)
  | answeredRetry r o' net kept t ev hflight hends' hretry hnet hev =>
    rw [hends, Option.some.injEq] at hends'
    subst hends'
    simp only [retries, Bool.and_eq_true] at hretry
    rw [ackedBodies_append, if_neg (by simp [successStatus_of_transient hretry.1])]
    simp [ackedBodies, successStatus_of_transient hretry.1]
  | answeredFinal r o' net kept t rejected more hflight hends' hfinal hnet =>
    rw [hends, Option.some.injEq] at hends'
    subst hends'
    have hended := ackedBodies_ended x.world.exp o.status more s
    unfold ackedBodies at hended
    rw [ackedBodies_append]
    split
    · next hacked => simp [ackedBodies, hacked, hended]
    · next hacked => simp [ackedBodies, hacked, hended]

/-! ### A run that is watched -/

/-- A request that ended, with what its socket had accepted of it. -/
structure Transmission where
  signal : Signal
  status : ℤ
  bytes : Bytes
deriving Repr, DecidableEq

/-- The exporter, what the socket has accepted of the request in flight, and the requests that ended. -/
structure Watched (ι : Type*) (cap : ℕ) where
  state : State ι cap
  wire : Bytes
  ended : List Transmission

def Watched.init (e : OtlpExporter ι cap) (fn : Bool) : Watched ι cap :=
  { state := State.init e false fn, wire := [], ended := [] }

/-- What the socket accepts in a step. -/
def taken (x : State ι cap) (l : Label ι) : Bytes := (inFlightStep x l).elim [] fun a => Http.accepted a.1 a.2

def Watched.step (x : Watched ι cap) (l : Label ι) : Option (Watched ι cap) :=
  (Exporter.step x.state l).map fun y =>
    let wire := x.wire ++ taken x.state l
    { state := y
      wire := if y.world.exp.inFlight.isSome then wire else []
      ended := match requestEnds x.state l with
        | none => x.ended
        | some o => x.ended ++ [⟨x.state.world.exp.inFlightSignal, o.status, wire⟩] }

/-- The requests of a signal that were answered with a 2xx, as the collector got them. -/
def Watched.acked (x : Watched ι cap) (s : Signal) : List Bytes :=
  x.ended.filterMap fun t => if t.signal = s ∧ successStatus t.status = true then some t.bytes else none

def Encodes (item : ι → Telemetry) (serviceName : Bytes) (schemaUrl : Option Bytes) (attrs : List KeyValue)
    (x : State ι cap) (l : Label ι) : Prop :=
  ∀ s env body, startAttempt x l = some (s, env) → env.encoded = .ok body →
    EncodedBy item serviceName schemaUrl attrs s (x.world.exp.sig s).pending body

theorem along_watched {C : State ι cap → Label ι → Prop} {x : Watched ι cap} {ls : List (Label ι)}
    (h : Steps.Along Exporter.step C x.state ls) : Steps.Along Watched.step (fun x => C x.state) x ls := by
  induction ls generalizing x with
  | nil => trivial
  | cons l ls ih =>
    refine ⟨h.1, fun y hy => ?_⟩
    rw [Option.mem_def, Watched.step, Option.map_eq_some_iff] at hy
    obtain ⟨z, hz, rfl⟩ := hy
    exact ih (h.2 z hz)

section Watched

variable (item : ι → Telemetry) (serviceName : Bytes) (schemaUrl : Option Bytes) (attrs : List KeyValue)

def Carries (s : Signal) (items : List ι) (bytes : Bytes) : Prop :=
  ∃ body, EncodedBy item serviceName schemaUrl attrs s items body ∧ requestBody bytes = some body

structure Watching (x : Watched ι cap) : Prop where
  delivered : ∀ s, Delivered s x.state
  clean : ∀ s, CleanUrl (x.state.world.exp.sig s).url
  unsent : x.state.world.exp.inFlight = none → x.wire = []
  flight : ∀ r, x.state.world.exp.inFlight = some r → ∃ bytes,
    Carries item serviceName schemaUrl attrs x.state.world.exp.inFlightSignal x.state.world.inFlightItems bytes ∧
      WireOk bytes ⟨r, x.wire, []⟩
  acked : ∀ s, List.Forall₂ (Carries item serviceName schemaUrl attrs s) (ackedBodies s x.state.world.history) (x.acked s)

variable {item serviceName schemaUrl attrs}

theorem carries_new {x : Watched ι cap} {l : Label ι} {z : State ι cap} (hclean : ∀ s, CleanUrl (x.state.world.exp.sig s).url)
    (henc : Encodes item serviceName schemaUrl attrs x.state l) (hz : Exporter.step x.state l = some z)
    (hnone : x.state.world.exp.inFlight = none) {r : OtlpHttpRequest} (hr : z.world.exp.inFlight = some r) :
    Carries item serviceName schemaUrl attrs z.world.exp.inFlightSignal z.world.inFlightItems r.reqBuf ∧
      WireOk r.reqBuf (Wire.start r) := by
  obtain ⟨s, env, hattempt, hsignal, hitems⟩ := (step_effect hz).new_request hnone hr
  have hspec := step_started hz hattempt hr
  refine ⟨?_, .start (started_of_specBuildRequest hspec)⟩
  rw [specBuildRequest_snd] at hspec
  split at hspec
  · cases hspec
  split at hspec
  · cases hspec
  next body hbody =>
    rw [hsignal, hitems]
    exact ⟨body, henc s env body hattempt hbody, requestBody_built (hclean s) (reqBuf_of_startPostCommon hspec)⟩

theorem watching_step {x y : Watched ι cap} {l : Label ι} (hx : Watching item serviceName schemaUrl attrs x)
    (henc : Encodes item serviceName schemaUrl attrs x.state l) (h : x.step l = some y) :
    Watching item serviceName schemaUrl attrs y := by
  rw [Watched.step, Option.map_eq_some_iff] at h
  obtain ⟨z, hz, rfl⟩ := h
  have heffect := step_effect hz
  have hreal := (hx.delivered .span).realOk.nullTransport_eq
  have hdelivered : ∀ s, Delivered s z := fun s => delivered_step (hx.delivered s) hz
  have hclean : ∀ s, CleanUrl (z.world.exp.sig s).url := fun s => by
    rw [(step_config hz).url_eq]
    exact hx.clean s
  cases hin : inFlightStep x.state l with
  | some a =>
    obtain ⟨r, io⟩ := a
    obtain ⟨hflight, -, hends⟩ := requestEnds_inFlightStep hin
    obtain ⟨hgoes, hstops⟩ := step_inFlightStep hz hin
    obtain ⟨bytes, hcarries, hwire⟩ := hx.flight r hflight
    have hwire' : WireOk bytes ⟨(otlpHttpRequestStep r io).1, x.wire ++ taken x.state l, []⟩ := by
      have hnext : wireStep ⟨r, x.wire, []⟩ io = some ⟨_, _, _⟩ := rfl
      have hstep := hwire.step hnext
      rw [taken, hin]
      exact ⟨hstep.reqBuf_eq, hstep.sent_le, hstep.written_eq, hstep.sent_all, hstep.buf⟩
    cases hended : requestEnds x.state l with
    | none =>
      have hz' := hgoes hended
      obtain ⟨hsignal, hitems⟩ := heffect.same_request hreal hflight
      refine ⟨hdelivered, hclean, fun hnone => ?_, fun r' hr' => ⟨bytes, ?_, ?_⟩, fun s => ?_⟩
      · rw [hz'] at hnone
        cases hnone
      · dsimp only
        rwa [hsignal, hitems]
      · dsimp only at hr' ⊢
        rw [hz', Option.some.injEq] at hr'
        rw [hz', Option.isSome_some, if_pos rfl, ← hr']
        exact hwire'
      · dsimp only [Watched.acked]
        rw [heffect.acked_kept hreal hended]
        exact hx.acked s
    | some o =>
      have hz' := hstops o hended
      refine ⟨hdelivered, hclean, fun _ => ?_, fun r' hr' => ?_, fun s => ?_⟩
      · simp [hz']
      · dsimp only at hr'
        rw [hz'] at hr'
        cases hr'
      · dsimp only [Watched.acked]
        rw [heffect.acked_ended hended, List.filterMap_append]
        refine List.rel_append (hx.acked s) ?_
        by_cases hacked : x.state.world.exp.inFlightSignal = s ∧ successStatus o.status = true
        · have hdone : (otlpHttpRequestStep r io).1.state = .done := done_of_success (hends.symm.trans hended) hacked.2
          have hall : x.wire ++ taken x.state l = bytes := by
            have hwritten := hwire'.written_eq
            rwa [hwire'.sent_all (.inr hdone), List.take_length] at hwritten
          rw [hall]
          obtain ⟨rfl, hsuccess⟩ := hacked
          simpa [hsuccess] using hcarries
        · simp [hacked]
  | none =>
    have hended : requestEnds x.state l = none := by
      by_contra hsome
      obtain ⟨o, ho⟩ := Option.ne_none_iff_exists'.1 hsome
      obtain ⟨a, ha⟩ := inFlightStep_of_requestEnds ho
      rw [hin] at ha
      cases ha
    have htaken : taken x.state l = [] := by rw [taken, hin, Option.elim_none]
    refine ⟨hdelivered, hclean, fun hnone => ?_, fun r hr => ?_, fun s => ?_⟩
    · dsimp only at hnone ⊢
      rw [hnone, Option.isSome_none, if_neg Bool.false_ne_true]
    · dsimp only at hr ⊢
      rw [hr, Option.isSome_some, if_pos rfl, htaken, List.append_nil]
      cases hflight : x.state.world.exp.inFlight with
      | none =>
        rw [hx.unsent hflight]
        exact ⟨_, carries_new hx.clean henc hz hflight hr⟩
      | some r₀ =>
        have hfree : l ≠ .free := by
          rintro rfl
          rw [step_free hz] at hr
          cases hr
        have hkept := step_keeps hz hfree hflight hin
        rw [hr, Option.some.injEq] at hkept
        obtain ⟨hsignal, hitems⟩ := heffect.same_request hreal hflight
        rw [hsignal, hitems, hkept]
        exact hx.flight r₀ hflight
    · dsimp only [Watched.acked]
      rw [heffect.acked_kept hreal hended, hended]
      exact hx.acked s

theorem readPost_carries {s : Signal} {items : List ι} {bytes : Bytes}
    (h : Carries item serviceName schemaUrl attrs s items bytes) :
    readPost s bytes = some { attributes := resourceKvs (some serviceName) attrs
                              items := items.flatMap fun i => (item i).received } := by
  obtain ⟨body, hencoded, hbody⟩ := h
  rw [readPost, hbody, Option.bind_some, decodeBody_encoded hencoded]

/-- The requests that carry some batches read back as these. -/
theorem mapM_readPost {s : Signal} {bodies : List (List ι)} {requests : List Bytes}
    (h : List.Forall₂ (Carries item serviceName schemaUrl attrs s) bodies requests) :
    requests.mapM (readPost s) = some (bodies.map fun items =>
      { attributes := resourceKvs (some serviceName) attrs, items := items.flatMap fun i => (item i).received }) := by
  induction h with
  | nil => rfl
  | cons hfirst hrest ih => simp [List.mapM_cons, readPost_carries hfirst, ih]

end Watched

theorem clean_of_signalUrl {base url : OtlpHttpUrl} {override : Option Bytes} {s : Signal} (hbase : CleanUrl base)
    (h : signalUrl base override s = .ok url) : CleanUrl url := by
  have hdefault : CleanUrl { base with path := defaultPath s } := by
    refine ⟨hbase.1, ?_⟩
    change cr ∉ defaultPath s
    cases s <;> decide
  unfold signalUrl at h
  split at h
  · cases h
    exact hdefault
  · split at h
    · cases h
      exact hdefault
    · obtain ⟨hhost, hpath⟩ := otlpHttpParseUrl_noCrLf h
      rw [hasCrLf_eq_false] at hhost hpath
      exact ⟨hhost.1, hpath.1⟩

theorem clean_of_create {opts : OtlpExporterOpts} {env : CreateEnv}
    {e : OtlpExporter ι (normalizeOpts opts).queueCapacity} (h : otlpExporterCreate ι opts env = some e) (s : Signal) :
    CleanUrl (e.sig s).url := by
  unfold otlpExporterCreate createNormalized at h
  split at h
  · cases h
  next base hbase =>
  obtain ⟨hhost, hpath⟩ := otlpHttpParseUrl_noCrLf hbase
  rw [hasCrLf_eq_false] at hhost hpath
  have hclean : CleanUrl base := ⟨hhost.1, hpath.1⟩
  split at h
  next metrics logs hmetrics hlogs =>
    split at h
    · cases h
    split at h
    · cases h
    split at h
    · cases h
    split at h
    · cases h
    rw [Option.some.injEq] at h
    subst h
    cases s with
    | span => exact hclean
    | metric => exact clean_of_signalUrl hclean hmetrics
    | log => exact clean_of_signalUrl hclean hlogs
  · cases h

/-- **What the collectors get** of a run whose requests are encoded from what is pending: the requests of a signal that
were answered with a 2xx read, one after the other and under the resource of the exporter, as a subsequence of what the
signal's queue accepted, whatever the network did to the requests in between. -/
theorem collected_of_run (item : ι → Telemetry) {attrs : List KeyValue} {opts : OtlpExporterOpts} {env : CreateEnv}
    {fn : Bool} {e : OtlpExporter ι (normalizeOpts opts).queueCapacity}
    (hcreate : otlpExporterCreate ι opts env = some e) {ls : List (Label ι)} {x : Watched ι _}
    (henc : Steps.Along step (Encodes item e.serviceName e.schemaUrl attrs) (State.init e false fn) ls)
    (hrun : Steps.run Watched.step (Watched.init e fn) ls = some x) (s : Signal) :
    ∃ posts, (x.acked s).mapM (readPost s) = some posts ∧
      (posts.flatMap Post.items).Sublist
        ((acceptedItems s x.state.world.history).flatMap fun i => (item i).received) ∧
      ∀ p ∈ posts, p.attributes = resourceKvs (some e.serviceName) attrs := by
  have hfresh := fresh_of_create hcreate
  have hinit : Watching item e.serviceName e.schemaUrl attrs (Watched.init e fn) := by
    refine ⟨hfresh.delivered fn, fun t => (clean_of_create hcreate t :), fun _ => rfl, fun r hr => ?_, fun t => .nil⟩
    have hnone : (Watched.init e fn).state.world.exp.inFlight = none := hfresh.inFlight_eq
    rw [hnone] at hr
    cases hr
  have hwatched : Steps.Along Watched.step (fun x => Encodes item e.serviceName e.schemaUrl attrs x.state)
      (Watched.init e fn) ls := along_watched henc
  have hx := Steps.along_invariant (fun _ _ _ hx henc h => watching_step hx henc h) hinit hwatched hrun
  refine ⟨_, mapM_readPost (hx.acked s), ?_, ?_⟩
  · rw [List.flatMap_map, ← List.flatMap_assoc, List.flatMap_id']
    exact (hx.delivered s).acked.flatMap _
  · simp

/-! ### A span in two writes -/

/-- A new span, and the request for it. -/
def getSpan : Api.Span := (otlpSpanCreate .granting (some (ascii "GET"))).1.get span_created

def getRequest : OtlpStatus × PbBuf × Heap :=
  otlpEncodeExportTraceServiceRequest (some []) none [] none none ([getSpan].map (·.view)) .granting .inline

/-- Its resource has no attributes, and the span 41 bytes. -/
def getBody : Bytes :=
  [10, 45, 18, 43, 18, 41, 10, 16] ++ List.replicate 16 0 ++ [18, 8] ++ List.replicate 8 0 ++ [42, 3] ++
    ascii "GET" ++ [48, 1, 133, 1, 1, 0, 0, 0]

theorem getRequest_encodes : getRequest.1 = .ok := by decide +kernel

theorem getRequest_bytes : getRequest.2.1.bytes = getBody := by decide +kernel

theorem getRequest_encoded : EncodedBy (fun _ : ℕ => .span getSpan) [] none [] .span [1] getRequest.2.1.bytes := by
  have hitems : [1].map (fun _ : ℕ => Telemetry.span getSpan) = [getSpan].map .span := rfl
  have hbuf : PbBuf.inline.bytes = [] := rfl
  have hok : otlpEncodeExportTraceServiceRequest (some []) none [] none none ([getSpan].map (·.view)) .granting
      .inline = (.ok, getRequest.2.1, getRequest.2.2) := eq_of_ok (r := getRequest) getRequest_encodes
  exact .span hitems hbuf hok

/-- A step that encodes the span, in which the socket takes `n` bytes, or returns `bytes`. -/
def getEnv (n : ℕ) (bytes : Bytes) : TickEnv :=
  { TickEnv.fine 0 bytes with
    build := { BuildEnv.fine with encoded := .ok getBody }
    io := { fineIo bytes with nWritten := n } }

def getRun : List (Label ℕ) :=
  [.emitMove .span (some 1)] ++ tickRound 11 0 (getEnv 100 []) ++ tickRound 8 0 (getEnv 1000 []) ++
    tickRound 8 0 (getEnv 0 (emptyResponse 200))

def EncodesGet (x : State ℕ cap) (l : Label ℕ) : Prop :=
  ∀ a ∈ startAttempt x l, a.1 = .span ∧ (x.world.exp.sig .span).pending = [1] ∧ a.2.encoded = .ok getBody

instance (x : State ℕ cap) (l : Label ℕ) : Decidable (EncodesGet x l) :=
  inferInstanceAs (Decidable (∀ a ∈ startAttempt x l, _ ∧ _ ∧ _))

theorem encodesGet_along : (otlpExporterCreate ℕ (plainOpts 1 1) .fine).map (fun e =>
    decide (Steps.Along step EncodesGet (State.init e false false) getRun)) = some true := by decide +kernel

theorem collected_of_run_get : ∃ x : Watched ℕ (normalizeOpts (plainOpts 1 1)).queueCapacity,
    (x.acked .span).length = 1 ∧
    ∃ posts, (x.acked .span).mapM (readPost .span) = some posts ∧
      (posts.flatMap Post.items).Sublist
        ((acceptedItems .span x.state.world.history).flatMap fun _ => (Telemetry.span getSpan).received) ∧
      ∀ p ∈ posts, p.attributes = resourceKvs (some []) [] := by
  have hruns : (otlpExporterCreate ℕ (plainOpts 1 1) .fine).bind (fun e =>
      (Steps.run Watched.step (Watched.init e false) getRun).map fun x =>
        (e.serviceName, e.schemaUrl, (x.acked .span).length)) = some ([], none, 1) := by decide +kernel
  obtain ⟨e, hcreate, hrest⟩ := Option.bind_eq_some_iff.1 hruns
  obtain ⟨x, hrun, hread⟩ := Option.map_eq_some_iff.1 hrest
  simp only [Prod.mk.injEq] at hread
  obtain ⟨hname, hschema, hacked⟩ := hread
  have halong : Steps.Along step EncodesGet (State.init e false false) getRun := by
    have hdecided := encodesGet_along
    rw [hcreate, Option.map_some, Option.some.injEq] at hdecided
    exact of_decide_eq_true hdecided
  have henc : Steps.Along step (Encodes (fun _ => .span getSpan) e.serviceName e.schemaUrl [])
      (State.init e false false) getRun := by
    refine Steps.along_of_along (P := fun _ => True) (fun _ _ _ _ _ _ => trivial) (fun x l _ hC => ?_) trivial halong
    intro s env body hattempt hbody
    obtain ⟨rfl, hpending, hencoded⟩ := hC (s, env) hattempt
    rw [hbody, Except.ok.injEq] at hencoded
    rw [hencoded, hpending, hname, hschema, ← getRequest_bytes]
    exact getRequest_encoded
  have hcollected := collected_of_run (fun _ => .span getSpan) hcreate henc hrun .span
  rw [hname] at hcollected
  exact ⟨x, hacked, hcollected⟩

end OtlpC.Exporter
