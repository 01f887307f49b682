import OtlpC.Exporter.Run

/-!
# What a step of the exporter can do

`step_effect` follows the inversion `stepped` into the world: every step has one of the effects of
`Effect`, which say what it does to the fields of the world. Every invariant of the exporter is proved by cases on it.
-/

namespace OtlpC.Exporter

open Http

variable {ι : Type*} {cap : ℕ}

/-! ### Outcomes -/

/-- A failure that is retried while the budget lasts. -/
def transient (status : ℤ) : Bool := status == 0 || retryableStatus status

def retries (e : OtlpExporter ι cap) (status : ℤ) : Bool :=
  transient status && succ32 e.attempt ≤ e.maxRetries

/-- The event of an outcome that ends the batch. -/
def finalEvent (e : OtlpExporter ι cap) (status : ℤ) : OtlpEvent :=
  let ev : OtlpEvent := { code := .itemsDropped, level := .error, signal := e.inFlightSignal,
                          count := e.inFlightCount, httpStatus := status }
  if successStatus status then { ev with code := .batchSent, level := .debug }
  else if transient status then { ev with maxRetries := e.maxRetries, dropReason := .maxRetries }
  else { ev with dropReason := .httpStatus }

/-- The HTTP counters and the jitter generator, which nothing else in the model depends on. -/
structure Tally where
  http2xx : ℕ
  http4xx : ℕ
  http5xx : ℕ
  networkErr : ℕ
  backoffDeadlineMono : ℕ
  jitterPrng : UInt64

def OtlpExporter.tally (e : OtlpExporter ι cap) (t : Tally) : OtlpExporter ι cap :=
  { e with
    http2xx := t.http2xx
    http4xx := t.http4xx
    http5xx := t.http5xx
    networkErr := t.networkErr
    backoffDeadlineMono := t.backoffDeadlineMono
    jitterPrng := t.jitterPrng }

def OtlpExporter.tallyOf (e : OtlpExporter ι cap) : Tally :=
  { http2xx := e.http2xx, http4xx := e.http4xx, http5xx := e.http5xx, networkErr := e.networkErr,
    backoffDeadlineMono := e.backoffDeadlineMono, jitterPrng := e.jitterPrng }

def OtlpExporter.armed (e : OtlpExporter ι cap) : OtlpExporter ι cap :=
  { e with attempt := succ32 e.attempt, backoffArmed := true }

/-- The exporter when an outcome has ended the batch in flight. -/
def OtlpExporter.ended (e : OtlpExporter ι cap) (status : ℤ) (rejected : ℕ) : OtlpExporter ι cap :=
  let sg := e.sig e.inFlightSignal
  let sg := { sg with
    sent := if successStatus status then sg.sent + e.inFlightCount else sg.sent
    droppedErr := if successStatus status then sg.droppedErr else sg.droppedErr + e.inFlightCount
    rejected
    pending := []
    firstSet := false }
  { e with sig := Function.update e.sig e.inFlightSignal sg, attempt := 0, backoffArmed := false }

theorem ended_sig_of_ne (e : OtlpExporter ι cap) (status : ℤ) (rejected : ℕ) {s : Signal}
    (h : s ≠ e.inFlightSignal) : (e.ended status rejected).sig s = e.sig s :=
  Function.update_of_ne h _ _

@[simp] theorem ended_pending (e : OtlpExporter ι cap) (status : ℤ) (rejected : ℕ) :
    ((e.ended status rejected).sig e.inFlightSignal).pending = [] := by
  simp [OtlpExporter.ended]

@[simp] theorem ended_queue (e : OtlpExporter ι cap) (status : ℤ) (rejected : ℕ) :
    ((e.ended status rejected).sig e.inFlightSignal).queue = (e.sig e.inFlightSignal).queue := by
  simp [OtlpExporter.ended]

/-- What an outcome that ends the batch leaves in the history: its event, perhaps a report of partial
success, and the items freed. -/
def endedObs (e : OtlpExporter ι cap) (status : ℤ) (more : List OtlpEvent) : List (Obs ι) :=
  (.event (finalEvent e status) :: more.map .event) ++
    (e.sig e.inFlightSignal).pending.map fun item => .freed e.inFlightSignal item .clearInFlightBatch

theorem transientFailure_retry {w : World ι cap} {status : ℤ} {retryAfterMs now : ℕ}
    (h : succ32 w.exp.attempt ≤ w.exp.maxRetries) :
    ∃ t ev, transientFailure w status retryAfterMs now =
      { w with exp := w.exp.armed.tally t, history := w.history ++ [.event ev] } ∧
      ev.code = .retryArmed := by
  have hbudget : ¬w.exp.maxRetries < succ32 w.exp.attempt := Nat.not_lt.2 h
  rcases hdelay : Retry.otlpRetryDelayMs w.exp.jitterPrng (succ32 w.exp.attempt) retryAfterMs
    { initialMs := w.exp.backoffInitialMs, maxMs := w.exp.backoffMaxMs } with ⟨prng, delay, driven⟩
  unfold transientFailure
  simp only [hbudget, if_false, hdelay]
  exact ⟨⟨_, _, _, _, _, _⟩, _, rfl, rfl⟩

theorem transientFailure_final {w : World ι cap} {status : ℤ} {retryAfterMs now : ℕ}
    (htransient : transient status = true) (hsuccess : successStatus status = false)
    (h : w.exp.maxRetries < succ32 w.exp.attempt) :
    transientFailure w status retryAfterMs now =
      { w with
        exp := w.exp.ended status (w.exp.sig w.exp.inFlightSignal).rejected
        history := w.history ++ endedObs w.exp status [] } := by
  unfold transientFailure
  simp only [h, if_true]
  simp [World.event, World.observe, World.modSig, clearInFlightBatch, OtlpExporter.ended, endedObs,
    finalEvent, htransient, hsuccess]

theorem reportPartialSuccess_eq (w : World ι cap) (s : Signal) (count : ℕ) (body : Bytes) :
    ∃ rejected more, NoDrop more ∧ otlpExporterReportPartialSuccess w s true count body =
      (w.modSig s fun sg => { sg with rejected }).observe (more.map .event) := by
  have hsame : w = (w.modSig s fun sg => { sg with rejected := (w.exp.sig s).rejected }).observe [] := by
    simp [World.modSig, World.observe]
  unfold otlpExporterReportPartialSuccess
  split
  · exact ⟨_, [], noDrop_nil, hsame⟩
  · dsimp only
    split
    · exact ⟨_, [], noDrop_nil, hsame⟩
    · exact ⟨_, [_], noDrop_singleton (by simp), rfl⟩

theorem reportBody_eq (w : World ι cap) (s : Signal) (count : ℕ) (body : Option Bytes) :
    ∃ rejected more, NoDrop more ∧ reportBody w s true count body =
      (w.modSig s fun sg => { sg with rejected }).observe (more.map .event) := by
  have hsame : w = (w.modSig s fun sg => { sg with rejected := (w.exp.sig s).rejected }).observe [] := by
    simp [World.modSig, World.observe]
  cases body with
  | none => exact ⟨_, [], noDrop_nil, hsame⟩
  | some body =>
    rw [reportBody]
    split
    · exact ⟨_, [], noDrop_nil, hsame⟩
    · exact reportPartialSuccess_eq w s count body

theorem successStatus_of_transient {status : ℤ} (h : transient status = true) :
    successStatus status = false := by
  simp only [transient, retryableStatus, Bool.or_eq_true, beq_iff_eq, Bool.and_eq_true,
    decide_eq_true_eq] at h
  simp only [successStatus, Bool.and_eq_false_iff, decide_eq_false_iff_not]
  omega

/-- An outcome that leaves budget arms the backoff and touches no signal. -/
theorem recordOutcome_retry {w : World ι cap} {o : HttpOutcome} (now : ℕ)
    (h : retries w.exp o.status = true) :
    ∃ t ev, recordOutcome w o now =
      { w with exp := w.exp.armed.tally t, history := w.history ++ [.event ev] } ∧
      ev.code = .retryArmed := by
  simp only [retries, Bool.and_eq_true, decide_eq_true_eq] at h
  obtain ⟨htransient, hbudget⟩ := h
  unfold recordOutcome
  by_cases hzero : o.status = 0
  · rw [if_pos hzero]
    exact transientFailure_retry (w := { w with exp := { w.exp with networkErr := _ } }) hbudget
  · have hretryable : retryableStatus o.status = true := by
      simpa [transient, hzero] using htransient
    rw [if_neg hzero, successStatus_of_transient htransient, hretryable]
    split
    · contradiction
    · rw [if_pos rfl]
      split
      · exact transientFailure_retry (w := { w with exp := { w.exp with http4xx := _ } }) hbudget
      · exact transientFailure_retry (w := { w with exp := { w.exp with http5xx := _ } }) hbudget

theorem batchSent_eq {w : World ι cap} {o : HttpOutcome} (hsuccess : successStatus o.status = true) :
    ∃ t rejected more, NoDrop more ∧ batchSent w o =
      { w with
        exp := (w.exp.ended o.status rejected).tally t
        history := w.history ++ endedObs w.exp o.status more } := by
  unfold batchSent
  obtain ⟨rejected, more, hmore, hreport⟩ := reportBody_eq
    ((({ w with exp := { w.exp with http2xx := w.exp.http2xx + 1 } } : World ι cap).modSig
      w.exp.inFlightSignal fun sg => { sg with sent := sg.sent + w.exp.inFlightCount }).event
        { code := .batchSent, level := .debug, signal := w.exp.inFlightSignal,
          count := w.exp.inFlightCount, httpStatus := o.status })
    w.exp.inFlightSignal w.exp.inFlightCount o.body
  refine ⟨{ w.exp.tallyOf with http2xx := w.exp.http2xx + 1 }, rejected, more, hmore, ?_⟩
  dsimp only
  rw [hreport]
  simp [clearInFlightBatch, OtlpExporter.tallyOf, World.event, World.observe, World.modSig, OtlpExporter.ended,
    OtlpExporter.tally, endedObs, finalEvent, hsuccess]

theorem batchRefused_eq {w : World ι cap} {o : HttpOutcome} (hsuccess : successStatus o.status = false)
    (htransient : transient o.status = false) :
    batchRefused w o =
      { w with
        exp := ({ w.exp with http4xx := w.exp.http4xx + 1 } : OtlpExporter ι cap).ended o.status
          (w.exp.sig w.exp.inFlightSignal).rejected
        history := w.history ++ endedObs w.exp o.status [] } := by
  simp [batchRefused, clearInFlightBatch, World.event, World.observe, World.modSig, OtlpExporter.ended,
    endedObs, finalEvent, hsuccess, htransient]

/-- An outcome that ends the batch counts it and frees what is pending. -/
theorem recordOutcome_final {w : World ι cap} {o : HttpOutcome} (now : ℕ)
    (h : retries w.exp o.status = false) :
    ∃ t rejected more, NoDrop more ∧ recordOutcome w o now =
      { w with
        exp := (w.exp.ended o.status rejected).tally t
        history := w.history ++ endedObs w.exp o.status more } := by
  simp only [retries, Bool.and_eq_false_iff, decide_eq_false_iff_not, Nat.not_le] at h
  have hbudget : transient o.status = true → w.exp.maxRetries < succ32 w.exp.attempt := by
    intro htransient
    rw [htransient] at h
    exact h.resolve_left (by simp)
  unfold recordOutcome
  split
  · next hzero =>
    have htransient : transient o.status = true := by simp [transient, hzero]
    refine ⟨{ w.exp.tallyOf with networkErr := w.exp.networkErr + 1 },
      (w.exp.sig w.exp.inFlightSignal).rejected, [], noDrop_nil, ?_⟩
    rw [hzero]
    exact transientFailure_final
      (w := { w with exp := { w.exp with networkErr := w.exp.networkErr + 1 } }) rfl rfl
      (hbudget htransient)
  split
  · next hsuccess => exact batchSent_eq hsuccess
  next hzero hsuccess =>
  rw [Bool.not_eq_true] at hsuccess
  split
  · next hretryable =>
    have htransient : transient o.status = true := by simp [transient, hretryable]
    split
    · exact ⟨{ w.exp.tallyOf with http4xx := w.exp.http4xx + 1 }, _, [], noDrop_nil, transientFailure_final
        (w := { w with exp := { w.exp with http4xx := w.exp.http4xx + 1 } }) htransient hsuccess
        (hbudget htransient)⟩
    · exact ⟨{ w.exp.tallyOf with http5xx := w.exp.http5xx + 1 }, _, [], noDrop_nil, transientFailure_final
        (w := { w with exp := { w.exp with http5xx := w.exp.http5xx + 1 } }) htransient hsuccess
        (hbudget htransient)⟩
  · next hretryable =>
    have htransient : transient o.status = false := by simp [transient, hzero, hretryable]
    exact ⟨{ w.exp.tallyOf with http4xx := w.exp.http4xx + 1 }, _, [], noDrop_nil,
      batchRefused_eq hsuccess htransient⟩

/-! ### Starting a request -/

/-- The size `build_request` of a signal asks for its encode buffer. -/
def encodeBufSize (s : Signal) (nItems : ℕ) : ℕ :=
  match s with
  | .span => nItems * 256 + 1024
  | .metric | .log => nItems * 128 + 512

/-- The build ends before a request could own the donated socket. -/
def buildEndsEarly (w : World ι cap) (s : Signal) (env : BuildEnv) : Bool :=
  !env.bufInitOk (encodeBufSize s (w.exp.sig s).pending.length) ||
    (match env.encoded with | .error _ => true | .ok _ => false) || !env.start.callocOk

inductive BuildFailed (w : World ι cap) (s : Signal) (env : BuildEnv) : Net → Prop where
  | unopened (hnone : w.exp.keepaliveSock = none) : BuildFailed w s env w.net
  | reclosed (hnone : w.exp.keepaliveSock = none) :
      BuildFailed w s env ((w.net.connect (w.exp.sig s).url.host (w.exp.sig s).url.port).1.close
        w.net.connects.length)
  | lost (k : Sock) (hsome : w.exp.keepaliveSock = some k) (hearly : buildEndsEarly w s env = true) :
      BuildFailed w s env w.net
  | closed (k : Sock) (hsome : w.exp.keepaliveSock = some k) (hearly : buildEndsEarly w s env = false) :
      BuildFailed w s env (w.net.close k)

/-- The sockets after a build that starts a request, and the request's own. -/
inductive BuildStarted (w : World ι cap) (s : Signal) : Net → Sock → Prop where
  | donated (k : Sock) (hsome : w.exp.keepaliveSock = some k) : BuildStarted w s w.net k
  | connected (hnone : w.exp.keepaliveSock = none) :
      BuildStarted w s (w.net.connect (w.exp.sig s).url.host (w.exp.sig s).url.port).1
        w.net.connects.length

theorem specBuildRequest_eq (w : World ι cap) (s : Signal) (env : BuildEnv) :
    specBuildRequest w env s =
      if !env.bufInitOk (encodeBufSize s (w.exp.sig s).pending.length) then (w, .error .errNomem)
      else
        match env.encoded with
        | .error st => (w.observe [.encoded s (w.exp.sig s).pending], .error st)
        | .ok body =>
          let (net, r) := startPostCommon w.net (w.exp.sig s).url (some w.exp.userAgent)
            w.exp.httpHeaders body w.exp.connectTimeoutMs w.exp.readTimeoutMs env.start
            w.exp.keepaliveSock
          ({ w.observe [.encoded s (w.exp.sig s).pending] with net }, r) := by
  cases s <;> rfl

theorem specBuildRequest_snd (w : World ι cap) (s : Signal) (env : BuildEnv) :
    (specBuildRequest w env s).2 =
      if !env.bufInitOk (encodeBufSize s (w.exp.sig s).pending.length) then .error .errNomem
      else
        match env.encoded with
        | .error st => .error st
        | .ok body =>
          (startPostCommon w.net (w.exp.sig s).url (some w.exp.userAgent) w.exp.httpHeaders body
            w.exp.connectTimeoutMs w.exp.readTimeoutMs env.start w.exp.keepaliveSock).2 := by
  rw [specBuildRequest_eq]
  split
  · rfl
  split <;> rfl

theorem specBuildRequest_error {w w' : World ι cap} {s : Signal} {env : BuildEnv} {st : OtlpStatus}
    (h : specBuildRequest w env s = (w', .error st)) :
    ∃ net obs, w' = { w with net, history := w.history ++ obs } ∧ BuildFailed w s env net ∧
      (obs = [] ∨ obs = [.encoded s (w.exp.sig s).pending]) := by
  have hearly : buildEndsEarly w s env = true → BuildFailed w s env w.net := by
    intro hearly
    cases hsock : w.exp.keepaliveSock with
    | none => exact .unopened hsock
    | some k => exact .lost k hsock hearly
  rw [specBuildRequest_eq] at h
  split at h
  · next hbuf =>
    cases h
    exact ⟨w.net, [], by simp, hearly (by simp [buildEndsEarly, hbuf]), .inl rfl⟩
  next hbuf =>
  split at h
  · next st' hencoded =>
    cases h
    exact ⟨w.net, _, rfl, hearly (by simp [buildEndsEarly, hencoded]), .inr rfl⟩
  next body hencoded =>
  cases hsock : w.exp.keepaliveSock with
  | some k =>
    rw [hsock] at h
    rcases startWithSocket_cases w.net (w.exp.sig s).url (some w.exp.userAgent) w.exp.httpHeaders body
      w.exp.connectTimeoutMs w.exp.readTimeoutMs env.start k with ⟨r, hstart, -⟩ | ⟨st', hstart⟩
    · simp [startPostCommon, hstart] at h
    · simp only [startPostCommon, hstart, Prod.mk.injEq] at h
      refine ⟨_, _, h.1.symm, ?_, .inr rfl⟩
      cases hcalloc : env.start.callocOk with
      | true => exact .closed k hsock (by simpa [buildEndsEarly, hencoded, hcalloc] using hbuf)
      | false => exact hearly (by simp [buildEndsEarly, hcalloc])
  | none =>
    rw [hsock] at h
    rcases start_cases w.net (w.exp.sig s).url (some w.exp.userAgent) w.exp.httpHeaders body
      w.exp.connectTimeoutMs w.exp.readTimeoutMs env.start with ⟨r, hstart, -⟩ | ⟨st', hstart⟩ | ⟨st', hstart⟩
    · simp [startPostCommon, hstart] at h
    · simp only [startPostCommon, hstart, Prod.mk.injEq] at h
      exact ⟨_, _, h.1.symm, .unopened hsock, .inr rfl⟩
    · simp only [startPostCommon, hstart, Prod.mk.injEq] at h
      exact ⟨_, _, h.1.symm, .reclosed hsock, .inr rfl⟩

theorem specBuildRequest_ok {w w' : World ι cap} {s : Signal} {env : BuildEnv} {r : OtlpHttpRequest}
    (h : specBuildRequest w env s = (w', .ok r)) :
    ∃ net k, w' = { w with net, history := w.history ++ [.encoded s (w.exp.sig s).pending] } ∧
      BuildStarted w s net k ∧ r.sock = some k := by
  rw [specBuildRequest_eq] at h
  split at h
  · simp at h
  split at h
  · simp at h
  next body hencoded =>
  cases hsock : w.exp.keepaliveSock with
  | some k =>
    rw [hsock] at h
    rcases startWithSocket_cases w.net (w.exp.sig s).url (some w.exp.userAgent) w.exp.httpHeaders body
      w.exp.connectTimeoutMs w.exp.readTimeoutMs env.start k with ⟨r', hstart, hr⟩ | ⟨st', hstart⟩
    · simp only [startPostCommon, hstart, Prod.mk.injEq, Except.ok.injEq] at h
      exact ⟨_, k, h.1.symm, .donated k hsock, h.2 ▸ hr⟩
    · simp [startPostCommon, hstart] at h
  | none =>
    rw [hsock] at h
    rcases start_cases w.net (w.exp.sig s).url (some w.exp.userAgent) w.exp.httpHeaders body
      w.exp.connectTimeoutMs w.exp.readTimeoutMs env.start with ⟨r', hstart, hr⟩ | ⟨st', hstart⟩ | ⟨st', hstart⟩
    · simp only [startPostCommon, hstart, Prod.mk.injEq, Except.ok.injEq] at h
      exact ⟨_, _, h.1.symm, .connected hsock, h.2 ▸ hr⟩
    · simp [startPostCommon, hstart] at h
    · simp [startPostCommon, hstart] at h

/-! ### The end of a request -/

/-- The sockets after a request on `sock` has ended, and the one left to the exporter. -/
inductive AnsweredSockets (w : World ι cap) (sock : Option Sock) : Net → Option Sock → Prop where
  | kept : AnsweredSockets w sock w.net sock
  | closed (keepalive : Option Sock) (h : keepalive = none ∨ keepalive = w.exp.keepaliveSock) :
      AnsweredSockets w sock (w.net.closeOpt sock) keepalive

theorem requestEnded_cases {keepalive keepalive' : Option Sock} {r r' : OtlpHttpRequest} {o : HttpOutcome}
    (h : requestEnded keepalive r = some (o, r', keepalive')) :
    (r'.sock = r.sock ∧ keepalive' = keepalive ∧ o.status = 0) ∨
      (r'.sock = r.sock ∧ keepalive' = none) ∨ (r'.sock = none ∧ keepalive' = r.sock) := by
  unfold requestEnded at h
  split at h
  · simp only [otlpHttpRequestDetachSocket, Option.some.injEq, Prod.mk.injEq] at h
    obtain ⟨-, hr, hk⟩ := h
    subst hr hk
    split
    · exact .inr (.inl ⟨rfl, rfl⟩)
    · exact .inr (.inr ⟨rfl, rfl⟩)
  · simp only [Option.some.injEq, Prod.mk.injEq] at h
    obtain ⟨rfl, rfl, rfl⟩ := h
    exact .inl ⟨rfl, rfl, rfl⟩
  · contradiction

/-- What is left when the outcome of a request has been recorded: the request is freed, and the socket
it left is closed unless the collector took the batch or could not be reached. -/
theorem closeAnswered {w : World ι cap} {r r' : OtlpHttpRequest} {o : HttpOutcome}
    {keepalive : Option Sock} (h : requestEnded w.exp.keepaliveSock r = some (o, r', keepalive)) :
    ∃ net kept, AnsweredSockets w r.sock net kept ∧
      net = (if o.status ≠ 0 ∧ successStatus o.status = false then
          (w.net.closeOpt r'.sock).closeOpt keepalive else w.net.closeOpt r'.sock) ∧
      kept = (if o.status ≠ 0 ∧ successStatus o.status = false then none else keepalive) := by
  rcases requestEnded_cases h with ⟨hr, hk, hzero⟩ | ⟨hr, hk⟩ | ⟨hr, hk⟩
  · rw [if_neg (fun hne => hne.1 hzero), if_neg (fun hne => hne.1 hzero), hr, hk]
    exact ⟨_, _, .closed _ (.inr rfl), rfl, rfl⟩
  · rw [hr, hk]
    refine ⟨_, _, .closed none (.inl rfl), ?_, ?_⟩ <;> split <;> rfl
  · rw [hr, hk]
    split
    · exact ⟨_, _, .closed none (.inl rfl), rfl, rfl⟩
    · exact ⟨_, _, .kept, rfl, rfl⟩

def OtlpExporter.released (e : OtlpExporter ι cap) (keepalive : Option Sock) : OtlpExporter ι cap :=
  { e with keepaliveSock := keepalive, inFlight := none, inFlightCount := 0 }

theorem requestAnswered_retry {w : World ι cap} {r r' : OtlpHttpRequest} {o : HttpOutcome}
    {keepalive : Option Sock} (now : ℕ)
    (hended : requestEnded w.exp.keepaliveSock r = some (o, r', keepalive))
    (hretry : retries w.exp o.status = true) :
    ∃ net kept t ev, AnsweredSockets w r.sock net kept ∧ ev.code = .retryArmed ∧
      requestAnswered w o r' keepalive now =
        { w with
          net
          exp := (w.exp.armed.tally t).released kept
          history := w.history ++
            [.answered w.exp.inFlightSignal w.inFlightItems o.status, .event ev] } := by
  obtain ⟨net, kept, hsockets, hnet, hkept⟩ := closeAnswered hended
  unfold requestAnswered
  obtain ⟨t, ev, hrec, hev⟩ := recordOutcome_retry (o := o) now
    (w := ({ w with exp := { w.exp with keepaliveSock := keepalive } } : World ι cap).observe
      [.answered w.exp.inFlightSignal w.inFlightItems o.status]) hretry
  refine ⟨net, kept, t, ev, hsockets, hev, ?_⟩
  dsimp only
  rw [hrec]
  subst hnet hkept
  split <;>
    simp [otlpHttpRequestFree, OtlpExporter.released, OtlpExporter.tally, OtlpExporter.armed]

theorem requestAnswered_final {w : World ι cap} {r r' : OtlpHttpRequest} {o : HttpOutcome}
    {keepalive : Option Sock} (now : ℕ)
    (hended : requestEnded w.exp.keepaliveSock r = some (o, r', keepalive))
    (hfinal : retries w.exp o.status = false) :
    ∃ net kept t rejected more, AnsweredSockets w r.sock net kept ∧ NoDrop more ∧
      requestAnswered w o r' keepalive now =
        { w with
          net
          exp := ((w.exp.ended o.status rejected).tally t).released kept
          history := w.history ++ .answered w.exp.inFlightSignal w.inFlightItems o.status ::
            endedObs w.exp o.status more } := by
  obtain ⟨net, kept, hsockets, hnet, hkept⟩ := closeAnswered hended
  unfold requestAnswered
  obtain ⟨t, rejected, more, hmore, hrec⟩ := recordOutcome_final (o := o) now
    (w := ({ w with exp := { w.exp with keepaliveSock := keepalive } } : World ι cap).observe
      [.answered w.exp.inFlightSignal w.inFlightItems o.status]) hfinal
  refine ⟨net, kept, t, rejected, more, hsockets, hmore, ?_⟩
  dsimp only
  rw [hrec]
  subst hnet hkept
  split <;>
    simp [otlpHttpRequestFree, OtlpExporter.released, OtlpExporter.tally, OtlpExporter.ended, endedObs,
      finalEvent]

/-! ### The calls a step makes -/

/-- The signal a step builds a request for, with what the environment answers in the build. -/
def startAttempt (x : State ι cap) : Label ι → Option (Signal × BuildEnv)
  | .tickStep env =>
    match x.phase with
    | .tick f =>
      match f.pc with
      | .start s shutdown nowMs =>
        if x.world.exp.inFlight.isNone && !x.world.exp.backoffArmed &&
            batchReady x.world.exp s shutdown nowMs && !(x.world.exp.sig s).pending.isEmpty then
          some (s, env.build)
        else none
      | .backoffRetry =>
        if x.world.exp.backoffArmed && x.world.exp.inFlight.isNone &&
            x.world.exp.backoffDeadlineMono ≤ env.now && !x.world.exp.nullTransport &&
            !(x.world.exp.sig x.world.exp.inFlightSignal).pending.isEmpty then
          some (x.world.exp.inFlightSignal, env.build)
        else none
      | _ => none
    | _ => none
  | _ => none

/-- The build of a request of signal `s` fails. -/
def buildFails (w : World ι cap) (s : Signal) (env : BuildEnv) : Bool :=
  match (specBuildRequest w env s).2 with
  | .error _ => true
  | .ok _ => false

/-- The outcome of the request in flight when the step ends it. -/
def requestEnds (x : State ι cap) : Label ι → Option HttpOutcome
  | .tickStep env =>
    match x.phase with
    | .tick f =>
      match f.pc with
      | .stepInFlight =>
        x.world.exp.inFlight.bind fun r =>
          (requestEnded x.world.exp.keepaliveSock (otlpHttpRequestStep r env.io).1).map Prod.fst
      | _ => none
    | _ => none
  | _ => none

/-- The signal of which the step drains an item. -/
def drains (x : State ι cap) : Label ι → Option Signal
  | .tickStep env =>
    match x.phase with
    | .tick f =>
      match f.pc with
      | .drain s => if (drainOne x.world s env.now).isSome then some s else none
      | _ => none
    | _ => none
  | _ => none

/-- The step neither builds a request nor ends one. -/
structure NoCall (x : State ι cap) (l : Label ι) : Prop where
  startAttempt_eq : startAttempt x l = none
  requestEnds_eq : requestEnds x l = none

theorem requestEnds_of_startAttempt {x : State ι cap} {l : Label ι} {a : Signal × BuildEnv}
    (h : startAttempt x l = some a) : requestEnds x l = none := by
  unfold startAttempt at h
  unfold requestEnds
  split at h
  · split at h
    · split at h
      · next hpc => simp [*]
      · next hpc => simp [*]
      · contradiction
    · contradiction
  · contradiction

theorem startAttempt_of_requestEnds {x : State ι cap} {l : Label ι} {o : HttpOutcome}
    (h : requestEnds x l = some o) : startAttempt x l = none := by
  by_contra hne
  obtain ⟨a, ha⟩ := Option.ne_none_iff_exists'.1 hne
  rw [requestEnds_of_startAttempt ha] at h
  contradiction

theorem startAttempt_cases {x : State ι cap} {l : Label ι} {s : Signal} {env : BuildEnv}
    (h : startAttempt x l = some (s, env)) : (x.world.exp.sig s).pending ≠ [] ∧
      (x.world.exp.backoffArmed = true → s = x.world.exp.inFlightSignal) := by
  unfold startAttempt at h
  split at h
  · split at h
    · split at h
      · split at h
        · next hgo =>
          cases h
          simp only [Bool.and_eq_true, Bool.not_eq_true', List.isEmpty_eq_false_iff] at hgo
          refine ⟨hgo.2, fun harmed => ?_⟩
          rw [hgo.1.1.2] at harmed
          contradiction
        · contradiction
      · split at h
        · next hgo =>
          cases h
          simp only [Bool.and_eq_true, Bool.not_eq_true', List.isEmpty_eq_false_iff] at hgo
          exact ⟨hgo.2, fun _ => rfl⟩
        · contradiction
      · contradiction
    · contradiction
  · contradiction

theorem inFlight_of_requestEnds {x : State ι cap} {l : Label ι} {o : HttpOutcome}
    (h : requestEnds x l = some o) : x.world.exp.inFlight.isSome := by
  unfold requestEnds at h
  split at h
  · split at h
    · split at h
      · obtain ⟨r, hflight, -⟩ := Option.bind_eq_some_iff.1 h
        rw [hflight]
        rfl
      · contradiction
    · contradiction
  · contradiction

theorem noCall_of_pc {x : State ι cap} {f : Frame} (env : TickEnv) (hphase : x.phase = .tick f)
    (hstart : ∀ s shutdown nowMs, f.pc ≠ .start s shutdown nowMs) (hretry : f.pc ≠ .backoffRetry)
    (hstep : f.pc ≠ .stepInFlight) : NoCall x (.tickStep env) := by
  constructor
  · simp only [startAttempt, hphase]
  · simp only [requestEnds, hphase]

/-! ### Effects -/

/-- The exporter when a request of signal `s` has started. -/
def OtlpExporter.started (e : OtlpExporter ι cap) (s : Signal) (r : OtlpHttpRequest) :
    OtlpExporter ι cap :=
  { e with
    sig := Function.update e.sig s { e.sig s with firstSet := false }
    inFlight := some r
    inFlightSignal := s
    inFlightCount := (e.sig s).pending.length
    keepaliveSock := none
    backoffArmed := false }

/-- What a step may do to the world, on the real transport unless `nullTransport` is set. -/
inductive Effect (x : State ι cap) (l : Label ι) : World ι cap → Prop where
  | quiet (hcall : NoCall x l) : Effect x l x.world
  | shutdown (hcall : NoCall x l) : Effect x l (otlpExporterShutdown x.world)
  | refused (hcall : NoCall x l) (s : Signal) (item : ι) (droppedFull : ℕ) (evs : List OtlpEvent)
      (hev : ∀ ev ∈ evs, ev.code = .queueFull) :
      Effect x l ((x.world.observe
        (.handed s item :: .freed s item .emitMoveCommon :: evs.map .event)).modSig s fun sg =>
          { sg with droppedFull })
  | accepted (hcall : NoCall x l) (s : Signal) (item : ι) (queue : BoundedFifo ι cap)
      (hpush : (x.world.exp.sig s).queue.push item = some queue) :
      Effect x l ((x.world.observe [.handed s item, .accepted s item]).modSig s fun sg =>
        { sg with queue, emitted := sg.emitted + 1 })
  | drained (hcall : NoCall x l) (s : Signal) (item : ι) (queue : BoundedFifo ι cap) (firstMono : ℕ)
      (hpop : (x.world.exp.sig s).queue.pop = some (item, queue)) (hdrains : drains x l = some s) :
      Effect x l (x.world.modSig s fun sg =>
        { sg with queue, pending := sg.pending ++ [item], firstMono, firstSet := true })
  | disarmed (hcall : NoCall x l) (h : (x.world.exp.sig x.world.exp.inFlightSignal).pending = [] ∨
        x.world.exp.nullTransport = true) :
      Effect x l { x.world with exp := { x.world.exp with backoffArmed := false } }
  | startFailed (s : Signal) (env : BuildEnv) (net : Net) (obs : List (Obs ι))
      (hattempt : startAttempt x l = some (s, env)) (hfails : buildFails x.world s env = true)
      (hidle : x.world.exp.inFlight = none) (hnet : BuildFailed x.world s env net)
      (hobs : obs = [] ∨ obs = [.encoded s (x.world.exp.sig s).pending]) :
      Effect x l { x.world with
        net
        exp := { x.world.exp with keepaliveSock := none, backoffArmed := false }
        history := x.world.history ++ obs }
  | started (s : Signal) (env : BuildEnv) (net : Net) (r : OtlpHttpRequest) (k : Sock)
      (hattempt : startAttempt x l = some (s, env)) (hstarts : buildFails x.world s env = false)
      (hidle : x.world.exp.inFlight = none) (hnet : BuildStarted x.world s net k)
      (hsock : r.sock = some k) :
      Effect x l {
        net
        exp := x.world.exp.started s r
        inFlightItems := (x.world.exp.sig s).pending
        history := x.world.history ++
          [.encoded s (x.world.exp.sig s).pending, .posted s (x.world.exp.sig s).pending (some k)] }
  | progressed (hcall : NoCall x l) (r r' : OtlpHttpRequest) (hflight : x.world.exp.inFlight = some r)
      (hsock : r'.sock = r.sock) :
      Effect x l { x.world with exp := { x.world.exp with inFlight := some r' } }
  | answeredRetry (r : OtlpHttpRequest) (o : HttpOutcome) (net : Net) (kept : Option Sock) (t : Tally)
      (ev : OtlpEvent) (hflight : x.world.exp.inFlight = some r) (hends : requestEnds x l = some o)
      (hretry : retries x.world.exp o.status = true) (hnet : AnsweredSockets x.world r.sock net kept)
      (hev : ev.code = .retryArmed) :
      Effect x l { x.world with
        net
        exp := (x.world.exp.armed.tally t).released kept
        history := x.world.history ++
          [.answered x.world.exp.inFlightSignal x.world.inFlightItems o.status, .event ev] }
  | answeredFinal (r : OtlpHttpRequest) (o : HttpOutcome) (net : Net) (kept : Option Sock) (t : Tally)
      (rejected : ℕ) (more : List OtlpEvent) (hflight : x.world.exp.inFlight = some r)
      (hends : requestEnds x l = some o) (hfinal : retries x.world.exp o.status = false)
      (hnet : AnsweredSockets x.world r.sock net kept) (hmore : NoDrop more) :
      Effect x l { x.world with
        net
        exp := ((x.world.exp.ended o.status rejected).tally t).released kept
        history := x.world.history ++
          .answered x.world.exp.inFlightSignal x.world.inFlightItems o.status ::
            endedObs x.world.exp o.status more }
  | nullOutcome (hcall : NoCall x l) (s : Signal) (status : ℤ) (now : ℕ) (hnull : x.world.exp.nullTransport = true) :
      Effect x l (recordOutcome (nullPosted x.world s) { status, retryAfterMs := 0, body := none } now)
  | flushed (hcall : NoCall x l) (s : Signal) (net : Net) (prng : UInt64) (evs : List OtlpEvent) (ok : Bool)
      (hnet : Churn x.world.net net) (hevs : NoDrop evs) :
      Effect x l ((x.world.flushed net prng evs).modSig s fun sg => { sg with
        emitted := sg.emitted + 1
        sent := if ok then sg.sent + 1 else sg.sent
        droppedErr := if ok then sg.droppedErr else sg.droppedErr + 1 })
  | freed (hcall : NoCall x l) (h : l = .free) : Effect x l (otlpExporterFree x.world)

theorem emitHanded_effect {x : State ι cap} {l : Label ι} (hcall : NoCall x l) (s : Signal) (item : ι) :
    Effect x l (emitHanded (x.world.observe [.handed s item]) s item).1 := by
  unfold emitHanded
  split
  · have hsame : (x.world.observe [.handed s item]).observe [.freed s item .emitMoveCommon] =
        (x.world.observe (.handed s item :: .freed s item .emitMoveCommon ::
          ([] : List OtlpEvent).map .event)).modSig s fun sg =>
            { sg with droppedFull := (x.world.exp.sig s).droppedFull } := by
      simp [World.observe, World.modSig]
    dsimp only
    rw [hsame]
    exact .refused hcall s item _ [] (by simp)
  split
  · have heffect := Effect.refused hcall s item ((x.world.exp.sig s).droppedFull + 1)
      [{ code := .queueFull, level := .warn, signal := s, count := 1, dropReason := .queueFull }] (by simp)
    simpa [World.observe, World.modSig, World.event] using heffect
  · next queue hpush =>
    have heffect := Effect.accepted hcall s item queue hpush
    simpa [World.observe, World.modSig] using heffect

theorem emitMoveCommon_effect {x : State ι cap} {l : Label ι} (hcall : NoCall x l) (s : Signal)
    (item : Option ι) : Effect x l (emitMoveCommon x.world s item).1 := by
  cases item with
  | none => exact .quiet hcall
  | some item => exact emitHanded_effect hcall s item

theorem emitCloneCommon_effect {x : State ι cap} {l : Label ι} (hcall : NoCall x l) (s : Signal)
    (isNull : Bool) (clone : Option ι) : Effect x l (emitCloneCommon x.world s isNull clone).1 := by
  unfold emitCloneCommon
  split
  · exact .quiet hcall
  split
  · exact .quiet hcall
  split
  · exact .quiet hcall
  · exact emitMoveCommon_effect hcall s _

theorem flushItem_effect {x : State ι cap} {l : Label ι} (hcall : NoCall x l) {w : World ι cap}
    {s : Signal} {isNull : Bool} {env : FlushEnv} {st : OtlpStatus}
    (h : flushItem x.world s isNull env = some (w, st)) : Effect x l w := by
  rcases flushItem_eq h with rfl | ⟨net, prng, evs, ok, hchurn, hevs, rfl⟩
  · exact .quiet hcall
  · exact .flushed hcall s net prng evs ok hchurn hevs

def World.disarm (w : World ι cap) : World ι cap :=
  { w with exp := { w.exp with backoffArmed := false } }

theorem disarm_of_not_armed {w : World ι cap} (h : w.exp.backoffArmed = false) : w.disarm = w := by
  unfold World.disarm
  rw [← h]

theorem buildFails_disarm (w : World ι cap) (s : Signal) (env : BuildEnv) :
    buildFails w.disarm s env = buildFails w s env := by
  unfold buildFails
  rw [specBuildRequest_snd, specBuildRequest_snd]
  rfl

theorem BuildFailed.of_disarm {w : World ι cap} {s : Signal} {env : BuildEnv} {net : Net}
    (h : BuildFailed w.disarm s env net) : BuildFailed w s env net := by
  cases h with
  | unopened hnone => exact .unopened hnone
  | reclosed hnone => exact .reclosed hnone
  | lost k hsome hearly => exact .lost k hsome hearly
  | closed k hsome hearly => exact .closed k hsome hearly

theorem BuildStarted.of_disarm {w : World ι cap} {s : Signal} {net : Net} {k : Sock}
    (h : BuildStarted w.disarm s net k) : BuildStarted w s net k := by
  cases h with
  | donated _ hsome => exact .donated k hsome
  | connected hnone => exact .connected hnone

theorem tryStartPost_effect {x : State ι cap} {l : Label ι} {s : Signal} {env : BuildEnv}
    (hattempt : startAttempt x l = some (s, env)) (hidle : x.world.exp.inFlight = none)
    (hpending : (x.world.exp.sig s).pending ≠ []) :
    Effect x l (tryStartPost x.world.disarm s env).1 := by
  have hgo : ¬(x.world.disarm.exp.inFlight.isSome ||
      (x.world.disarm.exp.sig s).pending.isEmpty) = true := by
    simp [World.disarm, hidle, hpending]
  unfold tryStartPost
  rw [if_neg hgo]
  have hbuild := buildFails_disarm x.world s env
  split
  · next w' st hspec =>
    obtain ⟨net, obs, rfl, hnet, hobs⟩ := specBuildRequest_error hspec
    refine .startFailed s env net obs hattempt ?_ hidle hnet.of_disarm hobs
    rw [← hbuild, buildFails, hspec]
  · next w' r hspec =>
    obtain ⟨net, k, rfl, hnet, hsock⟩ := specBuildRequest_ok hspec
    have hstarted := Effect.started (x := x) (l := l) s env net r k hattempt
      (by rw [← hbuild, buildFails, hspec]) hidle hnet.of_disarm hsock
    simpa [startedPost, World.modSig, World.observe, World.disarm, OtlpExporter.started, hsock]
      using hstarted

theorem drainOne_effect {x : State ι cap} {l : Label ι} (hcall : NoCall x l) {s : Signal} {now : ℕ}
    {w : World ι cap} (hdrains : drains x l = some s) (h : drainOne x.world s now = some w) : Effect x l w := by
  unfold drainOne at h
  split at h
  · split at h
    · contradiction
    · next item queue hpop =>
      cases h
      exact .drained hcall s item queue _ hpop hdrains
  · contradiction

theorem stepInFlight_effect {x : State ι cap} {f : Frame} {env : TickEnv}
    (hphase : x.phase = .tick f) (hpc : f.pc = .stepInFlight) :
    Effect x (.tickStep env) (stepInFlight x.world env.io env.now) := by
  have hattempt : startAttempt x (.tickStep env) = none := by simp [startAttempt, hphase, hpc]
  have hends : requestEnds x (.tickStep env) = x.world.exp.inFlight.bind fun r =>
      (requestEnded x.world.exp.keepaliveSock (otlpHttpRequestStep r env.io).1).map Prod.fst := by
    simp only [requestEnds, hphase, hpc]
  unfold stepInFlight
  split
  · next hflight =>
    rw [hflight, Option.bind_none] at hends
    exact .quiet ⟨hattempt, hends⟩
  next r hflight =>
  rw [hflight, Option.bind_some] at hends
  split
  next r₁ st hstep =>
  have hsock : r₁.sock = r.sock := by
    rw [← otlpHttpRequestStep_sock r env.io, hstep]
  rw [hstep] at hends
  split
  · next hended =>
    rw [hended, Option.map_none] at hends
    exact .progressed ⟨hattempt, hends⟩ r r₁ hflight hsock
  next o r' keepalive hended =>
  rw [hended, Option.map_some] at hends
  cases hretry : retries x.world.exp o.status with
  | true =>
    obtain ⟨net, kept, t, ev, hnet, hev, heq⟩ := requestAnswered_retry env.now hended hretry
    rw [heq]
    exact .answeredRetry r o net kept t ev hflight hends hretry (hsock ▸ hnet) hev
  | false =>
    obtain ⟨net, kept, t, rejected, more, hnet, hmore, heq⟩ :=
      requestAnswered_final env.now hended hretry
    rw [heq]
    exact .answeredFinal r o net kept t rejected more hflight hends hretry (hsock ▸ hnet) hmore

theorem backoffRetry_effect {x : State ι cap} {f : Frame} {env : TickEnv}
    (hphase : x.phase = .tick f) (hpc : f.pc = .backoffRetry) :
    Effect x (.tickStep env) (backoffRetry x.world env.build env.now) := by
  have hends : requestEnds x (.tickStep env) = none := by simp [requestEnds, hphase, hpc]
  unfold backoffRetry
  split
  · next hdue =>
    change Effect x (.tickStep env)
      (if x.world.disarm.exp.nullTransport then x.world.disarm
       else (tryStartPost x.world.disarm x.world.exp.inFlightSignal env.build).1)
    split
    · next hnull =>
      have hreal : x.world.exp.nullTransport = true := hnull
      exact .disarmed ⟨by simp [startAttempt, hphase, hpc, hreal], hends⟩ (.inr hreal)
    next hnull =>
    have hreal : x.world.exp.nullTransport = false := by simpa [World.disarm] using hnull
    have hidle : x.world.exp.inFlight = none := by
      simp only [Bool.and_eq_true, Option.isNone_iff_eq_none] at hdue
      exact hdue.1.2
    by_cases hpending : (x.world.exp.sig x.world.exp.inFlightSignal).pending = []
    · have hskip : (tryStartPost x.world.disarm x.world.exp.inFlightSignal env.build).1 =
          x.world.disarm := by
        unfold tryStartPost
        rw [if_pos (by simp [World.disarm, hpending])]
      rw [hskip]
      exact .disarmed ⟨by simp [startAttempt, hphase, hpc, hpending], hends⟩ (.inl hpending)
    · refine tryStartPost_effect ?_ hidle hpending
      simp only [startAttempt, hphase, hpc]
      rw [if_pos (by simpa [hreal, hpending] using hdue)]
  · next hdue =>
    refine .quiet ⟨?_, hends⟩
    simp only [startAttempt, hphase, hpc]
    rw [if_neg]
    intro hall
    simp only [Bool.and_eq_true] at hall hdue
    exact hdue ⟨hall.1.1.1, hall.1.1.2⟩

theorem startStep_effect {x : State ι cap} {f : Frame} {env : TickEnv} {s : Signal} {shutdown : Bool}
    {nowMs : ℕ} (hphase : x.phase = .tick f) (hpc : f.pc = .start s shutdown nowMs) :
    Effect x (.tickStep env) (tickStep x.world f env).world := by
  have hends : requestEnds x (.tickStep env) = none := by simp [requestEnds, hphase, hpc]
  have hattempt : startAttempt x (.tickStep env) =
      if x.world.exp.inFlight.isNone && !x.world.exp.backoffArmed &&
          batchReady x.world.exp s shutdown nowMs && !(x.world.exp.sig s).pending.isEmpty then
        some (s, env.build)
      else none := by
    simp only [startAttempt, hphase, hpc]
  simp only [tickStep, hpc]
  split
  · next hgo =>
    refine .quiet ⟨hattempt.trans (if_neg ?_), hends⟩
    intro hall
    simp only [Bool.and_eq_true, Bool.not_eq_true', Option.isNone_iff_eq_none] at hall
    simp [hall] at hgo
  next hgo =>
  simp only [Bool.or_eq_true, not_or, Bool.not_eq_true, Option.isSome_eq_false_iff,
    Option.isNone_iff_eq_none] at hgo
  split
  · next hready =>
    by_cases hpending : (x.world.exp.sig s).pending = []
    · have hskip : tryStartPost x.world s env.build = (x.world, .ok) := by
        unfold tryStartPost
        rw [if_pos (by simp [hpending])]
      rw [hskip]
      exact .quiet ⟨hattempt.trans (if_neg (by simp [hpending])), hends⟩
    · have heffect := tryStartPost_effect
        (hattempt.trans (if_pos (by simp [hgo, hready, hpending]))) hgo.1 hpending
      rw [disarm_of_not_armed hgo.2] at heffect
      exact heffect
  · next hready => exact .quiet ⟨hattempt.trans (if_neg (by simp [hready])), hends⟩

theorem tickStep_effect {x : State ι cap} {f : Frame} (env : TickEnv) (hphase : x.phase = .tick f) :
    Effect x (.tickStep env) (tickStep x.world f env).world := by
  cases hpc : f.pc with
  | drain s =>
    have hcall : NoCall x (.tickStep env) := noCall_of_pc env hphase (by simp [hpc]) (by simp [hpc])
      (by simp [hpc])
    simp only [tickStep, hpc]
    split
    · next w hdrain =>
      have hdrains : drains x (.tickStep env) = some s := by
        simp only [drains, hphase, hpc, hdrain, Option.isSome_some, if_pos]
      exact drainOne_effect hcall hdrains hdrain
    · exact .quiet hcall
  | nullTransport =>
    have hcall : NoCall x (.tickStep env) := noCall_of_pc env hphase (by simp [hpc]) (by simp [hpc])
      (by simp [hpc])
    simp only [tickStep, hpc]
    split
    · next hnull =>
      simp only [Bool.and_eq_true] at hnull
      split
      · next w hpost =>
        unfold nullTransportPost at hpost
        split at hpost
        · contradiction
        · next s hfind =>
          cases hpost
          exact .nullOutcome hcall s _ env.now hnull.1
      · exact .quiet hcall
    · exact .quiet hcall
  | beginStart =>
    have hcall : NoCall x (.tickStep env) := noCall_of_pc env hphase (by simp [hpc]) (by simp [hpc])
      (by simp [hpc])
    simp only [tickStep, hpc]
    split <;> exact .quiet hcall
  | start s shutdown nowMs => exact startStep_effect hphase hpc
  | stepInFlight =>
    simp only [tickStep, hpc]
    exact stepInFlight_effect hphase hpc
  | backoffRetry =>
    simp only [tickStep, hpc]
    exact backoffRetry_effect hphase hpc
  | loop =>
    have hcall : NoCall x (.tickStep env) := noCall_of_pc env hphase (by simp [hpc]) (by simp [hpc])
      (by simp [hpc])
    simp only [tickStep, hpc]
    split <;> exact .quiet hcall

/-- **Every step of the exporter has one of the effects.** -/
theorem step_effect {x y : State ι cap} {l : Label ι} (h : step x l = some y) : Effect x l y.world := by
  cases stepped h with
  | emitMove s item hlive => exact emitMoveCommon_effect ⟨rfl, rfl⟩ s item
  | emit s isNull clone hlive => exact emitCloneCommon_effect ⟨rfl, rfl⟩ s isNull clone
  | shutdown hlive => exact .shutdown ⟨rfl, rfl⟩
  | tick maxWaitMs now hidle => exact .quiet ⟨rfl, rfl⟩
  | tickStep f env hphase => exact tickStep_effect env hphase
  | flushMetric isNull env w st hidle hflush | flushLog isNull env w st hidle hflush =>
    exact flushItem_effect ⟨rfl, rfl⟩ hflush
  | free hidle => exact .freed ⟨rfl, rfl⟩ rfl

theorem step_free {x y : State ι cap} (h : step x .free = some y) :
    y = ⟨otlpExporterFree x.world, .freed⟩ := by
  cases stepped h
  rfl

/-- After `otlp_exporter_free` there is no further step, and only it leads there. -/
theorem step_phase {x y : State ι cap} {l : Label ι} (h : step x l = some y) :
    x.phase ≠ .freed ∧ (y.phase = .freed → l = .free ∧ y.world = otlpExporterFree x.world) := by
  cases stepped h with
  | emitMove s item hlive | emit s isNull clone hlive | shutdown hlive =>
    exact ⟨hlive, fun hfreed => absurd hfreed hlive⟩
  | tick maxWaitMs now hidle => exact ⟨by simp [hidle], by simp⟩
  | tickStep f env hphase =>
    refine ⟨by simp [hphase], fun hfreed => ?_⟩
    unfold tickStep at hfreed
    repeat' split at hfreed
    all_goals simp at hfreed
  | flushMetric isNull env w st hidle hflush | flushLog isNull env w st hidle hflush =>
    exact ⟨by simp [hidle], by simp [hidle]⟩
  | free hidle => exact ⟨by simp [hidle], fun _ => ⟨rfl, rfl⟩⟩

end OtlpC.Exporter
