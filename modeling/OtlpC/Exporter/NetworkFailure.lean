import OtlpC.Exporter.Outcomes
import OtlpC.Http.Machine
import OtlpC.Http.StatusCode

/-!
# Status 0

A tick hands `record_outcome` the status 0 for a request that failed and the parsed status for one that is
done. `record_outcome` takes the zero for a network-level failure, so that the two are told apart exactly when
no accepted response has a status code that begins with a zero (`statusTellsFailure_iff`).
-/

namespace OtlpC.Exporter

open Http

variable {ι : Type*} {cap : ℕ}

/-! ### The request in flight is unfinished -/

def Live (w : World ι cap) : Prop :=
  ∀ r, w.exp.inFlight = some r → r.state ≠ .done ∧ r.state ≠ .failed

theorem Live.of_eq {w w' : World ι cap} (h : Live w) (heq : w'.exp.inFlight = w.exp.inFlight) : Live w' :=
  fun r hr => h r (heq.symm.trans hr)

theorem live_of_none {w : World ι cap} (h : w.exp.inFlight = none) : Live w := by
  intro r hr
  rw [h] at hr
  contradiction

theorem started_of_startPostCommon {net : Net} {url : OtlpHttpUrl} {userAgent : Option Bytes}
    {headers : List OtlpHttpHeader} {body : Bytes} {connectTimeoutMs readTimeoutMs : ℕ} {env : StartEnv}
    {sock : Option Sock} {r : OtlpHttpRequest}
    (h : (startPostCommon net url userAgent headers body connectTimeoutMs readTimeoutMs env sock).2 = .ok r) :
    Started r := by
  cases sock with
  | none => exact .own (Prod.ext rfl h)
  | some k => exact .donated (Prod.ext rfl h)

theorem started_of_specBuildRequest {w : World ι cap} {s : Signal} {env : BuildEnv} {r : OtlpHttpRequest}
    (h : (specBuildRequest w env s).2 = .ok r) : Started r := by
  rw [specBuildRequest_eq] at h
  split at h
  · cases h
  split at h
  · cases h
  · exact started_of_startPostCommon h

theorem Live.tryStartPost {w : World ι cap} (h : Live w) (s : Signal) (env : BuildEnv) :
    Live (tryStartPost w s env).1 := by
  unfold Exporter.tryStartPost
  split
  · exact h
  split
  next w' st hbuild =>
    obtain ⟨net, obs, rfl, -, -⟩ := specBuildRequest_error hbuild
    exact h
  next w' r hbuild =>
    intro r' hr'
    have heq : some r = some r' := hr'
    rw [Option.some.injEq] at heq
    subst heq
    obtain ⟨state, sock, reqBuf, cto, rto, now, hstate, rfl⟩ :=
      (started_of_specBuildRequest (congrArg Prod.snd hbuild)).eq_newRequest
    show state ≠ .done ∧ state ≠ .failed
    rcases hstate with rfl | rfl <;> simp

theorem inFlight_requestAnswered (w : World ι cap) (o : HttpOutcome) (r : OtlpHttpRequest)
    (keepalive : Option Sock) (now : ℕ) : (requestAnswered w o r keepalive now).exp.inFlight = none := by
  obtain ⟨net, kept, heq⟩ := requestAnswered_record w o r keepalive now
  rw [heq]
  rfl

theorem requestEnded_eq_none {keepalive : Option Sock} {r : OtlpHttpRequest} :
    requestEnded keepalive r = none ↔ r.state ≠ .done ∧ r.state ≠ .failed := by
  unfold requestEnded
  split <;> simp_all

theorem Live.stepInFlight {w : World ι cap} (h : Live w) (io : IoEnv) (now : ℕ) :
    Live (stepInFlight w io now) := by
  unfold Exporter.stepInFlight
  split
  · exact h
  dsimp only
  split
  next hgoes =>
    intro r hr
    have heq : _ = r := Option.some.inj hr
    exact heq ▸ requestEnded_eq_none.1 hgoes
  · exact live_of_none (inFlight_requestAnswered _ _ _ _ _)

theorem Live.tickStep {w : World ι cap} (h : Live w) (f : Frame) (env : TickEnv) :
    Live (tickStep w f env).world := by
  unfold Exporter.tickStep
  split
  · split
    next w' hdrain =>
      unfold drainOne at hdrain
      split at hdrain
      · split at hdrain
        · contradiction
        · cases hdrain
          exact h.of_eq rfl
      · contradiction
    · exact h
  · split
    · split
      next w' hpost =>
        unfold nullTransportPost at hpost
        split at hpost
        · contradiction
        · cases hpost
          exact h.of_eq (recordOutcome_sockets _ _ _).2.1
      · exact h
    · exact h
  · split <;> exact h
  · split
    · exact h
    split
    · exact h.tryStartPost _ _
    · exact h
  · exact h.stepInFlight _ _
  · unfold backoffRetry
    dsimp only
    split
    · split
      · exact h.of_eq rfl
      · have hdisarm : Live { w with exp := { w.exp with backoffArmed := false } } := h.of_eq rfl
        exact hdisarm.tryStartPost _ _
    · exact h
  · split <;> exact h

theorem emitMoveCommon_inFlight (w : World ι cap) (s : Signal) (item : Option ι) :
    (emitMoveCommon w s item).1.exp.inFlight = w.exp.inFlight := by
  unfold emitMoveCommon emitHanded
  split
  · rfl
  split
  · rfl
  split <;> rfl

theorem emitCloneCommon_inFlight (w : World ι cap) (s : Signal) (isNull : Bool) (clone : Option ι) :
    (emitCloneCommon w s isNull clone).1.exp.inFlight = w.exp.inFlight := by
  unfold emitCloneCommon
  split
  · rfl
  split
  · rfl
  split
  · rfl
  · exact emitMoveCommon_inFlight _ _ _

theorem flushItem_inFlight {w w' : World ι cap} {s : Signal} {isNull : Bool} {env : FlushEnv} {st : OtlpStatus}
    (h : flushItem w s isNull env = some (w', st)) : w'.exp.inFlight = w.exp.inFlight := by
  rcases flushItem_eq h with rfl | ⟨net, prng, evs, ok, -, -, rfl⟩ <;> rfl

theorem live_step {x y : State ι cap} {l : Label ι} (hx : Live x.world) (h : step x l = some y) :
    Live y.world := by
  cases stepped h with
  | emitMove s item hlive => exact hx.of_eq (emitMoveCommon_inFlight _ _ _)
  | emit s isNull clone hlive => exact hx.of_eq (emitCloneCommon_inFlight _ _ _ _)
  | shutdown hlive => exact hx.of_eq rfl
  | tick maxWaitMs now hidle => exact hx
  | tickStep f env hphase => exact hx.tickStep _ _
  | flushMetric isNull env w st hidle hflush | flushLog isNull env w st hidle hflush =>
    exact hx.of_eq (flushItem_inFlight hflush)
  | free hidle => exact live_of_none rfl

/-! ### The step that ends a request -/

/-- The request in flight and its environment, when the label is the tick step that acts on it. -/
def inFlightStep (x : State ι cap) : Label ι → Option (OtlpHttpRequest × IoEnv)
  | .tickStep env =>
    match x.phase with
    | .tick f =>
      match f.pc with
      | .stepInFlight => x.world.exp.inFlight.map fun r => (r, env.io)
      | _ => none
    | _ => none
  | _ => none

/-- When a request completes, it is counted as a network-level failure exactly when it has failed, and the
status of one that is done has three digits. -/
def StatusTellsFailure (x : State ι cap) (l : Label ι) : Prop :=
  ∀ r io y, inFlightStep x l = some (r, io) → step x l = some y →
    ((otlpHttpRequestStep r io).1.state = .done ∨ (otlpHttpRequestStep r io).1.state = .failed) →
    (y.world.exp.networkErr = x.world.exp.networkErr + 1 ↔ (otlpHttpRequestStep r io).1.state = .failed) ∧
      ((otlpHttpRequestStep r io).1.state = .done →
        100 ≤ (otlpHttpRequestStep r io).1.httpStatus ∧ (otlpHttpRequestStep r io).1.httpStatus ≤ 999)

/-- A response that completes a request does not have a status code that begins with a zero. -/
def NoZeroStatus (x : State ι cap) (l : Label ι) : Prop :=
  ∀ r io, inFlightStep x l = some (r, io) → (otlpHttpRequestStep r io).1.state = .done →
    statusDigit (r.respBuf ++ io.input) ≠ 0x30

/-- A request that completes with a response. -/
theorem httpStatus_of_done {r : OtlpHttpRequest} {io : IoEnv} (hlive : r.state ≠ .done)
    (hdone : (otlpHttpRequestStep r io).1.state = .done) :
    (100 ≤ (otlpHttpRequestStep r io).1.httpStatus ∧ (otlpHttpRequestStep r io).1.httpStatus ≤ 999 ↔
        statusDigit (r.respBuf ++ io.input) ≠ 0x30) ∧
      ((otlpHttpRequestStep r io).1.httpStatus = 0 → statusDigit (r.respBuf ++ io.input) = 0x30) := by
  obtain ⟨-, buf, atEof, resp, hparse, hwhich, hstatus, -⟩ := (stepSpec r io).done hlive hdone
  have hdigit : statusDigit buf = statusDigit (r.respBuf ++ io.input) := by
    rcases hwhich with ⟨-, rfl⟩ | ⟨-, -, hfirst⟩
    · rfl
    · exact statusDigit_parse hfirst
  rw [hstatus, ← hdigit]
  exact httpStatus_mem_iff (congrArg Prod.snd hparse)

theorem step_networkErr {x y : State ι cap} {l : Label ι} {o : HttpOutcome} (h : step x l = some y)
    (hends : requestEnds x l = some o) :
    y.world.exp.networkErr = x.world.exp.networkErr + if o.status = 0 then 1 else 0 := by
  have hcount : ∀ t : Tally, (t.count o.status).networkErr = t.networkErr + if o.status = 0 then 1 else 0 := by
    intro t
    unfold Tally.count
    split_ifs <;> rfl
  cases hretry : retries x.world.exp o.status with
  | true =>
    obtain ⟨env, net, kept, -, hy⟩ := step_answeredRetry h hends hretry
    rw [hy]
    exact hcount x.world.exp.tallyOf
  | false =>
    obtain ⟨net, kept, hy⟩ := step_answeredFinal h hends hretry
    rw [hy]
    exact hcount x.world.exp.tallyOf

theorem requestEnds_inFlightStep {x : State ι cap} {l : Label ι} {r : OtlpHttpRequest} {io : IoEnv}
    (h : inFlightStep x l = some (r, io)) :
    x.world.exp.inFlight = some r ∧ (∃ y, step x l = some y) ∧
      requestEnds x l = (requestEnded x.world.exp.keepaliveSock (otlpHttpRequestStep r io).1).map Prod.fst := by
  unfold inFlightStep at h
  split at h
  · split at h
    next f hphase =>
      split at h
      next hpc =>
        obtain ⟨r', hflight, heq⟩ := Option.map_eq_some_iff.1 h
        cases heq
        refine ⟨hflight, ?_, ?_⟩
        · simp only [step, hphase]
          exact ⟨_, rfl⟩
        · simp only [requestEnds, hphase, hpc, hflight, Option.bind_some]
      · contradiction
    · contradiction
  · contradiction

theorem requestEnds_of_done {x : State ι cap} {l : Label ι} {r : OtlpHttpRequest} {io : IoEnv}
    (h : inFlightStep x l = some (r, io)) (hdone : (otlpHttpRequestStep r io).1.state = .done) :
    ∃ o, requestEnds x l = some o ∧ o.status = (otlpHttpRequestStep r io).1.httpStatus := by
  obtain ⟨-, -, hends⟩ := requestEnds_inFlightStep h
  rw [requestEnded, hdone] at hends
  exact ⟨_, hends, rfl⟩

theorem requestEnds_of_failed {x : State ι cap} {l : Label ι} {r : OtlpHttpRequest} {io : IoEnv}
    (h : inFlightStep x l = some (r, io)) (hfailed : (otlpHttpRequestStep r io).1.state = .failed) :
    ∃ o, requestEnds x l = some o ∧ o.status = 0 := by
  obtain ⟨-, -, hends⟩ := requestEnds_inFlightStep h
  rw [requestEnded, hfailed] at hends
  exact ⟨_, hends, rfl⟩

theorem statusTellsFailure_step {x : State ι cap} (l : Label ι) (hx : Live x.world) :
    StatusTellsFailure x l ↔ NoZeroStatus x l := by
  constructor
  · intro htells r io hin hdone
    obtain ⟨hflight, ⟨y, hy⟩, -⟩ := requestEnds_inFlightStep hin
    obtain ⟨hrange, -⟩ := httpStatus_of_done (hx r hflight).1 hdone
    exact hrange.1 ((htells r io y hin hy (.inl hdone)).2 hdone)
  · intro hzero r io y hin hy hended
    obtain ⟨hflight, -, -⟩ := requestEnds_inFlightStep hin
    rcases hended with hdone | hfailed
    · have hdigit := hzero r io hin hdone
      obtain ⟨hrange, hnone⟩ := httpStatus_of_done (hx r hflight).1 hdone
      obtain ⟨o, hends, hstatus⟩ := requestEnds_of_done hin hdone
      have hpos : o.status ≠ 0 := by
        intro hz
        rw [hstatus, Nat.cast_eq_zero] at hz
        exact hdigit (hnone hz)
      rw [step_networkErr hy hends, if_neg hpos, hdone]
      exact ⟨by simp, fun _ => hrange.2 hdigit⟩
    · obtain ⟨o, hends, hstatus⟩ := requestEnds_of_failed hin hfailed
      rw [step_networkErr hy hends, if_pos hstatus, hfailed]
      exact ⟨by simp, fun hdone => by cases hdone⟩

theorem along_statusTellsFailure {x : State ι cap} (hx : Live x.world) (ls : List (Label ι)) :
    Steps.Along step StatusTellsFailure x ls ↔ Steps.Along step NoZeroStatus x ls := by
  have hinv : ∀ C : State ι cap → Label ι → Prop, ∀ x l y, Live x.world → C x l → step x l = some y →
      Live y.world := fun _ x l y hx _ hy => live_step hx hy
  constructor
  · intro h
    exact Steps.along_of_along (hinv _) (fun x l hx => (statusTellsFailure_step l hx).1) hx h
  · intro h
    exact Steps.along_of_along (hinv _) (fun x l hx => (statusTellsFailure_step l hx).2) hx h

theorem Fresh.live {e : OtlpExporter ι cap} (h : Fresh e) (nullTransport fn : Bool) :
    Live (State.init e nullTransport fn).world := live_of_none h.inFlight_eq

/-- **Status 0 means a network-level failure.** In every run of a created exporter the requests that complete
are counted as network-level failures exactly when they failed, and done with a status in 100..999 otherwise,
exactly when no response that completes one has a status code that begins with a zero; so it is with every
response that the parser accepts. -/
theorem statusTellsFailure_iff {opts : OtlpExporterOpts} {env : CreateEnv} {nullTransport fn : Bool}
    {e : OtlpExporter ι (normalizeOpts opts).queueCapacity} (hcreate : otlpExporterCreate ι opts env = some e)
    (ls : List (Label ι)) :
    (Steps.Along step StatusTellsFailure (State.init e nullTransport fn) ls ↔
      Steps.Along step NoZeroStatus (State.init e nullTransport fn) ls) ∧
    ∀ buf atEof resp, (otlpHttpRespParse buf atEof).2 = .complete resp →
      (100 ≤ resp.httpStatus ∧ resp.httpStatus ≤ 999 ↔ statusDigit buf ≠ 0x30) :=
  ⟨along_statusTellsFailure ((fresh_of_create hcreate).live _ _) ls,
    fun _ _ _ hparse => (httpStatus_mem_iff hparse).1⟩

instance (x : State ι cap) (l : Label ι) : Decidable (NoZeroStatus x l) :=
  match h : inFlightStep x l with
  | none => isTrue fun r io hr => by rw [h] at hr; contradiction
  | some (r, io) =>
    decidable_of_iff ((otlpHttpRequestStep r io).1.state = .done → statusDigit (r.respBuf ++ io.input) ≠ 0x30)
      (by simp [NoZeroStatus, h])

def responseRun (response : Bytes) : List (Label ℕ) :=
  [.emitMove .span (some 1)] ++ tickRound 11 0 (.fine 0 []) ++ tickRound 8 0 (.fine 0 response)

theorem statusTellsFailure_iff_ok :
    ∃ e, otlpExporterCreate ℕ (plainOpts 1 1) .fine = some e ∧
      Steps.Along step StatusTellsFailure (State.init e false false) (responseRun (emptyResponse 200)) := by
  have hrun : ∀ e ∈ otlpExporterCreate ℕ (plainOpts 1 1) .fine,
      Steps.Along step NoZeroStatus (State.init e false false) (responseRun (emptyResponse 200)) := by
    decide +kernel
  obtain ⟨e, hcreate⟩ := Option.isSome_iff_exists.1
    (show (otlpExporterCreate ℕ (plainOpts 1 1) .fine).isSome = true by decide +kernel)
  exact ⟨e, hcreate, (statusTellsFailure_iff hcreate _).1.2 (hrun e hcreate)⟩

/-- The status code `000` is accepted, and counted as a network-level failure. -/
theorem status_zero_accepted :
    ∃ e, otlpExporterCreate ℕ (plainOpts 1 1) .fine = some e ∧
      ¬Steps.Along step StatusTellsFailure (State.init e false false)
        (responseRun (ascii "HTTP/1.1 000 \r\nContent-Length:0\r\n\r\n")) := by
  have hrun : ∀ e ∈ otlpExporterCreate ℕ (plainOpts 1 1) .fine, ¬Steps.Along step NoZeroStatus
      (State.init e false false) (responseRun (ascii "HTTP/1.1 000 \r\nContent-Length:0\r\n\r\n")) := by
    decide +kernel
  obtain ⟨e, hcreate⟩ := Option.isSome_iff_exists.1
    (show (otlpExporterCreate ℕ (plainOpts 1 1) .fine).isSome = true by decide +kernel)
  refine ⟨e, hcreate, fun htells => hrun e hcreate ?_⟩
  exact (along_statusTellsFailure ((fresh_of_create hcreate).live _ _) _).1 htells

end OtlpC.Exporter
