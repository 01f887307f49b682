import OtlpC.Exporter.Invariants

/-!
# What an outcome leaves, exactly

`recordOutcome_armed` and `recordOutcome_ended` give the exporter after `record_outcome` in full: the HTTP
counter, the deadline of the backoff, the report of a partial success and the event.
-/

namespace OtlpC.Exporter

open Http

variable {ι : Type*} {cap : ℕ}

/-- The HTTP counters with one more exchange, which ended with `status`. -/
def Tally.count (t : Tally) (status : ℤ) : Tally :=
  if status = 0 then { t with networkErr := t.networkErr + 1 }
  else if successStatus status then { t with http2xx := t.http2xx + 1 }
  else if 500 ≤ status ∧ status < 600 then { t with http5xx := t.http5xx + 1 }
  else { t with http4xx := t.http4xx + 1 }

@[simp] theorem tally_tally (e : OtlpExporter ι cap) (t t' : Tally) : (e.tally t).tally t' = e.tally t' := rfl
@[simp] theorem armed_tally (e : OtlpExporter ι cap) (t : Tally) : (e.tally t).armed = e.armed.tally t := rfl
@[simp] theorem ended_tally (e : OtlpExporter ι cap) (t : Tally) (status : ℤ) (rejected : ℕ) :
    (e.tally t).ended status rejected = (e.ended status rejected).tally t := rfl
@[simp] theorem tallyOf_tally (e : OtlpExporter ι cap) (t : Tally) : (e.tally t).tallyOf = t := rfl
@[simp] theorem tallyOf_released (e : OtlpExporter ι cap) (kept : Option Sock) :
    (e.released kept).tallyOf = e.tallyOf := rfl

/-- The server's floor on the delay: a network-level failure has none. -/
def HttpOutcome.floorMs (o : HttpOutcome) : ℕ := if o.status = 0 then 0 else o.retryAfterMs

/-- An outcome that may be retried is counted, and then handled the same whatever its status. -/
theorem recordOutcome_transient {w : World ι cap} {o : HttpOutcome} (now : ℕ)
    (h : transient o.status = true) :
    recordOutcome w o now =
      transientFailure { w with exp := w.exp.tally (w.exp.tallyOf.count o.status) } o.status o.floorMs now := by
  unfold recordOutcome
  by_cases hzero : o.status = 0
  · rw [if_pos hzero, HttpOutcome.floorMs, if_pos hzero, hzero]
    rfl
  have hsuccess : successStatus o.status = false := successStatus_of_transient h
  have hretryable : retryableStatus o.status = true := by simpa [transient, hzero] using h
  rw [if_neg hzero, hsuccess, hretryable, HttpOutcome.floorMs, if_neg hzero]
  by_cases hmany : o.status = 429
  · simp only [hmany, Tally.count, successStatus]
    rfl
  · have hserver : 500 ≤ o.status ∧ o.status < 600 := by
      simpa [retryableStatus, hmany] using hretryable
    simp only [hmany, Tally.count, hzero, hsuccess, hserver]
    rfl

/-! ### The backoff -/

/-- What `otlp_retry_delay_ms` returns for the next retry. -/
def OtlpExporter.backoff (e : OtlpExporter ι cap) (floorMs : ℕ) : UInt64 × ℕ × Bool :=
  Retry.otlpRetryDelayMs e.jitterPrng (succ32 e.attempt) floorMs
    { initialMs := e.backoffInitialMs, maxMs := e.backoffMaxMs }

@[simp] theorem count_jitterPrng (t : Tally) (status : ℤ) : (t.count status).jitterPrng = t.jitterPrng := by
  unfold Tally.count
  split_ifs <;> rfl

theorem backoff_tally {e : OtlpExporter ι cap} {t : Tally} (h : t.jitterPrng = e.jitterPrng) :
    (e.tally t).backoff = e.backoff := by
  funext floorMs
  unfold OtlpExporter.backoff
  rw [← h]
  rfl

/-- The delay of the next retry. -/
def OtlpExporter.delay (e : OtlpExporter ι cap) (floorMs : ℕ) : ℕ := (e.backoff floorMs).2.1

/-- `OTLP_EVT_RETRY_ARMED`. -/
def armedEvent (e : OtlpExporter ι cap) (status : ℤ) (floorMs : ℕ) : OtlpEvent :=
  { code := .retryArmed, level := .warn, signal := e.inFlightSignal, httpStatus := status,
    attempt := succ32 e.attempt, maxRetries := e.maxRetries, delayMs := e.delay floorMs,
    serverDriven := (e.backoff floorMs).2.2 }

/-- The deadline and the generator when the backoff has been armed at `now`. -/
def Tally.arm (t : Tally) (e : OtlpExporter ι cap) (floorMs now : ℕ) : Tally :=
  { t with
    backoffDeadlineMono := Queue.u64 (now + e.delay floorMs)
    jitterPrng := (e.backoff floorMs).1 }

theorem transientFailure_armed {w : World ι cap} {status : ℤ} {floorMs now : ℕ}
    (h : succ32 w.exp.attempt ≤ w.exp.maxRetries) :
    transientFailure w status floorMs now =
      { w with
        exp := w.exp.armed.tally (w.exp.tallyOf.arm w.exp floorMs now)
        history := w.history ++ [.event (armedEvent w.exp status floorMs)] } := by
  have hbudget : ¬w.exp.maxRetries < succ32 w.exp.attempt := Nat.not_lt.2 h
  unfold transientFailure
  simp only [hbudget, if_false]
  rfl

theorem recordOutcome_armed {w : World ι cap} {o : HttpOutcome} (now : ℕ)
    (h : retries w.exp o.status = true) :
    recordOutcome w o now =
      { w with
        exp := w.exp.armed.tally ((w.exp.tallyOf.count o.status).arm w.exp o.floorMs now)
        history := w.history ++ [.event (armedEvent w.exp o.status o.floorMs)] } := by
  simp only [retries, Bool.and_eq_true, decide_eq_true_eq] at h
  rw [recordOutcome_transient now h.1]
  refine (transientFailure_armed
    (w := { w with exp := w.exp.tally (w.exp.tallyOf.count o.status) }) h.2).trans ?_
  have hbackoff := backoff_tally (e := w.exp) (t := w.exp.tallyOf.count o.status) (count_jitterPrng _ _)
  simp only [armedEvent, Tally.arm, OtlpExporter.delay, hbackoff]
  rfl

/-! ### The end of a batch -/

/-- What the body of a 2xx reports: the number of rejected items and the message, when it says anything. -/
def partialReport : Option Bytes → Option (ℕ × Bytes)
  | none => none
  | some body =>
    if body.isEmpty then none
    else
      match Proto.otlpExporterOtelDecodePartialSuccess body with
      | none => none
      | some ps =>
        if ps.rejected ≤ 0 && (ps.errorMessage.getD []).isEmpty then none
        else some (ps.rejected.toNat, ps.errorMessage.getD [])

/-- `OTLP_EVT_PARTIAL_SUCCESS`. -/
def partialEvent (s : Signal) (count : ℕ) (report : ℕ × Bytes) : OtlpEvent :=
  { code := .partialSuccess, level := .warn, signal := s, count, rejected := report.1,
    detail := report.2 }

/-- The `rejected` counter when the body of a 2xx has been read. -/
def rejectedAfter (rejected : ℕ) (body : Option Bytes) : ℕ :=
  match partialReport body with
  | none => rejected
  | some report => Queue.u64 (rejected + report.1)

theorem reportBody_report (w : World ι cap) (s : Signal) (count : ℕ) (body : Option Bytes) :
    reportBody w s true count body =
      (w.modSig s fun sg => { sg with rejected := rejectedAfter sg.rejected body }).observe
        (((partialReport body).toList.map (partialEvent s count)).map .event) := by
  have hsame : w = (w.modSig s fun sg => { sg with rejected := sg.rejected }).observe [] := by
    simp [World.modSig, World.observe]
  cases body with
  | none => exact hsame
  | some body =>
    rw [reportBody]
    split
    · next hempty => simpa [rejectedAfter, partialReport, hempty] using hsame
    next hempty =>
    unfold otlpExporterReportPartialSuccess
    split
    · next hdecode => simpa [rejectedAfter, partialReport, hempty, hdecode] using hsame
    next ps hdecode =>
    dsimp only
    split
    · next hsilent => simpa [rejectedAfter, partialReport, hempty, hdecode, hsilent] using hsame
    · next hsilent =>
      simp [rejectedAfter, partialReport, hempty, hdecode, hsilent, World.event, partialEvent]

/-- The events of a partial success that the outcome `o` leads to. -/
def reports (e : OtlpExporter ι cap) (o : HttpOutcome) : List OtlpEvent :=
  if successStatus o.status then
    (partialReport o.body).toList.map (partialEvent e.inFlightSignal e.inFlightCount)
  else []

/-- The `rejected` counter of the signal in flight after the outcome `o`. -/
def OtlpExporter.rejectedBy (e : OtlpExporter ι cap) (o : HttpOutcome) : ℕ :=
  if successStatus o.status then rejectedAfter (e.sig e.inFlightSignal).rejected o.body
  else (e.sig e.inFlightSignal).rejected

theorem batchSent_ended {w : World ι cap} {o : HttpOutcome} (hzero : o.status ≠ 0)
    (hsuccess : successStatus o.status = true) :
    batchSent w o =
      { w with
        exp := (w.exp.ended o.status (w.exp.rejectedBy o)).tally (w.exp.tallyOf.count o.status)
        history := w.history ++ endedObs w.exp o.status (reports w.exp o) } := by
  unfold batchSent
  dsimp only
  rw [reportBody_report]
  simp [clearInFlightBatch, OtlpExporter.tallyOf, Tally.count, World.event, World.observe, World.modSig,
    OtlpExporter.ended, OtlpExporter.tally, endedObs, finalEvent, reports, OtlpExporter.rejectedBy,
    hsuccess, hzero]

theorem recordOutcome_ended {w : World ι cap} {o : HttpOutcome} (now : ℕ)
    (h : retries w.exp o.status = false) :
    recordOutcome w o now =
      { w with
        exp := (w.exp.ended o.status (w.exp.rejectedBy o)).tally (w.exp.tallyOf.count o.status)
        history := w.history ++ endedObs w.exp o.status (reports w.exp o) } := by
  simp only [retries, Bool.and_eq_false_iff, decide_eq_false_iff_not, Nat.not_le] at h
  cases htransient : transient o.status with
  | true =>
    have hsuccess : successStatus o.status = false := successStatus_of_transient htransient
    have hbudget : w.exp.maxRetries < succ32 w.exp.attempt := h.resolve_left (by simp [htransient])
    rw [recordOutcome_transient now htransient]
    refine (transientFailure_final (w := { w with exp := w.exp.tally _ }) htransient hsuccess hbudget).trans ?_
    simp only [OtlpExporter.rejectedBy, reports, hsuccess]
    rfl
  | false =>
    simp only [transient, Bool.or_eq_false_iff, beq_eq_false_iff_ne] at htransient
    obtain ⟨hzero, hretryable⟩ := htransient
    unfold recordOutcome
    rw [if_neg hzero, hretryable]
    by_cases hsuccess : successStatus o.status = true
    · rw [if_pos hsuccess, batchSent_ended hzero hsuccess]
    · rw [Bool.not_eq_true] at hsuccess
      have hserver : ¬(500 ≤ o.status ∧ o.status < 600) := by
        intro hserver
        simp [retryableStatus, hserver] at hretryable
      rw [hsuccess, if_neg (by simp), if_neg (by simp),
        batchRefused_eq hsuccess (by simp [transient, hzero, hretryable])]
      simp [OtlpExporter.rejectedBy, reports, Tally.count, OtlpExporter.tallyOf, OtlpExporter.ended,
        OtlpExporter.tally, endedObs, finalEvent, hsuccess, hserver, hzero]

/-! ### The step that ends a request -/

/-- The exporter that records the outcome of the request in flight, which has left it `keepalive`. -/
def World.answered (w : World ι cap) (status : ℤ) (keepalive : Option Sock) : World ι cap :=
  { w with
    exp := { w.exp with keepaliveSock := keepalive }
    history := w.history ++ [.answered w.exp.inFlightSignal w.inFlightItems status] }

/-- The exporter when the outcome has been recorded, before the request is freed. -/
def outcomeRecorded (w : World ι cap) (o : HttpOutcome) (keepalive : Option Sock) (now : ℕ) : World ι cap :=
  recordOutcome (w.answered o.status keepalive) o now

theorem requestAnswered_record (w : World ι cap) (o : HttpOutcome) (r : OtlpHttpRequest)
    (keepalive : Option Sock) (now : ℕ) :
    ∃ net kept, requestAnswered w o r keepalive now =
      { outcomeRecorded w o keepalive now with
        net
        exp := (outcomeRecorded w o keepalive now).exp.released kept } := by
  unfold requestAnswered
  dsimp only
  split
  · exact ⟨_, none, rfl⟩
  · exact ⟨_, _, rfl⟩

theorem step_recorded {x y : State ι cap} {l : Label ι} {o : HttpOutcome} (h : step x l = some y)
    (hends : requestEnds x l = some o) :
    ∃ env net kept keepalive, l = .tickStep env ∧ y.world =
      { outcomeRecorded x.world o keepalive env.now with
        net
        exp := (outcomeRecorded x.world o keepalive env.now).exp.released kept } := by
  unfold requestEnds at hends
  split at hends
  · next env =>
    split at hends
    · next f hphase =>
      split at hends
      · next hpc =>
        obtain ⟨r, hflight, hmap⟩ := Option.bind_eq_some_iff.1 hends
        obtain ⟨⟨o', r', keepalive⟩, hended, rfl⟩ := Option.map_eq_some_iff.1 hmap
        obtain ⟨net, kept, heq⟩ := requestAnswered_record x.world o' r' keepalive env.now
        refine ⟨env, net, kept, keepalive, rfl, ?_⟩
        simp only [step, hphase, Option.some.injEq] at h
        rw [← h, ← heq]
        simp only [tickStep, hpc, stepInFlight, hflight, hended]
      · contradiction
    · contradiction
  · contradiction

theorem step_answeredRetry {x y : State ι cap} {l : Label ι} {o : HttpOutcome} (h : step x l = some y)
    (hends : requestEnds x l = some o) (hretry : retries x.world.exp o.status = true) :
    ∃ env net kept, l = .tickStep env ∧ y.world = { x.world with
      net
      exp := (x.world.exp.armed.tally
        ((x.world.exp.tallyOf.count o.status).arm x.world.exp o.floorMs env.now)).released kept
      history := x.world.history ++ [.answered x.world.exp.inFlightSignal x.world.inFlightItems o.status,
        .event (armedEvent x.world.exp o.status o.floorMs)] } := by
  obtain ⟨env, net, kept, keepalive, hl, hy⟩ := step_recorded h hends
  have hrec := recordOutcome_armed (w := x.world.answered o.status keepalive) env.now hretry
  refine ⟨env, net, kept, hl, hy.trans ?_⟩
  rw [outcomeRecorded, hrec]
  simp only [World.answered, List.append_assoc, List.cons_append, List.nil_append]
  rfl

theorem step_answeredFinal {x y : State ι cap} {l : Label ι} {o : HttpOutcome} (h : step x l = some y)
    (hends : requestEnds x l = some o) (hfinal : retries x.world.exp o.status = false) :
    ∃ net kept, y.world = { x.world with
      net
      exp := ((x.world.exp.ended o.status (x.world.exp.rejectedBy o)).tally
        (x.world.exp.tallyOf.count o.status)).released kept
      history := x.world.history ++ .answered x.world.exp.inFlightSignal x.world.inFlightItems o.status ::
        endedObs x.world.exp o.status (reports x.world.exp o) } := by
  obtain ⟨env, net, kept, keepalive, hl, hy⟩ := step_recorded h hends
  have hrec := recordOutcome_ended (w := x.world.answered o.status keepalive) env.now hfinal
  refine ⟨net, kept, hy.trans ?_⟩
  rw [outcomeRecorded, hrec]
  simp only [World.answered, List.append_assoc, List.cons_append, List.nil_append]
  rfl

end OtlpC.Exporter
