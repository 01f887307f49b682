import OtlpC.Exporter.Tick

/-!
# The synchronous flush

`exporter_sync.c`: `otlp_exporter_flush_metric` and `otlp_exporter_flush_log` encode one item, post it
and wait for the outcome, on a request of their own. The rounds of their loops are lists of what the
environment answers in each; a flush that needs more rounds has not returned.
-/

namespace OtlpC.Exporter

open Http

variable {ι : Type*} {cap : ℕ}

/-- One attempt: how its request starts, the clock when its deadline is set, and for each round of the
`for (;;)` what the step and the clock answer. -/
structure AttemptEnv where
  start : StartEnv
  begun : ℕ
  rounds : List (IoEnv × ℕ)

/-- The status of an attempt and whether the server answered. -/
structure Attempt where
  status : OtlpStatus
  gotResponse : Bool
deriving Repr, DecidableEq

def syncFlushFailed (s : Signal) : OtlpEvent := { code := .syncFlushFailed, level := .error, signal := s }

def failAttempt (w : World ι cap) (r : OtlpHttpRequest) (ev : OtlpEvent) : World ι cap :=
  ({ w with net := otlpHttpRequestFree w.net r } : World ι cap).event ev

/-- The attempt whose request is done. -/
def finishAttempt (w : World ι cap) (s : Signal) (r : OtlpHttpRequest) : World ι cap × Attempt :=
  let http : ℤ := r.httpStatus
  if successStatus http then
    let w := reportBody w s false 0 (otlpHttpRequestBody r)
    ({ w with net := otlpHttpRequestFree w.net r }, { status := .ok, gotResponse := true })
  else
    (failAttempt w r { syncFlushFailed s with httpStatus := http },
      { status := .errNetwork, gotResponse := true })

def flushPostLoop (w : World ι cap) (s : Signal) (deadline : ℕ) (r : OtlpHttpRequest) :
    List (IoEnv × ℕ) → Option (World ι cap × Attempt)
  | [] => none
  | (io, now) :: rounds =>
    let (r, st) := otlpHttpRequestStep r io
    if r.state = .done then some (finishAttempt w s r)
    else if r.state = .failed then
      some (failAttempt w r { syncFlushFailed s with status := .errNetwork },
        { status := .errNetwork, gotResponse := false })
    else if st ≠ .ok ∧ st ≠ .errWouldblock then
      some (failAttempt w r { syncFlushFailed s with status := st }, { status := st, gotResponse := false })
    else if deadline ≤ now then
      some (failAttempt w r { syncFlushFailed s with
          status := .errTimeout, timeoutMs := w.exp.flushTimeoutMs },
        { status := .errTimeout, gotResponse := false })
    else flushPostLoop w s deadline r rounds

def flushPostOnce (w : World ι cap) (s : Signal) (body : Bytes) (env : AttemptEnv) :
    Option (World ι cap × Attempt) :=
  match otlpHttpRequestStart w.net (w.exp.sig s).url (some w.exp.userAgent) w.exp.httpHeaders body
    w.exp.connectTimeoutMs w.exp.readTimeoutMs env.start with
  | (net, .error st) =>
    some (({ w with net } : World ι cap).event { syncFlushFailed s with status := st },
      { status := st, gotResponse := false })
  | (net, .ok r) =>
    flushPostLoop { w with net } s (Queue.u64 (env.begun + w.exp.flushTimeoutMs)) r env.rounds

/-- The wait before attempt number `attempt + 1` of a flush. -/
def flushBackoff (w : World ι cap) (s : Signal) (attempt : ℕ) : World ι cap :=
  let (prng, delay, _) := Retry.otlpRetryDelayMs w.exp.jitterPrng (attempt + 1) 0
    { initialMs := w.exp.backoffInitialMs, maxMs := min w.exp.backoffMaxMs 100 }
  ({ w with exp := { w.exp with jitterPrng := prng } } : World ι cap).event
    { code := .retryArmed, level := .warn, signal := s, attempt := attempt + 1,
      maxRetries := w.exp.maxRetries, delayMs := delay }

/-- The `for (attempt = 0; attempt <= e->max_retries; attempt++)` of `flush_sync`. -/
def flushLoop (w : World ι cap) (s : Signal) (body : Bytes) (attempt : ℕ) :
    List AttemptEnv → Option (World ι cap × OtlpStatus)
  | [] => none
  | env :: attempts =>
    match flushPostOnce w s body env with
    | none => none
    | some (w, a) =>
      if a.status = .ok || a.gotResponse then some (w, a.status)
      else
        let w := if attempt < w.exp.maxRetries then flushBackoff w s attempt else w
        if succ32 attempt ≤ w.exp.maxRetries then flushLoop w s body (succ32 attempt) attempts
        else some (w, a.status)

def flushSync (w : World ι cap) (s : Signal) (body : Bytes) (attempts : List AttemptEnv) :
    Option (World ι cap × OtlpStatus) :=
  if w.exp.nullTransport then some (w, .ok) else flushLoop w s body 0 attempts

/-- What a flush learns from its environment. -/
structure FlushEnv where
  bufInitOk : Bool
  encoded : Except OtlpStatus Bytes
  attempts : List AttemptEnv

def flushEncoded (w : World ι cap) (s : Signal) (env : FlushEnv) : Option (World ι cap × OtlpStatus) :=
  if !env.bufInitOk then some (w, .errNomem)
  else
    match env.encoded with
    | .error st => some (w, st)
    | .ok body => flushSync w s body env.attempts

/-- `otlp_exporter_flush_metric` and `otlp_exporter_flush_log`. -/
def flushItem (w : World ι cap) (s : Signal) (isNull : Bool) (env : FlushEnv) :
    Option (World ι cap × OtlpStatus) :=
  if isNull then some (w, .errNull)
  else
    let w := w.modSig s fun sg => { sg with emitted := sg.emitted + 1 }
    match flushEncoded w s env with
    | none => none
    | some (w, .ok) => some (w.modSig s fun sg => { sg with sent := sg.sent + 1 }, .ok)
    | some (w, st) => some (w.modSig s fun sg => { sg with droppedErr := sg.droppedErr + 1 }, st)

def otlpExporterFlushMetric (w : World ι cap) (isNull : Bool) (env : FlushEnv) :=
  flushItem w .metric isNull env

def otlpExporterFlushLog (w : World ι cap) (isNull : Bool) (env : FlushEnv) :=
  flushItem w .log isNull env

/-! ### What a flush does -/

/-- Sockets opened and closed again. -/
inductive Churn (net : Net) : Net → Prop where
  | refl : Churn net net
  | reopened {net' : Net} (host : Bytes) (port : ℕ) (h : Churn net net') :
      Churn net ((net'.connect host port).1.close net'.connects.length)

theorem Churn.trans {net net' net'' : Net} (h : Churn net net') (h' : Churn net' net'') :
    Churn net net'' := by
  induction h' with
  | refl => exact h
  | reopened host port _ ih => exact .reopened host port ih

/-- The exporter apart from the sockets, its events and its generator. -/
def World.flushed (w : World ι cap) (net : Net) (prng : UInt64) (evs : List OtlpEvent) : World ι cap :=
  { w with
    net
    exp := { w.exp with jitterPrng := prng }
    history := w.history ++ evs.map .event }

theorem flushed_flushed (w : World ι cap) (net net' : Net) (prng prng' : UInt64)
    (evs evs' : List OtlpEvent) :
    (w.flushed net prng evs).flushed net' prng' evs' = w.flushed net' prng' (evs ++ evs') := by
  simp [World.flushed]

theorem reportPartialSuccess_uncounted (w : World ι cap) (s : Signal) (count : ℕ) (body : Bytes) :
    ∃ evs, NoDrop evs ∧
      otlpExporterReportPartialSuccess w s false count body = w.observe (evs.map .event) := by
  have hnone : ∃ evs, NoDrop evs ∧ w = w.observe (evs.map .event) :=
    ⟨[], noDrop_nil, by simp [World.observe]⟩
  unfold otlpExporterReportPartialSuccess
  split
  · exact hnone
  · dsimp only
    split
    · exact hnone
    · exact ⟨[_], noDrop_singleton (by simp), rfl⟩

theorem reportBody_uncounted (w : World ι cap) (s : Signal) (count : ℕ) (body : Option Bytes) :
    ∃ evs, NoDrop evs ∧ reportBody w s false count body = w.observe (evs.map .event) := by
  have hnone : ∃ evs, NoDrop evs ∧ w = w.observe (evs.map .event) :=
    ⟨[], noDrop_nil, by simp [World.observe]⟩
  cases body with
  | none => exact hnone
  | some body =>
    rw [reportBody]
    split
    · exact hnone
    · exact reportPartialSuccess_uncounted w s count body

theorem failAttempt_eq {w w' : World ι cap} {r : OtlpHttpRequest} {ev : OtlpEvent}
    (hev : ev.code ≠ .itemsDropped) (h : failAttempt w r ev = w') :
    ∃ evs, NoDrop evs ∧ w' = w.flushed (w.net.closeOpt r.sock) w.exp.jitterPrng evs :=
  ⟨[ev], noDrop_singleton hev, h.symm⟩

theorem finishAttempt_eq (w : World ι cap) (s : Signal) (r : OtlpHttpRequest) :
    ∃ evs, NoDrop evs ∧
      (finishAttempt w s r).1 = w.flushed (w.net.closeOpt r.sock) w.exp.jitterPrng evs := by
  unfold finishAttempt
  dsimp only
  split
  · obtain ⟨evs, hevs, hreport⟩ := reportBody_uncounted w s 0 (otlpHttpRequestBody r)
    exact ⟨evs, hevs, by rw [hreport]; rfl⟩
  · exact failAttempt_eq (by simp [syncFlushFailed]) rfl

/-- However an attempt ends, its socket is closed. -/
theorem flushPostLoop_eq {w w' : World ι cap} {s : Signal} {deadline : ℕ} {r : OtlpHttpRequest}
    {rounds : List (IoEnv × ℕ)} {a : Attempt}
    (h : flushPostLoop w s deadline r rounds = some (w', a)) :
    ∃ evs, NoDrop evs ∧ w' = w.flushed (w.net.closeOpt r.sock) w.exp.jitterPrng evs := by
  induction rounds generalizing r with
  | nil => simp [flushPostLoop] at h
  | cons round rounds ih =>
    obtain ⟨io, now⟩ := round
    have hsock := otlpHttpRequestStep_sock r io
    rw [flushPostLoop] at h
    dsimp only at h
    rw [← hsock]
    split at h
    · rw [Option.some.injEq] at h
      obtain ⟨evs, hevs, hfinish⟩ := finishAttempt_eq w s (otlpHttpRequestStep r io).1
      exact ⟨evs, hevs, by rw [← hfinish, h]⟩
    split at h
    · simp only [Option.some.injEq, Prod.mk.injEq] at h
      exact failAttempt_eq (by simp [syncFlushFailed]) h.1
    split at h
    · simp only [Option.some.injEq, Prod.mk.injEq] at h
      exact failAttempt_eq (by simp [syncFlushFailed]) h.1
    split at h
    · simp only [Option.some.injEq, Prod.mk.injEq] at h
      exact failAttempt_eq (by simp [syncFlushFailed]) h.1
    · exact ih h

theorem flushPostOnce_eq {w w' : World ι cap} {s : Signal} {body : Bytes} {env : AttemptEnv}
    {a : Attempt} (h : flushPostOnce w s body env = some (w', a)) :
    ∃ net evs, Churn w.net net ∧ NoDrop evs ∧ w' = w.flushed net w.exp.jitterPrng evs := by
  unfold flushPostOnce at h
  rcases start_cases w.net (w.exp.sig s).url (some w.exp.userAgent) w.exp.httpHeaders body
    w.exp.connectTimeoutMs w.exp.readTimeoutMs env.start with
    ⟨r, hstart, hr⟩ | ⟨st, hstart⟩ | ⟨st, hstart⟩
  · rw [hstart] at h
    obtain ⟨evs, hevs, hloop⟩ := flushPostLoop_eq h
    rw [hr] at hloop
    exact ⟨_, evs, .reopened _ _ .refl, hevs, hloop⟩
  · simp only [hstart, Option.some.injEq, Prod.mk.injEq] at h
    exact ⟨_, [_], .refl, noDrop_singleton (by simp [syncFlushFailed]), h.1.symm⟩
  · simp only [hstart, Option.some.injEq, Prod.mk.injEq] at h
    exact ⟨_, [_], .reopened _ _ .refl, noDrop_singleton (by simp [syncFlushFailed]), h.1.symm⟩

theorem flushBackoff_eq (w : World ι cap) (s : Signal) (attempt : ℕ) :
    ∃ prng evs, NoDrop evs ∧ flushBackoff w s attempt = w.flushed w.net prng evs := by
  unfold flushBackoff
  rcases Retry.otlpRetryDelayMs w.exp.jitterPrng (attempt + 1) 0
    { initialMs := w.exp.backoffInitialMs, maxMs := min w.exp.backoffMaxMs 100 } with ⟨prng, delay, _⟩
  exact ⟨prng, [_], noDrop_singleton (by simp), rfl⟩

theorem flushLoop_eq {w w' : World ι cap} {s : Signal} {body : Bytes} {attempt : ℕ}
    {attempts : List AttemptEnv} {st : OtlpStatus}
    (h : flushLoop w s body attempt attempts = some (w', st)) :
    ∃ net prng evs, Churn w.net net ∧ NoDrop evs ∧ w' = w.flushed net prng evs := by
  induction attempts generalizing w attempt with
  | nil => simp [flushLoop] at h
  | cons env attempts ih =>
    rw [flushLoop] at h
    split at h
    · contradiction
    next w₁ a honce =>
    obtain ⟨net, evs, hchurn, hevs, rfl⟩ := flushPostOnce_eq honce
    split at h
    · simp only [Option.some.injEq, Prod.mk.injEq] at h
      exact ⟨net, _, evs, hchurn, hevs, h.1.symm⟩
    dsimp only at h
    -- what the wait before the next attempt leaves
    obtain ⟨prng, evs', hevs', hwait⟩ : ∃ prng evs', NoDrop evs' ∧
        (if attempt < (w.flushed net w.exp.jitterPrng evs).exp.maxRetries then
          flushBackoff (w.flushed net w.exp.jitterPrng evs) s attempt
        else w.flushed net w.exp.jitterPrng evs) = w.flushed net prng evs' := by
      split
      · obtain ⟨prng, evs', hevs', hback⟩ := flushBackoff_eq (w.flushed net w.exp.jitterPrng evs) s attempt
        exact ⟨prng, evs ++ evs', hevs.append hevs', by rw [hback, flushed_flushed]; rfl⟩
      · exact ⟨_, _, hevs, rfl⟩
    rw [hwait] at h
    split at h
    · obtain ⟨net', prng', evs'', hchurn', hevs'', rfl⟩ := ih h
      exact ⟨net', prng', evs' ++ evs'', hchurn.trans hchurn', hevs'.append hevs'', flushed_flushed ..⟩
    · simp only [Option.some.injEq, Prod.mk.injEq] at h
      exact ⟨net, prng, evs', hchurn, hevs', h.1.symm⟩

theorem flushEncoded_eq {w w' : World ι cap} {s : Signal} {env : FlushEnv} {st : OtlpStatus}
    (h : flushEncoded w s env = some (w', st)) :
    ∃ net prng evs, Churn w.net net ∧ NoDrop evs ∧ w' = w.flushed net prng evs := by
  have hsame : w = w.flushed w.net w.exp.jitterPrng [] := by simp [World.flushed]
  unfold flushEncoded at h
  split at h
  · simp only [Option.some.injEq, Prod.mk.injEq] at h
    exact ⟨_, _, [], .refl, noDrop_nil, h.1.symm.trans hsame⟩
  split at h
  · simp only [Option.some.injEq, Prod.mk.injEq] at h
    exact ⟨_, _, [], .refl, noDrop_nil, h.1.symm.trans hsame⟩
  · unfold flushSync at h
    split at h
    · simp only [Option.some.injEq, Prod.mk.injEq] at h
      exact ⟨_, _, [], .refl, noDrop_nil, h.1.symm.trans hsame⟩
    · exact flushLoop_eq h

/-- A flush counts its item as emitted and, by its outcome, as sent or dropped; whatever sockets it
opens it closes, and the rest of the exporter is as it was. -/
theorem flushItem_eq {w w' : World ι cap} {s : Signal} {isNull : Bool} {env : FlushEnv}
    {st : OtlpStatus} (h : flushItem w s isNull env = some (w', st)) :
    w' = w ∨ ∃ net prng evs, ∃ ok : Bool, Churn w.net net ∧ NoDrop evs ∧
      w' = (w.flushed net prng evs).modSig s fun sg => { sg with
        emitted := sg.emitted + 1
        sent := if ok then sg.sent + 1 else sg.sent
        droppedErr := if ok then sg.droppedErr else sg.droppedErr + 1 } := by
  unfold flushItem at h
  split at h
  · simp only [Option.some.injEq, Prod.mk.injEq] at h
    exact .inl h.1.symm
  dsimp only at h
  split at h
  · contradiction
  · next w₁ henc =>
    obtain ⟨net, prng, evs, hchurn, hevs, rfl⟩ := flushEncoded_eq henc
    simp only [Option.some.injEq, Prod.mk.injEq] at h
    refine .inr ⟨net, prng, evs, true, hchurn, hevs, ?_⟩
    rw [← h.1]
    simp [World.modSig, World.flushed]
  · next w₁ st₁ hne henc =>
    obtain ⟨net, prng, evs, hchurn, hevs, rfl⟩ := flushEncoded_eq henc
    simp only [Option.some.injEq, Prod.mk.injEq] at h
    refine .inr ⟨net, prng, evs, false, hchurn, hevs, ?_⟩
    rw [← h.1]
    simp [World.modSig, World.flushed]

end OtlpC.Exporter
