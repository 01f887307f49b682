import OtlpC.Exporter.Run
import Mathlib.Data.Nat.Find

/-!
# How many attempts a synchronous flush makes

How an attempt ends does not depend on the sockets or the jitter generator, so the attempts of a flush end in a
sequence that the environment has fixed from the start. `flushOutcome` is what the loop of `flush_sync` does with such
a sequence: it stops at an answer or when the attempts are used up, and an attempt that reaches its deadline is like
one whose connection failed.
-/

namespace OtlpC.Exporter

open Http

variable {ι : Type*} {cap : ℕ}

/-! ### How an attempt ends -/

/-- The server answered with a status, the deadline passed, or there was a failure before that. -/
inductive AttemptEnd where
  | answered (httpStatus : ℕ)
  | timedOut
  | failed (st : OtlpStatus)
deriving Repr, DecidableEq

def AttemptEnd.Answered : AttemptEnd → Prop
  | .answered _ => True
  | _ => False

/-- An end that is meant to be the last one: "non-2xx responses and timeouts are permanent". -/
def AttemptEnd.Permanent : AttemptEnd → Prop
  | .failed _ => False
  | _ => True

/-- The server took the item. -/
def AttemptEnd.Accepted : AttemptEnd → Prop
  | .answered http => successStatus http = true
  | _ => False

/-- What `flush_post_once` tells of it. -/
def AttemptEnd.attempt : AttemptEnd → Attempt
  | .answered http =>
    if successStatus http then { status := .ok, gotResponse := true }
    else { status := .errNetwork, gotResponse := true }
  | .timedOut => { status := .errTimeout, gotResponse := false }
  | .failed st => { status := st, gotResponse := false }

instance : DecidablePred AttemptEnd.Answered
  | .answered _ => isTrue trivial
  | .timedOut | .failed _ => isFalse nofun

def roundsEnd (deadline : ℕ) (r : OtlpHttpRequest) : List (IoEnv × ℕ) → Option AttemptEnd
  | [] => none
  | (io, now) :: rounds =>
    let (r, st) := otlpHttpRequestStep r io
    if r.state = .done then some (.answered r.httpStatus)
    else if r.state = .failed then some (.failed .errNetwork)
    else if st ≠ .ok ∧ st ≠ .errWouldblock then some (.failed st)
    else if deadline ≤ now then some .timedOut
    else roundsEnd deadline r rounds

/-- The end of an attempt of an exporter, whatever the sockets. -/
def attemptEnd (e : OtlpExporter ι cap) (s : Signal) (body : Bytes) (env : AttemptEnv) : Option AttemptEnd :=
  match (otlpHttpRequestStart Net.empty (e.sig s).url (some e.userAgent) e.httpHeaders body e.connectTimeoutMs
    e.readTimeoutMs env.start).2 with
  | .error st => some (.failed st)
  | .ok r => roundsEnd (Queue.u64 (env.begun + e.flushTimeoutMs)) r env.rounds

/-- The clock reaches the deadline of the attempt in one of its rounds, if it gets there. -/
def AttemptEnv.Finite (env : AttemptEnv) (flushTimeoutMs : ℕ) : Prop :=
  ∃ round ∈ env.rounds, Queue.u64 (env.begun + flushTimeoutMs) ≤ round.2

theorem roundsEnd_isSome {deadline : ℕ} {r : OtlpHttpRequest} {rounds : List (IoEnv × ℕ)}
    (h : ∃ round ∈ rounds, deadline ≤ round.2) : ∃ o, roundsEnd deadline r rounds = some o := by
  induction rounds generalizing r with
  | nil => simp at h
  | cons round rounds ih =>
    obtain ⟨io, now⟩ := round
    rw [roundsEnd]
    dsimp only
    split
    · exact ⟨_, rfl⟩
    split
    · exact ⟨_, rfl⟩
    split
    · exact ⟨_, rfl⟩
    split
    · exact ⟨_, rfl⟩
    next hnow =>
    refine ih ?_
    obtain ⟨round, hmem, hround⟩ := h
    rcases List.mem_cons.1 hmem with rfl | hmem
    · exact absurd hround hnow
    · exact ⟨round, hmem, hround⟩

theorem AttemptEnv.Finite.attemptEnd {e : OtlpExporter ι cap} {env : AttemptEnv} (h : env.Finite e.flushTimeoutMs)
    (s : Signal) (body : Bytes) : ∃ o, attemptEnd e s body env = some o := by
  unfold Exporter.attemptEnd
  split
  · exact ⟨_, rfl⟩
  · exact roundsEnd_isSome h

/-! ### The sockets do not matter -/

def withSock (k : Option Sock) (r : OtlpHttpRequest) : OtlpHttpRequest := { r with sock := k }

theorem tryParseResponse_withSock (k : Option Sock) (r : OtlpHttpRequest) (atEof : Bool) :
    tryParseResponse (withSock k r) atEof = (tryParseResponse r atEof).map (withSock k) id := by
  unfold tryParseResponse
  dsimp only [withSock]
  split <;> rfl

theorem parseRead_withSock (k : Option Sock) (r : OtlpHttpRequest) (eof : Bool) :
    parseRead (withSock k r) eof = (parseRead r eof).map (withSock k) id := by
  unfold parseRead
  rw [tryParseResponse_withSock]
  rcases tryParseResponse r false with ⟨r', v⟩
  cases v with
  | malformed | complete => rfl
  | needMore =>
    dsimp only [Prod.map, id]
    split
    · rw [tryParseResponse_withSock]
      rcases tryParseResponse r' true with ⟨r'', v⟩
      cases v <;> rfl
    · rfl

theorem appendRead_withSock (k : Option Sock) (r : OtlpHttpRequest) (bytes : Bytes) (allocOk : Bool) (now : ℕ) :
    appendRead (withSock k r) bytes allocOk now = (appendRead r bytes allocOk now).map (withSock k) := by
  have hcap : (withSock k r).respCap = r.respCap := rfl
  have hbuf : (withSock k r).respBuf = r.respBuf := rfl
  unfold appendRead
  rw [hcap, hbuf]
  split
  · rfl
  split
  · split
    · rfl
    · split <;> rfl
  · rfl

theorem stepConnecting_withSock (k : Option Sock) (r : OtlpHttpRequest) (io : IoEnv) :
    stepConnecting (withSock k r) io = (stepConnecting r io).map (withSock k) id := by
  have hstart : (withSock k r).startMs = r.startMs := rfl
  have htimeout : (withSock k r).connectTimeoutMs = r.connectTimeoutMs := rfl
  unfold stepConnecting
  rw [hstart, htimeout]
  cases io.finish with
  | errWouldblock =>
    dsimp only
    split <;> rfl
  | _ => rfl

theorem stepSending_withSock (k : Option Sock) (r : OtlpHttpRequest) (io : IoEnv) :
    stepSending (withSock k r) io = (stepSending r io).map (withSock k) id := by
  have hsent : (withSock k r).reqSent = r.reqSent := rfl
  have hbuf : (withSock k r).reqBuf = r.reqBuf := rfl
  have hlast : (withSock k r).lastIoMs = r.lastIoMs := rfl
  have htimeout : (withSock k r).readTimeoutMs = r.readTimeoutMs := rfl
  unfold stepSending
  rw [hsent, hbuf, hlast, htimeout]
  cases io.write with
  | ok =>
    dsimp only
    split
    · split <;> rfl
    · rfl
  | errWouldblock =>
    dsimp only
    split <;> rfl
  | _ => rfl

theorem stepReading_withSock (k : Option Sock) (r : OtlpHttpRequest) (io : IoEnv) :
    stepReading (withSock k r) io = (stepReading r io).map (withSock k) id := by
  have hlast : (withSock k r).lastIoMs = r.lastIoMs := rfl
  have htimeout : (withSock k r).readTimeoutMs = r.readTimeoutMs := rfl
  unfold stepReading
  rw [hlast, htimeout]
  cases io.read with
  | ok =>
    dsimp only
    rw [appendRead_withSock]
    cases appendRead r (io.bytes.take 4096) io.allocOk io.now with
    | error st => rfl
    | ok r' => exact parseRead_withSock k r' io.eof
  | errWouldblock =>
    dsimp only
    split <;> rfl
  | _ => rfl

theorem failUnlessProgress_withSock (k : Option Sock) (x : OtlpHttpRequest × OtlpStatus) :
    failUnlessProgress (x.map (withSock k) id) = (failUnlessProgress x).map (withSock k) id := by
  obtain ⟨r, st⟩ := x
  cases st <;> rfl

/-- **A step does not look at the socket's number.** -/
theorem otlpHttpRequestStep_withSock (k : Option Sock) (r : OtlpHttpRequest) (io : IoEnv) :
    otlpHttpRequestStep (withSock k r) io = (otlpHttpRequestStep r io).map (withSock k) id := by
  have hstate : (withSock k r).state = r.state := rfl
  unfold otlpHttpRequestStep
  rw [hstate]
  cases r.state with
  | connecting => exact (congrArg _ (stepConnecting_withSock k r io)).trans (failUnlessProgress_withSock k _)
  | sending => exact (congrArg _ (stepSending_withSock k r io)).trans (failUnlessProgress_withSock k _)
  | reading => exact (congrArg _ (stepReading_withSock k r io)).trans (failUnlessProgress_withSock k _)
  | done | failed => rfl

theorem roundsEnd_withSock (deadline : ℕ) (k : Option Sock) (r : OtlpHttpRequest) (rounds : List (IoEnv × ℕ)) :
    roundsEnd deadline (withSock k r) rounds = roundsEnd deadline r rounds := by
  induction rounds generalizing r with
  | nil => rfl
  | cons round rounds ih =>
    obtain ⟨io, now⟩ := round
    rw [roundsEnd, roundsEnd, otlpHttpRequestStep_withSock]
    rcases otlpHttpRequestStep r io with ⟨r', st⟩
    dsimp only [Prod.map, id]
    rw [ih]
    rfl

theorem otlpHttpRequestStart_withSock (net net' : Net) (url : OtlpHttpUrl) (ua : Option Bytes)
    (headers : List OtlpHttpHeader) (body : Bytes) (cto rto : ℕ) (env : StartEnv) :
    (otlpHttpRequestStart net' url ua headers body cto rto env).2 =
      (otlpHttpRequestStart net url ua headers body cto rto env).2.map (withSock (some net'.connects.length)) := by
  unfold otlpHttpRequestStart
  split
  · rfl
  split
  · rfl
  split
  · dsimp only [Net.connect]
    split <;> rfl
  · rfl

theorem appendHead_error {head text : Bytes} {st : OtlpStatus} (h : appendHead head text = .error st) : st ≠ .ok := by
  unfold appendHead at h
  split at h
  · cases h
    decide
  · cases h

theorem appendHeaders_error {head : Bytes} {headers : List OtlpHttpHeader} {st : OtlpStatus}
    (h : appendHeaders head headers = .error st) : st ≠ .ok := by
  induction headers generalizing head with
  | nil => cases h
  | cons header headers ih =>
    rw [appendHeaders] at h
    split at h
    · next happend =>
      cases h
      exact appendHead_error happend
    · exact ih h

theorem buildRequest_error {url : OtlpHttpUrl} {ua : Option Bytes} {headers : List OtlpHttpHeader} {body : Bytes}
    {mallocOk : Bool} {st : OtlpStatus} (h : buildRequest url ua headers body mallocOk = .error st) : st ≠ .ok := by
  unfold buildRequest at h
  dsimp only at h
  split at h
  · cases h
    decide
  split at h
  · cases h
    decide
  split at h
  · next happend =>
    cases h
    exact appendHead_error happend
  split at h
  · next happend =>
    cases h
    exact appendHeaders_error happend
  split at h
  · next happend =>
    cases h
    exact appendHead_error happend
  split at h
  · cases h
    decide
  split at h
  · cases h
    decide
  · cases h

theorem otlpHttpRequestStart_error {net : Net} {url : OtlpHttpUrl} {ua : Option Bytes}
    {headers : List OtlpHttpHeader} {body : Bytes} {cto rto : ℕ} {env : StartEnv} {st : OtlpStatus}
    (h : (otlpHttpRequestStart net url ua headers body cto rto env).2 = .error st) : st ≠ .ok := by
  unfold otlpHttpRequestStart at h
  split at h
  · cases h
    decide
  split at h
  · next hbuild =>
    cases h
    exact buildRequest_error hbuild
  split at h
  · dsimp only at h
    split at h
    · cases h
    · cases h
    · next hne _ =>
      cases h
      exact hne
  · next hne =>
    cases h
    exact hne

/-! ### The attempts of the code -/

theorem finishAttempt_attempt (w : World ι cap) (s : Signal) (r : OtlpHttpRequest) :
    (finishAttempt w s r).2 = (AttemptEnd.answered r.httpStatus).attempt := by
  unfold finishAttempt AttemptEnd.attempt
  dsimp only
  split <;> rfl

theorem flushPostLoop_attempt (w : World ι cap) (s : Signal) (deadline : ℕ) (r : OtlpHttpRequest)
    (rounds : List (IoEnv × ℕ)) :
    (flushPostLoop w s deadline r rounds).map Prod.snd = (roundsEnd deadline r rounds).map AttemptEnd.attempt := by
  induction rounds generalizing r with
  | nil => rfl
  | cons round rounds ih =>
    obtain ⟨io, now⟩ := round
    rw [flushPostLoop, roundsEnd]
    dsimp only
    split
    · exact congrArg some (finishAttempt_attempt w s _)
    split
    · rfl
    split
    · rfl
    split
    · rfl
    · exact ih _

/-- **What an attempt tells its caller** is told by how it ends. -/
theorem flushPostOnce_attempt (w : World ι cap) (s : Signal) (body : Bytes) (env : AttemptEnv) :
    (flushPostOnce w s body env).map Prod.snd = (attemptEnd w.exp s body env).map AttemptEnd.attempt := by
  have hsock := otlpHttpRequestStart_withSock Net.empty w.net (w.exp.sig s).url (some w.exp.userAgent)
    w.exp.httpHeaders body w.exp.connectTimeoutMs w.exp.readTimeoutMs env.start
  unfold flushPostOnce attemptEnd
  generalize otlpHttpRequestStart w.net (w.exp.sig s).url (some w.exp.userAgent) w.exp.httpHeaders body
    w.exp.connectTimeoutMs w.exp.readTimeoutMs env.start = started at hsock ⊢
  obtain ⟨net, res⟩ := started
  dsimp only at hsock
  subst hsock
  cases (otlpHttpRequestStart Net.empty (w.exp.sig s).url (some w.exp.userAgent) w.exp.httpHeaders body
    w.exp.connectTimeoutMs w.exp.readTimeoutMs env.start).2 with
  | error st => rfl
  | ok r =>
    refine (flushPostLoop_attempt _ s _ _ env.rounds).trans ?_
    rw [roundsEnd_withSock]

theorem flushPostOnce_of_end {w : World ι cap} {s : Signal} {body : Bytes} {env : AttemptEnv} {o : AttemptEnd}
    (h : attemptEnd w.exp s body env = some o) :
    ∃ net evs, flushPostOnce w s body env = some (w.flushed net w.exp.jitterPrng evs, o.attempt) := by
  have hattempt := flushPostOnce_attempt w s body env
  rw [h, Option.map_some, Option.map_eq_some_iff] at hattempt
  obtain ⟨⟨w', a⟩, honce, ha⟩ := hattempt
  obtain ⟨net, evs, -, -, rfl⟩ := flushPostOnce_eq honce
  exact ⟨net, evs, honce.trans (congrArg (fun a => some (_, a)) ha)⟩

theorem roundsEnd_failed {deadline : ℕ} {r : OtlpHttpRequest} {rounds : List (IoEnv × ℕ)} {st : OtlpStatus}
    (h : roundsEnd deadline r rounds = some (.failed st)) : st ≠ .ok := by
  induction rounds generalizing r with
  | nil => cases h
  | cons round rounds ih =>
    obtain ⟨io, now⟩ := round
    rw [roundsEnd] at h
    dsimp only at h
    split at h
    · cases h
    split at h
    · cases h
      decide
    split at h
    · next hne =>
      cases h
      exact hne.1
    split at h
    · cases h
    · exact ih h

theorem attemptEnd_failed {e : OtlpExporter ι cap} {s : Signal} {body : Bytes} {env : AttemptEnv} {st : OtlpStatus}
    (h : attemptEnd e s body env = some (.failed st)) : st ≠ .ok := by
  unfold attemptEnd at h
  split at h
  · next hstart =>
    cases h
    exact otlpHttpRequestStart_error hstart
  · exact roundsEnd_failed h

/-- `flush_sync` stops at an answer and at nothing else. -/
theorem stops_iff {e : OtlpExporter ι cap} {s : Signal} {body : Bytes} {env : AttemptEnv} {o : AttemptEnd}
    (h : attemptEnd e s body env = some o) :
    (o.attempt.status = .ok || o.attempt.gotResponse) = true ↔ o.Answered := by
  cases o with
  | answered http =>
    refine iff_of_true ?_ trivial
    rw [AttemptEnd.attempt]
    split <;> rfl
  | timedOut => exact iff_of_false (by decide) id
  | failed st =>
    refine iff_of_false ?_ id
    simp [AttemptEnd.attempt, attemptEnd_failed h]

/-- `OTLP_OK` is the status of an accepted item and of nothing else. -/
theorem status_ok_iff {e : OtlpExporter ι cap} {s : Signal} {body : Bytes} {env : AttemptEnv} {o : AttemptEnd}
    (h : attemptEnd e s body env = some o) : o.attempt.status = .ok ↔ o.Accepted := by
  cases o with
  | answered http =>
    rw [AttemptEnd.attempt, AttemptEnd.Accepted]
    split <;> simp [*]
  | timedOut => exact iff_of_false (by decide) id
  | failed st => exact iff_of_false (attemptEnd_failed h) id

/-! ### The loop -/

/-- The loop of `flush_sync` on the ends of its attempts: what it returns, if it gets there. -/
def flushOutcome (maxRetries attempt : ℕ) : List AttemptEnd → Option OtlpStatus
  | [] => none
  | o :: os =>
    if o.Answered then some o.attempt.status
    else if succ32 attempt ≤ maxRetries then flushOutcome maxRetries (succ32 attempt) os
    else some o.attempt.status

/-- **The loop of the code** does with its attempts what `flushOutcome` does with their ends. -/
theorem flushLoop_outcome {w : World ι cap} {s : Signal} {body : Bytes} {attempt : ℕ} {envs : List AttemptEnv}
    {os : List AttemptEnd} (h : envs.map (attemptEnd w.exp s body) = os.map some) :
    (flushLoop w s body attempt envs).map Prod.snd = flushOutcome w.exp.maxRetries attempt os := by
  induction envs generalizing w attempt os with
  | nil =>
    cases os with
    | nil => rfl
    | cons o os => cases h
  | cons env envs ih =>
    cases os with
    | nil => cases h
    | cons o os =>
      rw [List.map_cons, List.map_cons, List.cons.injEq] at h
      obtain ⟨hend, hrest⟩ := h
      obtain ⟨net, evs, honce⟩ := flushPostOnce_of_end hend
      rw [flushLoop, flushOutcome, honce]
      dsimp only
      by_cases hanswered : o.Answered
      · rw [if_pos ((stops_iff hend).2 hanswered), if_pos hanswered]
        rfl
      rw [if_neg fun hstop => hanswered ((stops_iff hend).1 hstop), if_neg hanswered]
      -- what the wait before the next attempt leaves
      obtain ⟨prng, evs', hwait⟩ : ∃ prng evs',
          (if attempt < (w.flushed net w.exp.jitterPrng evs).exp.maxRetries then
            flushBackoff (w.flushed net w.exp.jitterPrng evs) s attempt
          else w.flushed net w.exp.jitterPrng evs) = w.flushed net prng evs' := by
        split
        · obtain ⟨prng, evs', -, hback⟩ := flushBackoff_eq (w.flushed net w.exp.jitterPrng evs) s attempt
          exact ⟨prng, evs ++ evs', by rw [hback, flushed_flushed]; rfl⟩
        · exact ⟨_, _, rfl⟩
      rw [hwait]
      have hmax : (w.flushed net prng evs').exp.maxRetries = w.exp.maxRetries := rfl
      rw [hmax]
      split
      · exact ih hrest
      · rfl

/-- Attempts that nobody answers use up the retries one by one. -/
theorem flushOutcome_append {maxRetries attempt : ℕ} {os : List AttemptEnd} (more : List AttemptEnd)
    (hmax : maxRetries < 2 ^ 32) (hos : ∀ o ∈ os, ¬o.Answered) (hle : attempt + os.length ≤ maxRetries) :
    flushOutcome maxRetries attempt (os ++ more) = flushOutcome maxRetries (attempt + os.length) more := by
  induction os generalizing attempt with
  | nil => rfl
  | cons o os ih =>
    rw [List.forall_mem_cons] at hos
    rw [List.length_cons] at hle
    have hsucc : succ32 attempt = attempt + 1 := if_neg (by omega)
    rw [List.cons_append, flushOutcome, if_neg hos.1, hsucc, if_pos (by omega), ih hos.2 (by omega), List.length_cons]
    congr 1
    omega

/-! ### A bounded flush -/

/-- A flush whose attempts find the environment `envs` returns after `n` of them. -/
structure FlushReturns (w : World ι cap) (s : Signal) (body : Bytes) (envs : ℕ → AttemptEnv) (n : ℕ)
    (st : OtlpStatus) : Prop where
  returns : (flushSync w s body ((List.range n).map envs)).map Prod.snd = some st
  notBefore : ∀ k < n, flushSync w s body ((List.range k).map envs) = none

/-- A flush returns after at most `max_retries + 1` attempts, none of which is followed by another one when its end is
permanent, and with `OTLP_OK` exactly when the last one was accepted. -/
def FlushBounded (w : World ι cap) (s : Signal) (body : Bytes) (envs : ℕ → AttemptEnv) : Prop :=
  ∃ n st, FlushReturns w s body envs n st ∧ n ≤ w.exp.maxRetries + 1 ∧
    (∀ i o, i + 1 < n → attemptEnd w.exp s body (envs i) = some o → ¬o.Permanent) ∧
    (st = .ok ↔ ∃ o, attemptEnd w.exp s body (envs (n - 1)) = some o ∧ o.Accepted)

/-- No attempt but the last one allowed reaches its deadline before there is an answer. -/
def DeadlineOnlyLast (w : World ι cap) (s : Signal) (body : Bytes) (envs : ℕ → AttemptEnv) : Prop :=
  ∀ i < w.exp.maxRetries, (∀ j < i, ∀ o, attemptEnd w.exp s body (envs j) = some o → ¬o.Answered) →
    attemptEnd w.exp s body (envs i) ≠ some .timedOut

def RetriesNumbered (w : World ι cap) (s : Signal) (body : Bytes) (envs : ℕ → AttemptEnv) : Prop :=
  w.exp.maxRetries = 2 ^ 32 - 1 →
    ∃ i ≤ w.exp.maxRetries, ∃ o, attemptEnd w.exp s body (envs i) = some o ∧ o.Answered

section Ends

variable {w : World ι cap} {s : Signal} {body : Bytes} {envs : ℕ → AttemptEnv} {ends : ℕ → AttemptEnd}

theorem flushSync_outcome (hreal : w.exp.nullTransport = false)
    (hends : ∀ i, attemptEnd w.exp s body (envs i) = some (ends i)) (n : ℕ) :
    (flushSync w s body ((List.range n).map envs)).map Prod.snd =
      flushOutcome w.exp.maxRetries 0 ((List.range n).map ends) := by
  rw [flushSync, hreal]
  refine flushLoop_outcome ?_
  rw [List.map_map, List.map_map]
  exact List.map_congr_left fun i _ => hends i

theorem flushSync_none_iff (hreal : w.exp.nullTransport = false)
    (hends : ∀ i, attemptEnd w.exp s body (envs i) = some (ends i)) (n : ℕ) :
    flushSync w s body ((List.range n).map envs) = none ↔
      flushOutcome w.exp.maxRetries 0 ((List.range n).map ends) = none := by
  rw [← flushSync_outcome hreal hends, Option.map_eq_none_iff]

theorem flushOutcome_range {maxRetries : ℕ} (hmax : maxRetries < 2 ^ 32) {n : ℕ} (hn : n ≤ maxRetries)
    (hnone : ∀ i < n, ¬(ends i).Answered) (more : List AttemptEnd) :
    flushOutcome maxRetries 0 ((List.range n).map ends ++ more) = flushOutcome maxRetries n more := by
  have happend := @flushOutcome_append maxRetries 0 ((List.range n).map ends) more hmax
  rw [List.length_map, List.length_range, Nat.zero_add] at happend
  refine happend (fun o ho => ?_) hn
  obtain ⟨i, hi, rfl⟩ := List.mem_map.1 ho
  exact hnone i (List.mem_range.1 hi)

theorem flushOutcome_range_none {maxRetries : ℕ} (hmax : maxRetries < 2 ^ 32) {n : ℕ} (hn : n ≤ maxRetries)
    (hnone : ∀ i < n, ¬(ends i).Answered) : flushOutcome maxRetries 0 ((List.range n).map ends) = none := by
  have hrange := flushOutcome_range hmax hn hnone []
  rwa [List.append_nil] at hrange

theorem flushOutcome_range_succ {maxRetries : ℕ} (hmax : maxRetries < 2 ^ 32) {n : ℕ} (hn : n ≤ maxRetries)
    (hnone : ∀ i < n, ¬(ends i).Answered) :
    flushOutcome maxRetries 0 ((List.range (n + 1)).map ends) = flushOutcome maxRetries n [ends n] := by
  rw [List.range_succ, List.map_append]
  exact flushOutcome_range hmax hn hnone _

/-- Where the loop stops: at the first answer, or when the retries are used up. -/
theorem flushReturns_of_stop (hreal : w.exp.nullTransport = false)
    (hends : ∀ i, attemptEnd w.exp s body (envs i) = some (ends i)) (hmax : w.exp.maxRetries < 2 ^ 32) {k : ℕ}
    (hk : k ≤ w.exp.maxRetries) (hnone : ∀ i < k, ¬(ends i).Answered)
    (hstop : (ends k).Answered ∨ k = w.exp.maxRetries ∧ w.exp.maxRetries ≠ 2 ^ 32 - 1) :
    FlushReturns w s body envs (k + 1) (ends k).attempt.status := by
  constructor
  · rw [flushSync_outcome hreal hends, flushOutcome_range_succ hmax hk hnone, flushOutcome]
    split
    · rfl
    next hanswered =>
    obtain ⟨rfl, hne⟩ := hstop.resolve_left hanswered
    rw [succ32, if_neg hne, if_neg (by omega)]
  · intro n hn
    rw [flushSync_none_iff hreal hends]
    exact flushOutcome_range_none hmax (by omega) fun i hi => hnone i (by omega)

theorem FlushReturns.unique {n n' : ℕ} {st st' : OtlpStatus} (h : FlushReturns w s body envs n st)
    (h' : FlushReturns w s body envs n' st') : n = n' ∧ st = st' := by
  have hle : ∀ {n n' st st'}, FlushReturns w s body envs n st → FlushReturns w s body envs n' st' → n ≤ n' := by
    intro n n' st st' h h'
    by_contra hlt
    have hreturns := h'.returns
    rw [h.notBefore n' (by omega)] at hreturns
    cases hreturns
  obtain rfl : n = n' := Nat.le_antisymm (hle h h') (hle h' h)
  exact ⟨rfl, Option.some.inj (h.returns.symm.trans h'.returns)⟩

theorem exists_stop {maxRetries : ℕ}
    (h : maxRetries = 2 ^ 32 - 1 → ∃ i ≤ maxRetries, (ends i).Answered) :
    ∃ k ≤ maxRetries, (∀ i < k, ¬(ends i).Answered) ∧
      ((ends k).Answered ∨ k = maxRetries ∧ maxRetries ≠ 2 ^ 32 - 1) := by
  by_cases hanswered : ∃ i, i ≤ maxRetries ∧ (ends i).Answered
  · obtain ⟨hle, hfind⟩ := Nat.find_spec hanswered
    refine ⟨Nat.find hanswered, hle, fun i hi hans => ?_, .inl hfind⟩
    exact Nat.find_min hanswered hi ⟨by omega, hans⟩
  · refine ⟨maxRetries, le_rfl, fun i hi hans => hanswered ⟨i, hi.le, hans⟩, .inr ⟨rfl, fun hmax => ?_⟩⟩
    exact hanswered (h hmax)

/-- With `UINT32_MAX` retries the counter wraps, and a flush that nobody answers does not return in time. -/
theorem answered_of_returns (hreal : w.exp.nullTransport = false)
    (hends : ∀ i, attemptEnd w.exp s body (envs i) = some (ends i)) {n : ℕ} {st : OtlpStatus}
    (h : FlushReturns w s body envs n st) (hn : n ≤ w.exp.maxRetries + 1) (hmax : w.exp.maxRetries = 2 ^ 32 - 1) :
    ∃ i ≤ w.exp.maxRetries, (ends i).Answered := by
  by_contra hanswered
  have hnone : ∀ i ≤ w.exp.maxRetries, ¬(ends i).Answered := fun i hi hans => hanswered ⟨i, hi, hans⟩
  have hlt : w.exp.maxRetries < 2 ^ 32 := by omega
  have hreturns := h.returns
  rw [flushSync_outcome hreal hends] at hreturns
  rcases Nat.lt_or_eq_of_le hn with hn | rfl
  · rw [flushOutcome_range_none hlt (by omega) fun i hi => hnone i (by omega)] at hreturns
    cases hreturns
  · have hwrap : succ32 w.exp.maxRetries = 0 := if_pos hmax
    rw [flushOutcome_range_succ hlt le_rfl fun i hi => hnone i hi.le, flushOutcome, if_neg (hnone _ le_rfl), hwrap,
      if_pos (Nat.zero_le _)] at hreturns
    cases hreturns

/-- **When a flush is bounded**, of the ends of its attempts. -/
theorem flushBounded_iff_of_ends (hreal : w.exp.nullTransport = false) (hmax : w.exp.maxRetries < 2 ^ 32)
    (hends : ∀ i, attemptEnd w.exp s body (envs i) = some (ends i)) :
    FlushBounded w s body envs ↔
      (∀ i < w.exp.maxRetries, (∀ j < i, ¬(ends j).Answered) → ends i ≠ .timedOut) ∧
      (w.exp.maxRetries = 2 ^ 32 - 1 → ∃ i ≤ w.exp.maxRetries, (ends i).Answered) := by
  constructor
  · rintro ⟨n, st, hreturns, hn, hpermanent, -⟩
    refine ⟨fun i hi hnone htimed => ?_, answered_of_returns hreal hends hreturns hn⟩
    have hnone' : ∀ j < i + 1, ¬(ends j).Answered := by
      intro j hj
      rcases Nat.lt_succ_iff_lt_or_eq.1 hj with hj | rfl
      · exact hnone j hj
      · rw [htimed]
        exact id
    have hlt : i + 1 < n := by
      by_contra hle
      have hgoes := hreturns.returns
      rw [flushSync_outcome hreal hends,
        flushOutcome_range_none hmax (by omega) fun j hj => hnone' j (by omega)] at hgoes
      cases hgoes
    refine hpermanent i _ hlt (hends i) ?_
    rw [htimed]
    trivial
  · rintro ⟨hdeadline, hnumbered⟩
    obtain ⟨k, hk, hnone, hstop⟩ := exists_stop hnumbered
    refine ⟨k + 1, _, flushReturns_of_stop hreal hends hmax hk hnone hstop, by omega, fun i o hi hend => ?_, ?_⟩
    · obtain rfl := Option.some.inj ((hends i).symm.trans hend)
      have hunanswered := hnone i (by omega)
      have htimed := hdeadline i (by omega) fun j hj => hnone j (by omega)
      cases hi : ends i with
      | answered http =>
        rw [hi] at hunanswered
        exact absurd trivial hunanswered
      | timedOut => exact absurd hi htimed
      | failed st => exact id
    · rw [Nat.add_sub_cancel, status_ok_iff (hends k), hends k]
      simp

end Ends

/-! ### The count -/

/-- An item that was flushed with `st` counts as emitted and as one of sent and dropped. -/
def CountedOnce (w w' : World ι cap) (s : Signal) (st : OtlpStatus) : Prop :=
  (w'.exp.sig s).emitted = (w.exp.sig s).emitted + 1 ∧
    (w'.exp.sig s).sent = (w.exp.sig s).sent + (if st = .ok then 1 else 0) ∧
    (w'.exp.sig s).droppedErr = (w.exp.sig s).droppedErr + (if st = .ok then 0 else 1)

theorem flushItem_counted {w w' : World ι cap} {s : Signal} {env : FlushEnv} {st : OtlpStatus}
    (h : flushItem w s false env = some (w', st)) : CountedOnce w w' s st := by
  rw [flushItem, if_neg Bool.false_ne_true] at h
  dsimp only at h
  split at h
  · cases h
  · next w₁ henc =>
    obtain ⟨net, prng, evs, -, -, rfl⟩ := flushEncoded_eq henc
    cases h
    simp [CountedOnce, World.flushed, World.modSig]
  · next w₁ st₁ hne henc =>
    obtain ⟨net, prng, evs, -, -, rfl⟩ := flushEncoded_eq henc
    cases h
    have hst : st ≠ .ok := hne
    simp [CountedOnce, World.flushed, World.modSig, hst]

/-- **A synchronous flush** on the real transport, whose attempts are finite, is bounded exactly when no attempt but
the last one allowed reaches its deadline unanswered and, if `max_retries` is `UINT32_MAX`, there is an answer at all;
and its item is counted once. -/
theorem flush_bounded_iff {w : World ι cap} {s : Signal} {body : Bytes} {envs : ℕ → AttemptEnv}
    (hreal : w.exp.nullTransport = false) (hmax : w.exp.maxRetries < 2 ^ 32)
    (hfinite : ∀ i, (envs i).Finite w.exp.flushTimeoutMs) :
    (FlushBounded w s body envs ↔ DeadlineOnlyLast w s body envs ∧ RetriesNumbered w s body envs) ∧
      (∀ env w' st, otlpExporterFlushMetric w false env = some (w', st) → CountedOnce w w' .metric st) ∧
      ∀ env w' st, otlpExporterFlushLog w false env = some (w', st) → CountedOnce w w' .log st := by
  refine ⟨?_, fun env w' st => flushItem_counted, fun env w' st => flushItem_counted⟩
  choose ends hends using fun i => (hfinite i).attemptEnd s body
  rw [flushBounded_iff_of_ends hreal hmax hends]
  simp only [DeadlineOnlyLast, RetriesNumbered, hends, Option.some.injEq, forall_eq', ne_eq, exists_eq_left']

def answeredAttempt (status : ℕ) : AttemptEnv :=
  { start := BuildEnv.fine.start, begun := 0,
    rounds := [(fineIo [], 0), (fineIo (emptyResponse status), 0), (fineIo [], 30000)] }

def stalledAttempt : AttemptEnv :=
  { start := BuildEnv.fine.start, begun := 0, rounds := [({ fineIo [] with write := .errWouldblock }, 30000)] }

theorem flush_bounded_iff_answered :
    ∃ y : State ℕ _, runFrom (plainOpts 1 1) [] = some y ∧
      FlushBounded y.world .metric [] fun _ => answeredAttempt 200 := by
  have hrun : (runFrom (ι := ℕ) (plainOpts 1 1) []).map (fun y => (y.world.exp.nullTransport, y.world.exp.maxRetries,
      y.world.exp.flushTimeoutMs, attemptEnd y.world.exp .metric [] (answeredAttempt 200))) =
        some (false, 1, 30000, some (.answered 200)) := by decide +kernel
  obtain ⟨y, hy, hworld⟩ := Option.map_eq_some_iff.1 hrun
  simp only [Prod.mk.injEq] at hworld
  obtain ⟨hreal, hretries, htimeout, hend⟩ := hworld
  have hfinite : ∀ i : ℕ, (answeredAttempt 200).Finite y.world.exp.flushTimeoutMs := by
    intro i
    rw [htimeout]
    exact ⟨(fineIo [], 30000), by decide, by decide⟩
  refine ⟨y, hy, (flush_bounded_iff hreal (by omega) hfinite).1.2 ⟨fun i _ _ htimed => ?_, fun hmax => by omega⟩⟩
  rw [hend] at htimed
  cases htimed

/-- The flush goes on after its first attempt has reached the deadline. -/
theorem retried_after_deadline :
    ∃ y : State ℕ _, runFrom (plainOpts 1 1) [] = some y ∧ (∀ i < 2,
      attemptEnd y.world.exp .metric [] ((fun _ => stalledAttempt) i) = some .timedOut) ∧
      FlushReturns y.world .metric [] (fun _ => stalledAttempt) 2 .errTimeout ∧
      ¬FlushBounded y.world .metric [] fun _ => stalledAttempt := by
  have hrun : (runFrom (ι := ℕ) (plainOpts 1 1) []).map (fun y =>
      (attemptEnd y.world.exp .metric [] stalledAttempt,
        (flushSync y.world .metric [] []).isNone, (flushSync y.world .metric [] [stalledAttempt]).isNone,
        (flushSync y.world .metric [] [stalledAttempt, stalledAttempt]).map Prod.snd)) =
        some (some .timedOut, true, true, some .errTimeout) := by decide +kernel
  obtain ⟨y, hy, hworld⟩ := Option.map_eq_some_iff.1 hrun
  simp only [Prod.mk.injEq, Option.isNone_iff_eq_none] at hworld
  obtain ⟨hend, hzero, hone, htwo⟩ := hworld
  have hreturns : FlushReturns y.world .metric [] (fun _ => stalledAttempt) 2 .errTimeout := by
    refine ⟨htwo, fun k hk => ?_⟩
    obtain rfl | rfl : k = 0 ∨ k = 1 := by omega
    · exact hzero
    · exact hone
  refine ⟨y, hy, fun i _ => hend, hreturns, ?_⟩
  rintro ⟨n, st, hother, -, hpermanent, -⟩
  obtain ⟨rfl, -⟩ := hreturns.unique hother
  exact hpermanent 0 _ (by omega) hend trivial

end OtlpC.Exporter
