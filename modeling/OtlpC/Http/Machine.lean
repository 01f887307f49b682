import OtlpC.Http.Incremental
import OtlpC.Http.Stability

/-!
# Runs of a request

A request with the bytes that have passed its socket, stepped any number of times while the socket layer, the
clock and the allocator answer anything. The state only moves forward, what was written is the sent part of
the request, and the response buffer stays under its cap (`requestSound_of_run`).
-/

namespace OtlpC.Http

/-- A request, what its socket has accepted from it, and what has been read from it. -/
structure Wire where
  req : OtlpHttpRequest
  written : Bytes
  received : Bytes
deriving Repr, DecidableEq

def Wire.start (r : OtlpHttpRequest) : Wire := { req := r, written := [], received := [] }

/-- The bytes that the socket accepts in a step: no more than it is offered. -/
def accepted (r : OtlpHttpRequest) (env : IoEnv) : Bytes :=
  if r.state = .sending ∧ env.write = .ok then (r.reqBuf.drop r.reqSent).take env.nWritten else []

def delivered (r : OtlpHttpRequest) (env : IoEnv) : Bytes :=
  if r.state = .reading ∧ env.read = .ok then env.input else []

/-- One `otlp_http_request_step`. -/
def wireStep (x : Wire) (env : IoEnv) : Option Wire :=
  some { req := (otlpHttpRequestStep x.req env).1
         written := x.written ++ accepted x.req env
         received := x.received ++ delivered x.req env }

/-- A request as one of the two start functions hands it out. -/
inductive Started : OtlpHttpRequest → Prop
  | own {net net' : Net} {url : OtlpHttpUrl} {userAgent : Option Bytes} {headers : List OtlpHttpHeader}
      {body : Bytes} {connectTimeoutMs readTimeoutMs : ℕ} {env : StartEnv} {r : OtlpHttpRequest}
      (h : otlpHttpRequestStart net url userAgent headers body connectTimeoutMs readTimeoutMs env =
        (net', .ok r)) : Started r
  | donated {net net' : Net} {url : OtlpHttpUrl} {userAgent : Option Bytes} {headers : List OtlpHttpHeader}
      {body : Bytes} {connectTimeoutMs readTimeoutMs : ℕ} {env : StartEnv} {sock : Option Sock}
      {r : OtlpHttpRequest}
      (h : otlpHttpRequestStartWithSocket net url userAgent headers body connectTimeoutMs readTimeoutMs env
        sock = (net', .ok r)) : Started r

theorem Started.eq_newRequest {r : OtlpHttpRequest} (h : Started r) :
    ∃ state sock reqBuf connectTimeoutMs readTimeoutMs now, (state = .connecting ∨ state = .sending) ∧
      r = newRequest state sock reqBuf connectTimeoutMs readTimeoutMs now := by
  cases h with
  | own h =>
    unfold otlpHttpRequestStart at h
    split at h
    · cases h
    split at h
    · cases h
    split at h
    · dsimp only at h
      split at h
      · cases h
        exact ⟨_, _, _, _, _, _, .inr rfl, rfl⟩
      · cases h
        exact ⟨_, _, _, _, _, _, .inl rfl, rfl⟩
      · cases h
    · cases h
  | donated h =>
    unfold otlpHttpRequestStartWithSocket at h
    split at h
    · cases h
    split at h
    · cases h
    split at h
    · cases h
    · cases h
      exact ⟨_, _, _, _, _, _, .inr rfl, rfl⟩

/-! ### What a step does -/

/-- Forward along CONNECTING, SENDING, READING and DONE, or to FAILED. -/
inductive Advances : OtlpHttpReqState → OtlpHttpReqState → Prop
  | stay (s : OtlpHttpReqState) : Advances s s
  | connected : Advances .connecting .sending
  | sent : Advances .sending .reading
  | answered : Advances .reading .done
  | failed {s : OtlpHttpReqState} (h : s ≠ .done) : Advances s .failed

/-- The parser accepted what is in the response buffer with the bytes just read, at once or at the end of the
stream, and its fields were committed. -/
def Accepted (r : OtlpHttpRequest) (env : IoEnv) (r' : OtlpHttpRequest) : Prop :=
  ∃ buf atEof resp, otlpHttpRespParse buf atEof = (r'.respBuf, .complete resp) ∧
    (atEof = false ∧ buf = r.respBuf ++ env.input ∨
      atEof = true ∧ env.eof = true ∧ otlpHttpRespParse (r.respBuf ++ env.input) false = (buf, .needMore)) ∧
    r'.httpStatus = resp.httpStatus ∧ r'.retryAfterMs = resp.retryAfterMs ∧
    r'.keepaliveEligible = resp.keepaliveEligible ∧ r'.bodyPtr = some resp.bodyOff ∧ r'.bodyLen = resp.bodyLen

structure StepSpec (r : OtlpHttpRequest) (env : IoEnv) (r' : OtlpHttpRequest) : Prop where
  advances : Advances r.state r'.state
  terminal : r.state = .done ∨ r.state = .failed → r' = r
  reqBuf_eq : r'.reqBuf = r.reqBuf
  reqSent_eq : r'.reqSent = r.reqSent + (accepted r env).length
  sent : r.state = .sending → r'.state = .reading → r'.reqSent = r.reqBuf.length
  done : r.state ≠ .done → r'.state = .done → r.state = .reading ∧ Accepted r env r'

section StepSpec

variable {r r' : OtlpHttpRequest} {env : IoEnv}

theorem accepted_of_state (h : r.state ≠ .sending) (env : IoEnv) : accepted r env = [] :=
  if_neg fun hs => h hs.1

theorem accepted_of_write (h : env.write ≠ .ok) (r : OtlpHttpRequest) : accepted r env = [] :=
  if_neg fun hs => h hs.2

theorem accepted_eq (hstate : r.state = .sending) (hwrite : env.write = .ok) :
    accepted r env = (r.reqBuf.drop r.reqSent).take env.nWritten :=
  if_pos ⟨hstate, hwrite⟩

theorem StepSpec.stay (h : accepted r env = []) : StepSpec r env r where
  advances := .stay _
  terminal _ := rfl
  reqBuf_eq := rfl
  reqSent_eq := by rw [h]; rfl
  sent hs hr := by rw [hs] at hr; contradiction
  done hne hd := absurd hd hne

theorem StepSpec.fail (hlive : ¬(r.state = .done ∨ r.state = .failed)) (hstate : r'.state = .failed)
    (hbuf : r'.reqBuf = r.reqBuf) (hsent : r'.reqSent = r.reqSent + (accepted r env).length) :
    StepSpec r env r' where
  advances := hstate ▸ .failed fun hd => hlive (.inl hd)
  terminal ht := absurd ht hlive
  reqBuf_eq := hbuf
  reqSent_eq := hsent
  sent _ hr := by rw [hstate] at hr; contradiction
  done _ hd := by rw [hstate] at hd; contradiction

theorem failUnlessProgress_of_error {st : OtlpStatus} (hok : st ≠ .ok) (hblock : st ≠ .errWouldblock) :
    (failUnlessProgress (r, st)).1 = { r with state := .failed } := by
  simp [failUnlessProgress, hok, hblock]

theorem stepSpec_connecting (hstate : r.state = .connecting) :
    StepSpec r env (failUnlessProgress (stepConnecting r env)).1 := by
  have hnone := accepted_of_state (by rw [hstate]; simp) env
  have hlive : ¬(r.state = .done ∨ r.state = .failed) := by simp [hstate]
  unfold stepConnecting
  split
  · exact {
      advances := hstate ▸ .connected
      terminal := fun ht => absurd ht hlive
      reqBuf_eq := rfl
      reqSent_eq := by rw [hnone]; rfl
      sent := fun hs => by rw [hstate] at hs; contradiction
      done := fun _ hd => by cases hd }
  · split
    · exact .fail hlive rfl rfl (by rw [hnone]; rfl)
    · exact .stay hnone
  next st hok hblock =>
    rw [failUnlessProgress_of_error hok hblock]
    exact .fail hlive rfl rfl (by rw [hnone]; rfl)

theorem stepSpec_sending (hstate : r.state = .sending) :
    StepSpec r env (failUnlessProgress (stepSending r env)).1 := by
  have hlive : ¬(r.state = .done ∨ r.state = .failed) := by simp [hstate]
  unfold stepSending
  split
  next hwrite =>
    have hlen : min env.nWritten (r.reqBuf.length - r.reqSent) = (accepted r env).length := by
      rw [accepted_eq hstate hwrite, List.length_take, List.length_drop]
    simp only [hlen]
    split
    next hall =>
      split
      · rw [failUnlessProgress_of_error (by simp) (by simp)]
        exact .fail hlive rfl rfl rfl
      · exact {
          advances := hstate ▸ .sent
          terminal := fun ht => absurd ht hlive
          reqBuf_eq := rfl
          reqSent_eq := rfl
          sent := fun _ _ => hall
          done := fun _ hd => by cases hd }
    · exact {
        advances := .stay _
        terminal := fun ht => absurd ht hlive
        reqBuf_eq := rfl
        reqSent_eq := rfl
        sent := fun _ hr => by rw [show r.state = .reading from hr] at hstate; contradiction
        done := fun hne hd => absurd hd hne }
  next hwrite =>
    have hnone : accepted r env = [] := accepted_of_write (by rw [hwrite]; simp) r
    split
    · exact .fail hlive rfl rfl (by rw [hnone]; rfl)
    · exact .stay hnone
  next st hok hblock =>
    have hnone : accepted r env = [] := accepted_of_write hok r
    rw [failUnlessProgress_of_error hok hblock]
    exact .fail hlive rfl rfl (by rw [hnone]; rfl)

theorem tryParseResponse_keeps (r : OtlpHttpRequest) (atEof : Bool) :
    (tryParseResponse r atEof).1.reqBuf = r.reqBuf ∧ (tryParseResponse r atEof).1.reqSent = r.reqSent ∧
      (tryParseResponse r atEof).1.state = r.state ∧ (tryParseResponse r atEof).1.respCap = r.respCap := by
  unfold tryParseResponse
  split <;> exact ⟨rfl, rfl, rfl, rfl⟩

theorem tryParseResponse_eq {rc : RespVerdict} {atEof : Bool} (h : tryParseResponse r atEof = (r', rc)) :
    otlpHttpRespParse r.respBuf atEof = (r'.respBuf, rc) ∧
      ∀ resp, rc = .complete resp → r'.httpStatus = resp.httpStatus ∧ r'.retryAfterMs = resp.retryAfterMs ∧
        r'.keepaliveEligible = resp.keepaliveEligible ∧ r'.bodyPtr = some resp.bodyOff ∧
        r'.bodyLen = resp.bodyLen := by
  unfold tryParseResponse at h
  split at h
  next buf resp hparse =>
    cases h
    refine ⟨hparse, fun resp' heq => ?_⟩
    cases heq
    exact ⟨rfl, rfl, rfl, rfl, rfl⟩
  next buf rc' hne hparse =>
    cases h
    exact ⟨hparse, fun resp heq => absurd heq (hne resp)⟩

theorem appendRead_keeps {bytes : Bytes} {allocOk : Bool} {now : ℕ}
    (h : appendRead r bytes allocOk now = .ok r') :
    r'.reqBuf = r.reqBuf ∧ r'.reqSent = r.reqSent ∧ r'.state = r.state ∧ r'.respBuf = r.respBuf ++ bytes := by
  unfold appendRead at h
  split at h
  next hnil =>
    cases h
    exact ⟨rfl, rfl, rfl, by rw [List.isEmpty_iff.1 hnil, List.append_nil]⟩
  split at h
  · split at h
    · cases h
    split at h
    · cases h
    · cases h
      exact ⟨rfl, rfl, rfl, rfl⟩
  · cases h
    exact ⟨rfl, rfl, rfl, rfl⟩

theorem appendRead_error {bytes : Bytes} {allocOk : Bool} {now : ℕ} {st : OtlpStatus}
    (h : appendRead r bytes allocOk now = .error st) : st ≠ .ok ∧ st ≠ .errWouldblock := by
  unfold appendRead at h
  split at h
  · cases h
  split at h
  · split at h
    · cases h; simp
    split at h
    · cases h; simp
    · cases h
  · cases h

theorem stepSpec_parseRead {r₁ : OtlpHttpRequest} (hstate : r.state = .reading)
    (happend : appendRead r env.input env.allocOk env.now = .ok r₁) :
    StepSpec r env (failUnlessProgress (parseRead r₁ env.eof)).1 := by
  have hnone := accepted_of_state (by rw [hstate]; simp) env
  have hlive : ¬(r.state = .done ∨ r.state = .failed) := by simp [hstate]
  obtain ⟨hbuf, hsent, hst, hresp⟩ := appendRead_keeps happend
  have hsent₁ : r₁.reqSent = r.reqSent + (accepted r env).length := by rw [hnone, hsent]; rfl
  have hdone : ∀ r₂ : OtlpHttpRequest, r₂.reqBuf = r.reqBuf → r₂.reqSent = r₁.reqSent → r₂.state = .done →
      Accepted r env r₂ → StepSpec r env r₂ := by
    intro r₂ hbuf₂ hsent₂ hstate₂ hacc
    exact {
      advances := by rw [hstate, hstate₂]; exact .answered
      terminal := fun ht => absurd ht hlive
      reqBuf_eq := hbuf₂
      reqSent_eq := hsent₂.trans hsent₁
      sent := fun hs => by rw [hstate] at hs; contradiction
      done := fun _ _ => ⟨hstate, hacc⟩ }
  obtain ⟨hbuf₁, hsentp, hstp, -⟩ := tryParseResponse_keeps r₁ false
  unfold parseRead
  split
  next r₂ heq =>
    rw [heq] at hbuf₁ hsentp
    rw [failUnlessProgress_of_error (by simp) (by simp)]
    exact .fail hlive rfl (hbuf₁.trans hbuf) (hsentp.trans hsent₁)
  next r₂ resp heq =>
    rw [heq] at hbuf₁ hsentp
    obtain ⟨hparse, hfields⟩ := tryParseResponse_eq heq
    rw [hresp] at hparse
    exact hdone { r₂ with state := .done } (hbuf₁.trans hbuf) hsentp rfl
      ⟨_, false, resp, hparse, .inl ⟨rfl, rfl⟩, hfields resp rfl⟩
  next r₂ heq =>
    rw [heq] at hbuf₁ hsentp hstp
    obtain ⟨hparse, -⟩ := tryParseResponse_eq heq
    rw [hresp] at hparse
    obtain ⟨hbuf₂, hsent₂, hst₂, -⟩ := tryParseResponse_keeps r₂ true
    split
    next heof =>
      split
      next r₃ resp heq' =>
        rw [heq'] at hbuf₂ hsent₂
        obtain ⟨hparse', hfields⟩ := tryParseResponse_eq heq'
        exact hdone { r₃ with state := .done } (hbuf₂.trans (hbuf₁.trans hbuf)) (hsent₂.trans hsentp) rfl
          ⟨_, true, resp, hparse', .inr ⟨rfl, heof, hparse⟩, hfields resp rfl⟩
      next r₃ rc hne heq' =>
        rw [heq'] at hbuf₂ hsent₂
        rw [failUnlessProgress_of_error (by simp) (by simp)]
        exact .fail hlive rfl (hbuf₂.trans (hbuf₁.trans hbuf)) (hsent₂.trans (hsentp.trans hsent₁))
    next heof =>
      have hsame : r₂.state = r.state := hstp.trans hst
      exact {
        advances := by rw [show (failUnlessProgress (r₂, OtlpStatus.ok)).1 = r₂ from rfl, hsame]; exact .stay _
        terminal := fun ht => absurd ht hlive
        reqBuf_eq := hbuf₁.trans hbuf
        reqSent_eq := hsentp.trans hsent₁
        sent := fun hs => by rw [hstate] at hs; contradiction
        done := fun hne hd => absurd (hsame.symm.trans hd) hne }

theorem stepSpec_reading (hstate : r.state = .reading) :
    StepSpec r env (failUnlessProgress (stepReading r env)).1 := by
  have hnone := accepted_of_state (by rw [hstate]; simp) env
  have hlive : ¬(r.state = .done ∨ r.state = .failed) := by simp [hstate]
  unfold stepReading
  split
  · split
    next st happend =>
      obtain ⟨hok, hblock⟩ := appendRead_error happend
      rw [failUnlessProgress_of_error hok hblock]
      exact .fail hlive rfl rfl (by rw [hnone]; rfl)
    next r₁ happend => exact stepSpec_parseRead hstate happend
  · split
    · exact .fail hlive rfl rfl (by rw [hnone]; rfl)
    · exact .stay hnone
  next st hok hblock =>
    rw [failUnlessProgress_of_error hok hblock]
    exact .fail hlive rfl rfl (by rw [hnone]; rfl)

/-- **Every step of a request** does no more than this. -/
theorem stepSpec (r : OtlpHttpRequest) (env : IoEnv) : StepSpec r env (otlpHttpRequestStep r env).1 := by
  unfold otlpHttpRequestStep
  split
  next hstate => exact stepSpec_connecting hstate
  next hstate => exact stepSpec_sending hstate
  next hstate => exact stepSpec_reading hstate
  next hstate => exact .stay (accepted_of_state (by rw [hstate]; simp) env)
  next hstate => exact .stay (accepted_of_state (by rw [hstate]; simp) env)

end StepSpec

/-! ### The response buffer -/

/-- The buffer grows until `need` fits, and not beyond twice the cap. -/
theorem growCap_bounds {need rounds cap cap' : ℕ} (hcap : cap ≤ 2 * otlpHttpRespMax)
    (hrounds : 2 * otlpHttpRespMax < cap * 2 ^ rounds) (h : growCap need rounds cap = some cap') :
    need ≤ cap' ∧ cap ≤ cap' ∧ cap' ≤ 2 * otlpHttpRespMax := by
  induction rounds generalizing cap with
  | zero => omega
  | succ rounds ih =>
    rw [growCap] at h
    by_cases hfits : cap < need
    · rw [if_pos hfits] at h
      by_cases hlarge : otlpHttpRespMax < cap
      · rw [if_pos hlarge] at h
        contradiction
      · rw [if_neg hlarge] at h
        have hdouble : cap * 2 ^ (rounds + 1) = cap * 2 * 2 ^ rounds := by
          rw [Nat.pow_succ, Nat.mul_comm (2 ^ rounds) 2, Nat.mul_assoc]
        obtain ⟨hneed, hle, hmax⟩ := ih (by omega) (hdouble ▸ hrounds) h
        exact ⟨hneed, by omega, hmax⟩
    · rw [if_neg hfits, Option.some.injEq] at h
      exact h ▸ ⟨Nat.not_lt.1 hfits, Nat.le_refl _, hcap⟩

/-- What the response buffer holds fits it, and it is under its cap. -/
structure BufOk (r : OtlpHttpRequest) : Prop where
  len_le : r.respBuf.length ≤ r.respCap
  cap_le : r.respCap ≤ 2 * otlpHttpRespMax
  cap_pos : r.state = .reading → 4096 ≤ r.respCap
  empty : r.state = .connecting ∨ r.state = .sending → r.respBuf = []

section BufOk

variable {r r' : OtlpHttpRequest}

theorem BufOk.of_newRequest (state : OtlpHttpReqState) (sock : Sock) (reqBuf : Bytes)
    (connectTimeoutMs readTimeoutMs now : ℕ) (hstate : state ≠ .reading) :
    BufOk (newRequest state sock reqBuf connectTimeoutMs readTimeoutMs now) where
  len_le := Nat.le_refl 0
  cap_le := Nat.zero_le _
  cap_pos h := absurd h hstate
  empty _ := rfl

theorem BufOk.ended {state : OtlpHttpReqState} (h : BufOk r) (hstate : state = .done ∨ state = .failed) :
    BufOk { r with state } where
  len_le := h.len_le
  cap_le := h.cap_le
  cap_pos hr := by rw [show state = .reading from hr] at hstate; simp at hstate
  empty he := by
    replace he : state = .connecting ∨ state = .sending := he
    rcases hstate with rfl | rfl <;> simp at he

theorem BufOk.failUnlessProgress {x : OtlpHttpRequest × OtlpStatus} (h : BufOk x.1) :
    BufOk (failUnlessProgress x).1 := by
  unfold Http.failUnlessProgress
  split
  · exact h.ended (.inr rfl)
  · exact h

theorem BufOk.blocked (h : BufOk r) (late : Bool) :
    BufOk (if late then ({ r with state := .failed }, OtlpStatus.errTimeout)
      else (r, OtlpStatus.errWouldblock)).1 := by
  split
  · exact h.ended (.inr rfl)
  · exact h

theorem BufOk.tryParse (h : BufOk r) (hstate : r.state = .reading) (atEof : Bool) :
    BufOk (tryParseResponse r atEof).1 ∧ (tryParseResponse r atEof).1.state = .reading := by
  obtain ⟨-, -, hstate', hcap⟩ := tryParseResponse_keeps r atEof
  refine ⟨⟨?_, hcap ▸ h.cap_le, fun hr => hcap ▸ h.cap_pos (hstate' ▸ hr), fun he => ?_⟩, hstate'.trans hstate⟩
  · rw [tryParseResponse_respBuf, otlpHttpRespParse_length, hcap]
    exact h.len_le
  · rw [hstate', hstate] at he
    simp at he

theorem BufOk.parse (h : BufOk r) (hstate : r.state = .reading) (eof : Bool) : BufOk (parseRead r eof).1 := by
  have hfirst := h.tryParse hstate false
  unfold parseRead
  split
  next heq => rw [heq] at hfirst; exact hfirst.1
  next heq =>
    rw [heq] at hfirst
    exact hfirst.1.ended (.inl rfl)
  next r₁ heq =>
    rw [heq] at hfirst
    have hagain := hfirst.1.tryParse hfirst.2 true
    split
    · split
      next heq' =>
        rw [heq'] at hagain
        exact hagain.1.ended (.inl rfl)
      next heq' => rw [heq'] at hagain; exact hagain.1
    · exact hfirst.1

theorem BufOk.append {bytes : Bytes} {allocOk : Bool} {now : ℕ} (h : BufOk r) (hstate : r.state = .reading)
    (happend : appendRead r bytes allocOk now = .ok r') : BufOk r' := by
  have hpos := h.cap_pos hstate
  obtain ⟨-, -, hstate', hbuf⟩ := appendRead_keeps happend
  suffices hcap : r.respBuf.length + bytes.length ≤ r'.respCap ∧ 4096 ≤ r'.respCap ∧
      r'.respCap ≤ 2 * otlpHttpRespMax by
    refine ⟨by rw [hbuf, List.length_append]; exact hcap.1, hcap.2.2, fun _ => hcap.2.1, fun he => ?_⟩
    rw [hstate', hstate] at he
    simp at he
  have hmax := h.cap_le
  have hlen := h.len_le
  unfold appendRead at happend
  split at happend
  next hnil =>
    cases happend
    rw [List.isEmpty_iff.1 hnil]
    exact ⟨hlen, hpos, hmax⟩
  split at happend
  · split at happend
    · cases happend
    next cap hgrow =>
    split at happend
    · cases happend
    · cases happend
      have hrounds : 2 * otlpHttpRespMax < r.respCap * 2 ^ 64 := by
        have hsmall : otlpHttpRespMax = 65536 := rfl
        omega
      obtain ⟨hneed, hle, hcap⟩ := growCap_bounds hmax hrounds hgrow
      exact ⟨hneed, hpos.trans hle, hcap⟩
  next hfits =>
    cases happend
    exact ⟨Nat.not_lt.1 hfits, hpos, hmax⟩

theorem BufOk.step (h : BufOk r) (env : IoEnv) : BufOk (otlpHttpRequestStep r env).1 := by
  unfold otlpHttpRequestStep
  split
  next hstate =>
    refine BufOk.failUnlessProgress ?_
    unfold stepConnecting
    split
    · exact ⟨h.len_le, h.cap_le, fun hr => by simp at hr, fun _ => h.empty (.inl hstate)⟩
    · exact h.blocked _
    · exact h
  next hstate =>
    have hempty := h.empty (.inr hstate)
    refine BufOk.failUnlessProgress ?_
    unfold stepSending
    split
    · dsimp only
      split
      · -- the buffer of the response is allocated, or there is none
        split <;> exact ⟨by simp [hempty], by simp [otlpHttpRespMax], fun _ => Nat.le_refl _, fun he => by simp at he⟩
      · exact ⟨h.len_le, h.cap_le, h.cap_pos, h.empty⟩
    · exact h.blocked _
    · exact h
  next hstate =>
    refine BufOk.failUnlessProgress ?_
    unfold stepReading
    split
    · split
      · exact h
      next happend =>
        obtain ⟨-, -, hstate', -⟩ := appendRead_keeps happend
        exact (h.append hstate happend).parse (hstate'.trans hstate) env.eof
    · exact h.blocked _
    · exact h
  · exact h
  · exact h

end BufOk

/-! ### Whole runs -/

/-- What holds of a request that has `bytes` to send, and of the bytes at its socket. -/
structure WireOk (bytes : Bytes) (x : Wire) : Prop where
  reqBuf_eq : x.req.reqBuf = bytes
  sent_le : x.req.reqSent ≤ bytes.length
  written_eq : x.written = bytes.take x.req.reqSent
  sent_all : x.req.state = .reading ∨ x.req.state = .done → x.req.reqSent = bytes.length
  buf : BufOk x.req

theorem WireOk.start {r : OtlpHttpRequest} (h : Started r) : WireOk r.reqBuf (Wire.start r) := by
  obtain ⟨state, sock, reqBuf, cto, rto, now, hstate, rfl⟩ := h.eq_newRequest
  refine ⟨rfl, Nat.zero_le _, rfl, fun hr => ?_, BufOk.of_newRequest _ _ _ _ _ _ ?_⟩
  · replace hr : state = .reading ∨ state = .done := hr
    rcases hstate with rfl | rfl <;> simp at hr
  · rcases hstate with rfl | rfl <;> simp

theorem accepted_length_le (r : OtlpHttpRequest) (env : IoEnv) :
    (accepted r env).length ≤ r.reqBuf.length - r.reqSent := by
  unfold accepted
  split
  · rw [List.length_take, List.length_drop]
    exact Nat.min_le_right _ _
  · exact Nat.zero_le _

/-- What the socket accepts is what follows the sent part. -/
theorem take_accepted (r : OtlpHttpRequest) (env : IoEnv) :
    r.reqBuf.take (r.reqSent + (accepted r env).length) = r.reqBuf.take r.reqSent ++ accepted r env := by
  rw [List.take_add, List.append_cancel_left_eq]
  unfold accepted
  split
  · rw [List.take_eq_take_iff, List.length_take, List.length_drop]
    omega
  · rfl

theorem WireOk.step {bytes : Bytes} {x y : Wire} {env : IoEnv} (h : WireOk bytes x)
    (hstep : wireStep x env = some y) : WireOk bytes y := by
  rw [wireStep, Option.some.injEq] at hstep
  subst hstep
  have hspec := stepSpec x.req env
  have hbytes := h.reqBuf_eq
  have hle := accepted_length_le x.req env
  have hsent_le := h.sent_le
  rw [hbytes] at hle
  refine ⟨hspec.reqBuf_eq.trans hbytes, ?_, ?_, fun hr => ?_, h.buf.step env⟩
  · rw [hspec.reqSent_eq]
    omega
  · rw [hspec.reqSent_eq, h.written_eq, ← hbytes, take_accepted]
  · -- the bytes are all sent before, or with the step from SENDING to READING
    have hbefore : x.req.state = .reading ∨ x.req.state = .done →
        (otlpHttpRequestStep x.req env).1.reqSent = bytes.length := by
      intro hr'
      have hns : x.req.state ≠ .sending := by rcases hr' with hr' | hr' <;> rw [hr'] <;> simp
      rw [hspec.reqSent_eq, accepted_of_state hns, h.sent_all hr']
      rfl
    rcases hr with hr | hd
    · have hadv := hspec.advances
      rw [hr] at hadv
      generalize hstate : x.req.state = state at hadv
      cases hadv with
      | stay => exact hbefore (.inl hstate)
      | sent => rw [hspec.sent hstate hr, hbytes]
    · by_cases hdone : x.req.state = .done
      · exact hbefore (.inr hdone)
      · exact hbefore (.inl (hspec.done hdone hd).1)

theorem WireOk.run {bytes : Bytes} {x y : Wire} {envs : List IoEnv} (h : WireOk bytes x)
    (hrun : Steps.run wireStep x envs = some y) : WireOk bytes y :=
  Steps.run_invariant (fun _ _ _ => WireOk.step) h hrun

structure WireStepSpec (x : Wire) (env : IoEnv) (y : Wire) : Prop where
  advances : Advances x.req.state y.req.state
  terminal : x.req.state = .done ∨ x.req.state = .failed → y = x
  done : x.req.state ≠ .done → y.req.state = .done → x.req.state = .reading ∧ Accepted x.req env y.req

theorem wireStep_spec {x y : Wire} {env : IoEnv} (hstep : wireStep x env = some y) : WireStepSpec x env y := by
  rw [wireStep, Option.some.injEq] at hstep
  subst hstep
  have hspec := stepSpec x.req env
  refine ⟨hspec.advances, fun ht => ?_, hspec.done⟩
  have hsending : x.req.state ≠ .sending := by rcases ht with ht | ht <;> rw [ht] <;> simp
  have hreading : x.req.state ≠ .reading := by rcases ht with ht | ht <;> rw [ht] <;> simp
  have hnothing : delivered x.req env = [] := if_neg fun hs => hreading hs.1
  rw [hspec.terminal ht, accepted_of_state hsending, hnothing, List.append_nil, List.append_nil]

/-- **The state machine of a request.** However often a started request is stepped and whatever the socket, the
clock and the allocator answer: what was written to the socket is the sent part of the request, all of it in
READING and DONE; the response buffer stays under its cap; every next step moves the state forward or to FAILED,
leaves DONE and FAILED alone, and enters DONE only from READING with a response that the parser accepted. -/
theorem requestSound_of_run {r : OtlpHttpRequest} {envs : List IoEnv} {x : Wire} (hstart : Started r)
    (hrun : Steps.run wireStep (Wire.start r) envs = some x) :
    (x.req.reqBuf = r.reqBuf ∧ x.written = x.req.reqBuf.take x.req.reqSent ∧
      x.req.reqSent ≤ x.req.reqBuf.length ∧
      (x.req.state = .reading ∨ x.req.state = .done → x.written = x.req.reqBuf) ∧
      x.req.respBuf.length ≤ x.req.respCap ∧ x.req.respCap ≤ 2 * otlpHttpRespMax) ∧
    ∀ env y, wireStep x env = some y → WireStepSpec x env y := by
  have h := (WireOk.start hstart).run hrun
  have hbytes := h.reqBuf_eq
  refine ⟨⟨hbytes, ?_, ?_, fun hr => ?_, h.buf.len_le, h.buf.cap_le⟩, fun env y => wireStep_spec⟩
  · rw [h.written_eq, hbytes]
  · rw [hbytes]
    exact h.sent_le
  · rw [h.written_eq, h.sent_all hr, List.take_length, hbytes]

/-- A request that connects late, is written in two parts and is answered in two reads. -/
theorem requestSound_of_run_answered :
    ∃ r envs x, otlpHttpRequestStart Net.empty ⟨ascii "collector", 4318, ascii "/"⟩ none [] (ascii "body") 0 0
        ⟨true, true, .ok, .errWouldblock, 0⟩ = (⟨[(ascii "collector", 4318)], []⟩, .ok r) ∧
      Steps.run wireStep (Wire.start r) envs = some x ∧
      x.req.state = .done ∧ x.req.httpStatus = 200 ∧ x.written = r.reqBuf := by
  let r := newRequest .connecting 0 (ascii "POST / HTTP/1.1" ++ crlf ++ ascii "Host: collector" ++ crlf ++
    ascii "User-Agent: otlp-c" ++ crlf ++ ascii "Content-Type: application/x-protobuf" ++ crlf ++
    ascii "Content-Length: 4" ++ crlf ++ ascii "Connection: keep-alive" ++ crlf ++ crlf ++ ascii "body") 0 0 0
  let envs : List IoEnv :=
    [⟨.ok, .ok, 0, .ok, [], false, true, 1⟩, ⟨.ok, .ok, 40, .ok, [], false, true, 2⟩,
      ⟨.ok, .errWouldblock, 0, .ok, [], false, true, 3⟩, ⟨.ok, .ok, 4096, .ok, [], false, true, 4⟩,
      ⟨.ok, .ok, 0, .ok, ascii "HTTP/1.1 200 OK" ++ crlf ++ ascii "Content-Le", false, true, 5⟩,
      ⟨.ok, .ok, 0, .ok, ascii "ngth: 0" ++ crlf ++ crlf, false, true, 6⟩]
  have hstart : otlpHttpRequestStart Net.empty ⟨ascii "collector", 4318, ascii "/"⟩ none [] (ascii "body") 0 0
      ⟨true, true, .ok, .errWouldblock, 0⟩ = (⟨[(ascii "collector", 4318)], []⟩, .ok r) := by decide +kernel
  have hstate : (Steps.run wireStep (Wire.start r) envs).map (fun x => (x.req.state, x.req.httpStatus)) =
      some (.done, 200) := by decide +kernel
  obtain ⟨x, hrun, hx⟩ := Option.map_eq_some_iff.1 hstate
  obtain ⟨hdone, hstatus⟩ := Prod.mk.inj hx
  obtain ⟨⟨hbuf, -, -, hall, -, -⟩, -⟩ := requestSound_of_run (.own hstart) hrun
  exact ⟨r, envs, x, hstart, hrun, hdone, hstatus, (hall (.inr hdone)).trans hbuf⟩

end OtlpC.Http
