import OtlpC.Http.Reply

/-!
# A request whose server answers

The server sends a well-formed reply, in any pieces, the socket takes the request in any pieces, and either may
block for a while. Then the request never fails, and it is done exactly when it has the whole reply, with its
meaning (`answered_of_run`). A chunked reply has to come whole, or without a whole chunk before its last piece.
-/

namespace OtlpC.Http

/-- What the caller reads of a request that is done. -/
structure Answers (p : Reply) (r : OtlpHttpRequest) : Prop where
  httpStatus_eq : r.httpStatus = p.status
  retryAfterMs_eq : r.retryAfterMs = p.retryAfterMs
  keepaliveEligible_eq : r.keepaliveEligible = p.keepsConnection
  body_eq : otlpHttpRequestBody r = some p.body.payload

def Waits (st : OtlpStatus) (now since timeoutMs : ℕ) : Prop :=
  st = .errWouldblock ∧ timedOut now since timeoutMs = false

/-- The read brings the next piece of the reply, and the end of the stream only behind the last one. -/
def BringsPiece (p : Reply) (received : Bytes) (env : IoEnv) : Prop :=
  env.read = .ok ∧ env.allocOk = true ∧ received ++ env.input <+: p.bytes ∧
    (env.eof = true → received ++ env.input = p.bytes) ∧
    (p.body.framing = .chunked → holdsChunk received = false)

/-- Nothing goes wrong in this step, and the server answers with `p`. -/
def Undisturbed (p : Reply) (x : Wire) (env : IoEnv) : Prop :=
  (x.req.state = .connecting →
    env.finish = .ok ∨ Waits env.finish env.now x.req.startMs x.req.connectTimeoutMs) ∧
  (x.req.state = .sending →
    env.write = .ok ∧ env.allocOk = true ∨ Waits env.write env.now x.req.lastIoMs x.req.readTimeoutMs) ∧
  (x.req.state = .reading →
    BringsPiece p x.received env ∨ Waits env.read env.now x.req.lastIoMs x.req.readTimeoutMs)

instance (st : OtlpStatus) (now since timeoutMs : ℕ) : Decidable (Waits st now since timeoutMs) :=
  inferInstanceAs (Decidable (_ ∧ _))

instance (p : Reply) (received : Bytes) (env : IoEnv) : Decidable (BringsPiece p received env) :=
  inferInstanceAs (Decidable (_ ∧ _ ∧ _ ∧ (_ → _) ∧ (_ → _)))

instance (p : Reply) (x : Wire) (env : IoEnv) : Decidable (Undisturbed p x env) :=
  inferInstanceAs (Decidable ((_ → _) ∧ (_ → _) ∧ (_ → _)))

variable {p : Reply} {q : Bytes}

/-! ### What a piece leads to -/

theorem Reply.bytes_ne_nil (p : Reply) : p.bytes ≠ [] := by
  intro hnil
  have hlength := congrArg List.length hnil
  rw [Reply.bytes, p.head_eq] at hlength
  simp at hlength

/-- Only a chunked reply can hold a whole chunk. -/
theorem holdsChunk_of_cut (hpre : q <+: p.bytes) (h : p.body.framing ≠ .chunked) : holdsChunk q = false := by
  obtain ⟨rest, hrest⟩ := hpre
  by_cases hmore : parseHead q = .needMore
  · rw [holdsChunk, hmore]
  · have hhead : parseHead q = .head p.parsed := by
      rw [← parseHead_append hmore rest, hrest, Reply.bytes]
      exact p.parseHead_head _
    have hframing : (p.parsed.framing == .chunked) = false := beq_eq_false_iff_ne.2 h
    rw [holdsChunk, hhead]
    dsimp only
    rw [hframing, Bool.false_and]

theorem Reply.verdictAct_parse {atEof : Bool} (h : p.body.delimited = true ∨ atEof = true) :
    verdictAct (otlpHttpRespParse p.bytes atEof) =
      .commits p.status p.retryAfterMs p.keepsConnection (some p.body.payload) := by
  obtain ⟨hverdict, hbody⟩ := p.parse_eq h
  rcases hparse : otlpHttpRespParse p.bytes atEof with ⟨buf, rc⟩
  rw [hparse] at hverdict hbody
  dsimp only at hverdict
  subst hverdict
  have hread : some ((buf.drop p.parsed.bodyOff).take p.body.payload.length) = some p.body.payload := hbody
  rw [verdictAct]
  dsimp only [Head.resp]
  rw [hread]
  rfl

theorem freshAct_reply {eof : Bool} (h : p.body.delimited = true ∨ eof = true) :
    freshAct p.bytes eof = .commits p.status p.retryAfterMs p.keepsConnection (some p.body.payload) := by
  rw [freshAct]
  cases hdelimited : p.body.delimited with
  | true => rw [Reply.verdictAct_parse (.inl hdelimited)]
  | false =>
    have heof : eof = true := h.resolve_left (by rw [hdelimited]; exact Bool.false_ne_true)
    have hmore := p.needMore_of_cut (List.prefix_refl _) (.inr hdelimited)
    have hfirst : verdictAct (otlpHttpRespParse p.bytes false) = .goesOn := by
      rcases hparse : otlpHttpRespParse p.bytes false with ⟨buf, rc⟩
      rw [hparse] at hmore
      dsimp only at hmore
      subst hmore
      rfl
    rw [hfirst, heof]
    dsimp only
    rw [Reply.verdictAct_parse (.inr rfl)]
    rfl

theorem freshAct_cut (hpre : q <+: p.bytes) (h : q ≠ p.bytes ∨ p.body.delimited = false) :
    freshAct q false = .goesOn := by
  have hmore := p.needMore_of_cut hpre h
  rcases hparse : otlpHttpRespParse q false with ⟨buf, rc⟩
  rw [hparse] at hmore
  dsimp only at hmore
  subst hmore
  rw [freshAct, hparse]
  rfl

theorem answers_of_acted {x : Reader}
    (h : acted x = .commits p.status p.retryAfterMs p.keepsConnection (some p.body.payload)) :
    x.req.state = .done ∧ Answers p x.req := by
  unfold acted at h
  split at h
  · next hstate =>
    rw [Acted.commits.injEq] at h
    exact ⟨hstate, h.1, h.2.1, h.2.2.1, h.2.2.2⟩
  · cases h
  · cases h

theorem live_of_acted {x : Reader} (h : acted x = .goesOn) : x.req.state ≠ .done ∧ x.req.state ≠ .failed := by
  unfold acted at h
  split at h
  · cases h
  · cases h
  · next hdone hfailed => exact ⟨hdone, hfailed⟩

/-! ### Steps -/

/-- What holds of a request whose server answers with `p`. -/
structure Answering (p : Reply) (x : Wire) : Prop where
  live : x.req.state ≠ .failed
  unread : x.req.state = .connecting ∨ x.req.state = .sending → x.received = []
  cap : x.req.state = .reading → CapOk x.req.respCap
  piece : x.req.state = .reading → x.received <+: p.bytes ∧ (x.received ≠ p.bytes ∨ p.body.delimited = false)
  buf_eq : x.req.state = .reading → holdsChunk x.received = false → x.req.respBuf = x.received
  answered : x.req.state = .done → x.received = p.bytes ∧ Answers p x.req

/-- A request that reads nothing yet. -/
theorem Answering.early {x : Wire} (hstate : x.req.state = .connecting ∨ x.req.state = .sending)
    (hreceived : x.received = []) : Answering p x := by
  refine ⟨fun h => ?_, fun _ => hreceived, fun h => ?_, fun h => ?_, fun h => ?_, fun h => ?_⟩ <;>
    rcases hstate with hs | hs <;> rw [hs] at h <;> cases h

theorem Answering.start {r : OtlpHttpRequest} (h : Started r) : Answering p (Wire.start r) := by
  obtain ⟨state, sock, reqBuf, cto, rto, now, hstate, rfl⟩ := h.eq_newRequest
  exact .early hstate rfl

theorem Answering.sent {x : Wire} (hsent : JustSent x.req) (hreceived : x.received = []) : Answering p x := by
  have hreading := hsent.state_eq
  refine ⟨by simp [hreading], by simp [hreading], fun _ => ⟨12, by omega, hsent.respCap_eq⟩, fun _ => ?_, fun _ _ => ?_,
    by simp [hreading]⟩
  · rw [hreceived]
    exact ⟨List.nil_prefix, .inl p.bytes_ne_nil.symm⟩
  · rw [hsent.respBuf_eq, hreceived]

theorem delivered_of_state {r : OtlpHttpRequest} (h : r.state ≠ .reading) (env : IoEnv) : delivered r env = [] :=
  if_neg fun hs => h hs.1

theorem Undisturbed.connectingStep {x : Wire} {env : IoEnv} (hC : Undisturbed p x env)
    (hstate : x.req.state = .connecting) :
    (otlpHttpRequestStep x.req env).1.state = .connecting ∨ (otlpHttpRequestStep x.req env).1.state = .sending := by
  rw [otlpHttpRequestStep, hstate]
  dsimp only
  rw [stepConnecting]
  rcases hC.1 hstate with hok | ⟨hblock, htime⟩
  · rw [hok]
    exact .inr rfl
  · rw [hblock]
    dsimp only
    rw [htime]
    exact .inl hstate

theorem Undisturbed.sendingStep {x : Wire} {env : IoEnv} (hC : Undisturbed p x env) (hstate : x.req.state = .sending) :
    (otlpHttpRequestStep x.req env).1.state = .sending ∨ (otlpHttpRequestStep x.req env).1.state = .reading := by
  rw [otlpHttpRequestStep, hstate]
  dsimp only
  rw [stepSending]
  rcases hC.2.1 hstate with ⟨hok, halloc⟩ | ⟨hblock, htime⟩
  · rw [hok]
    dsimp only
    split
    · rw [halloc]
      exact .inr rfl
    · exact .inl hstate
  · rw [hblock]
    dsimp only
    rw [htime]
    exact .inl hstate

/-- **A piece of the reply** is read: the request is done with it, or goes on. -/
theorem Answering.readingStep {x : Wire} {env : IoEnv} (h : Answering p x)
    (hlen : p.bytes.length ≤ 2 * otlpHttpRespMax) (hstate : x.req.state = .reading)
    (hpiece : BringsPiece p x.received env) :
    Answering p { req := (otlpHttpRequestStep x.req env).1, written := x.written,
                  received := x.received ++ env.input } ∧
      (env.eof = true → (otlpHttpRequestStep x.req env).1.state = .done) := by
  obtain ⟨hread, halloc, hpre, heof, hchunk⟩ := hpiece
  have hnone : holdsChunk x.received = false := by
    by_cases hframing : p.body.framing = .chunked
    · exact hchunk hframing
    · exact holdsChunk_of_cut (h.piece hstate).1 hframing
  have hbuf := h.buf_eq hstate hnone
  have hroom : (x.req.respBuf ++ env.input).length ≤ 2 * otlpHttpRespMax := by
    rw [hbuf]
    exact hpre.length_le.trans hlen
  obtain ⟨r, happend, hrbuf, hrcap, hrstate⟩ := appendRead_eq_ok env.now (h.cap hstate) hroom
  rw [hbuf] at hrbuf
  have hstep : otlpHttpRequestStep x.req env = failUnlessProgress (parseRead r env.eof) := by
    have happend' : appendRead x.req (env.bytes.take 4096) env.allocOk env.now = .ok r := by
      rw [halloc]
      exact happend
    simp only [otlpHttpRequestStep, hstate, stepReading, hread, happend']
  have hagain : env.eof = true → (otlpHttpRespParse r.respBuf false).2 = .needMore → holdsChunk r.respBuf = false := by
    intro hend hmore
    rw [hrbuf, heof hend] at hmore ⊢
    apply holdsChunk_of_cut (List.prefix_refl _)
    intro hframing
    have hdelimited : p.body.delimited = true := by
      cases hbody : p.body with
      | length content => rfl
      | chunked body => rfl
      | untilClose content =>
        rw [hbody] at hframing
        cases hframing
    rw [(p.parse_eq (.inl hdelimited)).1] at hmore
    cases hmore
  have hacted := parseRead_acted (x.received ++ env.input) (hrstate.trans hstate) hagain
  rw [← hstep, hrbuf] at hacted
  by_cases hall : x.received ++ env.input = p.bytes ∧ (p.body.delimited = true ∨ env.eof = true)
  · rw [hall.1, freshAct_reply hall.2] at hacted
    obtain ⟨hdone, hanswers⟩ := answers_of_acted hacted
    dsimp only at hdone hanswers
    refine ⟨⟨?_, ?_, ?_, ?_, ?_, fun _ => ⟨hall.1, hanswers⟩⟩, fun _ => hdone⟩ <;> simp [hdone]
  · have hopen : env.eof = false := by
      by_contra hend
      rw [Bool.not_eq_false] at hend
      exact hall ⟨heof hend, .inr hend⟩
    have hpart : x.received ++ env.input ≠ p.bytes ∨ p.body.delimited = false := by
      rw [hopen] at hall
      by_cases heq : x.received ++ env.input = p.bytes
      · exact .inr (by simpa [heq] using hall)
      · exact .inl heq
    rw [hopen, freshAct_cut hpre hpart] at hacted
    obtain ⟨hdone, hfailed⟩ := live_of_acted hacted
    dsimp only at hdone hfailed
    -- neither done nor failed, so still reading
    have hreading : (otlpHttpRequestStep x.req env).1.state = .reading := by
      have hadv := (stepSpec x.req env).advances
      rw [hstate] at hadv
      generalize (otlpHttpRequestStep x.req env).1.state = state at hadv hdone hfailed
      cases hadv with
      | stay => rfl
      | answered => exact absurd rfl hdone
      | failed => exact absurd rfl hfailed
    have hreq : (otlpHttpRequestStep x.req env).1 =
        { r with respBuf := (otlpHttpRespParse r.respBuf false).1 } := by
      rw [hstep] at hreading ⊢
      exact parseRead_reading hreading
    refine ⟨⟨hfailed, by simp [hreading], fun _ => ?_, fun _ => ⟨hpre, hpart⟩, fun _ hno => ?_, fun hd => absurd hd hdone⟩,
      fun hend => by rw [hopen] at hend; cases hend⟩
    · rw [hreq]
      exact hrcap
    · dsimp only at hno ⊢
      rw [hreq]
      show (otlpHttpRespParse r.respBuf false).1 = _
      rw [hrbuf, otlpHttpRespParse_fst false hno]

/-- **Every undisturbed step** keeps it. -/
theorem Answering.step {x y : Wire} {env : IoEnv} (h : Answering p x) (hlen : p.bytes.length ≤ 2 * otlpHttpRespMax)
    (hC : Undisturbed p x env) (hstep : wireStep x env = some y) : Answering p y := by
  rw [wireStep, Option.some.injEq] at hstep
  subst hstep
  cases hstate : x.req.state with
  | connecting =>
    apply Answering.early (hC.connectingStep hstate)
    dsimp only
    rw [delivered_of_state (by simp [hstate]), h.unread (.inl hstate), List.append_nil]
  | sending =>
    have hnothing : x.received ++ delivered x.req env = [] := by
      rw [delivered_of_state (by simp [hstate]), h.unread (.inr hstate), List.append_nil]
    rcases hC.sendingStep hstate with hsending | hreading
    · exact .early (.inr hsending) hnothing
    · exact .sent (justSent_of_step hstate hreading) hnothing
  | reading =>
    rcases hC.2.2 hstate with hpiece | ⟨hblock, htime⟩
    · obtain ⟨h', -⟩ := h.readingStep hlen hstate hpiece
      have hinput : delivered x.req env = env.input := if_pos ⟨hstate, hpiece.1⟩
      rw [hinput]
      exact ⟨h'.live, h'.unread, h'.cap, h'.piece, h'.buf_eq, h'.answered⟩
    · have hsame : (otlpHttpRequestStep x.req env).1 = x.req := by
        simp [otlpHttpRequestStep, hstate, stepReading, hblock, htime, failUnlessProgress]
      have hnothing : delivered x.req env = [] := if_neg fun hs => by rw [hblock] at hs; cases hs.2
      rw [hsame, hnothing, List.append_nil]
      exact ⟨h.live, h.unread, h.cap, h.piece, h.buf_eq, h.answered⟩
  | done =>
    have hsame := (stepSpec x.req env).terminal (.inl hstate)
    rw [hsame, delivered_of_state (by simp [hstate]), List.append_nil]
    exact ⟨h.live, h.unread, h.cap, h.piece, h.buf_eq, h.answered⟩
  | failed => exact absurd hstate h.live

/-- **A request whose server answers is answered.** In every run in which the socket takes the request and brings the
reply in whatever pieces, blocking for whatever time the timeouts allow, the request never fails. When it is done it
has sent itself whole and has the whole reply with its status, delay, connection and body; it is done as soon as it
has the whole of a reply that tells its end, and otherwise with the read that meets the end of the stream. -/
theorem answered_of_run {r : OtlpHttpRequest} {envs : List IoEnv} {x : Wire} (hstart : Started r)
    (hlen : p.bytes.length ≤ 2 * otlpHttpRespMax)
    (hC : Steps.Along wireStep (Undisturbed p) (Wire.start r) envs)
    (hrun : Steps.run wireStep (Wire.start r) envs = some x) :
    x.req.state ≠ .failed ∧
    (x.req.state = .done → x.written = r.reqBuf ∧ x.received = p.bytes ∧ Answers p x.req) ∧
    (x.received = p.bytes → p.body.delimited = true → x.req.state = .done) ∧
    ∀ env y, wireStep x env = some y → x.req.state = .reading → BringsPiece p x.received env → env.eof = true →
      y.req.state = .done := by
  have h : Answering p x :=
    Steps.along_invariant (fun _ _ _ h hC hstep => h.step hlen hC hstep) (.start hstart) hC hrun
  have hwire := (WireOk.start hstart).run hrun
  refine ⟨h.live, fun hdone => ⟨?_, h.answered hdone⟩, fun hall hdelimited => ?_, fun env y hstep hreading hpiece heof => ?_⟩
  · rw [hwire.written_eq, hwire.sent_all (.inr hdone), List.take_length]
  · cases hstate : x.req.state with
    | done => rfl
    | failed => exact absurd hstate h.live
    | connecting => exact absurd (hall.symm.trans (h.unread (.inl hstate))) p.bytes_ne_nil
    | sending => exact absurd (hall.symm.trans (h.unread (.inr hstate))) p.bytes_ne_nil
    | reading =>
      rcases (h.piece hstate).2 with hne | hclose
      · exact absurd hall hne
      · rw [hclose] at hdelimited
        cases hdelimited
  · rw [wireStep, Option.some.injEq] at hstep
    rw [← hstep]
    exact (h.readingStep hlen hreading hpiece).2 heof

/-- A server that is busy, in a reply of four bytes. -/
def busyReply : Reply where
  version := .http11
  status := 503
  reason := ascii "Service Unavailable"
  reason_ok := by decide
  fields := [⟨ascii "retry-after", 1, ascii "2", by decide, by decide⟩,
    ⟨ascii "Content-Length", 0, ascii "4", by decide, by decide⟩]
  body := .length (ascii "busy")
  framed := by
    refine ⟨by decide, ⟨_, List.mem_cons_of_mem _ List.mem_cons_self, by decide⟩, ?_⟩
    decide

/-- It comes in two pieces, between which the socket blocks. -/
theorem answered_of_run_busy :
    ∃ envs x, Steps.run wireStep (Wire.start reusedRequest) envs = some x ∧ x.req.state = .done ∧
      x.written = reusedRequest.reqBuf ∧ x.req.httpStatus = 503 ∧ x.req.retryAfterMs = 2000 ∧
      otlpHttpRequestBody x.req = some (ascii "busy") := by
  let envs := [{ readOf [] false with nWritten := 4096 }, readOf (busyReply.bytes.take 30) false,
    { readOf [] false with read := .errWouldblock }, readOf (busyReply.bytes.drop 30) false]
  obtain ⟨x, hrun⟩ : ∃ x, Steps.run wireStep (Wire.start reusedRequest) envs = some x := ⟨_, rfl⟩
  have hC : Steps.Along wireStep (Undisturbed busyReply) (Wire.start reusedRequest) envs := by decide +kernel
  have hreceived : (Steps.run wireStep (Wire.start reusedRequest) envs).map Wire.received = some busyReply.bytes := by
    decide +kernel
  rw [hrun, Option.map_some, Option.some.injEq] at hreceived
  obtain ⟨-, hanswered, hdone, -⟩ := answered_of_run reusedRequest_started (by decide +kernel) hC hrun
  have hdone := hdone hreceived rfl
  obtain ⟨hwritten, -, hanswers⟩ := hanswered hdone
  have hdelay : busyReply.retryAfterMs = 2000 := by decide +kernel
  exact ⟨envs, x, hrun, hdone, hwritten, hanswers.httpStatus_eq, hanswers.retryAfterMs_eq.trans hdelay, hanswers.body_eq⟩

end OtlpC.Http
