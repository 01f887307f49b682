import OtlpC.Http.Machine

/-!
# Where a reused connection stands

A response ends where its framing says (`responseLength`), but a read takes up to 4096 bytes at once, and the
parse that follows stops at the end of the response. A socket is handed on at the end of the response that was
read from it as long as no read brings bytes from behind a response that keeps the connection, or is parsed
after a whole chunk of an unfinished response has been compacted (`detachSocket_at_boundary`). A byte behind the
response is lost with the request (`detachSocket_past_boundary`).
-/

namespace OtlpC.Http

/-- How many bytes the response at the start of `received` takes: the header block and the framed body, with
the size lines and the trailer section of a chunked one. -/
def responseLength (received : Bytes) : Option ℕ :=
  match parseHead received with
  | .head hd =>
    match hd.framing with
    | .chunked =>
      match unchunk (received.drop hd.bodyOff) with
      | .complete _ used => some (hd.bodyOff + used)
      | _ => none
    | .length n => if received.length - hd.bodyOff < n then none else some (hd.bodyOff + n)
    | .untilEof => none
  | _ => none

/-- The header block lets the connection be used again. -/
def keepsConnection (received : Bytes) : Bool :=
  match parseHead received with
  | .head hd => hd.keepaliveEligible
  | _ => false

/-- The read brings bytes from behind a response that keeps the connection. -/
def Overreads (received : Bytes) : Prop :=
  keepsConnection received = true ∧ ∃ n, responseLength received = some n ∧ n < received.length

/-- What was received is parsed again after a whole chunk of an unfinished response has been compacted: by the
parse of this read, or by the one at the end of the stream. -/
def ReparsesChunk (x : Wire) (env : IoEnv) : Prop :=
  holdsChunk x.received = true ∨
    env.eof = true ∧ (otlpHttpRespParse (x.received ++ env.input) false).2 = .needMore ∧
      holdsChunk (x.received ++ env.input) = true

/-- A read that returned neither overreads nor lets a compacted chunk be parsed again. -/
def ReadsInBounds (x : Wire) (env : IoEnv) : Prop :=
  x.req.state = .reading → env.read = .ok → ¬Overreads (x.received ++ env.input) ∧ ¬ReparsesChunk x env

instance (received : Bytes) : Decidable (Overreads received) :=
  decidable_of_iff (keepsConnection received = true ∧ (responseLength received).any (· < received.length) = true)
    (by simp [Overreads, Option.any_eq_true])

instance (x : Wire) (env : IoEnv) : Decidable (ReparsesChunk x env) := inferInstanceAs (Decidable (_ ∨ _))

instance (x : Wire) (env : IoEnv) : Decidable (ReadsInBounds x env) := inferInstanceAs (Decidable (_ → _ → _))

/-! ### The end of a response -/

theorem exists_responseLength {received : Bytes} {atEof : Bool} {resp : OtlpHttpResp}
    (h : (otlpHttpRespParse received atEof).2 = .complete resp) (hkeep : resp.keepaliveEligible = true) :
    keepsConnection received = true ∧ ∃ n, responseLength received = some n ∧ n ≤ received.length := by
  cases hhead : parseHead received with
  | needMore =>
    rw [otlpHttpRespParse_of_needMore hhead] at h
    cases h
  | malformed =>
    rw [otlpHttpRespParse_of_malformed hhead] at h
    cases h
  | head hd =>
    have hle := bodyOff_le hhead
    rw [otlpHttpRespParse_head hhead] at h
    simp only [keepsConnection, responseLength, hhead]
    cases hframing : hd.framing with
    | chunked =>
      rw [hframing] at h
      dsimp only at h
      cases hread : unchunk (received.drop hd.bodyOff) with
      | needMore => rw [hread] at h; cases h
      | malformed => rw [hread] at h; cases h
      | complete payload used =>
        rw [hread] at h
        cases h
        have hused := unchunk_used_le hread
        rw [List.length_drop] at hused
        exact ⟨hkeep, _, rfl, by omega⟩
    | length n =>
      rw [hframing] at h
      dsimp only at h ⊢
      split at h
      · cases h
      next hroom =>
        cases h
        rw [if_neg hroom]
        exact ⟨hkeep, _, rfl, by omega⟩
    | untilEof =>
      -- without a length the connection is not kept
      rw [hframing] at h
      dsimp only at h
      split at h
      · cases h
      · cases h
        obtain ⟨_, _, _, scan, hparsed⟩ := parseHead_eq_head hhead
        have hframes := hparsed.framed
        rw [hframing] at hframes
        rw [show hd.keepaliveEligible = true from hkeep] at hframes
        exact absurd hframes.2.2 (by simp)

theorem parse_of_responseLength {received : Bytes} {n : ℕ} (h : responseLength received = some n) :
    ∃ resp, (otlpHttpRespParse received false).2 = .complete resp ∧
      resp.keepaliveEligible = keepsConnection received := by
  unfold responseLength at h
  cases hhead : parseHead received with
  | needMore => rw [hhead] at h; cases h
  | malformed => rw [hhead] at h; cases h
  | head hd =>
    rw [hhead] at h
    rw [otlpHttpRespParse_head hhead, keepsConnection, hhead]
    dsimp only at h ⊢
    cases hframing : hd.framing with
    | chunked =>
      rw [hframing] at h
      dsimp only at h ⊢
      cases hread : unchunk (received.drop hd.bodyOff) with
      | needMore => rw [hread] at h; cases h
      | malformed => rw [hread] at h; cases h
      | complete payload used => exact ⟨_, rfl, rfl⟩
    | length n =>
      rw [hframing] at h
      dsimp only at h ⊢
      split at h
      · cases h
      next hroom => exact ⟨_, if_neg hroom, rfl⟩
    | untilEof => rw [hframing] at h; cases h

/-! ### Runs -/

/-- What holds of a request whose reads stayed in bounds. -/
structure AtBoundary (x : Wire) : Prop where
  sock : x.req.sock.isSome = true
  unread : x.req.state = .connecting ∨ x.req.state = .sending → x.received = []
  buf_eq : x.req.state = .reading → holdsChunk x.received = false → x.req.respBuf = x.received
  boundary : x.req.state = .done → x.req.keepaliveEligible = true →
    responseLength x.received = some x.received.length

theorem AtBoundary.start {r : OtlpHttpRequest} (h : Started r) : AtBoundary (Wire.start r) := by
  obtain ⟨state, sock, reqBuf, cto, rto, now, hstate, rfl⟩ := h.eq_newRequest
  refine ⟨rfl, fun _ => rfl, fun hr => ?_, fun hd => ?_⟩
  · replace hr : state = .reading := hr
    rcases hstate with rfl | rfl <;> simp at hr
  · replace hd : state = .done := hd
    rcases hstate with rfl | rfl <;> simp at hd

/-- What a read leaves in the buffer of a response that is still unfinished. -/
theorem respBuf_of_reading {r : OtlpHttpRequest} {env : IoEnv} (hstate : r.state = .reading)
    (hread : env.read = .ok) (h : (otlpHttpRequestStep r env).1.state = .reading) :
    (otlpHttpRequestStep r env).1.respBuf = (otlpHttpRespParse (r.respBuf ++ env.input) false).1 := by
  simp only [otlpHttpRequestStep, hstate, stepReading, hread] at h ⊢
  split at h
  next st happend =>
    obtain ⟨hok, hblock⟩ := appendRead_error happend
    rw [failUnlessProgress_of_error hok hblock] at h
    cases h
  next r₁ happend =>
    obtain ⟨-, -, -, hbuf⟩ := appendRead_keeps happend
    rw [parseRead_reading h]
    show (otlpHttpRespParse r₁.respBuf false).1 = _
    rw [hbuf, IoEnv.input]

theorem step_of_unread {r : OtlpHttpRequest} {env : IoEnv} (hstate : r.state = .reading)
    (hread : env.read ≠ .ok) :
    (otlpHttpRequestStep r env).1 = r ∨ (otlpHttpRequestStep r env).1.state = .failed := by
  simp only [otlpHttpRequestStep, hstate, stepReading]
  split
  next hok => exact absurd hok hread
  · split
    · exact .inr rfl
    · exact .inl rfl
  next st hok hblock =>
    rw [failUnlessProgress_of_error hok hblock]
    exact .inr rfl

theorem boundary_of_accepted {x : Wire} {env : IoEnv} {r' : OtlpHttpRequest} (hbuf : x.req.respBuf = x.received)
    (hover : ¬Overreads (x.received ++ env.input)) (hchunk : ¬ReparsesChunk x env) (h : Accepted x.req env r')
    (hkeep : r'.keepaliveEligible = true) :
    responseLength (x.received ++ env.input) = some (x.received ++ env.input).length := by
  obtain ⟨buf, atEof, resp, hparse, hwhich, -, -, hkeepResp, -, -⟩ := h
  -- either parse saw the bytes as they were received
  have hsame : buf = x.received ++ env.input := by
    rcases hwhich with ⟨-, hfirst⟩ | ⟨-, heof, hfirst⟩
    · rw [hfirst, hbuf]
    · rw [hbuf] at hfirst
      have hnone : holdsChunk (x.received ++ env.input) = false := by
        by_contra hsome
        exact hchunk (.inr ⟨heof, by rw [hfirst], by simpa using hsome⟩)
      rw [← otlpHttpRespParse_fst false hnone, hfirst]
  subst hsame
  obtain ⟨hkeeps, n, hlength, hle⟩ :=
    exists_responseLength (congrArg Prod.snd hparse) (hkeepResp.symm.trans hkeep)
  have hlast : ¬n < (x.received ++ env.input).length := fun hlt => hover ⟨hkeeps, n, hlength, hlt⟩
  rw [hlength, Nat.le_antisymm hle (Nat.not_lt.1 hlast)]

theorem AtBoundary.read {x : Wire} {env : IoEnv} (h : AtBoundary x) (hC : ReadsInBounds x env)
    (hreading : x.req.state = .reading) (hread : env.read = .ok) :
    AtBoundary { req := (otlpHttpRequestStep x.req env).1, written := x.written ++ accepted x.req env,
                 received := x.received ++ env.input } := by
  obtain ⟨hover, hchunk⟩ := hC hreading hread
  have hspec := stepSpec x.req env
  have hnone : holdsChunk x.received = false := by
    by_contra hsome
    exact hchunk (.inl (by simpa using hsome))
  have hbuf := h.buf_eq hreading hnone
  refine ⟨(otlpHttpRequestStep_sock _ _).symm ▸ h.sock, fun hearly => ?_, fun hr hno => ?_, fun hd hkeep => ?_⟩
  · have hadv := hspec.advances
    dsimp only at hearly
    rw [hreading] at hadv
    rcases hearly with hearly | hearly <;> rw [hearly] at hadv <;> cases hadv
  · dsimp only at hr hno ⊢
    rw [respBuf_of_reading hreading hread hr, hbuf, otlpHttpRespParse_fst false hno]
  · have hacc := (hspec.done (by rw [hreading]; simp) hd).2
    exact boundary_of_accepted hbuf hover hchunk hacc hkeep

theorem AtBoundary.unreadStep {x : Wire} {env : IoEnv} (h : AtBoundary x)
    (hunread : ¬(x.req.state = .reading ∧ env.read = .ok)) :
    AtBoundary { req := (otlpHttpRequestStep x.req env).1, written := x.written ++ accepted x.req env,
                 received := x.received } := by
  have hspec := stepSpec x.req env
  have hadv := hspec.advances
  have hsock : (otlpHttpRequestStep x.req env).1.sock.isSome = true := (otlpHttpRequestStep_sock _ _).symm ▸ h.sock
  by_cases hreading : x.req.state = .reading
  · rcases step_of_unread hreading fun hread => hunread ⟨hreading, hread⟩ with hsame | hfailed
    · rw [hsame]
      exact ⟨h.sock, h.unread, h.buf_eq, h.boundary⟩
    · refine ⟨hsock, fun hearly => ?_, fun hr => ?_, fun hd => ?_⟩
      · dsimp only at hearly
        rw [hfailed] at hearly
        simp at hearly
      · exact absurd (hfailed.symm.trans hr) (by simp)
      · exact absurd (hfailed.symm.trans hd) (by simp)
  · refine ⟨hsock, fun hearly => h.unread ?_, fun hr _ => ?_, fun hd hkeep => ?_⟩
    · dsimp only at hearly
      generalize x.req.state = state at hadv
      rcases hearly with hearly | hearly <;> rw [hearly] at hadv <;> cases hadv <;> simp
    · -- the request has sent its last byte, and nothing is read yet
      dsimp only at hr ⊢
      rw [hr] at hadv
      generalize hstate : x.req.state = state at hadv
      cases hadv with
      | stay => exact absurd hstate hreading
      | sent => rw [(justSent_of_step hstate hr).respBuf_eq, h.unread (.inr hstate)]
    · by_cases hdone : x.req.state = .done
      · dsimp only at hkeep
        rw [hspec.terminal (.inl hdone)] at hkeep
        exact h.boundary hdone hkeep
      · exact absurd (hspec.done hdone hd).1 hreading

theorem AtBoundary.step {x y : Wire} {env : IoEnv} (h : AtBoundary x) (hC : ReadsInBounds x env)
    (hstep : wireStep x env = some y) : AtBoundary y := by
  rw [wireStep, Option.some.injEq] at hstep
  subst hstep
  by_cases hread : x.req.state = .reading ∧ env.read = .ok
  · rw [show delivered x.req env = env.input from if_pos hread]
    exact h.read hC hread.1 hread.2
  · rw [show delivered x.req env = [] from if_neg hread, List.append_nil]
    exact h.unreadStep hread

theorem detachSocket_eq_some {r : OtlpHttpRequest} {k : Sock} :
    (otlpHttpRequestDetachSocket r).2 = some k ↔
      r.state = .done ∧ r.keepaliveEligible = true ∧ r.sock = some k := by
  unfold otlpHttpRequestDetachSocket
  split
  next hkept =>
    refine iff_of_false (by simp) fun h => ?_
    simp [h.1, h.2.1] at hkept
  next hkept =>
    simp only [ne_eq, decide_not, Bool.or_eq_true, Bool.not_eq_true', decide_eq_false_iff_not, not_or,
      not_not, Bool.not_eq_false] at hkept
    simp [hkept.1, hkept.2]

theorem AtBoundary.of_detachSocket {x : Wire} {k : Sock} (h : AtBoundary x)
    (hdetach : (otlpHttpRequestDetachSocket x.req).2 = some k) :
    responseLength x.received = some x.received.length := by
  obtain ⟨hdone, hkeep, -⟩ := detachSocket_eq_some.1 hdetach
  exact h.boundary hdone hkeep

/-- A read that overreads and finds room for its bytes ends in a socket that is handed on. -/
theorem detachSocket_of_overreads {x y : Wire} {env : IoEnv} {r₁ : OtlpHttpRequest} (h : AtBoundary x)
    (hstep : wireStep x env = some y) (hreading : x.req.state = .reading) (hread : env.read = .ok)
    (hnone : holdsChunk x.received = false)
    (happend : appendRead x.req env.input env.allocOk env.now = .ok r₁) (hover : Overreads y.received) :
    ∃ k, (otlpHttpRequestDetachSocket y.req).2 = some k := by
  rw [wireStep, Option.some.injEq] at hstep
  subst hstep
  obtain ⟨hkeeps, n, hlength, -⟩ := hover
  obtain ⟨resp, hparse, hkeep⟩ := parse_of_responseLength hlength
  have hinput : delivered x.req env = env.input := if_pos ⟨hreading, hread⟩
  obtain ⟨-, -, -, hbuf⟩ := appendRead_keeps happend
  rw [h.buf_eq hreading hnone] at hbuf
  rw [hinput, ← hbuf] at hparse hkeeps hkeep
  have htry : (tryParseResponse r₁ false).2 = .complete resp := (tryParseResponse_snd r₁ false).trans hparse
  obtain ⟨r₂, hr₂⟩ : ∃ r₂, tryParseResponse r₁ false = (r₂, .complete resp) := ⟨_, Prod.ext rfl htry⟩
  obtain ⟨-, hfields⟩ := tryParseResponse_eq hr₂
  obtain ⟨-, -, hkept, -⟩ := hfields resp rfl
  have hdone : (otlpHttpRequestStep x.req env).1 = { r₂ with state := .done } := by
    have happend' : appendRead x.req (env.bytes.take 4096) env.allocOk env.now = .ok r₁ := happend
    simp only [otlpHttpRequestStep, hreading, stepReading, hread, happend', parseRead, hr₂, failUnlessProgress]
    rfl
  have hsock : (otlpHttpRequestStep x.req env).1.sock.isSome = true := (otlpHttpRequestStep_sock _ _).symm ▸ h.sock
  obtain ⟨k, hk⟩ := Option.isSome_iff_exists.1 hsock
  refine ⟨k, detachSocket_eq_some.2 ⟨by rw [hdone], ?_, hk⟩⟩
  rw [hdone]
  exact hkept.trans (hkeep.trans hkeeps)

/-- **A reused connection is at a response boundary.** In a run whose reads neither overread a response that
keeps the connection nor parse a compacted chunk again, a socket that is handed on has delivered one response
and no byte more. The next read that finds room for its bytes leaves it so exactly when it does not overread. -/
theorem detachSocket_at_boundary {r : OtlpHttpRequest} {envs : List IoEnv} {x : Wire} (hstart : Started r)
    (hC : Steps.Along wireStep ReadsInBounds (Wire.start r) envs)
    (hrun : Steps.run wireStep (Wire.start r) envs = some x) :
    (∀ k, (otlpHttpRequestDetachSocket x.req).2 = some k →
      responseLength x.received = some x.received.length) ∧
    ∀ env y r₁, wireStep x env = some y → x.req.state = .reading → env.read = .ok → ¬ReparsesChunk x env →
      appendRead x.req env.input env.allocOk env.now = .ok r₁ →
        ((∀ k, (otlpHttpRequestDetachSocket y.req).2 = some k →
          responseLength y.received = some y.received.length) ↔ ¬Overreads (x.received ++ env.input)) := by
  have hx : AtBoundary x :=
    Steps.along_invariant (fun _ _ _ h hC hstep => h.step hC hstep) (AtBoundary.start hstart) hC hrun
  refine ⟨fun k => hx.of_detachSocket, fun env y r₁ hstep hreading hread hchunk happend => ?_⟩
  have hreceived : y.received = x.received ++ env.input := by
    rw [wireStep, Option.some.injEq] at hstep
    rw [← hstep, show delivered x.req env = env.input from if_pos ⟨hreading, hread⟩]
  constructor
  · intro hboundary hover
    have hnone : holdsChunk x.received = false := by
      by_contra hsome
      exact hchunk (.inl (by simpa using hsome))
    rw [← hreceived] at hover
    obtain ⟨k, hk⟩ := detachSocket_of_overreads hx hstep hreading hread hnone happend hover
    obtain ⟨-, n, hlength, hlt⟩ := hover
    rw [hboundary k hk, Option.some.injEq] at hlength
    omega
  · intro hover k hk
    exact (hx.step (fun _ _ => ⟨hover, hchunk⟩) hstep).of_detachSocket hk

/-- A POST on a connection that was handed on. -/
def reusedRequest : OtlpHttpRequest :=
  newRequest .sending 7 (ascii "POST / HTTP/1.1" ++ crlf ++ ascii "Host: collector" ++ crlf ++
    ascii "User-Agent: otlp-c" ++ crlf ++ ascii "Content-Type: application/x-protobuf" ++ crlf ++
    ascii "Content-Length: 4" ++ crlf ++ ascii "Connection: keep-alive" ++ crlf ++ crlf ++ ascii "body") 0 0 0

theorem reusedRequest_started : Started reusedRequest :=
  .donated (show otlpHttpRequestStartWithSocket Net.empty ⟨ascii "collector", 4318, ascii "/"⟩ none []
    (ascii "body") 0 0 ⟨true, true, .ok, .ok, 0⟩ (some 7) = (Net.empty, .ok reusedRequest) by decide +kernel)

/-- A response in two reads, the second of which ends with it. -/
theorem detachSocket_at_boundary_two_reads :
    ∃ envs x, Steps.run wireStep (Wire.start reusedRequest) envs = some x ∧
      (otlpHttpRequestDetachSocket x.req).2 = some 7 ∧ responseLength x.received = some x.received.length := by
  let envs := [{ readOf [] false with nWritten := 4096 },
    readOf (ascii "HTTP/1.1 200 OK" ++ crlf ++ ascii "Content-Length:2" ++ crlf ++ crlf ++ ascii "o") false,
    readOf (ascii "k") false]
  obtain ⟨x, hrun⟩ : ∃ x, Steps.run wireStep (Wire.start reusedRequest) envs = some x := ⟨_, rfl⟩
  have hdetach : (Steps.run wireStep (Wire.start reusedRequest) envs).map
      (fun x => (otlpHttpRequestDetachSocket x.req).2) = some (some 7) := by decide +kernel
  rw [hrun, Option.map_some, Option.some.injEq] at hdetach
  have hC : Steps.Along wireStep ReadsInBounds (Wire.start reusedRequest) envs := by decide +kernel
  exact ⟨envs, x, hrun, hdetach, (detachSocket_at_boundary reusedRequest_started hC hrun).1 7 hdetach⟩

/-- A byte behind a response without a body is read with it, and the socket is handed on. -/
theorem detachSocket_past_boundary :
    ∃ envs x, Started reusedRequest ∧ Steps.run wireStep (Wire.start reusedRequest) envs = some x ∧
      (otlpHttpRequestDetachSocket x.req).2 = some 7 ∧ responseLength x.received ≠ some x.received.length := by
  let envs := [{ readOf [] false with nWritten := 4096 },
    readOf (ascii "HTTP/1.1 200 OK" ++ crlf ++ ascii "Content-Length:0" ++ crlf ++ crlf ++ ascii "H") false]
  obtain ⟨x, hrun⟩ : ∃ x, Steps.run wireStep (Wire.start reusedRequest) envs = some x := ⟨_, rfl⟩
  have hend : (Steps.run wireStep (Wire.start reusedRequest) envs).map
      (fun x => ((otlpHttpRequestDetachSocket x.req).2, decide (responseLength x.received = some x.received.length))) =
        some (some 7, false) := by decide +kernel
  rw [hrun, Option.map_some, Option.some.injEq, Prod.mk.injEq, decide_eq_false_iff_not] at hend
  exact ⟨envs, x, reusedRequest_started, hrun, hend.1, hend.2⟩

end OtlpC.Http
