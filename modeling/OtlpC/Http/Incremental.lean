import OtlpC.Http.Request
import OtlpC.Lib.Steps
import Mathlib.Tactic.NormNum

/-!
# A response read piece by piece

`step_reading` appends what a read returned to one buffer and parses that buffer again, although the
parse before it may have compacted a chunked body in place. As long as no read leaves a whole chunk in
an unfinished response the buffer is still what was received, and every read acts on the verdict of a
parse that sees all the bytes for the first time (`acted_of_run`). A whole chunk in an unfinished
response breaks this (`second_read_disagrees`).
-/

namespace OtlpC.Http

/-- A request that reads its response, with all the bytes it has received and what the last step
returned. -/
structure Reader where
  req : OtlpHttpRequest
  received : Bytes
  status : OtlpStatus
deriving Repr, DecidableEq

/-- The request has just sent its last byte. -/
structure JustSent (r : OtlpHttpRequest) : Prop where
  state_eq : r.state = .reading
  respBuf_eq : r.respBuf = []
  respCap_eq : r.respCap = 4096

def Reader.start (r : OtlpHttpRequest) : Reader := { req := r, received := [], status := .ok }

def IoEnv.input (env : IoEnv) : Bytes := env.bytes.take 4096

/-- One `otlp_http_request_step` of an unfinished response whose read returns; the response is short
enough for the buffer and the allocations succeed. -/
def read (x : Reader) (env : IoEnv) : Option Reader :=
  if x.req.state = .reading ∧ env.read = .ok ∧ env.allocOk ∧
      (x.received ++ env.input).length ≤ 2 * otlpHttpRespMax then
    some { req := (otlpHttpRequestStep x.req env).1, received := x.received ++ env.input,
           status := (otlpHttpRequestStep x.req env).2 }
  else none

/-- What a read led to: wait for more, fail, or commit a response with its body. -/
inductive Acted where
  | goesOn
  | fails (st : OtlpStatus)
  | commits (httpStatus retryAfterMs : ℕ) (keepaliveEligible : Bool) (body : Option Bytes)
deriving Repr, DecidableEq

def acted (x : Reader) : Acted :=
  match x.req.state with
  | .done => .commits x.req.httpStatus x.req.retryAfterMs x.req.keepaliveEligible
      (otlpHttpRequestBody x.req)
  | .failed => .fails x.status
  | _ => .goesOn

/-- What the verdict of a parse calls for. -/
def verdictAct : Bytes × RespVerdict → Acted
  | (_, .needMore) => .goesOn
  | (_, .malformed) => .fails .errInvalidResponse
  | (buf, .complete resp) => .commits resp.httpStatus resp.retryAfterMs resp.keepaliveEligible
      (some ((buf.drop resp.bodyOff).take resp.bodyLen))

/-- What parsing the received bytes as a whole calls for; at the end of the stream an unfinished
response is parsed once more, and fails when it still needs more. -/
def freshAct (received : Bytes) (eof : Bool) : Acted :=
  match verdictAct (otlpHttpRespParse received false) with
  | .goesOn =>
    if !eof then .goesOn
    else
      match verdictAct (otlpHttpRespParse received true) with
      | .goesOn => .fails .errInvalidResponse
      | a => a
  | a => a

/-- The bytes are a chunked response whose first chunk is whole: size line, data and CRLF. -/
def holdsChunk (received : Bytes) : Bool :=
  match parseHead received with
  | .head h =>
    h.framing == .chunked &&
      match chunkRound (received.drop h.bodyOff) 0 with
      | .data _ _ => true
      | _ => false
  | _ => false

/-- What was received before the read holds no whole chunk, nor does what is received with it when the
stream ends there and the response is still unfinished. -/
def NoChunkYet (x : Reader) (env : IoEnv) : Prop :=
  holdsChunk x.received = false ∧
    (env.eof = true → (otlpHttpRespParse (x.received ++ env.input) false).2 = .needMore →
      holdsChunk (x.received ++ env.input) = false)

instance (x : Reader) (env : IoEnv) : Decidable (NoChunkYet x env) := inferInstanceAs (Decidable (_ ∧ (_ → _ → _)))

/-! ### A parse that asks for more -/

theorem decodeChunkedInPlace_fst {buf : Bytes} (h : ∀ off size, chunkRound buf 0 ≠ .data off size) :
    (decodeChunkedInPlace buf).1 = buf := by
  unfold decodeChunkedInPlace decodeChunkedLoop
  split
  · rfl
  · rfl
  · rfl
  next off size hround => exact absurd hround (h off size)

theorem otlpHttpRespParse_fst {buf : Bytes} (atEof : Bool) (h : holdsChunk buf = false) :
    (otlpHttpRespParse buf atEof).1 = buf := by
  unfold otlpHttpRespParse
  unfold holdsChunk at h
  cases hhead : parseHead buf with
  | needMore => rfl
  | malformed => rfl
  | head hd =>
    simp only [hhead, Bool.and_eq_false_iff] at h ⊢
    cases hframe : hd.framing with
    | chunked =>
      have hround : ∀ off size, chunkRound (buf.drop hd.bodyOff) 0 ≠ .data off size := by
        intro off size hdata
        rcases h with h | h
        · simp [hframe] at h
        · simp [hdata] at h
      have hbuf : buf.take hd.bodyOff ++ (decodeChunkedInPlace (buf.drop hd.bodyOff)).1 = buf := by
        rw [decodeChunkedInPlace_fst hround, List.take_append_drop]
      simp only
      split <;> exact hbuf
    | length n =>
      simp only
      split <;> rfl
    | untilEof =>
      simp only
      split <;> rfl

/-! ### One read -/

theorem tryParseResponse_snd (r : OtlpHttpRequest) (atEof : Bool) :
    (tryParseResponse r atEof).2 = (otlpHttpRespParse r.respBuf atEof).2 := by
  unfold tryParseResponse
  split <;> simp [*]

theorem tryParseResponse_respBuf (r : OtlpHttpRequest) (atEof : Bool) :
    (tryParseResponse r atEof).1.respBuf = (otlpHttpRespParse r.respBuf atEof).1 := by
  unfold tryParseResponse
  split <;> simp [*]

/-- The buffer grows by doubling from a power of two and holds any response of at most
`2 * OTLP_HTTP_RESP_MAX` bytes. -/
theorem growCap_eq_some {need : ℕ} (hneed : need ≤ 2 ^ 17) {rounds k : ℕ} (hk : k ≤ 17)
    (hrounds : 17 - k < rounds) : ∃ k' ≤ 17, growCap need rounds (2 ^ k) = some (2 ^ k') := by
  induction rounds generalizing k with
  | zero => omega
  | succ rounds ih =>
    rw [growCap]
    split
    · next hlt =>
      have hk17 : k < 17 := (Nat.pow_lt_pow_iff_right (by norm_num : 1 < 2)).1 (by omega)
      have hmax : ¬otlpHttpRespMax < 2 ^ k := by
        have hpow : 2 ^ k ≤ 2 ^ 16 := Nat.pow_le_pow_right (by norm_num) (by omega)
        unfold otlpHttpRespMax
        omega
      rw [if_neg hmax, ← Nat.pow_succ]
      exact ih (by omega) (by omega)
    · exact ⟨k, hk, rfl⟩

/-- The capacity of the response buffer is a power of two that was allowed to grow to. -/
def CapOk (cap : ℕ) : Prop := ∃ k ≤ 17, cap = 2 ^ k

theorem appendRead_eq_ok {r : OtlpHttpRequest} {bytes : Bytes} (now : ℕ) (hcap : CapOk r.respCap)
    (hlen : (r.respBuf ++ bytes).length ≤ 2 * otlpHttpRespMax) :
    ∃ r', appendRead r bytes true now = .ok r' ∧ r'.respBuf = r.respBuf ++ bytes ∧
      CapOk r'.respCap ∧ r'.state = r.state := by
  have hneed : r.respBuf.length + bytes.length ≤ 2 ^ 17 := by
    rw [List.length_append] at hlen
    simpa [otlpHttpRespMax] using hlen
  unfold appendRead
  split
  · next hnil => exact ⟨r, rfl, by rw [List.isEmpty_iff.1 hnil, List.append_nil], hcap, rfl⟩
  split
  · obtain ⟨k, hk, hpow⟩ := hcap
    obtain ⟨k', hk', hgrow⟩ := growCap_eq_some hneed hk (show 17 - k < 64 by omega)
    rw [hpow, hgrow]
    exact ⟨_, rfl, rfl, ⟨k', hk', rfl⟩, rfl⟩
  · exact ⟨_, rfl, rfl, hcap, rfl⟩

/-- What a read acts on once its bytes are in the buffer: the verdict on the buffer, provided that the
second parse at the end of the stream still finds it as it was. -/
theorem parseRead_acted {r : OtlpHttpRequest} {eof : Bool} (received : Bytes)
    (hstate : r.state = .reading) (heof : eof = true →
      (otlpHttpRespParse r.respBuf false).2 = .needMore → holdsChunk r.respBuf = false) :
    acted { req := (failUnlessProgress (parseRead r eof)).1, received,
            status := (failUnlessProgress (parseRead r eof)).2 } = freshAct r.respBuf eof := by
  rcases hparse : otlpHttpRespParse r.respBuf false with ⟨buf, _ | _ | resp⟩
  · have htry : tryParseResponse r false = ({ r with respBuf := buf }, .needMore) := by
      simp only [tryParseResponse, hparse]
    cases eof with
    | false => simp [parseRead, htry, freshAct, hparse, verdictAct, failUnlessProgress, acted, hstate]
    | true =>
      have hbuf : buf = r.respBuf := by
        rw [← otlpHttpRespParse_fst false (heof rfl (by rw [hparse])), hparse]
      subst hbuf
      rcases hagain : otlpHttpRespParse r.respBuf true with ⟨buf', _ | _ | resp⟩ <;>
        simp [parseRead, tryParseResponse, hagain, freshAct, hparse, verdictAct, failUnlessProgress,
          acted, otlpHttpRequestBody]
  · simp [parseRead, tryParseResponse, hparse, freshAct, verdictAct, failUnlessProgress, acted]
  · simp [parseRead, tryParseResponse, hparse, freshAct, verdictAct, failUnlessProgress, acted,
      otlpHttpRequestBody]

theorem parseRead_reading {r : OtlpHttpRequest} {eof : Bool}
    (h : (failUnlessProgress (parseRead r eof)).1.state = .reading) :
    (failUnlessProgress (parseRead r eof)).1 =
      { r with respBuf := (otlpHttpRespParse r.respBuf false).1 } := by
  rcases hparse : otlpHttpRespParse r.respBuf false with ⟨buf, _ | _ | resp⟩
  · have htry : tryParseResponse r false = ({ r with respBuf := buf }, .needMore) := by
      simp only [tryParseResponse, hparse]
    cases eof with
    | false => simp [parseRead, htry, failUnlessProgress]
    | true =>
      exfalso
      revert h
      rcases hagain : otlpHttpRespParse buf true with ⟨buf', _ | _ | resp⟩ <;>
        simp [parseRead, tryParseResponse, hparse, hagain, failUnlessProgress]
  · simp [parseRead, tryParseResponse, hparse, failUnlessProgress] at h
  · simp [parseRead, tryParseResponse, hparse, failUnlessProgress] at h

/-! ### A run of reads -/

/-- The buffer of an unfinished response is what was received unless a parse may have compacted it. -/
structure Faithful (x : Reader) : Prop where
  cap : x.req.state = .reading → CapOk x.req.respCap
  buf_eq : x.req.state = .reading → holdsChunk x.received = false → x.req.respBuf = x.received

theorem faithful_start {r : OtlpHttpRequest} (h : JustSent r) : Faithful (Reader.start r) where
  cap _ := ⟨12, by norm_num, h.respCap_eq⟩
  buf_eq _ _ := h.respBuf_eq

theorem read_eq_some {x y : Reader} {env : IoEnv} (h : read x env = some y) :
    x.req.state = .reading ∧ env.read = .ok ∧ env.allocOk = true ∧
      (x.received ++ env.input).length ≤ 2 * otlpHttpRespMax ∧
      y.received = x.received ++ env.input ∧
      y = { req := (otlpHttpRequestStep x.req env).1, received := y.received,
            status := (otlpHttpRequestStep x.req env).2 } := by
  unfold read at h
  split at h
  · next hen =>
    obtain ⟨hstate, hok, halloc, hlen⟩ := hen
    rw [Option.some.injEq] at h
    exact ⟨hstate, hok, halloc, hlen, h ▸ rfl, h ▸ rfl⟩
  · contradiction

/-- One read of a buffer that holds what was received: the buffer holds what is received with it, and
is parsed. -/
theorem step_of_faithful {x y : Reader} {env : IoEnv} (hx : Faithful x)
    (hchunk : holdsChunk x.received = false) (h : read x env = some y) :
    ∃ r, r.state = .reading ∧ r.respBuf = y.received ∧ CapOk r.respCap ∧
      y = { req := (failUnlessProgress (parseRead r env.eof)).1, received := y.received,
            status := (failUnlessProgress (parseRead r env.eof)).2 } := by
  obtain ⟨hstate, hok, halloc, hlen, hreceived, hy⟩ := read_eq_some h
  have hbuf := hx.buf_eq hstate hchunk
  obtain ⟨r, happend, hrbuf, hrcap, hrstate⟩ :=
    appendRead_eq_ok env.now (hx.cap hstate) (hbuf ▸ hlen)
  refine ⟨r, hrstate.trans hstate, by rw [hrbuf, hbuf, hreceived], hrcap, ?_⟩
  have hstep : otlpHttpRequestStep x.req env = failUnlessProgress (parseRead r env.eof) := by
    have happend' : appendRead x.req (env.bytes.take 4096) env.allocOk env.now = .ok r := by
      rw [halloc]
      exact happend
    simp only [otlpHttpRequestStep, hstate, stepReading, hok, happend']
  rw [hstep] at hy
  exact hy

theorem faithful_read {x y : Reader} {env : IoEnv} (hx : Faithful x) (hC : NoChunkYet x env)
    (h : read x env = some y) : Faithful y := by
  obtain ⟨r, hstate, hbuf, hcap, hy⟩ := step_of_faithful hx hC.1 h
  have hreading : y.req.state = .reading →
      y.req = { r with respBuf := (otlpHttpRespParse r.respBuf false).1 } := by
    intro hs
    rw [hy] at hs ⊢
    exact parseRead_reading hs
  refine ⟨fun hs => ?_, fun hs hchunk => ?_⟩
  · rw [hreading hs]
    exact hcap
  · rw [hreading hs]
    change (otlpHttpRespParse r.respBuf false).1 = y.received
    rw [hbuf, otlpHttpRespParse_fst false hchunk]

theorem acted_read {x y : Reader} {env : IoEnv} (hx : Faithful x) (hC : NoChunkYet x env)
    (h : read x env = some y) : acted y = freshAct y.received env.eof := by
  obtain ⟨r, hstate, hbuf, -, hy⟩ := step_of_faithful hx hC.1 h
  obtain ⟨-, -, -, -, hreceived, -⟩ := read_eq_some h
  have heof : env.eof = true → (otlpHttpRespParse r.respBuf false).2 = .needMore →
      holdsChunk r.respBuf = false := by
    rw [hbuf, hreceived]
    exact hC.2
  rw [hy, parseRead_acted y.received hstate heof, hbuf]

theorem received_of_run {x y : Reader} {reads : List IoEnv} (hrun : Steps.run read x reads = some y) :
    y.received = x.received ++ reads.flatMap IoEnv.input := by
  induction reads generalizing x with
  | nil =>
    rw [Steps.run_nil, Option.some.injEq] at hrun
    rw [hrun, List.flatMap_nil, List.append_nil]
  | cons env reads ih =>
    obtain ⟨z, hz, hrun⟩ := Steps.run_cons_eq_some.1 hrun
    obtain ⟨-, -, -, -, hreceived, -⟩ := read_eq_some hz
    rw [ih hrun, hreceived, List.flatMap_cons, List.append_assoc]

/-- A request that has come from SENDING to READING has just sent its last byte. -/
theorem justSent_of_step {r : OtlpHttpRequest} {env : IoEnv} (hsending : r.state = .sending)
    (hreading : (otlpHttpRequestStep r env).1.state = .reading) :
    JustSent (otlpHttpRequestStep r env).1 := by
  revert hreading
  simp only [otlpHttpRequestStep, hsending, stepSending]
  split
  · split
    · split
      · simp [failUnlessProgress]
      · intro _
        exact ⟨rfl, rfl, rfl⟩
    · simp [failUnlessProgress]
  · split
    · simp [failUnlessProgress]
    · simp [failUnlessProgress, hsending]
  · next st hok hblock =>
    simp only [failUnlessProgress]
    split
    · simp
    · simp [hsending]

/-- **Reads agree with a parse of the whole.** However a response is cut into reads, as long as none of
them is taken while a whole chunk of an unfinished response has been received, every read acts on the
verdict of a fresh parse of all the bytes received so far, and commits the same fields and body. -/
theorem acted_of_run {r : OtlpHttpRequest} (hr : JustSent r) {reads : List IoEnv} {env : IoEnv}
    {x : Reader} (hC : Steps.Along read NoChunkYet (Reader.start r) (reads ++ [env]))
    (hrun : Steps.run read (Reader.start r) (reads ++ [env]) = some x) :
    acted x = freshAct ((reads ++ [env]).flatMap IoEnv.input) env.eof := by
  have hreceived := received_of_run hrun
  rw [Steps.run_append, Option.bind_eq_some_iff] at hrun
  obtain ⟨y, hrun, hlast⟩ := hrun
  rw [Steps.along_append hrun] at hC
  obtain ⟨hreads, hC, -⟩ := hC
  have hy : Faithful y :=
    Steps.along_invariant (fun x env y hx hC h => faithful_read hx hC h) (faithful_start hr) hreads hrun
  rw [Steps.run_cons, Option.bind_eq_some_iff] at hlast
  obtain ⟨z, hz, hzx⟩ := hlast
  rw [Steps.run_nil, Option.some.injEq] at hzx
  subst hzx
  rw [acted_read hy hC hz, hreceived]
  rfl

def readOf (bytes : Bytes) (eof : Bool) : IoEnv :=
  { finish := .ok, write := .ok, nWritten := 0, read := .ok, bytes, eof, allocOk := true, now := 0 }

def sentRequest : OtlpHttpRequest := { newRequest .reading 0 [] 0 0 0 with respCap := 4096 }

def chunkedHead : Bytes := ascii "HTTP/1.1 200 " ++ crlf ++ ascii "Transfer-Encoding:chunked" ++ crlf ++ crlf

/-- The chunk `"ok"`, cut between its size line and its data. -/
theorem acted_of_run_two_reads :
    ∃ x, acted x = freshAct (([readOf (chunkedHead ++ ascii "2" ++ crlf) false] ++
        [readOf (ascii "ok" ++ crlf ++ ascii "0" ++ crlf ++ crlf) false]).flatMap IoEnv.input) false ∧
      acted x = .commits 200 0 true (some (ascii "ok")) := by
  have hrun : (Steps.run read (Reader.start sentRequest)
      ([readOf (chunkedHead ++ ascii "2" ++ crlf) false] ++
        [readOf (ascii "ok" ++ crlf ++ ascii "0" ++ crlf ++ crlf) false])).map acted =
      some (.commits 200 0 true (some (ascii "ok"))) := by decide +kernel
  obtain ⟨x, hx, hact⟩ := Option.map_eq_some_iff.1 hrun
  exact ⟨x, acted_of_run ⟨rfl, rfl, rfl⟩ (by decide +kernel) hx, hact⟩

/-- A chunk that ends its read is compacted over its size line, and the next read finds it gone. -/
theorem second_read_disagrees :
    ∃ x, Steps.run read (Reader.start sentRequest)
        [readOf (chunkedHead ++ ascii "2" ++ crlf ++ ascii "ok" ++ crlf) false,
          readOf (ascii "0" ++ crlf ++ crlf) false] = some x ∧
      acted x = .fails .errInvalidResponse ∧
      freshAct (chunkedHead ++ ascii "2" ++ crlf ++ ascii "ok" ++ crlf ++ ascii "0" ++ crlf ++ crlf) false =
        .commits 200 0 true (some (ascii "ok")) := by
  have hrun : (Steps.run read (Reader.start sentRequest)
      [readOf (chunkedHead ++ ascii "2" ++ crlf ++ ascii "ok" ++ crlf) false,
        readOf (ascii "0" ++ crlf ++ crlf) false]).map acted = some (.fails .errInvalidResponse) := by
    decide +kernel
  obtain ⟨x, hx, hact⟩ := Option.map_eq_some_iff.1 hrun
  exact ⟨x, hx, hact, by decide +kernel⟩

end OtlpC.Http
