import OtlpC.Http.HeaderBlock

/-!
# Verdicts are final

What `otlp_http_resp_parse` decides is settled by the bytes it was decided on: the header block is parsed by
itself, a body of a known length by its first bytes, a chunked one by `unchunk_append`. So bytes that arrive
after a verdict never change it (`otlpHttpRespParse_append`). Lengths are taken to be below 2^31.
-/

namespace OtlpC.Http

/-- The body of a response that was parsed, in the buffer that the parse left. -/
def respBody : Bytes × RespVerdict → Option Bytes
  | (buf, .complete resp) => some ((buf.drop resp.bodyOff).take resp.bodyLen)
  | _ => none

theorem otlpHttpRespParse_head {buf : Bytes} {hd : Head} (h : parseHead buf = .head hd) (atEof : Bool) :
    (otlpHttpRespParse buf atEof).2 =
      match hd.framing with
      | .chunked =>
        match unchunk (buf.drop hd.bodyOff) with
        | .needMore => .needMore
        | .malformed => .malformed
        | .complete payload _ => .complete (hd.resp payload.length)
      | .length n => if buf.length - hd.bodyOff < n then .needMore else .complete (hd.resp n)
      | .untilEof => if !atEof then .needMore else .complete (hd.resp (buf.length - hd.bodyOff)) := by
  unfold otlpHttpRespParse
  rw [h]
  dsimp only
  cases hframing : hd.framing with
  | chunked =>
    have hverdict := decodeChunkedInPlace_snd (buf.drop hd.bodyOff)
    dsimp only
    cases hread : unchunk (buf.drop hd.bodyOff) with
    | needMore => rw [hverdict, hread]; rfl
    | malformed => rw [hverdict, hread]; rfl
    | complete payload used =>
      rw [hverdict, hread, Unchunked.verdict, Nat.zero_add]
  | length n =>
    dsimp only
    split <;> rfl
  | untilEof =>
    dsimp only
    split <;> rfl

theorem respBody_head {buf : Bytes} {hd : Head} (h : parseHead buf = .head hd) (atEof : Bool) :
    respBody (otlpHttpRespParse buf atEof) =
      match hd.framing with
      | .chunked =>
        match unchunk (buf.drop hd.bodyOff) with
        | .complete payload _ => some payload
        | _ => none
      | .length n => if buf.length - hd.bodyOff < n then none else some ((buf.drop hd.bodyOff).take n)
      | .untilEof => if !atEof then none else some (buf.drop hd.bodyOff) := by
  unfold otlpHttpRespParse
  rw [h]
  dsimp only
  cases hframing : hd.framing with
  | chunked =>
    have hverdict := decodeChunkedInPlace_snd (buf.drop hd.bodyOff)
    dsimp only
    cases hread : unchunk (buf.drop hd.bodyOff) with
    | needMore => rw [hverdict, hread]; rfl
    | malformed => rw [hverdict, hread]; rfl
    | complete payload used =>
      rw [hverdict, hread, Unchunked.verdict, Nat.zero_add]
      dsimp only [respBody, Head.resp]
      rw [List.drop_left' (List.length_take_of_le (bodyOff_le h)), decodeChunkedInPlace_payload hread]
  | length n =>
    dsimp only
    split <;> rfl
  | untilEof =>
    dsimp only
    split
    · rfl
    · simp [respBody, Head.resp]

theorem otlpHttpRespParse_of_malformed {buf : Bytes} (h : parseHead buf = .malformed) (atEof : Bool) :
    otlpHttpRespParse buf atEof = (buf, .malformed) := by
  rw [otlpHttpRespParse, h]

theorem otlpHttpRespParse_of_needMore {buf : Bytes} (h : parseHead buf = .needMore) (atEof : Bool) :
    otlpHttpRespParse buf atEof = (buf, .needMore) := by
  rw [otlpHttpRespParse, h]

theorem otlpHttpRespParse_length (buf : Bytes) (atEof : Bool) :
    (otlpHttpRespParse buf atEof).1.length = buf.length := by
  unfold otlpHttpRespParse
  cases hhead : parseHead buf with
  | needMore => rfl
  | malformed => rfl
  | head hd =>
    dsimp only
    cases hd.framing with
    | chunked =>
      have hdecoded : (buf.take hd.bodyOff ++ (decodeChunkedInPlace (buf.drop hd.bodyOff)).1).length =
          buf.length := by
        rw [List.length_append, decodeChunkedInPlace_length, ← List.length_append, List.take_append_drop]
      dsimp only
      split <;> exact hdecoded
    | length n =>
      dsimp only
      split <;> rfl
    | untilEof =>
      dsimp only
      split <;> rfl

/-- How many bytes a framing gives the body, of what stands behind the header block. -/
def Framing.bodyLen (rest : Bytes) : Framing → ℕ
  | .chunked =>
    match unchunk rest with
    | .complete payload _ => payload.length
    | _ => 0
  | .length n => n
  | .untilEof => rest.length

/-- A complete response is made of a header block and a body that was read, as long as its framing says. -/
theorem exists_head_of_complete {buf : Bytes} {atEof : Bool} {resp : OtlpHttpResp}
    (h : (otlpHttpRespParse buf atEof).2 = .complete resp) :
    ∃ hd n, parseHead buf = .head hd ∧ resp = hd.resp n ∧ hd.bodyOff + n ≤ buf.length ∧
      n = hd.framing.bodyLen (buf.drop hd.bodyOff) := by
  cases hhead : parseHead buf with
  | needMore =>
    rw [otlpHttpRespParse_of_needMore hhead] at h
    contradiction
  | malformed =>
    rw [otlpHttpRespParse_of_malformed hhead] at h
    contradiction
  | head hd =>
    have hle := bodyOff_le hhead
    rw [otlpHttpRespParse_head hhead] at h
    refine ⟨hd, ?_⟩
    cases hframing : hd.framing with
    | chunked =>
      rw [hframing] at h
      dsimp only at h
      split at h
      · contradiction
      · contradiction
      next payload used hread =>
        have hbody := length_payload_le hread
        rw [List.length_drop] at hbody
        rw [RespVerdict.complete.injEq] at h
        refine ⟨_, rfl, h.symm, by omega, ?_⟩
        rw [Framing.bodyLen, hread]
    | length m =>
      rw [hframing] at h
      dsimp only at h
      split at h
      · contradiction
      · rw [RespVerdict.complete.injEq] at h
        exact ⟨m, rfl, h.symm, by omega, rfl⟩
    | untilEof =>
      rw [hframing] at h
      dsimp only at h
      split at h
      · contradiction
      · rw [RespVerdict.complete.injEq] at h
        exact ⟨_, rfl, h.symm, by omega, List.length_drop.symm⟩

/-- **A verdict is final.** When a parse before the end of the stream decides, the parse of the same bytes
with any others behind them decides the same, with the same fields and the same body. -/
theorem otlpHttpRespParse_append {b : Bytes} (h : (otlpHttpRespParse b false).2 ≠ .needMore) (s : Bytes) :
    (otlpHttpRespParse (b ++ s) false).2 = (otlpHttpRespParse b false).2 ∧
      respBody (otlpHttpRespParse (b ++ s) false) = respBody (otlpHttpRespParse b false) := by
  cases hhead : parseHead b with
  | needMore => exact absurd (congrArg Prod.snd (otlpHttpRespParse_of_needMore hhead false)) h
  | malformed =>
    have hmore : parseHead (b ++ s) = .malformed := (parseHead_append (by rw [hhead]; simp) s).trans hhead
    rw [otlpHttpRespParse_of_malformed hhead, otlpHttpRespParse_of_malformed hmore]
    exact ⟨rfl, rfl⟩
  | head hd =>
    have hmore : parseHead (b ++ s) = .head hd := (parseHead_append (by rw [hhead]; simp) s).trans hhead
    have hle := bodyOff_le hhead
    have hdrop : (b ++ s).drop hd.bodyOff = b.drop hd.bodyOff ++ s := List.drop_append_of_le_length hle
    rw [otlpHttpRespParse_head hhead] at h
    rw [otlpHttpRespParse_head hhead, otlpHttpRespParse_head hmore, respBody_head hhead, respBody_head hmore,
      hdrop]
    cases hframing : hd.framing with
    | chunked =>
      rw [hframing] at h
      have hread : unchunk (b.drop hd.bodyOff) ≠ .needMore := fun hread => by simp [hread] at h
      rw [unchunk_append hread]
      exact ⟨rfl, rfl⟩
    | length n =>
      rw [hframing] at h
      dsimp only at h ⊢
      have hroom : ¬b.length - hd.bodyOff < n := fun hroom => h (if_pos hroom)
      rw [if_neg hroom, if_neg hroom, List.length_append, if_neg (by omega), if_neg (by omega),
        List.take_append_of_le_length (by rw [List.length_drop]; omega)]
      exact ⟨rfl, rfl⟩
    | untilEof =>
      rw [hframing] at h
      exact absurd rfl h

/-- A body of two bytes, and a third one behind it. -/
theorem otlpHttpRespParse_append_surplus :
    (otlpHttpRespParse (ascii "HTTP/1.1 200 \r\nContent-Length:2\r\n\r\nok" ++ ascii "!") false).2 =
      (otlpHttpRespParse (ascii "HTTP/1.1 200 \r\nContent-Length:2\r\n\r\nok") false).2 ∧
    respBody (otlpHttpRespParse (ascii "HTTP/1.1 200 \r\nContent-Length:2\r\n\r\nok" ++ ascii "!") false) =
      some (ascii "ok") := by
  have hdone : (otlpHttpRespParse (ascii "HTTP/1.1 200 \r\nContent-Length:2\r\n\r\nok") false).2 ≠ .needMore ∧
      respBody (otlpHttpRespParse (ascii "HTTP/1.1 200 \r\nContent-Length:2\r\n\r\nok") false) =
        some (ascii "ok") := by decide +kernel
  obtain ⟨hverdict, hbody⟩ := otlpHttpRespParse_append hdone.1 (ascii "!")
  exact ⟨hverdict, hbody.trans hdone.2⟩

end OtlpC.Http
