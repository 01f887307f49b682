import OtlpC.Http.Stability

/-!
# The status code

The parser takes any three digits as the status. The code it commits is in 100..999 exactly when the first of
them is not a zero (`httpStatus_mem_iff`), and that digit stays where it is when a chunked body is compacted.
-/

namespace OtlpC.Http

variable {buf head : Bytes}

/-- The byte where the status code begins: the one behind the first space after `HTTP/`. -/
def statusDigit (buf : Bytes) : UInt8 := byteAt (((buf.drop 5).dropWhile (· != space)).drop 1) 0

theorem statusLine_digits {status : ℕ} {keepalive : Bool} (h : statusLine head = some (status, keepalive)) :
    isDigit (statusDigit head) = true ∧ ∃ n < 100, status = digitValue (statusDigit head) * 100 + n := by
  unfold statusLine at h
  split at h
  · contradiction
  split at h
  · contradiction
  next b p hp =>
  have hdigit : statusDigit head = byteAt p 0 := by rw [statusDigit, hp]; rfl
  split at h
  · contradiction
  next hdigits =>
  simp only [Bool.or_eq_true, decide_eq_true_eq, Bool.not_eq_true', not_or, Bool.not_eq_false,
    Nat.not_lt] at hdigits
  obtain ⟨⟨⟨-, hfirst⟩, hsecond⟩, hthird⟩ := hdigits
  have hsmall : ∀ c, isDigit c = true → digitValue c < 10 := by
    intro c hc
    simp only [isDigit, Bool.and_eq_true, decide_eq_true_eq, UInt8.le_iff_toNat_le] at hc
    simp only [digitValue]
    have hnine : (0x39 : UInt8).toNat = 57 := rfl
    omega
  have hb := hsmall _ hsecond
  have hc := hsmall _ hthird
  rw [Option.some.injEq, Prod.mk.injEq] at h
  rw [hdigit]
  exact ⟨hfirst, digitValue (byteAt p 1) * 10 + digitValue (byteAt p 2), by omega, by omega⟩

theorem statusDigit_append {r : ℕ × Bool} (h : statusLine head = some r) (s : Bytes) :
    statusDigit (head ++ s) = statusDigit head := by
  unfold statusLine at h
  split at h
  · contradiction
  split at h
  · contradiction
  next b p hp =>
  split at h
  · contradiction
  next hdigits =>
  have hlen : ¬p.length < 3 := fun hshort => hdigits (by simp [hshort])
  have hrest : ((head ++ s).drop 5).dropWhile (· != space) = b :: (p ++ s.drop (5 - head.length)) := by
    rw [List.drop_append, List.dropWhile_append, hp]
    rfl
  rw [statusDigit, statusDigit, hrest, hp]
  exact byteAt_append (by omega) _

theorem statusDigit_head {hd : Head} (h : parseHead buf = .head hd) :
    ∃ keepalive, statusLine (buf.take hd.bodyOff) = some (hd.httpStatus, keepalive) ∧
      ∀ s, statusDigit (buf.take hd.bodyOff ++ s) = statusDigit buf := by
  obtain ⟨i, keepalive, hdr, scan, hparsed⟩ := parseHead_eq_head h
  have hstatus : statusLine (buf.take hd.bodyOff) = some (hd.httpStatus, keepalive) := by
    rw [hparsed.bodyOff_eq]
    exact hparsed.status_eq
  refine ⟨keepalive, hstatus, fun s => ?_⟩
  have hbuf := statusDigit_append hstatus (buf.drop hd.bodyOff)
  rw [List.take_append_drop] at hbuf
  rw [statusDigit_append hstatus, hbuf]

theorem otlpHttpRespParse_prefix {hd : Head} (h : parseHead buf = .head hd) (atEof : Bool) :
    ∃ s, (otlpHttpRespParse buf atEof).1 = buf.take hd.bodyOff ++ s := by
  have hsame : ∃ s, buf = buf.take hd.bodyOff ++ s := ⟨_, (List.take_append_drop _ _).symm⟩
  unfold otlpHttpRespParse
  rw [h]
  dsimp only
  cases hd.framing with
  | chunked =>
    dsimp only
    split <;> exact ⟨_, rfl⟩
  | length n =>
    dsimp only
    split <;> exact hsame
  | untilEof =>
    dsimp only
    split <;> exact hsame

theorem statusDigit_parse {buf' : Bytes} {atEof : Bool} (h : otlpHttpRespParse buf atEof = (buf', .needMore)) :
    statusDigit buf' = statusDigit buf := by
  have hbuf' : (otlpHttpRespParse buf atEof).1 = buf' := by rw [h]
  cases hhead : parseHead buf with
  | needMore => rw [← hbuf', otlpHttpRespParse_of_needMore hhead]
  | malformed =>
    rw [otlpHttpRespParse_of_malformed hhead] at h
    cases h
  | head hd =>
    obtain ⟨s, hs⟩ := otlpHttpRespParse_prefix hhead atEof
    obtain ⟨-, -, hdigit⟩ := statusDigit_head hhead
    rw [← hbuf', hs, hdigit]

theorem httpStatus_of_complete {atEof : Bool} {resp : OtlpHttpResp}
    (h : (otlpHttpRespParse buf atEof).2 = .complete resp) :
    isDigit (statusDigit buf) = true ∧ ∃ n < 100, resp.httpStatus = digitValue (statusDigit buf) * 100 + n := by
  obtain ⟨hd, bodyLen, hhead, rfl, -⟩ := exists_head_of_complete h
  obtain ⟨keepalive, hstatus, hdigit⟩ := statusDigit_head hhead
  have hnil := hdigit []
  rw [List.append_nil] at hnil
  rw [← hnil]
  exact statusLine_digits hstatus

/-- An accepted status is in 100..999 exactly when the first digit is not a zero; a zero status has one. -/
theorem httpStatus_mem_iff {atEof : Bool} {resp : OtlpHttpResp}
    (h : (otlpHttpRespParse buf atEof).2 = .complete resp) :
    (100 ≤ resp.httpStatus ∧ resp.httpStatus ≤ 999 ↔ statusDigit buf ≠ 0x30) ∧
      (resp.httpStatus = 0 → statusDigit buf = 0x30) := by
  obtain ⟨hdigit, n, hn, hstatus⟩ := httpStatus_of_complete h
  simp only [isDigit, Bool.and_eq_true, decide_eq_true_eq, UInt8.le_iff_toNat_le] at hdigit
  have hzero : (0x30 : UInt8).toNat = 48 := rfl
  have hnine : (0x39 : UInt8).toNat = 57 := rfl
  have heq : statusDigit buf = 0x30 ↔ (statusDigit buf).toNat = 48 := by
    rw [← UInt8.toNat_inj, hzero]
  rw [hstatus, ne_eq, heq]
  simp only [digitValue]
  omega

end OtlpC.Http
