import OtlpC.Http.Chunked

/-!
# The header block

The header block of a response ends at its first blank line and is parsed by itself (`parseHead_take`), so
that what follows it does not matter (`parseHead_append`). `parseHead_eq_head` reads off what an accepted
block is.
-/

namespace OtlpC.Http

open Occurrence

variable {buf : Bytes} {i : ℕ}

/-! ### The header block -/

theorem take_of_findSubstring (h : findSubstring buf crlfcrlf = some i) :
    buf.take (i + 4) = buf.take i ++ crlfcrlf := by
  have hocc := occursAt_iff.1 (findSubstring_eq_some.1 h).occurs
  have hlen : crlfcrlf.length = 4 := rfl
  rw [hlen] at hocc
  rw [List.take_add, hocc]

/-- The digits of the status stand before the blank line, so that a block with a status has 13 bytes. -/
theorem statusLine_length {pre : Bytes} {r : ℕ × Bool} (h : statusLine (pre ++ crlfcrlf) = some r) :
    13 ≤ (pre ++ crlfcrlf).length := by
  unfold statusLine at h
  split at h
  · contradiction
  split at h
  · contradiction
  next b p hp =>
  split at h
  · contradiction
  next hdigits =>
  simp only [Bool.or_eq_true, decide_eq_true_eq, Bool.not_eq_true', not_or, Bool.not_eq_false,
    Nat.not_lt] at hdigits
  obtain ⟨⟨⟨hlen, -⟩, -⟩, hthird⟩ := hdigits
  have hsuffix : b :: p <:+ (pre ++ crlfcrlf).drop 5 := hp ▸ List.dropWhile_suffix _
  have hroom := hsuffix.length_le
  rw [List.length_cons, List.length_drop] at hroom
  by_contra hshort
  have htotal : (pre ++ crlfcrlf).length = pre.length + 4 := List.length_append
  -- the third digit would be a byte of the blank line
  have htail : p = (pre ++ crlfcrlf).drop ((pre ++ crlfcrlf).length - p.length) :=
    List.suffix_iff_eq_drop.1 ((List.suffix_cons b p).trans (hsuffix.trans (List.drop_suffix _ _)))
  have hbyte : byteAt p 2 = byteAt crlfcrlf (6 - p.length) := by
    rw [htail, byteAt_drop, ← htail,
      show (pre ++ crlfcrlf).length - p.length + 2 = pre.length + (6 - p.length) by omega, ← byteAt_drop,
      List.drop_left]
  have hblank : ∀ k < 4, isDigit (byteAt crlfcrlf k) = false := by decide
  rw [hbyte, hblank _ (by omega)] at hthird
  exact Bool.false_ne_true hthird

theorem parseHead_take (h : findSubstring buf crlfcrlf = some i) :
    parseHead buf = parseHead (buf.take (i + 4)) := by
  have hfirst := findSubstring_eq_some.1 h
  have hle : i + 4 ≤ buf.length := hfirst.occurs.le (by decide)
  have hlen : (buf.take (i + 4)).length = i + 4 := List.length_take_of_le hle
  have hfind : findSubstring (buf.take (i + 4)) crlfcrlf = some i := by
    refine findSubstring_eq_some.2 (FirstAt.of_append (s := buf.drop (i + 4)) ?_ hlen.ge)
    rwa [List.take_append_drop]
  unfold parseHead
  rw [h, hfind]
  dsimp only
  rw [List.take_take, Nat.min_self, hlen]
  by_cases hshort : i + 4 < 12
  · -- a block this short has no status
    have hnone : statusLine (buf.take (i + 4)) = none := by
      rw [take_of_findSubstring h]
      by_contra hsome
      obtain ⟨r, hr⟩ := Option.ne_none_iff_exists'.1 hsome
      have hlong := statusLine_length hr
      rw [← take_of_findSubstring h, hlen] at hlong
      omega
    rw [if_pos hshort, hnone]
    split <;> rfl
  · rw [if_neg hshort, if_neg (by omega)]

theorem findSubstring_of_parseHead (h : parseHead buf ≠ .needMore) :
    ∃ i, findSubstring buf crlfcrlf = some i := by
  unfold parseHead at h
  split at h
  · exact absurd rfl h
  next i hi => exact ⟨i, hi⟩

theorem parseHead_append (h : parseHead buf ≠ .needMore) (s : Bytes) :
    parseHead (buf ++ s) = parseHead buf := by
  obtain ⟨i, hi⟩ := findSubstring_of_parseHead h
  have hle : i + 4 ≤ buf.length := findSubstring_le (by decide) hi
  rw [parseHead_take hi, parseHead_take (findSubstring_append (by decide) hi s),
    List.take_append_of_le_length hle]

abbrev HeaderScan.start (keepalive : Bool) : HeaderScan :=
  { contentLength := none, teSeen := false, teChunked := false, retryAfterMs := 0,
    keepaliveEligible := keepalive }

/-- How the scanned lines frame the body, and whether they keep the connection. -/
def HeaderScan.frames (h : HeaderScan) : Framing → Bool → Prop
  | .chunked, keepalive =>
    h.teSeen = true ∧ h.contentLength = none ∧ h.teChunked = true ∧ keepalive = h.keepaliveEligible
  | .length n, keepalive => h.teSeen = false ∧ h.contentLength = some n ∧ keepalive = h.keepaliveEligible
  | .untilEof, keepalive => h.teSeen = false ∧ h.contentLength = none ∧ keepalive = false

/-- **An accepted header block**: where it ends, its status line, and what the scan of its lines found. -/
structure ParsedHead (buf : Bytes) (hd : Head) (hdrEndOff : ℕ) (keepalive : Bool) (hdr : Bytes)
    (scan : HeaderScan) : Prop where
  find_eq : findSubstring buf crlfcrlf = some hdrEndOff
  bodyOff_eq : hd.bodyOff = hdrEndOff + 4
  status_eq : statusLine (buf.take (hdrEndOff + 4)) = some (hd.httpStatus, keepalive)
  lines_eq : (buf.take (hdrEndOff + 4)).dropWhile (· != lf) = lf :: hdr
  scan_eq : headerScan hdr.length (.start keepalive) hdr = some scan
  retryAfter_eq : hd.retryAfterMs = scan.retryAfterMs
  framed : scan.frames hd.framing hd.keepaliveEligible

theorem parseHead_eq_head {hd : Head} (h : parseHead buf = .head hd) :
    ∃ hdrEndOff keepalive hdr scan, ParsedHead buf hd hdrEndOff keepalive hdr scan := by
  unfold parseHead at h
  split at h
  · cases h
  next i hi =>
  dsimp only at h
  split at h
  · cases h
  split at h
  · cases h
  next status keepalive hstatus =>
  split at h
  · cases h
  next b hdr hlines =>
  have hb : b = lf := by
    have hstop := List.head_dropWhile_not (· != lf) (l := buf.take (i + 4)) (by rw [hlines]; simp)
    simpa [hlines] using hstop
  subst hb
  split at h
  · cases h
  next scan hscan =>
  refine ⟨i, keepalive, hdr, scan, ?_⟩
  split at h
  next hte =>
    split at h
    · cases h
    next hok =>
      simp only [Bool.or_eq_true, Bool.not_eq_true', not_or, Bool.not_eq_true, Option.isSome_eq_false_iff,
        Option.isNone_iff_eq_none, Bool.not_eq_false] at hok
      rw [HeadVerdict.head.injEq] at h
      subst h
      exact ⟨hi, rfl, hstatus, hlines, hscan, rfl, hte, hok.1, hok.2, rfl⟩
  next hte =>
    rw [Bool.not_eq_true] at hte
    split at h
    next n hn =>
      rw [HeadVerdict.head.injEq] at h
      subst h
      exact ⟨hi, rfl, hstatus, hlines, hscan, rfl, hte, hn, rfl⟩
    next hn =>
      rw [HeadVerdict.head.injEq] at h
      subst h
      exact ⟨hi, rfl, hstatus, hlines, hscan, rfl, hte, hn, rfl⟩

theorem bodyOff_le {hd : Head} (h : parseHead buf = .head hd) : hd.bodyOff ≤ buf.length := by
  obtain ⟨hdrEndOff, keepalive, hdr, scan, hhead⟩ := parseHead_eq_head h
  rw [hhead.bodyOff_eq]
  exact findSubstring_le (by decide) hhead.find_eq

end OtlpC.Http
