import OtlpC.Http.Chunked

/-!
# Decoding inverts encoding

`ChunkedBody` is what a server may write: chunks with their size lines, the last chunk and a trailer section.
The decoder reads every such body back (`decodeChunkedInPlace_encoded`) and asks for more on everything that
is cut off it. Lengths are taken to be below 2^31, where the `int` that `find_substring` returns holds every
position.
-/

namespace OtlpC.Http

open Occurrence Numerals

/-- A size line: a non-empty string of digits, with any number of zeros in front, and an extension. -/
structure SizeLine (n : ℕ) where
  digits : Bytes
  digits_ne : digits ≠ []
  digits_eq : numeral hexDigits 16 0 digits = some n
  ext : Option Bytes
  ext_noCr : ∀ e ∈ ext, cr ∉ e

/-- A chunk that the response cap allows. -/
structure ChunkedChunk where
  data : Bytes
  data_ne : data ≠ []
  data_le : data.length ≤ otlpHttpRespMax
  sizeLine : SizeLine data.length

/-- A whole body; the trailer lines are not empty and hold neither CR nor LF. -/
structure ChunkedBody where
  chunks : List ChunkedChunk
  lastLine : SizeLine 0
  trailers : List Bytes
  trailers_ok : ∀ t ∈ trailers, t ≠ [] ∧ cr ∉ t ∧ lf ∉ t

def SizeLine.extBytes {n : ℕ} (l : SizeLine n) : Bytes :=
  match l.ext with
  | none => []
  | some e => semicolon :: e

def SizeLine.bytes {n : ℕ} (l : SizeLine n) : Bytes := l.digits ++ (l.extBytes ++ [cr, lf])

def ChunkedChunk.bytes (c : ChunkedChunk) : Bytes := c.sizeLine.bytes ++ (c.data ++ [cr, lf])

def trailerSection (trailers : List Bytes) : Bytes := (trailers.flatMap fun t => t ++ [cr, lf]) ++ [cr, lf]

def ChunkedBody.bytes (b : ChunkedBody) : Bytes :=
  b.chunks.flatMap ChunkedChunk.bytes ++ (b.lastLine.bytes ++ trailerSection b.trailers)

def ChunkedBody.payload (b : ChunkedBody) : Bytes := b.chunks.flatMap ChunkedChunk.data

/-! ### Size lines -/

theorem hexValue_inSize {c : UInt8} {d : ℕ} (h : hexValue c = some d) : inSize c = true := by
  have hcr : hexValue cr = none := by decide
  have hsemi : hexValue semicolon = none := by decide
  simp only [inSize, Bool.and_eq_true, bne_iff_ne]
  refine ⟨?_, ?_⟩
  · rintro rfl
    rw [hcr] at h
    contradiction
  · rintro rfl
    rw [hsemi] at h
    contradiction

theorem inSize_of_numeral {n m : ℕ} {digits : Bytes} (h : numeral hexDigits 16 n digits = some m) :
    ∀ c ∈ digits, inSize c = true := by
  intro c hc
  obtain ⟨d, hd⟩ := forall_of_numeral h c hc
  rw [valueOf_hexDigits] at hd
  exact hexValue_inSize hd

/-- The loop over a size line reads its digits and stops behind them. -/
theorem chunkSizeLoop_numeral {n m k : ℕ} {digits : Bytes} (h : numeral hexDigits 16 n digits = some m)
    (hm : m ≤ otlpHttpRespMax) {c : UInt8} (hc : inSize c = false) (rest : Bytes) :
    chunkSizeLoop n k (digits ++ c :: rest) = some (m, k + digits.length) := by
  induction digits generalizing n k with
  | nil =>
    have hstop : (c == cr || c == semicolon) = true := by
      simpa [inSize, or_iff_not_imp_left] using hc
    rw [List.nil_append, chunkSizeLoop, if_pos hstop, Option.some.inj h]
    rfl
  | cons z digits ih =>
    obtain ⟨d, hd, hrest⟩ := numeral_cons_eq_some.1 h
    rw [valueOf_hexDigits] at hd
    have hgo : (z == cr || z == semicolon) = false := by
      have hz := hexValue_inSize hd
      simpa [inSize] using hz
    have hle := le_of_numeral (by decide) hrest
    rw [List.cons_append, chunkSizeLoop, if_neg (by rw [hgo]; exact Bool.false_ne_true), hd]
    dsimp only
    rw [if_neg (by omega), ih hrest, List.length_cons]
    congr 2
    omega

variable {n : ℕ}

theorem SizeLine.extBytes_noCr (l : SizeLine n) : cr ∉ l.extBytes := by
  unfold extBytes
  split
  · exact List.not_mem_nil
  next e he =>
    have hsemi : cr ≠ semicolon := by decide
    rw [List.mem_cons, not_or]
    exact ⟨hsemi, l.ext_noCr e (Option.mem_def.2 he)⟩

theorem SizeLine.digits_noCr (l : SizeLine n) : cr ∉ l.digits := by
  intro hmem
  exact absurd (inSize_of_numeral l.digits_eq cr hmem) (by decide)

theorem SizeLine.exists_stop (l : SizeLine n) (rest : Bytes) :
    ∃ c tail, inSize c = false ∧ l.extBytes ++ [cr, lf] ++ rest = c :: tail := by
  unfold extBytes
  split
  · exact ⟨cr, _, by decide, rfl⟩
  · exact ⟨semicolon, _, by decide, rfl⟩

theorem takeWhile_noCr {a : Bytes} (h : cr ∉ a) (rest : Bytes) :
    (a ++ cr :: rest).takeWhile (· != cr) = a := by
  induction a with
  | nil => rfl
  | cons z a ih =>
    rw [List.mem_cons, not_or] at h
    have hz : (z != cr) = true := bne_iff_ne.2 (Ne.symm h.1)
    rw [List.cons_append, List.takeWhile_cons, if_pos hz, ih h.2]

theorem byteAt_append_right (a s : Bytes) (i : ℕ) : byteAt (a ++ s) (a.length + i) = byteAt s i := by
  rw [← byteAt_drop, List.drop_left]

/-- What a round finds behind a size line. -/
theorem chunkRound_sizeLine (l : SizeLine n) (hn : n ≤ otlpHttpRespMax) (rest : Bytes) :
    chunkRound (l.bytes ++ rest) 0 =
      if n = 0 then
        if rest.length < 2 then .needMore
        else if byteAt rest 0 == cr && byteAt rest 1 == lf then .last
        else
          match findSubstring rest crlfcrlf with
          | none => .needMore
          | some _ => .last
      else if rest.length < n + 2 then .needMore
      else if byteAt rest n != cr || byteAt rest (n + 1) != lf then .malformed
      else .data l.bytes.length n := by
  obtain ⟨c, tail, hc, htail⟩ := l.exists_stop rest
  have hbytes : l.bytes ++ rest = l.digits ++ (l.extBytes ++ [cr, lf] ++ rest) := by
    rw [SizeLine.bytes, List.append_assoc]
  have hlen : l.bytes.length = l.digits.length + l.extBytes.length + 2 := by
    simp only [SizeLine.bytes, List.length_append, List.length_cons, List.length_nil]
    omega
  have hpos := List.length_pos_iff.2 l.digits_ne
  have hsize : chunkSizeLoop 0 0 (l.bytes ++ rest) = some (n, l.digits.length) := by
    rw [hbytes, htail, chunkSizeLoop_numeral l.digits_eq hn hc, Nat.zero_add]
  have hext : ((l.bytes ++ rest).drop l.digits.length).takeWhile (· != cr) = l.extBytes := by
    rw [hbytes, List.drop_left, List.append_assoc]
    exact takeWhile_noCr l.extBytes_noCr _
  have hlf : byteAt (l.bytes ++ rest) (l.digits.length + l.extBytes.length + 1) = lf := by
    have hline : l.bytes ++ rest = (l.digits ++ l.extBytes ++ [cr]) ++ (lf :: rest) := by
      simp [SizeLine.bytes]
    have hlineLen : (l.digits ++ l.extBytes ++ [cr]).length = l.digits.length + l.extBytes.length + 1 := by
      rw [List.length_append, List.length_append, List.length_singleton]
    rw [hline, ← hlineLen, ← Nat.add_zero (l.digits ++ l.extBytes ++ [cr]).length, byteAt_append_right]
    rfl
  have hbyte : ∀ i, byteAt (l.bytes ++ rest) (l.digits.length + l.extBytes.length + 2 + i) = byteAt rest i := by
    intro i
    rw [← hlen]
    exact byteAt_append_right l.bytes rest i
  unfold chunkRound
  simp only [List.drop_zero, hsize, hext, Nat.zero_add, hlf, hbyte, List.length_append, Nat.add_assoc _ n 1]
  rw [if_neg (by simp only [Bool.or_eq_true, decide_eq_true_eq]; omega), if_neg (by omega),
    if_neg (by simp)]
  have hdrop : (l.bytes ++ rest).drop (l.digits.length + l.extBytes.length + 2) = rest := by
    rw [← hlen, List.drop_left]
  rw [hdrop, ← hlen]
  have hroom : l.bytes.length + rest.length < l.bytes.length + n + 2 ↔ rest.length < n + 2 := by omega
  exact if_congr Iff.rfl rfl (if_congr hroom rfl rfl)

/-! ### The whole body -/

theorem chunkRound_chunk (c : ChunkedChunk) (rest : Bytes) :
    chunkRound (c.bytes ++ rest) 0 = .data c.sizeLine.bytes.length c.data.length := by
  have hpos := List.length_pos_iff.2 c.data_ne
  have hcr : byteAt (c.data ++ [cr, lf] ++ rest) c.data.length = cr := by
    rw [List.append_assoc, ← Nat.add_zero c.data.length, byteAt_append_right]
    rfl
  have hlf : byteAt (c.data ++ [cr, lf] ++ rest) (c.data.length + 1) = lf := by
    rw [List.append_assoc, byteAt_append_right]
    rfl
  have hlen : (c.data ++ [cr, lf] ++ rest).length = c.data.length + 2 + rest.length := by
    rw [List.length_append, List.length_append]
    rfl
  rw [ChunkedChunk.bytes, List.append_assoc, chunkRound_sizeLine c.sizeLine c.data_le, if_neg (by omega),
    hlen, if_neg (by omega), hcr, hlf, if_neg (by simp)]

theorem trailerEnd_section {trailers : List Bytes} (h : ∀ t ∈ trailers, t ≠ [] ∧ cr ∉ t ∧ lf ∉ t) (s : Bytes) :
    2 ≤ (trailerSection trailers ++ s).length ∧
      trailerEnd (trailerSection trailers ++ s) = (trailerSection trailers).length ∧
      ((byteAt (trailerSection trailers ++ s) 0 == cr && byteAt (trailerSection trailers ++ s) 1 == lf) = true ∨
        ∃ i, findSubstring (trailerSection trailers ++ s) crlfcrlf = some i) := by
  have hroom : 2 ≤ (trailerSection trailers ++ s).length := by
    simp only [trailerSection, List.length_append, List.length_cons, List.length_nil]
    omega
  refine ⟨hroom, ?_⟩
  cases trailers with
  | nil => exact ⟨rfl, .inl rfl⟩
  | cons t ts =>
    -- the section does not begin with its CRLF, and ends where a blank line is found
    obtain ⟨i, hfirst, -, hdrop⟩ := exists_firstAt_lines (show cr ≠ lf by decide)
      (fun w hw => ⟨(h w hw).2.1, (h w hw).1⟩) (List.cons_ne_nil t ts) s
    rw [← List.append_assoc] at hfirst hdrop
    have hfind : findSubstring (trailerSection (t :: ts) ++ s) crlfcrlf = some i :=
      findSubstring_eq_some.2 hfirst
    have hend : i + 4 = (trailerSection (t :: ts)).length := by
      have hrest : (trailerSection (t :: ts) ++ s).drop (i + 4) = s := hdrop
      have hle := findSubstring_le (by decide) hfind
      have hlength := congrArg List.length hrest
      have hneedle : crlfcrlf.length = 4 := rfl
      rw [List.length_drop] at hlength
      rw [List.length_append] at hle hlength
      omega
    obtain ⟨z, t', rfl⟩ := List.exists_cons_of_ne_nil (h t List.mem_cons_self).1
    have hz : z ≠ cr := fun hz => (h _ List.mem_cons_self).2.1 (hz ▸ List.mem_cons_self)
    have hstart : byteAt (trailerSection ((z :: t') :: ts) ++ s) 0 = z := rfl
    refine ⟨?_, .inr ⟨i, hfind⟩⟩
    rw [trailerEnd, hstart, beq_false_of_ne hz, Bool.false_and, if_neg Bool.false_ne_true, hfind,
      Option.getD_some, hend]

theorem chunkRound_lastChunk (l : SizeLine 0) {trailers : List Bytes}
    (h : ∀ t ∈ trailers, t ≠ [] ∧ cr ∉ t ∧ lf ∉ t) (s : Bytes) :
    chunkRound (l.bytes ++ (trailerSection trailers ++ s)) 0 = .last ∧
      lastChunkEnd (l.bytes ++ (trailerSection trailers ++ s)) =
        (l.bytes ++ trailerSection trailers).length := by
  obtain ⟨hroom, hend, hstop⟩ := trailerEnd_section h s
  constructor
  · rw [chunkRound_sizeLine l (Nat.zero_le _), if_pos rfl, if_neg (by omega)]
    split
    · rfl
    next hno =>
      obtain ⟨i, hi⟩ := hstop.resolve_left hno
      rw [hi]
  · have hline : (l.bytes ++ (trailerSection trailers ++ s)).takeWhile (· != cr) = l.digits ++ l.extBytes := by
      have hnoCr : cr ∉ l.digits ++ l.extBytes := by
        rw [List.mem_append, not_or]
        exact ⟨l.digits_noCr, l.extBytes_noCr⟩
      rw [SizeLine.bytes, List.append_assoc, List.append_assoc, ← List.append_assoc l.digits]
      exact takeWhile_noCr hnoCr _
    have hlen : (l.digits ++ l.extBytes).length + 2 = l.bytes.length := by
      rw [SizeLine.bytes, ← List.append_assoc, @List.length_append _ _ [cr, lf]]
      rfl
    rw [lastChunkEnd, hline, hlen, List.drop_left, hend, List.length_append]

/-- **Reading a body that was encoded** gives its payload, and ends where the encoding ends. -/
theorem unchunk_bytes (b : ChunkedBody) (s : Bytes) :
    unchunk (b.bytes ++ s) = .complete b.payload b.bytes.length := by
  obtain ⟨chunks, lastLine, trailers, htrailers⟩ := b
  induction chunks with
  | nil =>
    obtain ⟨hround, hend⟩ := chunkRound_lastChunk lastLine htrailers s
    have hbytes : (ChunkedBody.mk [] lastLine trailers htrailers).bytes ++ s =
        lastLine.bytes ++ (trailerSection trailers ++ s) := by
      rw [ChunkedBody.bytes, List.flatMap_nil, List.nil_append, List.append_assoc]
    rw [hbytes, unchunk_of_last hround, hend]
    rfl
  | cons c chunks ih =>
    have hbytes : (ChunkedBody.mk (c :: chunks) lastLine trailers htrailers).bytes ++ s =
        c.bytes ++ ((ChunkedBody.mk chunks lastLine trailers htrailers).bytes ++ s) := by
      simp only [ChunkedBody.bytes, List.flatMap_cons, List.append_assoc]
    have hlen : c.sizeLine.bytes.length + c.data.length + 2 = c.bytes.length := by
      rw [ChunkedChunk.bytes, List.length_append, List.length_append, ← Nat.add_assoc]
      rfl
    have hdata : ((c.bytes ++ ((ChunkedBody.mk chunks lastLine trailers htrailers).bytes ++ s)).drop
        c.sizeLine.bytes.length).take c.data.length = c.data := by
      rw [ChunkedChunk.bytes, List.append_assoc, List.drop_left, List.append_assoc, List.take_left]
    rw [hbytes, unchunk_of_data (chunkRound_chunk c _), hlen, List.drop_left, ih, hdata, Unchunked.after,
      ChunkedBody.payload, ChunkedBody.payload, List.flatMap_cons, ← List.length_append]
    simp only [ChunkedBody.bytes, List.flatMap_cons, List.append_assoc]

/-- **Decoding inverts encoding.** Whatever follows it, an encoded body is decoded to its payload; cut off
anywhere, it needs more. -/
theorem decodeChunkedInPlace_encoded (b : ChunkedBody) :
    (∀ s : Bytes, (decodeChunkedInPlace (b.bytes ++ s)).2 = .complete b.payload.length ∧
      (decodeChunkedInPlace (b.bytes ++ s)).1.take b.payload.length = b.payload) ∧
    ∀ p : Bytes, p <+: b.bytes → p ≠ b.bytes → (decodeChunkedInPlace p).2 = .needMore := by
  refine ⟨fun s => ?_, fun p hpre hne => ?_⟩
  · have hread := unchunk_bytes b s
    refine ⟨?_, decodeChunkedInPlace_payload hread⟩
    rw [decodeChunkedInPlace_snd, hread, Unchunked.verdict, Nat.zero_add]
  · obtain ⟨q, hq⟩ := hpre
    -- a verdict on the prefix would be the verdict on the whole, which ends behind the prefix
    have hmore : unchunk p = .needMore := by
      by_contra hdone
      have hwhole := unchunk_bytes b []
      rw [List.append_nil, ← hq, unchunk_append hdone q] at hwhole
      have hle := unchunk_used_le hwhole
      have hnil : q = [] := by
        rw [← List.length_eq_zero_iff]
        rw [List.length_append] at hle
        omega
      rw [hnil, List.append_nil] at hq
      exact hne hq
    rw [decodeChunkedInPlace_snd, hmore]
    rfl

/-- Two chunks, one with zeros in front of its size and one with an extension, and a trailer line. -/
def twoChunks : ChunkedBody where
  chunks := [
    { data := ascii "hello", data_ne := by decide, data_le := by decide,
      sizeLine := { digits := ascii "005", digits_ne := by decide, digits_eq := by decide, ext := none,
                    ext_noCr := by simp } },
    { data := ascii "0123456789", data_ne := by decide, data_le := by decide,
      sizeLine := { digits := ascii "a", digits_ne := by decide, digits_eq := by decide,
                    ext := some (ascii "x=1"),
                    ext_noCr := by rintro e ⟨⟩; decide } }]
  lastLine := { digits := ascii "00", digits_ne := by decide, digits_eq := by decide, ext := none,
                ext_noCr := by simp }
  trailers := [ascii "X: 1"]
  trailers_ok := by decide

theorem decodeChunkedInPlace_encoded_two :
    twoChunks.bytes = ascii "005\r\nhello\r\na;x=1\r\n0123456789\r\n00\r\nX: 1\r\n\r\n" ∧
      (decodeChunkedInPlace (twoChunks.bytes ++ ascii "HTTP")).2 = .complete 15 ∧
      (decodeChunkedInPlace (twoChunks.bytes ++ ascii "HTTP")).1.take 15 = ascii "hello0123456789" ∧
      (decodeChunkedInPlace (twoChunks.bytes.take 31)).2 = .needMore := by
  obtain ⟨hwhole, hcut⟩ := decodeChunkedInPlace_encoded twoChunks
  exact ⟨by decide, (hwhole _).1, (hwhole _).2, hcut _ (List.take_prefix _ _) (by decide)⟩

end OtlpC.Http
