import OtlpC.Http.Indexed
import OtlpC.Http.Stability
import OtlpC.Http.HeaderLines

/-!
# The parser stays in bounds

The parser that moves by index computes what the parser on lists computes, and faults nowhere
(`otlpHttpRespParse_indexed`): each loop is the walk of a list that is left at its index, and a comparison of names
stops at the CR of its line. So every index is below `len`, every loop ends, and `out` is written with a response
only (`otlpHttpRespParse_inBounds`).
-/

namespace OtlpC.Http.Indexed

open Occurrence

variable {buf : Bytes} {base len i : ℕ}

@[simp] theorem ok_bind {α β : Type} (a : α) (f : α → Checked β) : (Except.ok a >>= f) = f a := rfl
@[simp] theorem pure_eq_ok {α : Type} (a : α) : (pure a : Checked α) = .ok a := rfl

/-! ### Loops -/

theorem load_eq (h : i < buf.length) : load buf i = .ok (byteAt buf i) := if_pos h

theorem drop_eq_byteAt (h : i < buf.length) : buf.drop i = byteAt buf i :: buf.drop (i + 1) := by
  rw [List.drop_eq_getElem_cons h, byteAt, List.getD_eq_getElem?_getD, List.getElem?_eq_getElem h]
  rfl

theorem byteAt_take {n : ℕ} (h : i < n) (buf : Bytes) : byteAt (buf.take n) i = byteAt buf i := by
  rw [byteAt, byteAt, List.getD_eq_getElem?_getD, List.getD_eq_getElem?_getD, List.getElem?_take, if_pos h]

theorem region_eq_byteAt {stop : ℕ} (hi : i < stop) (hstop : base + stop ≤ buf.length) :
    ((buf.drop base).take stop).drop i = byteAt buf (base + i) :: ((buf.drop base).take stop).drop (i + 1) := by
  have hlen : i < ((buf.drop base).take stop).length := by
    rw [List.length_take, List.length_drop]
    omega
  rw [drop_eq_byteAt hlen, byteAt_take hi, byteAt_drop]

theorem region_nil {stop : ℕ} (hi : stop ≤ i) : ((buf.drop base).take stop).drop i = [] := by
  rw [List.drop_eq_nil_iff, List.length_take]
  omega

theorem scanWhile_eq {p : UInt8 → Bool} {stop rounds : ℕ} (hstop : base + stop ≤ buf.length)
    (hrounds : stop - i < rounds) :
    scanWhile p buf base stop rounds i = .ok (i + ((((buf.drop base).take stop).drop i).takeWhile p).length) := by
  induction rounds generalizing i with
  | zero => omega
  | succ rounds ih =>
    rw [scanWhile]
    by_cases hi : i < stop
    · rw [if_pos hi, load_eq (by omega), ok_bind, region_eq_byteAt hi hstop, List.takeWhile_cons]
      cases hp : p (byteAt buf (base + i)) with
      | true =>
        rw [if_pos rfl, if_pos rfl, ih (by omega), List.length_cons, Nat.add_assoc, Nat.add_comm 1]
      | false => rfl
    · rw [if_neg hi, region_nil (Nat.not_lt.1 hi)]
      rfl

theorem memcmp_eq {needle : Bytes} (h : i + needle.length ≤ buf.length) :
    memcmp buf i needle = .ok ((buf.drop i).take needle.length == needle) := by
  induction needle generalizing i with
  | nil => rfl
  | cons c needle ih =>
    rw [List.length_cons] at h
    have hi : i < buf.length := by omega
    rw [memcmp, load_eq hi, ok_bind, ih (by omega), ok_bind, drop_eq_byteAt hi, List.length_cons,
      List.take_succ_cons, List.cons_beq_cons]
    rfl

theorem findLoop_eq {needle : Bytes} {last rounds : ℕ} (h : base + last + needle.length ≤ buf.length)
    (hrounds : last + 1 - i < rounds) :
    findLoop buf base needle last rounds i = .ok ((List.range' i (last + 1 - i)).find? fun j =>
      ((buf.drop base).drop j).take needle.length == needle) := by
  induction rounds generalizing i with
  | zero => omega
  | succ rounds ih =>
    rw [findLoop]
    by_cases hi : i ≤ last
    · obtain ⟨n, hn⟩ : ∃ n, last + 1 - i = n + 1 := ⟨last - i, by omega⟩
      rw [if_pos hi, memcmp_eq (by omega), ok_bind, hn, List.range'_succ, List.find?_cons, List.drop_drop]
      cases (buf.drop (base + i)).take needle.length == needle with
      | true => rfl
      | false =>
        rw [if_neg Bool.false_ne_true, ih (by omega), show last + 1 - (i + 1) = n by omega]
    · rw [if_neg hi, show last + 1 - i = 0 by omega]
      rfl

theorem findSubstring_eq {hayLen : ℕ} {needle : Bytes} (h : base + hayLen = buf.length) :
    findSubstring buf base hayLen needle =
      .ok (((Http.findSubstring (buf.drop base) needle).map int32).getD (-1)) := by
  have hlen : (buf.drop base).length = hayLen := by
    rw [List.length_drop]
    omega
  rw [findSubstring, Http.findSubstring, hlen]
  by_cases hshort : hayLen < needle.length
  · rw [if_pos hshort, if_pos hshort]
    rfl
  · rw [if_neg hshort, if_neg hshort, findLoop_eq (by omega) (by unfold roundsOf; omega), ok_bind,
      List.range_eq_range', Nat.sub_zero]
    cases (List.range' 0 (hayLen - needle.length + 1)).find? _ <;> rfl

theorem int32_eq {n : ℕ} (h : n < 2 ^ 31) : int32 n = n := by
  rw [int32, if_pos (by omega)]
  omega

/-! ### Chunked bodies -/

theorem region_eq_drop (h : base + len = buf.length) : (buf.drop base).take len = buf.drop base :=
  List.take_of_length_le (by rw [List.length_drop]; omega)

theorem crlfAt_eq (h : i + 2 ≤ buf.length) :
    crlfAt buf i = .ok (byteAt buf i == cr && byteAt buf (i + 1) == lf) := by
  rw [crlfAt, load_eq (by omega), ok_bind]
  cases byteAt buf i == cr with
  | true => rw [if_pos rfl, load_eq (by omega)]; rfl
  | false => rfl

theorem sizeLoop_eq {rounds lineEnd size digits : ℕ} (h : base + len = buf.length)
    (hrounds : len - lineEnd < rounds) :
    sizeLoop buf base len rounds lineEnd size digits =
      .ok ((chunkSizeLoop size digits ((buf.drop base).drop lineEnd)).map fun r =>
        (r.1, r.2, lineEnd + (r.2 - digits))) := by
  induction rounds generalizing lineEnd size digits with
  | zero => omega
  | succ rounds ih =>
    rw [sizeLoop]
    by_cases hi : lineEnd < len
    · have hstop : base + len ≤ buf.length := by omega
      have hlist := region_eq_byteAt hi hstop
      rw [region_eq_drop h] at hlist
      rw [if_pos hi, load_eq (by omega), ok_bind, hlist, chunkSizeLoop]
      generalize byteAt buf (base + lineEnd) = c
      cases hstop : c == cr || c == semicolon with
      | true => simp
      | false =>
        rw [if_neg Bool.false_ne_true, if_neg Bool.false_ne_true]
        cases hhex : hexValue c with
        | none => rfl
        | some d =>
          dsimp only
          by_cases hlarge : otlpHttpRespMax < size * 16 + d
          · rw [if_pos hlarge, if_pos hlarge]
            rfl
          · rw [if_neg hlarge, if_neg hlarge, ih (by omega)]
            cases hrest : chunkSizeLoop (size * 16 + d) (digits + 1) ((buf.drop base).drop (lineEnd + 1)) with
            | none => rfl
            | some r =>
              have hdigits := chunkSizeLoop_digits hrest
              rw [Option.map_some, Option.map_some, show lineEnd + 1 + (r.2 - (digits + 1)) =
                lineEnd + (r.2 - digits) by omega]
    · have hlist : (buf.drop base).drop lineEnd = [] := by
        rw [List.drop_eq_nil_iff, List.length_drop]
        omega
      rw [if_neg hi, hlist]
      simp [chunkSizeLoop]

theorem lastRound_eq {lineEnd : ℕ} (h : base + len = buf.length) (hend : lineEnd + 1 < len) (hint : len < 2 ^ 31) :
    lastRound buf base len lineEnd = .ok (
      let t := (buf.drop base).drop (lineEnd + 2)
      if t.length < 2 then .needMore
      else if byteAt t 0 == cr && byteAt t 1 == lf then .last
      else
        match Http.findSubstring t crlfcrlf with
        | none => .needMore
        | some _ => .last) := by
  have hlen : (buf.drop (base + (lineEnd + 2))).length = len - (lineEnd + 2) := by
    rw [List.length_drop]
    omega
  dsimp only
  rw [lastRound, List.drop_drop, hlen]
  by_cases hshort : len - (lineEnd + 2) < 2
  · rw [if_pos hshort, if_pos hshort]
  · rw [if_neg hshort, if_neg hshort, crlfAt_eq (by omega), ok_bind, byteAt_drop, byteAt_drop, Nat.add_zero]
    cases byteAt buf (base + (lineEnd + 2)) == cr && byteAt buf (base + (lineEnd + 2) + 1) == lf with
    | true => rfl
    | false =>
      rw [if_neg Bool.false_ne_true, if_neg Bool.false_ne_true, findSubstring_eq (by omega), ok_bind]
      cases hfind : Http.findSubstring (buf.drop (base + (lineEnd + 2))) crlfcrlf with
      | none => rfl
      | some i =>
        have hle := findSubstring_le (by decide) hfind
        have hi : ¬(i : ℤ) < 0 := by omega
        rw [Option.map_some, Option.getD_some, int32_eq (by omega), if_neg hi]

theorem dataRound_eq {lineEnd size : ℕ} (h : base + len = buf.length) :
    dataRound buf base len lineEnd size = .ok (
      if len < lineEnd + 2 + size + 2 then .needMore
      else if byteAt (buf.drop base) (lineEnd + 2 + size) != cr ||
        byteAt (buf.drop base) (lineEnd + 2 + size + 1) != lf then .malformed
      else .data (lineEnd + 2) size) := by
  rw [dataRound]
  by_cases hroom : len < lineEnd + 2 + size + 2
  · rw [if_pos hroom, if_pos hroom]
  · rw [if_neg hroom, if_neg hroom, crlfAt_eq (by omega), ok_bind, byteAt_drop, byteAt_drop,
      Nat.add_assoc base (lineEnd + 2 + size) 1, bne, bne]
    cases byteAt buf (base + (lineEnd + 2 + size)) == cr <;>
      cases byteAt buf (base + (lineEnd + 2 + size + 1)) == lf <;> rfl

theorem chunkRound_eq {src : ℕ} (h : base + len = buf.length) (hsrc : src ≤ len) (hint : len < 2 ^ 31) :
    chunkRound buf base len src = .ok (Http.chunkRound (buf.drop base) src) := by
  have hlen : (buf.drop base).length = len := by
    rw [List.length_drop]
    omega
  rw [chunkRound, Http.chunkRound, sizeLoop_eq h (by unfold roundsOf; omega), ok_bind, hlen]
  cases hsize : chunkSizeLoop 0 0 ((buf.drop base).drop src) with
  | none => rfl
  | some r =>
    obtain ⟨size, digits⟩ := r
    have hdigits : digits = 0 + _ := chunkSizeLoop_digits hsize
    rw [Option.map_some]
    dsimp only
    rw [Nat.sub_zero]
    cases hmore : (decide (digits = 0) || decide (len ≤ src + digits)) with
    | true => rfl
    | false =>
      simp only [Bool.or_eq_false_iff, decide_eq_false_iff_not, Nat.not_le] at hmore
      rw [if_neg Bool.false_ne_true, if_neg Bool.false_ne_true, scanWhile_eq (by omega) (by unfold roundsOf; omega),
        ok_bind, region_eq_drop h]
      generalize src + digits + (((buf.drop base).drop (src + digits)).takeWhile (· != cr)).length = lineEnd
      by_cases hend : len ≤ lineEnd + 1
      · rw [if_pos hend, if_pos hend]
      · rw [if_neg hend, if_neg hend, load_eq (by omega), ok_bind, byteAt_drop]
        cases byteAt buf (base + (lineEnd + 1)) != lf with
        | true => rfl
        | false =>
          rw [if_neg Bool.false_ne_true, if_neg Bool.false_ne_true]
          by_cases hlast : size = 0
          · rw [if_pos hlast, if_pos hlast]
            exact lastRound_eq h (by omega) hint
          · rw [if_neg hlast, if_neg hlast, dataRound_eq h]

/-- A chunk that a round finds lies behind `src` and in front of the end. -/
theorem chunkRound_bounds {src off size : ℕ} (h : base + len = buf.length) (hsrc : src ≤ len)
    (hround : Http.chunkRound (buf.drop base) src = .data off size) : src < off ∧ off + size + 2 ≤ len := by
  have hlen : (buf.drop base).length = len := by
    rw [List.length_drop]
    omega
  rw [chunkRound_drop (by omega)] at hround
  cases hrest : Http.chunkRound ((buf.drop base).drop src) 0 with
  | data off' size' =>
    rw [hrest, ChunkRound.shift, ChunkRound.data.injEq] at hround
    obtain ⟨hoff, hle⟩ := chunkRound_data hrest
    rw [List.length_drop] at hle
    omega
  | needMore => rw [hrest] at hround; contradiction
  | malformed => rw [hrest] at hround; contradiction
  | last => rw [hrest] at hround; contradiction

/-- A move behind `base` leaves what is before it. -/
theorem memmove_drop (buf : Bytes) (base dst src n : ℕ) :
    memmove buf (base + dst) (base + src) n = buf.take base ++ memmove (buf.drop base) dst src n := by
  rw [memmove, memmove, List.take_add, List.drop_drop, List.drop_drop, Nat.add_assoc base, List.append_assoc,
    List.append_assoc, List.append_assoc]

theorem move_eq {dst src n : ℕ} (hdst : dst + n ≤ buf.length) (hsrc : src + n ≤ buf.length) :
    move buf dst src n = .ok (memmove buf dst src n) := if_pos ⟨hdst, hsrc⟩

/-- **The decoder stays in bounds** and ends: it is the decoder on lists behind `base`. -/
theorem decodeChunkedLoop_eq {rounds rounds' src dst : ℕ} (h : base + len = buf.length) (hint : len < 2 ^ 31)
    (hdst : dst ≤ src) (hsrc : src ≤ len) (hrounds : len - src < rounds) (hrounds' : len - src < rounds') :
    decodeChunkedLoop base len rounds buf src dst =
      .ok (buf.take base ++ (Http.decodeChunkedLoop rounds' (buf.drop base) src dst).1,
        (Http.decodeChunkedLoop rounds' (buf.drop base) src dst).2) := by
  induction rounds generalizing rounds' buf src dst with
  | zero => omega
  | succ rounds ih =>
    obtain ⟨rounds', rfl⟩ : ∃ k, rounds' = k + 1 := ⟨rounds' - 1, by omega⟩
    rw [decodeChunkedLoop, Http.decodeChunkedLoop, chunkRound_eq h hsrc hint, ok_bind]
    cases hround : Http.chunkRound (buf.drop base) src with
    | needMore => simp
    | malformed => simp
    | last => simp
    | data off size =>
      obtain ⟨hoff, hle⟩ := chunkRound_bounds h hsrc hround
      have hmove : memmove buf (base + dst) (base + off) size =
          buf.take base ++ memmove (buf.drop base) dst off size := memmove_drop buf base dst off size
      have hlen : (memmove buf (base + dst) (base + off) size).length = buf.length :=
        length_memmove (by omega) (by omega)
      have hbase : (buf.take base).length = base := List.length_take_of_le (by omega)
      have hnext := @ih (memmove buf (base + dst) (base + off) size) rounds' (off + size + 2) (dst + size)
        (by omega) (by omega) (by omega) (by omega) (by omega)
      dsimp only
      rw [move_eq (by omega) (by omega), ok_bind, hnext, hmove, List.take_left' hbase, List.drop_left' hbase]

theorem decodeChunkedInPlace_eq (h : base + len = buf.length) (hint : len < 2 ^ 31) :
    decodeChunkedInPlace buf base len =
      .ok (buf.take base ++ (Http.decodeChunkedInPlace (buf.drop base)).1,
        (Http.decodeChunkedInPlace (buf.drop base)).2) := by
  have hlen : (buf.drop base).length = len := by
    rw [List.length_drop]
    omega
  rw [decodeChunkedInPlace, Http.decodeChunkedInPlace, hlen]
  exact decodeChunkedLoop_eq h hint (Nat.le_refl 0) (Nat.zero_le _) (by unfold roundsOf; omega) (by omega)

/-! ### Header lines -/

section HeaderLine

variable {eol v : ℕ}

def upTo (buf : Bytes) (eol i : ℕ) : Bytes := (buf.take eol).drop i

theorem upTo_cons (heol : eol ≤ buf.length) (hi : i < eol) : upTo buf eol i = byteAt buf i :: upTo buf eol (i + 1) := by
  have hlen : i < (buf.take eol).length := by
    rw [List.length_take]
    omega
  rw [upTo, drop_eq_byteAt hlen, byteAt_take hi]
  rfl

theorem upTo_nil (hi : eol ≤ i) (buf : Bytes) : upTo buf eol i = [] := by
  rw [upTo, List.drop_eq_nil_iff, List.length_take]
  omega

theorem upTo_length (heol : eol ≤ buf.length) : (upTo buf eol i).length = eol - i := by
  rw [upTo, List.length_drop, List.length_take_of_le heol]

theorem upTo_drop (buf : Bytes) (eol i n : ℕ) : (upTo buf eol i).drop n = upTo buf eol (i + n) := by
  rw [upTo, upTo, List.drop_drop]

theorem startsWithCi_cons (b c : UInt8) (s name : Bytes) :
    startsWithCi (b :: s) (c :: name) = (toLower b == toLower c && startsWithCi s name) := by
  simp [startsWithCi]

/-- **A comparison stops at the CR of its line**, at the latest. -/
theorem strncasecmp_eq {name : Bytes} (heol : eol < buf.length) (hcr : byteAt buf eol = cr) (hi : i ≤ eol)
    (hname : cr ∉ name.map toLower) : strncasecmp buf i name = .ok (startsWithCi (upTo buf eol i) name) := by
  induction name generalizing i with
  | nil => simp [strncasecmp, startsWithCi]
  | cons c name ih =>
    rw [List.map_cons, List.mem_cons, not_or] at hname
    rw [strncasecmp, load_eq (by omega), ok_bind]
    rcases Nat.lt_or_ge i eol with hlt | hge
    · rw [upTo_cons (by omega) hlt, startsWithCi_cons]
      cases toLower (byteAt buf i) == toLower c with
      | true => rw [if_pos rfl, ih (by omega) hname.2, Bool.true_and]
      | false => rfl
    · obtain rfl : i = eol := by omega
      have hstop : ¬(toLower cr == toLower c) = true := by
        rw [beq_iff_eq]
        exact fun heq => hname.1 heq
      rw [hcr, if_neg hstop, upTo_nil (Nat.le_refl _)]
      rfl

theorem drop_takeWhile_length (p : UInt8 → Bool) (l : Bytes) : l.drop (l.takeWhile p).length = l.dropWhile p := by
  conv_lhs =>
    arg 2
    rw [← List.takeWhile_append_dropWhile (p := p) (l := l)]
  exact List.drop_left

theorem skipSpaces_eq (heol : eol ≤ buf.length) (hv : v ≤ eol) :
    ∃ v', skipSpaces buf v eol = .ok v' ∧ v' ≤ eol ∧ upTo buf eol v' = Http.skipSpaces (upTo buf eol v) := by
  have hscan := @scanWhile_eq buf 0 v (· == space) eol (roundsOf buf) (by omega) (by unfold roundsOf; omega)
  have hregion : ((buf.drop 0).take eol).drop v = upTo buf eol v := rfl
  rw [hregion] at hscan
  have hle := (List.takeWhile_prefix (· == space) (l := upTo buf eol v)).length_le
  rw [upTo_length heol] at hle
  refine ⟨_, hscan, by omega, ?_⟩
  rw [← upTo_drop, Http.skipSpaces, drop_takeWhile_length]

theorem contentLengthLoop_eq {rounds val : ℕ} (heol : eol ≤ buf.length) (hrounds : eol - v < rounds) :
    contentLengthLoop buf eol rounds v val = .ok (Http.contentLengthLoop val (upTo buf eol v)) := by
  induction rounds generalizing v val with
  | zero => omega
  | succ rounds ih =>
    rw [contentLengthLoop]
    by_cases hv : v < eol
    · rw [if_pos hv, load_eq (by omega), ok_bind, upTo_cons heol hv, Http.contentLengthLoop]
      generalize byteAt buf v = c
      cases hc : isDigit c with
      | false => rfl
      | true =>
        by_cases hlarge : otlpHttpRespMax < val * 10 + digitValue c
        · simp [hlarge]
        · simp only [Bool.not_true, Bool.false_eq_true, if_false, if_neg hlarge]
          exact ih (by omega)
    · rw [if_neg hv, upTo_nil (Nat.not_lt.1 hv)]
      rfl

theorem retryAfterLoop_eq {rounds room sec : ℕ} (heol : eol ≤ buf.length) (hrounds : eol - v < rounds) :
    retryAfterLoop buf eol rounds room v sec = .ok (Http.retryAfterLoop room sec (upTo buf eol v)) := by
  induction rounds generalizing v room sec with
  | zero => omega
  | succ rounds ih =>
    rw [retryAfterLoop]
    by_cases hv : v < eol
    · rw [if_pos hv, load_eq (by omega), ok_bind, upTo_cons heol hv]
      generalize byteAt buf v = c
      cases room with
      | zero => simp [Http.retryAfterLoop]
      | succ room =>
        rw [Http.retryAfterLoop]
        cases hc : isDigit c with
        | false => simp
        | true =>
          simp only [Nat.zero_lt_succ, decide_true, Bool.and_self, if_true, Nat.add_sub_cancel, Bool.not_true,
            Bool.false_eq_true, if_false]
          exact ih (by omega)
    · rw [if_neg hv, upTo_nil (Nat.not_lt.1 hv)]
      cases room <;> rfl

theorem value_eq {line n : ℕ} {name : Bytes} (hname : name.length = n) (heol : eol ≤ buf.length) (hline : line ≤ eol)
    (h : startsWithCi (upTo buf eol line) name = true) :
    ∃ v, skipSpaces buf (line + n) eol = .ok v ∧ v ≤ eol ∧
      upTo buf eol v = Http.skipSpaces ((upTo buf eol line).drop n) := by
  have hlen := startsWithCi_length h
  rw [upTo_length heol] at hlen
  rw [upTo_drop]
  exact skipSpaces_eq heol (by omega)

theorem headerLine_eq {line : ℕ} (h : HeaderScan) (heol : eol < buf.length) (hcr : byteAt buf eol = cr)
    (hline : line ≤ eol) :
    headerLine buf h line eol = .ok (Http.headerLine h (upTo buf eol line)) := by
  have hle := Nat.le_of_lt heol
  have hrounds : ∀ v, eol - v < roundsOf buf := fun v => by
    unfold roundsOf
    omega
  rw [headerLine, Http.headerLine, strncasecmp_eq heol hcr hline (by decide), ok_bind]
  cases hcl : startsWithCi (upTo buf eol line) (ascii "Content-Length:") with
  | true =>
    obtain ⟨v, hskip, -, hv⟩ := value_eq (show (ascii "Content-Length:").length = 15 from rfl) hle hline hcl
    rw [if_pos rfl, if_pos rfl, hskip, ok_bind, contentLengthLoop_eq hle (hrounds v), ok_bind, hv]
    cases Http.contentLengthLoop 0 (Http.skipSpaces ((upTo buf eol line).drop 15)) with
    | none => rfl
    | some val =>
      dsimp only
      split <;> rfl
  | false =>
  rw [if_neg Bool.false_ne_true, if_neg Bool.false_ne_true, strncasecmp_eq heol hcr hline (by decide), ok_bind]
  cases hte : startsWithCi (upTo buf eol line) (ascii "Transfer-Encoding:") with
  | true =>
    obtain ⟨v, hskip, hve, hv⟩ := value_eq (show (ascii "Transfer-Encoding:").length = 18 from rfl) hle hline hte
    have hlen : (Http.skipSpaces ((upTo buf eol line).drop 18)).length = eol - v := by rw [← hv, upTo_length hle]
    rw [if_pos rfl, if_pos rfl, hskip, ok_bind, strncasecmp_eq heol hcr hve (by decide), hv]
    dsimp only
    rw [hlen]
    by_cases hseven : eol - v = 7
    · rw [if_pos hseven, ok_bind, beq_iff_eq.2 hseven, Bool.true_and]
    · rw [if_neg hseven, ok_bind, beq_false_of_ne hseven, Bool.false_and]
  | false =>
  rw [if_neg Bool.false_ne_true, if_neg Bool.false_ne_true, strncasecmp_eq heol hcr hline (by decide), ok_bind]
  cases hra : startsWithCi (upTo buf eol line) (ascii "Retry-After:") with
  | true =>
    obtain ⟨v, hskip, -, hv⟩ := value_eq (show (ascii "Retry-After:").length = 12 from rfl) hle hline hra
    rw [if_pos rfl, if_pos rfl, hskip, ok_bind, retryAfterLoop_eq hle (hrounds v), ok_bind, hv]
  | false =>
  rw [if_neg Bool.false_ne_true, if_neg Bool.false_ne_true, strncasecmp_eq heol hcr hline (by decide), ok_bind]
  cases hconn : startsWithCi (upTo buf eol line) (ascii "Connection:") with
  | true =>
    obtain ⟨v, hskip, hve, hv⟩ := value_eq (show (ascii "Connection:").length = 11 from rfl) hle hline hconn
    have hlen : (Http.skipSpaces ((upTo buf eol line).drop 11)).length = eol - v := by rw [← hv, upTo_length hle]
    rw [if_pos rfl, if_pos rfl, hskip, ok_bind, strncasecmp_eq heol hcr hve (by decide), ok_bind,
      strncasecmp_eq heol hcr hve (by decide), hv]
    dsimp only
    rw [hlen]
    cases startsWithCi (Http.skipSpaces ((upTo buf eol line).drop 11)) (ascii "close") with
    | true => rfl
    | false =>
      rw [if_neg Bool.false_ne_true, if_neg Bool.false_ne_true]
      by_cases hten : 10 ≤ eol - v
      · rw [if_pos hten, ok_bind, decide_eq_true hten, Bool.true_and]
        split <;> rfl
      · rw [if_neg hten, ok_bind, decide_eq_false hten, Bool.false_and]
        rfl
  | false => rfl

end HeaderLine

/-! ### The header block -/

theorem upTo_take {eol stop i : ℕ} (h : eol ≤ stop) (buf : Bytes) :
    upTo buf eol i = (upTo buf stop i).take (eol - i) := by
  rw [upTo, upTo, List.drop_take, List.drop_take, List.take_take, Nat.min_eq_left (by omega)]

theorem byteAt_upTo {stop i j : ℕ} (h : i + j < stop) (buf : Bytes) :
    byteAt (upTo buf stop i) j = byteAt buf (i + j) := by
  rw [upTo, byteAt_drop, byteAt_take h]

theorem eol_cases {stop hdr : ℕ} (hstop : stop ≤ buf.length) (hhdr : hdr ≤ stop) :
    (∃ eol, hdr ≤ eol ∧ eol < stop ∧ byteAt buf eol = cr ∧
        (upTo buf stop hdr).takeWhile (· != cr) = upTo buf eol hdr) ∨
      (upTo buf stop hdr).takeWhile (· != cr) = upTo buf stop hdr := by
  by_cases hmem : cr ∈ upTo buf stop hdr
  · obtain ⟨a, b, hsplit, ha⟩ := List.eq_append_cons_of_mem hmem
    have hlen := congrArg List.length hsplit
    rw [upTo_length hstop, List.length_append, List.length_cons] at hlen
    refine .inl ⟨hdr + a.length, by omega, by omega, ?_, ?_⟩
    · rw [← byteAt_upTo (show hdr + a.length < stop by omega), hsplit, byteAt, List.getD_eq_getElem?_getD,
        List.getElem?_append_right (Nat.le_refl _), Nat.sub_self]
      rfl
    · rw [upTo_take (show hdr + a.length ≤ stop by omega), hsplit, SkipScan.takeWhile_of_notMem ha,
        Nat.add_sub_cancel_left, List.take_left]
  · exact .inr (List.takeWhile_eq_self_iff.2 fun z hz => bne_iff_ne.2 fun heq => hmem (heq ▸ hz))

/-- **The header scan stays in the block** and ends. -/
theorem headerScan_eq {hdrEnd rounds rounds' hdr : ℕ} (h : HeaderScan) (hend : hdrEnd ≤ buf.length)
    (hrounds : hdrEnd - hdr < rounds) (hrounds' : hdrEnd - hdr ≤ rounds') :
    headerScan buf hdrEnd rounds h hdr = .ok (Http.headerScan rounds' h (upTo buf hdrEnd hdr)) := by
  induction rounds generalizing rounds' h hdr with
  | zero => omega
  | succ rounds ih =>
    rw [headerScan]
    rcases Nat.lt_or_ge hdr hdrEnd with hlt | hge
    · obtain ⟨rounds', rfl⟩ : ∃ k, rounds' = k + 1 := ⟨rounds' - 1, by omega⟩
      have hlen : (upTo buf hdrEnd hdr).length = hdrEnd - hdr := upTo_length hend
      have hempty : ¬(upTo buf hdrEnd hdr).isEmpty = true := by
        rw [List.isEmpty_iff_length_eq_zero]
        omega
      have hscan := @scanWhile_eq buf 0 hdr (· != cr) hdrEnd (roundsOf buf) (by omega) (by unfold roundsOf; omega)
      rw [show ((buf.drop 0).take hdrEnd).drop hdr = upTo buf hdrEnd hdr from rfl] at hscan
      rw [if_pos hlt, hscan, ok_bind, Http.headerScan, if_neg hempty]
      dsimp only
      obtain ⟨eol, hle, heol, hcr, hline⟩ | hnone := eol_cases hend (Nat.le_of_lt hlt)
      · rw [hline, upTo_length (by omega), hlen, if_neg (by omega), if_neg (by omega),
          show hdr + (eol - hdr) = eol by omega, headerLine_eq h (by omega) hcr hle, ok_bind]
        cases Http.headerLine h (upTo buf eol hdr) with
        | none => rfl
        | some h' =>
          have hnext := @ih rounds' (eol + 2) h' (by omega) (by omega)
          rw [upTo_drop, show hdr + (eol - hdr + 2) = eol + 2 by omega]
          exact hnext
      · rw [hnone, if_pos rfl, hlen, if_pos (by omega)]
    · rw [if_neg (by omega), upTo_nil hge]
      cases rounds' <;> rfl

theorem digitAt_eq (h : i < buf.length) : digitAt buf i = .ok (isDigit (byteAt buf i)) := by
  rw [digitAt, load_eq h]
  rfl

theorem keepaliveDefault_eq (h : 8 ≤ buf.length) :
    keepaliveDefault buf = .ok (byteAt buf 5 == 0x31 && byteAt buf 6 == 0x2e && 0x31 ≤ byteAt buf 7) := by
  rw [keepaliveDefault, load_eq (by omega), ok_bind]
  cases byteAt buf 5 == 0x31 with
  | false => rfl
  | true =>
    rw [if_pos rfl, load_eq (by omega), ok_bind]
    cases byteAt buf 6 == 0x2e with
    | false => rfl
    | true => rw [if_pos rfl, load_eq (by omega)]; rfl

theorem scanWhile_upTo (p : UInt8 → Bool) {stop : ℕ} (hstop : stop ≤ buf.length) (i : ℕ) :
    ∃ q, scanWhile p buf 0 stop (roundsOf buf) i = .ok q ∧ i ≤ q ∧
      (upTo buf stop i).dropWhile p = upTo buf stop q ∧ (q < stop → p (byteAt buf q) = false) := by
  have hscan := @scanWhile_eq buf 0 i p stop (roundsOf buf) (by omega) (by unfold roundsOf; omega)
  have hdrop : (upTo buf stop i).dropWhile p = upTo buf stop (i + ((upTo buf stop i).takeWhile p).length) := by
    rw [← drop_takeWhile_length, upTo_drop]
  refine ⟨i + ((upTo buf stop i).takeWhile p).length, hscan, by omega, hdrop, fun hq => ?_⟩
  have hhead := List.head?_dropWhile_not p (upTo buf stop i)
  rw [hdrop, upTo_cons hstop hq, List.head?_cons] at hhead
  exact hhead

/-- The empty block does not start with `"HTTP/"` either. -/
theorem httpName_iff {bodyOff : ℕ} (hfirst : FirstAt crlfcrlf buf i) (hoff : bodyOff = i + 4) :
    (buf.take bodyOff).take 5 = ascii "HTTP/" ↔ buf.take 5 = ascii "HTTP/" := by
  rcases Nat.lt_or_ge bodyOff 5 with hlt | hge
  · obtain rfl : i = 0 := by omega
    have hhead : (buf.take 5).take 4 = crlfcrlf := by
      rw [List.take_take]
      exact occursAt_iff.1 hfirst.occurs
    rw [hoff, List.take_take, show min 5 (0 + 4) = min 4 5 from rfl, ← List.take_take, hhead]
    refine iff_of_false (by decide) fun heq => ?_
    rw [heq] at hhead
    exact absurd hhead (by decide)
  · rw [List.take_take, Nat.min_eq_left hge]

/-- **The status line is read inside the block**: three digits in front of its end leave room for the version. -/
theorem statusLine_eq {bodyOff : ℕ} (hfirst : FirstAt crlfcrlf buf i) (hoff : bodyOff = i + 4)
    (hlen : 12 ≤ buf.length) : statusLine buf bodyOff = .ok (Http.statusLine (buf.take bodyOff)) := by
  have hend : bodyOff ≤ buf.length := hoff ▸ hfirst.occurs.le (by decide)
  have hroom : 0 + (ascii "HTTP/").length ≤ buf.length := by
    rw [show (ascii "HTTP/").length = 5 from rfl]
    omega
  rw [statusLine, Http.statusLine, memcmp_eq hroom, ok_bind, List.drop_zero,
    show (ascii "HTTP/").length = 5 from rfl]
  by_cases hhttp : buf.take 5 = ascii "HTTP/"
  · obtain ⟨q, hscan, hle, hdrop, hspace⟩ := scanWhile_upTo (· != space) hend 5
    rw [if_pos (beq_iff_eq.2 hhttp), if_neg (not_not.2 ((httpName_iff hfirst hoff).2 hhttp)), hscan, ok_bind,
      show (buf.take bodyOff).drop 5 = upTo buf bodyOff 5 from rfl, hdrop]
    by_cases hin : bodyOff ≤ q
    · rw [if_pos hin, upTo_nil hin]
    · rw [if_neg hin, upTo_cons hend (by omega), load_eq (by omega), ok_bind, hspace (by omega),
        if_neg Bool.false_ne_true]
      dsimp only
      rw [upTo_length hend]
      by_cases hshort : bodyOff < q + 1 + 3
      · rw [if_pos hshort, decide_eq_true (show bodyOff - (q + 1) < 3 by omega)]
        rfl
      · rw [if_neg hshort, decide_eq_false (show ¬bodyOff - (q + 1) < 3 by omega), byteAt_upTo (by omega),
          byteAt_upTo (by omega), byteAt_upTo (by omega), byteAt_take (by omega), byteAt_take (by omega),
          byteAt_take (by omega), digitAt_eq (by omega), digitAt_eq (by omega), digitAt_eq (by omega),
          load_eq (by omega), load_eq (by omega), load_eq (by omega), keepaliveDefault_eq (by omega)]
        simp only [ok_bind, Nat.add_assoc, Nat.add_zero, Bool.false_or]
        cases isDigit (byteAt buf (q + 1)) <;> cases isDigit (byteAt buf (q + (1 + 1))) <;>
          cases isDigit (byteAt buf (q + (1 + 2))) <;> rfl
  · rw [if_neg (mt beq_iff_eq.1 hhttp), if_pos (mt (httpName_iff hfirst hoff).1 hhttp)]

/-! ### The whole parser -/

/-- The return code of a verdict, and `out` behind it. -/
def returned (out : OtlpHttpResp) : Bytes × RespVerdict → ℤ × Bytes × OtlpHttpResp
  | (buf, .needMore) => (0, buf, out)
  | (buf, .malformed) => (-1, buf, out)
  | (buf, .complete resp) => (1, buf, resp)

/-- **The parser by index is the parser on lists**: no read or write faults, and no loop runs out of rounds. -/
theorem otlpHttpRespParse_indexed (atEof : Bool) (out : OtlpHttpResp) (hint : buf.length < 2 ^ 31) :
    otlpHttpRespParse buf atEof out = .ok (returned out (Http.otlpHttpRespParse buf atEof)) := by
  rw [otlpHttpRespParse, Http.otlpHttpRespParse, parseHead, findSubstring_eq (by omega), ok_bind, List.drop_zero]
  cases hfind : Http.findSubstring buf crlfcrlf with
  | none => rfl
  | some i =>
    have hfirst := findSubstring_eq_some.1 hfind
    have hend : i + 4 ≤ buf.length := hfirst.occurs.le (by decide)
    have hpos : ¬(i : ℤ) < 0 := by omega
    rw [Option.map_some, Option.getD_some, int32_eq (by omega), if_neg hpos, Int.toNat_natCast]
    dsimp only
    by_cases hshort : buf.length < 12
    · rw [if_pos hshort, if_pos hshort]
      rfl
    · rw [if_neg hshort, if_neg hshort, statusLine_eq hfirst rfl (by omega), ok_bind]
      cases Http.statusLine (buf.take (i + 4)) with
      | none => rfl
      | some status =>
        obtain ⟨httpStatus, keepalive⟩ := status
        obtain ⟨q, hscan, -, hdrop, -⟩ := scanWhile_upTo (· != lf) hend 0
        rw [show upTo buf (i + 4) 0 = buf.take (i + 4) from rfl] at hdrop
        dsimp only
        rw [hscan, ok_bind, hdrop]
        by_cases hin : i + 4 ≤ q
        · rw [if_pos hin, upTo_nil hin]
          rfl
        · rw [if_neg hin, upTo_cons hend (by omega)]
          dsimp only
          rw [headerScan_eq _ hend (by unfold roundsOf; omega) (upTo_length hend).ge, ok_bind]
          cases hheaders : Http.headerScan (upTo buf (i + 4) (q + 1)).length
              { contentLength := none, teSeen := false, teChunked := false, retryAfterMs := 0,
                keepaliveEligible := keepalive } (upTo buf (i + 4) (q + 1)) with
          | none => rfl
          | some h =>
            dsimp only
            cases hte : h.teSeen with
            | true =>
              rw [if_pos rfl, if_pos rfl]
              cases hbad : h.contentLength.isSome || !h.teChunked with
              | true => rfl
              | false =>
                rw [if_neg Bool.false_ne_true, if_neg Bool.false_ne_true, decodeChunkedInPlace_eq (by omega)
                  (by omega), ok_bind]
                dsimp only
                cases (Http.decodeChunkedInPlace (buf.drop (i + 4))).2 <;> rfl
            | false =>
              rw [if_neg Bool.false_ne_true, if_neg Bool.false_ne_true]
              cases h.contentLength with
              | some n =>
                dsimp only
                by_cases hmore : buf.length - (i + 4) < n
                · rw [if_pos hmore, if_pos hmore]
                  rfl
                · rw [if_neg hmore, if_neg hmore]
                  rfl
              | none => cases atEof <;> rfl

/-- **The parser stays in bounds and ends.** On the first `len` bytes of any buffer no index is at or behind `len`
and no loop runs on; `out` is written with a response only, whose body lies inside of the `len` bytes. -/
theorem otlpHttpRespParse_inBounds (mem : Bytes) {len : ℕ} (hlen : len ≤ mem.length) (hint : len < 2 ^ 31)
    (atEof : Bool) (out : OtlpHttpResp) :
    (∃ rc buf out', otlpHttpRespParse (mem.take len) atEof out = .ok (rc, buf, out') ∧ buf.length = len ∧
      (rc ≠ 1 → out' = out) ∧ (rc = 1 → out'.bodyOff + out'.bodyLen ≤ len)) ∧
    (∀ off ≤ len, ∃ r, decodeChunkedInPlace (mem.take len) off (len - off) = .ok r) ∧
    ∀ off ≤ len, ∀ needle, ∃ r, findSubstring (mem.take len) off (len - off) needle = .ok r := by
  have htake : (mem.take len).length = len := List.length_take_of_le hlen
  refine ⟨?_, fun off hoff => ⟨_, decodeChunkedInPlace_eq (by omega) (by omega)⟩,
    fun off hoff needle => ⟨_, findSubstring_eq (by omega)⟩⟩
  rw [otlpHttpRespParse_indexed atEof out (by omega)]
  have hbuf := otlpHttpRespParse_length (mem.take len) atEof
  rw [htake] at hbuf
  cases hparse : Http.otlpHttpRespParse (mem.take len) atEof with
  | mk buf verdict =>
    rw [hparse] at hbuf
    cases verdict with
    | needMore => exact ⟨0, buf, out, rfl, hbuf, fun _ => rfl, fun h => absurd h (by decide)⟩
    | malformed => exact ⟨-1, buf, out, rfl, hbuf, fun _ => rfl, fun h => absurd h (by decide)⟩
    | complete resp =>
      obtain ⟨hd, n, -, rfl, hbody, -⟩ := exists_head_of_complete (congrArg Prod.snd hparse)
      rw [htake] at hbody
      exact ⟨1, buf, hd.resp n, rfl, hbuf, fun h => absurd rfl h, fun _ => hbody⟩

/-- A body of which two bytes have been received. -/
theorem otlpHttpRespParse_inBounds_truncated :
    let mem := ascii "HTTP/1.0 200 OK\r\nConnection: keep\r\n\r\nbody"
    let out : OtlpHttpResp :=
      { httpStatus := 0, retryAfterMs := 0, keepaliveEligible := false, bodyOff := 0, bodyLen := 0 }
    (∃ rc buf out', otlpHttpRespParse (mem.take 39) true out = .ok (rc, buf, out') ∧ buf.length = 39 ∧
      (rc ≠ 1 → out' = out) ∧ (rc = 1 → out'.bodyOff + out'.bodyLen ≤ 39)) ∧
    (∀ off ≤ 39, ∃ r, decodeChunkedInPlace (mem.take 39) off (39 - off) = .ok r) ∧
    ∀ off ≤ 39, ∀ needle, ∃ r, findSubstring (mem.take 39) off (39 - off) needle = .ok r := by
  intro mem out
  exact otlpHttpRespParse_inBounds mem (by decide) (by decide) true out

end OtlpC.Http.Indexed
