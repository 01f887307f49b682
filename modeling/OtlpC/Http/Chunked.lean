import OtlpC.Http.Response

/-!
# Chunked bodies

`decode_chunked_in_place` moves the data of a chunked body over its own framing. `unchunk` reads the same
body without a buffer: what one round finds depends on the bytes from `src` on (`chunkRound_drop`), which the
moves never reach, so that the decoder leaves exactly the payload that `unchunk` reads
(`decodeChunkedLoop_unchunk`). A verdict other than "need more" is settled by the bytes it was reached on
(`unchunk_append`).
-/

namespace OtlpC.Http

open Occurrence

/-! ### Bytes by position -/

theorem byteAt_drop (buf : Bytes) (n i : ℕ) : byteAt (buf.drop n) i = byteAt buf (n + i) := by
  simp [byteAt, List.getD_eq_getElem?_getD]

theorem byteAt_append {a : Bytes} {i : ℕ} (hi : i < a.length) (s : Bytes) : byteAt (a ++ s) i = byteAt a i := by
  simp [byteAt, List.getD_eq_getElem?_getD, List.getElem?_append_left hi]

theorem findSubstring_append {hay needle : Bytes} {i : ℕ} (hne : needle ≠ [])
    (h : findSubstring hay needle = some i) (s : Bytes) : findSubstring (hay ++ s) needle = some i :=
  findSubstring_eq_some.2 ((findSubstring_eq_some.1 h).append hne s)

theorem findSubstring_le {hay needle : Bytes} {i : ℕ} (hne : needle ≠ [])
    (h : findSubstring hay needle = some i) : i + needle.length ≤ hay.length :=
  (findSubstring_eq_some.1 h).occurs.le hne

theorem takeWhile_append_of_lt {α : Type*} {p : α → Bool} {a : List α}
    (h : (a.takeWhile p).length < a.length) (s : List α) : (a ++ s).takeWhile p = a.takeWhile p := by
  rw [List.takeWhile_append, if_neg (by omega)]

/-! ### The size line -/

/-- A byte of the size, before the extension and the CRLF. -/
def inSize (c : UInt8) : Bool := c != cr && c != semicolon

theorem chunkSizeLoop_digits {size digits : ℕ} {line : Bytes} {r : ℕ × ℕ}
    (h : chunkSizeLoop size digits line = some r) : r.2 = digits + (line.takeWhile inSize).length := by
  induction line generalizing size digits with
  | nil => rw [← Option.some.inj h]; rfl
  | cons c line ih =>
    rw [chunkSizeLoop] at h
    split at h
    next hstop =>
      have hc : inSize c = false := by simpa [inSize, or_iff_not_imp_left] using hstop
      rw [← Option.some.inj h, List.takeWhile_cons, hc]
      rfl
    next hgo =>
      have hc : inSize c = true := by simpa [inSize] using hgo
      split at h
      · contradiction
      split at h
      · contradiction
      rw [ih h, List.takeWhile_cons, if_pos hc, List.length_cons]
      omega

/-- What the loop finds before it runs out of bytes does not depend on more of them. -/
theorem chunkSizeLoop_append {a : Bytes} (s : Bytes) {size digits : ℕ}
    (h : ∀ r, chunkSizeLoop size digits a = some r → (a.takeWhile inSize).length < a.length) :
    chunkSizeLoop size digits (a ++ s) = chunkSizeLoop size digits a := by
  induction a generalizing size digits with
  | nil => exact absurd (h _ rfl) (Nat.lt_irrefl 0)
  | cons c a ih =>
    rw [List.cons_append, chunkSizeLoop, chunkSizeLoop]
    rw [chunkSizeLoop] at h
    split
    · rfl
    next hgo =>
      have hc : inSize c = true := by simpa [inSize] using hgo
      rw [if_neg hgo, List.takeWhile_cons, if_pos hc, List.length_cons, List.length_cons] at h
      split
      · rfl
      next d hd =>
        split
        · rfl
        next hsmall =>
          rw [hd] at h
          dsimp only at h
          rw [if_neg hsmall] at h
          exact ih fun r hr => by
            have hlt := h r hr
            omega

/-- The digits, and the extension up to the CR, are all before the first CR. -/
theorem lineEnd_eq (line : Bytes) : (line.takeWhile inSize).length +
    ((line.drop (line.takeWhile inSize).length).takeWhile (· != cr)).length =
      (line.takeWhile (· != cr)).length := by
  induction line with
  | nil => rfl
  | cons c line ih =>
    by_cases hc : inSize c = true
    · have hcr : (c != cr) = true := by
        simp only [inSize, Bool.and_eq_true] at hc
        exact hc.1
      rw [List.takeWhile_cons, if_pos hc, List.takeWhile_cons, if_pos hcr, List.length_cons,
        List.drop_succ_cons, List.length_cons, ← ih]
      omega
    · rw [List.takeWhile_cons, if_neg hc]
      simp

/-! ### One round -/

/-- A round reads from `src` on. -/
def ChunkRound.shift (src : ℕ) : ChunkRound → ChunkRound
  | .data off size => .data (src + off) size
  | r => r

theorem chunkRound_drop {buf : Bytes} {src : ℕ} (hsrc : src ≤ buf.length) :
    chunkRound buf src = (chunkRound (buf.drop src) 0).shift src := by
  unfold chunkRound
  simp only [Nat.zero_add, List.length_drop, List.drop_drop, byteAt_drop]
  cases chunkSizeLoop 0 0 (buf.drop src) with
  | none => rfl
  | some r =>
    obtain ⟨size, digits⟩ := r
    have hle : ∀ n, buf.length - src ≤ n ↔ buf.length ≤ src + n := fun n => by omega
    have hlt : ∀ n, buf.length - src < n ↔ buf.length < src + n := fun n => by omega
    simp only [hle, hlt, ← Nat.add_assoc]
    split
    · rfl
    split
    · rfl
    split
    · rfl
    split
    · split
      · rfl
      split
      · rfl
      split <;> rfl
    split
    · rfl
    split
    · rfl
    · simp only [ChunkRound.shift, Nat.add_assoc]

theorem chunkRound_data {rest : Bytes} {off size : ℕ} (h : chunkRound rest 0 = .data off size) :
    0 < off ∧ off + size + 2 ≤ rest.length := by
  unfold chunkRound at h
  simp only [List.drop_zero, Nat.zero_add] at h
  split at h
  · contradiction
  split at h
  · contradiction
  split at h
  · contradiction
  split at h
  · contradiction
  split at h
  · split at h
    · contradiction
    split at h
    · contradiction
    split at h <;> contradiction
  split at h
  · contradiction
  next hroom =>
  split at h
  · contradiction
  rw [ChunkRound.data.injEq] at h
  omega

/-- What a round decides is settled by the bytes it has. -/
theorem chunkRound_append {a : Bytes} {r : ChunkRound} (h : chunkRound a 0 = r) (hr : r ≠ .needMore)
    (s : Bytes) : chunkRound (a ++ s) 0 = r := by
  unfold chunkRound at h ⊢
  simp only [List.drop_zero, Nat.zero_add] at h ⊢
  cases hsize : chunkSizeLoop 0 0 a with
  | none =>
    rw [hsize] at h
    rw [chunkSizeLoop_append s (by simp [hsize]), hsize]
    exact h
  | some found =>
    obtain ⟨size, digits⟩ := found
    have hdigits : digits = 0 + (a.takeWhile inSize).length := chunkSizeLoop_digits hsize
    rw [hsize] at h
    dsimp only at h
    split at h
    · exact absurd h.symm hr
    next hmore =>
    simp only [Bool.or_eq_true, decide_eq_true_eq, not_or, Nat.not_le] at hmore
    rw [chunkSizeLoop_append s (fun _ _ => by omega), hsize]
    dsimp only
    rw [if_neg (by simp only [Bool.or_eq_true, decide_eq_true_eq, List.length_append]; omega)]
    split at h
    · exact absurd h.symm hr
    next hline =>
    rw [Nat.not_le] at hline
    have hlineEnd : ((a ++ s).drop digits).takeWhile (· != cr) = (a.drop digits).takeWhile (· != cr) := by
      rw [List.drop_append_of_le_length (by omega)]
      exact takeWhile_append_of_lt (by rw [List.length_drop]; omega) s
    rw [hlineEnd]
    generalize digits + ((a.drop digits).takeWhile (· != cr)).length = lineEnd at h hline ⊢
    rw [if_neg (by rw [List.length_append]; omega), byteAt_append hline]
    split at h
    next hlf => rw [if_pos hlf, h]
    next hlf =>
    rw [if_neg hlf]
    split at h
    next hlast =>
      rw [if_pos hlast]
      split at h
      · exact absurd h.symm hr
      next hroom =>
      have hdrop : (a ++ s).drop (lineEnd + 2) = a.drop (lineEnd + 2) ++ s :=
        List.drop_append_of_le_length (by rw [List.length_drop] at hroom; omega)
      rw [hdrop, if_neg (by rw [List.length_append]; omega), byteAt_append (by omega),
        byteAt_append (by omega)]
      split at h
      next hend => rw [if_pos hend, h]
      next hend =>
        rw [if_neg hend]
        split at h
        · exact absurd h.symm hr
        next i hfind => rw [findSubstring_append (by decide) hfind, h]
    next hdata =>
      rw [if_neg hdata]
      split at h
      · exact absurd h.symm hr
      next hroom =>
        rw [if_neg (by rw [List.length_append]; omega), byteAt_append (by omega), byteAt_append (by omega), h]

/-- How many bytes the trailer section and its CRLF take. -/
def trailerEnd (t : Bytes) : ℕ :=
  if byteAt t 0 == cr && byteAt t 1 == lf then 2 else (findSubstring t crlfcrlf).getD 0 + 4

/-- How many bytes the last chunk takes, with its size line and the trailer section. -/
def lastChunkEnd (rest : Bytes) : ℕ :=
  let lineEnd := (rest.takeWhile (· != cr)).length
  lineEnd + 2 + trailerEnd (rest.drop (lineEnd + 2))

theorem chunkRound_last {rest : Bytes} (h : chunkRound rest 0 = .last) :
    let t := rest.drop ((rest.takeWhile (· != cr)).length + 2)
    2 ≤ t.length ∧ ((byteAt t 0 == cr && byteAt t 1 == lf) = true ∨ ∃ i, findSubstring t crlfcrlf = some i) := by
  unfold chunkRound at h
  simp only [List.drop_zero, Nat.zero_add] at h
  split at h
  · contradiction
  next size digits hsize =>
  have hdigits : digits = 0 + (rest.takeWhile inSize).length := chunkSizeLoop_digits hsize
  rw [Nat.zero_add] at hdigits
  rw [hdigits, lineEnd_eq] at h
  split at h
  · contradiction
  split at h
  · contradiction
  split at h
  · contradiction
  split at h
  · split at h
    · contradiction
    next hroom =>
    refine ⟨Nat.not_lt.1 hroom, ?_⟩
    split at h
    next hend => exact .inl hend
    next hend =>
      split at h
      · contradiction
      next i hfind => exact .inr ⟨i, hfind⟩
  split at h
  · contradiction
  split at h <;> contradiction

theorem lastChunkEnd_le {rest : Bytes} (h : chunkRound rest 0 = .last) : lastChunkEnd rest ≤ rest.length := by
  obtain ⟨hroom, hend⟩ := chunkRound_last h
  rw [lastChunkEnd, trailerEnd]
  rw [List.length_drop] at hroom
  split
  · omega
  next hno =>
    obtain ⟨i, hi⟩ := hend.resolve_left hno
    have hle := findSubstring_le (by decide) hi
    have hlength : crlfcrlf.length = 4 := rfl
    rw [hi, Option.getD_some]
    rw [List.length_drop, hlength] at hle
    omega

theorem lastChunkEnd_append {a : Bytes} (h : chunkRound a 0 = .last) (s : Bytes) :
    lastChunkEnd (a ++ s) = lastChunkEnd a := by
  obtain ⟨hroom, hend⟩ := chunkRound_last h
  have hlength := hroom
  rw [List.length_drop] at hlength
  rw [lastChunkEnd, lastChunkEnd, takeWhile_append_of_lt (by omega) s,
    List.drop_append_of_le_length (by omega), trailerEnd, trailerEnd, byteAt_append (by omega),
    byteAt_append (by omega)]
  split
  · rfl
  next hno =>
    obtain ⟨i, hi⟩ := hend.resolve_left hno
    rw [hi, findSubstring_append (by decide) hi]

/-! ### The whole body -/

/-- What a chunked body says: its payload and the number of bytes it takes. -/
inductive Unchunked where
  | needMore
  | malformed
  | complete (payload : Bytes) (used : ℕ)
deriving Repr, DecidableEq

/-- What a body says that begins with a chunk of `used` bytes. -/
def Unchunked.after (data : Bytes) (used : ℕ) : Unchunked → Unchunked
  | .complete payload n => .complete (data ++ payload) (used + n)
  | r => r

/-- The rounds of the decoder on a body that nothing is moved in. -/
def unchunkLoop : ℕ → Bytes → Unchunked
  | 0, _ => .needMore
  | rounds + 1, rest =>
    match chunkRound rest 0 with
    | .needMore => .needMore
    | .malformed => .malformed
    | .last => .complete [] (lastChunkEnd rest)
    | .data off size =>
      (unchunkLoop rounds (rest.drop (off + size + 2))).after ((rest.drop off).take size) (off + size + 2)

def unchunk (rest : Bytes) : Unchunked := unchunkLoop (rest.length + 1) rest

/-- A round takes a byte off what is left, so that one round more than there are bytes is enough. -/
theorem unchunkLoop_eq {rounds : ℕ} {rest : Bytes} (h : rest.length < rounds) :
    unchunkLoop rounds rest = unchunk rest := by
  have henough : ∀ {n m : ℕ} {rest : Bytes}, rest.length < n → rest.length < m →
      unchunkLoop n rest = unchunkLoop m rest := by
    intro n
    induction n with
    | zero => intro m rest hn; omega
    | succ n ih =>
      intro m rest hn hm
      obtain ⟨m, rfl⟩ : ∃ k, m = k + 1 := ⟨m - 1, by omega⟩
      rw [unchunkLoop, unchunkLoop]
      cases hround : chunkRound rest 0 with
      | data off size =>
        obtain ⟨hoff, hle⟩ := chunkRound_data hround
        have hnext : unchunkLoop n (rest.drop (off + size + 2)) = unchunkLoop m (rest.drop (off + size + 2)) :=
          ih (by rw [List.length_drop]; omega) (by rw [List.length_drop]; omega)
        exact congrArg (Unchunked.after _ _) hnext
      | needMore => rfl
      | malformed => rfl
      | last => rfl
  exact henough h (Nat.lt_succ_self _)

theorem unchunk_of_data {rest : Bytes} {off size : ℕ} (h : chunkRound rest 0 = .data off size) :
    unchunk rest =
      (unchunk (rest.drop (off + size + 2))).after ((rest.drop off).take size) (off + size + 2) := by
  obtain ⟨hoff, hle⟩ := chunkRound_data h
  rw [unchunk, unchunkLoop, h]
  dsimp only
  rw [unchunkLoop_eq (by rw [List.length_drop]; omega)]

theorem unchunk_of_last {rest : Bytes} (h : chunkRound rest 0 = .last) :
    unchunk rest = .complete [] (lastChunkEnd rest) := by
  rw [unchunk, unchunkLoop, h]

theorem unchunk_of_needMore {rest : Bytes} (h : chunkRound rest 0 = .needMore) : unchunk rest = .needMore := by
  rw [unchunk, unchunkLoop, h]

theorem unchunk_of_malformed {rest : Bytes} (h : chunkRound rest 0 = .malformed) :
    unchunk rest = .malformed := by
  rw [unchunk, unchunkLoop, h]

/-- **Induction over a chunked body.** What holds of a body that no further chunk can be read from, and of a
chunk in front of a body it holds of, holds of every body. -/
theorem unchunk_induction {P : Bytes → Prop}
    (stop : ∀ rest, (∀ off size, chunkRound rest 0 ≠ .data off size) → P rest)
    (chunk : ∀ rest off size, chunkRound rest 0 = .data off size → P (rest.drop (off + size + 2)) → P rest)
    (rest : Bytes) : P rest := by
  induction hn : rest.length using Nat.strong_induction_on generalizing rest with
  | _ n ih =>
    by_cases hdata : ∃ off size, chunkRound rest 0 = .data off size
    · obtain ⟨off, size, hround⟩ := hdata
      obtain ⟨hoff, hle⟩ := chunkRound_data hround
      exact chunk rest off size hround (ih _ (by rw [List.length_drop]; omega) _ rfl)
    · exact stop rest fun off size h => hdata ⟨off, size, h⟩

theorem Unchunked.after_eq_complete {r : Unchunked} {data payload : Bytes} {used n : ℕ}
    (h : r.after data used = .complete payload n) :
    ∃ p m, r = .complete p m ∧ payload = data ++ p ∧ n = used + m := by
  cases r with
  | complete p m =>
    rw [Unchunked.after, Unchunked.complete.injEq] at h
    exact ⟨p, m, rfl, h.1.symm, h.2.symm⟩
  | needMore => cases h
  | malformed => cases h

theorem Unchunked.after_eq_needMore {r : Unchunked} {data : Bytes} {used : ℕ} :
    r.after data used = .needMore ↔ r = .needMore := by
  cases r <;> simp [Unchunked.after]

/-- A body that is complete lies in the bytes that are there. -/
theorem unchunk_used_le {rest payload : Bytes} {used : ℕ} (h : unchunk rest = .complete payload used) :
    used ≤ rest.length := by
  induction rest using unchunk_induction generalizing payload used with
  | stop rest hstop =>
    cases hround : chunkRound rest 0 with
    | last =>
      rw [unchunk_of_last hround, Unchunked.complete.injEq] at h
      exact h.2 ▸ lastChunkEnd_le hround
    | data off size => exact absurd hround (hstop off size)
    | needMore => rw [unchunk_of_needMore hround] at h; contradiction
    | malformed => rw [unchunk_of_malformed hround] at h; contradiction
  | chunk rest off size hround ih =>
    rw [unchunk_of_data hround] at h
    obtain ⟨p, m, hrest, -, rfl⟩ := Unchunked.after_eq_complete h
    obtain ⟨-, hle⟩ := chunkRound_data hround
    have hused := ih hrest
    rw [List.length_drop] at hused
    omega

/-- **A verdict on a chunked body is final**: the bytes that follow do not change it. -/
theorem unchunk_append {a : Bytes} (h : unchunk a ≠ .needMore) (s : Bytes) : unchunk (a ++ s) = unchunk a := by
  induction a using unchunk_induction with
  | stop a hstop =>
    cases hround : chunkRound a 0 with
    | last =>
      rw [unchunk_of_last hround, unchunk_of_last (chunkRound_append hround (by simp) s),
        lastChunkEnd_append hround]
    | data off size => exact absurd hround (hstop off size)
    | needMore => exact absurd (unchunk_of_needMore hround) h
    | malformed =>
      rw [unchunk_of_malformed hround, unchunk_of_malformed (chunkRound_append hround (by simp) s)]
  | chunk a off size hround ih =>
    obtain ⟨-, hle⟩ := chunkRound_data hround
    rw [unchunk_of_data hround, ne_eq, Unchunked.after_eq_needMore] at h
    have hrest : (a ++ s).drop (off + size + 2) = a.drop (off + size + 2) ++ s :=
      List.drop_append_of_le_length hle
    have hdata : ((a ++ s).drop off).take size = (a.drop off).take size := by
      rw [List.drop_append_of_le_length (by omega), List.take_append_of_le_length (by rw [List.length_drop]; omega)]
    rw [unchunk_of_data hround, unchunk_of_data (chunkRound_append hround (by simp) s), hrest, hdata, ih h]

/-! ### Decoding in place -/

section Memmove

variable {buf : Bytes} {dst src n : ℕ}

theorem length_memmove (hdst : dst ≤ src) (hsrc : src + n ≤ buf.length) :
    (memmove buf dst src n).length = buf.length := by
  simp only [memmove, List.length_append, List.length_take, List.length_drop]
  omega

theorem drop_memmove (hdst : dst ≤ src) (hsrc : src + n ≤ buf.length) {k : ℕ} (hk : dst + n ≤ k) :
    (memmove buf dst src n).drop k = buf.drop k := by
  have hlen : (buf.take dst ++ (buf.drop src).take n).length = dst + n := by
    simp only [List.length_append, List.length_take, List.length_drop]
    omega
  rw [memmove, List.drop_append, List.drop_eq_nil_of_le (by omega), hlen, List.nil_append, List.drop_drop,
    Nat.add_sub_cancel' hk]

theorem take_memmove (hdst : dst ≤ src) (hsrc : src + n ≤ buf.length) :
    (memmove buf dst src n).take (dst + n) = buf.take dst ++ (buf.drop src).take n := by
  refine List.take_left' ?_
  simp only [List.length_append, List.length_take, List.length_drop]
  omega

end Memmove

/-- The return value of the decoder with `dst` bytes decoded before. -/
def Unchunked.verdict (dst : ℕ) : Unchunked → ChunkVerdict
  | .needMore => .needMore
  | .malformed => .malformed
  | .complete payload _ => .complete (dst + payload.length)

theorem Unchunked.verdict_after (dst : ℕ) (r : Unchunked) (data : Bytes) (used : ℕ) :
    (r.after data used).verdict dst = r.verdict (dst + data.length) := by
  cases r with
  | complete payload n => simp [Unchunked.after, Unchunked.verdict, Nat.add_assoc]
  | needMore => rfl
  | malformed => rfl

/-- **Decoding in place** gives the verdict and leaves the payload that reading the body without moving
anything does: what is unread is never written to. -/
theorem decodeChunkedLoop_unchunk {rounds : ℕ} {buf : Bytes} {src dst : ℕ} (hdst : dst ≤ src)
    (hsrc : src ≤ buf.length) :
    (decodeChunkedLoop rounds buf src dst).1.length = buf.length ∧
      (decodeChunkedLoop rounds buf src dst).2 = (unchunkLoop rounds (buf.drop src)).verdict dst ∧
      ∀ payload used, unchunkLoop rounds (buf.drop src) = .complete payload used →
        (decodeChunkedLoop rounds buf src dst).1.take (dst + payload.length) = buf.take dst ++ payload := by
  induction rounds generalizing buf src dst with
  | zero =>
    refine ⟨rfl, rfl, fun payload used h => ?_⟩
    cases h
  | succ rounds ih =>
    rw [decodeChunkedLoop, unchunkLoop, chunkRound_drop hsrc]
    cases hround : chunkRound (buf.drop src) 0 with
    | needMore => exact ⟨rfl, rfl, fun payload used h => by cases h⟩
    | malformed => exact ⟨rfl, rfl, fun payload used h => by cases h⟩
    | last =>
      refine ⟨rfl, rfl, fun payload used h => ?_⟩
      cases h
      simp [ChunkRound.shift]
    | data off size =>
      obtain ⟨hoff, hle⟩ := chunkRound_data hround
      rw [List.length_drop] at hle
      have hmoved : (memmove buf dst (src + off) size).drop (src + off + size + 2) =
          (buf.drop src).drop (off + size + 2) := by
        rw [drop_memmove (by omega) (by omega) (by omega), List.drop_drop]
        congr 1
        omega
      have hmovedLen : (memmove buf dst (src + off) size).length = buf.length :=
        length_memmove (by omega) (by omega)
      obtain ⟨hlen, hverdict, hpayload⟩ :=
        @ih (memmove buf dst (src + off) size) (src + off + size + 2) (dst + size) (by omega) (by omega)
      rw [hmoved] at hverdict hpayload
      have hdataLen : ((List.drop off (buf.drop src)).take size).length = size := by
        simp only [List.length_take, List.length_drop]
        omega
      dsimp only [ChunkRound.shift]
      refine ⟨hlen.trans hmovedLen, ?_, fun payload used h => ?_⟩
      · rw [hverdict, Unchunked.verdict_after, hdataLen]
      · obtain ⟨p, m, hrest, rfl, -⟩ := Unchunked.after_eq_complete h
        have htake := hpayload p m hrest
        rw [take_memmove (by omega) (by omega)] at htake
        rw [List.length_append, hdataLen, ← Nat.add_assoc, htake, List.drop_drop, List.append_assoc]

theorem decodeChunkedInPlace_length (buf : Bytes) : (decodeChunkedInPlace buf).1.length = buf.length :=
  (decodeChunkedLoop_unchunk (Nat.le_refl 0) (Nat.zero_le _)).1

theorem decodeChunkedInPlace_snd (buf : Bytes) : (decodeChunkedInPlace buf).2 = (unchunk buf).verdict 0 :=
  (decodeChunkedLoop_unchunk (Nat.le_refl 0) (Nat.zero_le _)).2.1

theorem decodeChunkedInPlace_payload {buf payload : Bytes} {used : ℕ}
    (h : unchunk buf = .complete payload used) :
    (decodeChunkedInPlace buf).1.take payload.length = payload := by
  have htake := (@decodeChunkedLoop_unchunk (buf.length + 1) buf 0 0 (Nat.le_refl 0)
    (Nat.zero_le _)).2.2 payload used h
  rwa [Nat.zero_add, List.take_zero, List.nil_append] at htake

theorem length_payload_le {buf payload : Bytes} {used : ℕ} (h : unchunk buf = .complete payload used) :
    payload.length ≤ buf.length := by
  have hlen := congrArg List.length (decodeChunkedInPlace_payload h)
  rw [List.length_take, decodeChunkedInPlace_length] at hlen
  omega

end OtlpC.Http
