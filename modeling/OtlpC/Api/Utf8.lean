import OtlpC.Api.Heap
import OtlpC.Http.Indexed

/-!
# The UTF-8 check is exact

`otlp_str_is_utf8` accepts the encodings of characters and nothing else. It is written down once more as it moves
through memory, where every read behind the terminating NUL faults: a NUL is no continuation byte, so a sequence
that it cuts short is left there.
-/

namespace OtlpC.Api

open Exporter Http.Indexed

/-! ### What is valid is accepted -/

theorem short_ranges : ∀ n < 256,
    (n / 32 = 6 → 128 ≤ n ∧ n &&& 0xe0 = 0xc0 ∧ n &&& 0x1f = n % 32) ∧
    (n / 16 = 14 → 128 ≤ n ∧ n &&& 0xe0 ≠ 0xc0 ∧ n &&& 0xf0 = 0xe0 ∧ n &&& 0x0f = n % 16) := by decide +kernel

theorem long_ranges : ∀ n < 256,
    (n / 8 = 30 → 128 ≤ n ∧ n &&& 0xe0 ≠ 0xc0 ∧ n &&& 0xf0 ≠ 0xe0 ∧ n &&& 0xf8 = 0xf0 ∧ n &&& 0x07 = n % 8) ∧
    (n / 64 = 2 → n &&& 0xc0 = 0x80 ∧ n &&& 0x3f = n % 64) := by decide +kernel

theorem lead_two : ∀ n < 256, n / 32 = 6 → 128 ≤ n ∧ n &&& 0xe0 = 0xc0 ∧ n &&& 0x1f = n % 32 :=
  fun n hn => (short_ranges n hn).1

theorem lead_three : ∀ n < 256, n / 16 = 14 →
    128 ≤ n ∧ n &&& 0xe0 ≠ 0xc0 ∧ n &&& 0xf0 = 0xe0 ∧ n &&& 0x0f = n % 16 :=
  fun n hn => (short_ranges n hn).2

theorem lead_four : ∀ n < 256, n / 8 = 30 →
    128 ≤ n ∧ n &&& 0xe0 ≠ 0xc0 ∧ n &&& 0xf0 ≠ 0xe0 ∧ n &&& 0xf8 = 0xf0 ∧ n &&& 0x07 = n % 8 :=
  fun n hn => (long_ranges n hn).1

theorem tail_byte : ∀ n < 256, n / 64 = 2 → n &&& 0xc0 = 0x80 ∧ n &&& 0x3f = n % 64 :=
  fun n hn => (long_ranges n hn).2

/-- The byte that leads a sequence: how many continuation bytes follow, its bits and the least code point. -/
def utf8Lead (c : UInt8) : Option (ℕ × ℕ × ℕ) :=
  if c &&& 0xe0 == 0xc0 then some (1, (c &&& 0x1f).toNat, 0x80)
  else if c &&& 0xf0 == 0xe0 then some (2, (c &&& 0x0f).toNat, 0x800)
  else if c &&& 0xf8 == 0xf0 then some (3, (c &&& 0x07).toNat, 0x10000)
  else none

theorem and_beq {c m v : UInt8} : (c &&& m == v) = true ↔ c.toNat &&& m.toNat = v.toNat := by
  rw [beq_iff_eq, ← UInt8.toNat_inj, UInt8.toNat_and]

theorem utf8Lead_two {c : UInt8} (hc : c.toNat / 32 = 6) : utf8Lead c = some (1, c.toNat % 32, 0x80) := by
  obtain ⟨-, hmask, hbits⟩ := lead_two _ c.toNat_lt hc
  rw [utf8Lead, if_pos (and_beq.2 hmask), UInt8.toNat_and]
  exact congrArg (fun n => some (1, n, 0x80)) hbits

theorem utf8Lead_three {c : UInt8} (hc : c.toNat / 16 = 14) : utf8Lead c = some (2, c.toNat % 16, 0x800) := by
  obtain ⟨-, hnot, hmask, hbits⟩ := lead_three _ c.toNat_lt hc
  rw [utf8Lead, if_neg fun h => hnot (and_beq.1 h), if_pos (and_beq.2 hmask), UInt8.toNat_and]
  exact congrArg (fun n => some (2, n, 0x800)) hbits

theorem utf8Lead_four {c : UInt8} (hc : c.toNat / 8 = 30) : utf8Lead c = some (3, c.toNat % 8, 0x10000) := by
  obtain ⟨-, hnot, hnot', hmask, hbits⟩ := lead_four _ c.toNat_lt hc
  rw [utf8Lead, if_neg fun h => hnot (and_beq.1 h), if_neg fun h => hnot' (and_beq.1 h), if_pos (and_beq.2 hmask),
    UInt8.toNat_and]
  exact congrArg (fun n => some (3, n, 0x10000)) hbits

theorem utf8Tail_cons {need cp : ℕ} {c : UInt8} {p : Bytes} (hc : c.toNat / 64 = 2) :
    utf8Tail (need + 1) cp (c :: p) = utf8Tail need (cp * 64 + c.toNat % 64) p := by
  obtain ⟨hmask, hbits⟩ := tail_byte _ c.toNat_lt hc
  have hbeq : (c &&& 0xc0 != 0x80) = false := by
    rw [bne, and_beq.2 hmask]
    rfl
  rw [utf8Tail, hbeq, UInt8.toNat_and]
  exact congrArg (fun n => utf8Tail need (cp * 64 + n) p) hbits

theorem utf8Loop_cons {rounds : ℕ} {c : UInt8} {p : Bytes} (hc : 128 ≤ c.toNat) :
    utf8Loop (rounds + 1) (c :: p) =
      match utf8Lead c with
      | none => false
      | some (need, cp, cpMin) =>
        match utf8Tail need cp p with
        | none => false
        | some (cp, p) =>
          if cp < cpMin then false
          else if 0xd800 ≤ cp && cp ≤ 0xdfff then false
          else if 0x10ffff < cp then false
          else utf8Loop rounds p := by
  have hascii : ¬c < 0x80 := by
    rw [UInt8.lt_iff_toNat_lt]
    exact not_lt.2 hc
  rw [utf8Loop, if_neg hascii]
  rfl

theorem utf8Loop_checked {rounds cp cpMin : ℕ} {p : Bytes} (hmin : cpMin ≤ cp) (hscalar : Utf8.IsScalar cp) :
    (if cp < cpMin then false
      else if 0xd800 ≤ cp && cp ≤ 0xdfff then false
      else if 0x10ffff < cp then false
      else utf8Loop rounds p) = utf8Loop rounds p := by
  unfold Utf8.IsScalar at hscalar
  rw [if_neg (not_lt.2 hmin), if_neg, if_neg (by omega)]
  simp only [Bool.and_eq_true, decide_eq_true_eq]
  omega

theorem utf8Loop_encoded {rounds : ℕ} {bs p : Bytes} (h : Utf8.Encoded bs) :
    utf8Loop (rounds + 1) (bs ++ p) = utf8Loop rounds p := by
  cases h with
  | one h =>
    rw [List.cons_append, utf8Loop, if_pos (UInt8.lt_iff_toNat_lt.2 h)]
    rfl
  | @two a b ha hb hmin =>
    rw [List.cons_append, List.cons_append, List.nil_append, utf8Loop_cons (by omega), utf8Lead_two ha]
    dsimp only
    rw [utf8Tail_cons hb, utf8Tail]
    exact utf8Loop_checked hmin (.inl (by omega))
  | three ha hb hc hmin hscalar =>
    rw [List.cons_append, List.cons_append, List.cons_append, List.nil_append, utf8Loop_cons (by omega),
      utf8Lead_three ha]
    dsimp only
    rw [utf8Tail_cons hb, utf8Tail_cons hc, utf8Tail]
    exact utf8Loop_checked hmin hscalar
  | four ha hb hc hd hmin hscalar =>
    rw [List.cons_append, List.cons_append, List.cons_append, List.cons_append, List.nil_append,
      utf8Loop_cons (by omega), utf8Lead_four ha]
    dsimp only
    rw [utf8Tail_cons hb, utf8Tail_cons hc, utf8Tail_cons hd, utf8Tail]
    exact utf8Loop_checked hmin hscalar

theorem utf8Loop_encode (cs : List Char) (rounds : ℕ) : utf8Loop rounds (cs.flatMap String.utf8EncodeChar) = true := by
  induction cs generalizing rounds with
  | nil => cases rounds <;> rfl
  | cons c cs ih =>
    cases rounds with
    | zero => rfl
    | succ rounds =>
      rw [List.flatMap_cons, utf8Loop_encoded (Utf8.encoded_utf8EncodeChar c)]
      exact ih rounds

/-- **The check accepts exactly the valid strings.** -/
theorem otlpStrIsUtf8_iff {s : Bytes} : otlpStrIsUtf8 s = true ↔ ValidUtf8 s := by
  refine ⟨otlpStrIsUtf8_sound, ?_⟩
  rintro ⟨cs, rfl⟩
  exact utf8Loop_encode cs _

/-! ### What is read -/

/-- The `for` over the continuation bytes of the sequence at `p`: the code point, if all of them are there. -/
def tailLoop (mem : Bytes) (p i : ℕ) : ℕ → ℕ → Checked (Option ℕ)
  | 0, cp => .ok (some cp)
  | need + 1, cp => do
    let cc ← load mem (p + 1 + i)
    if cc &&& 0xc0 != 0x80 then .ok none else tailLoop mem p (i + 1) need (cp * 64 + (cc &&& 0x3f).toNat)

/-- The `while (*p)` of `otlp_str_is_utf8`. -/
def strLoop (mem : Bytes) : ℕ → ℕ → Checked Bool
  | 0, _ => .error .diverged
  | rounds + 1, p => do
    let c ← load mem p
    if c == 0 then .ok true
    else if c < 0x80 then strLoop mem rounds (p + 1)
    else
      match utf8Lead c with
      | none => .ok false
      | some (need, cp, cpMin) => do
        match ← tailLoop mem p 0 need cp with
        | none => .ok false
        | some cp =>
          if cp < cpMin then .ok false
          else if 0xd800 ≤ cp && cp ≤ 0xdfff then .ok false
          else if 0x10ffff < cp then .ok false
          else strLoop mem rounds (p + need + 1)

/-- `otlp_str_is_utf8` of the string at the start of `mem`. -/
def strIsUtf8At (mem : Bytes) : Checked Bool := strLoop mem mem.length 0

theorem load_append (pre rest : Bytes) (c : UInt8) : load (pre ++ c :: rest) pre.length = .ok c := by
  rw [load, if_pos (by simp)]
  simp [Http.byteAt]

/-- The `for` does with the string behind `pre` what `utf8Tail` does, and stops at the NUL at the latest. -/
theorem tailLoop_eq {p i need cp : ℕ} {pre q : Bytes} (hp : p + 1 + i = pre.length) :
    tailLoop (pre ++ (q ++ [0])) p i need cp = .ok ((utf8Tail need cp q).map Prod.fst) := by
  induction need generalizing i cp pre q with
  | zero => rfl
  | succ need ih =>
    cases q with
    | nil =>
      rw [tailLoop, hp]
      exact congrArg (Except.bind · _) (load_append pre [] 0)
    | cons c q =>
      have hnext := @ih (i + 1) (cp * 64 + (c &&& 0x3f).toNat) (pre ++ [c]) q
        (by simp only [List.length_append, List.length_singleton]; omega)
      rw [List.append_assoc] at hnext
      rw [tailLoop, hp]
      refine (congrArg (Except.bind · _) (load_append pre (q ++ [0]) c)).trans ?_
      change (if (c &&& 0xc0 != 0x80) = true then Except.ok none else _) = _
      rw [utf8Tail]
      split
      · rfl
      · exact hnext

theorem utf8Tail_length {need cp cp' : ℕ} {q rest : Bytes} (h : utf8Tail need cp q = some (cp', rest)) :
    ∃ seq, q = seq ++ rest ∧ seq.length = need := by
  induction need generalizing cp q with
  | zero =>
    obtain ⟨-, rfl⟩ := utf8Tail_zero h
    exact ⟨[], rfl, rfl⟩
  | succ need ih =>
    obtain ⟨c, q, rfl, -, hq⟩ := utf8Tail_succ h
    obtain ⟨seq, rfl, rfl⟩ := ih hq
    exact ⟨c :: seq, rfl, rfl⟩

theorem strLoop_eq {rounds : ℕ} {pre q : Bytes} (hnul : 0 ∉ q) (hrounds : q.length ≤ rounds) :
    strLoop (pre ++ (q ++ [0])) (rounds + 1) pre.length = .ok (utf8Loop rounds q) := by
  induction rounds generalizing pre q with
  | zero =>
    rw [List.length_eq_zero_iff.1 (Nat.le_zero.1 hrounds), strLoop]
    exact congrArg (Except.bind · _) (load_append pre [] 0)
  | succ rounds ih =>
    cases q with
    | nil =>
      rw [strLoop]
      exact congrArg (Except.bind · _) (load_append pre [] 0)
    | cons c q =>
      rw [List.length_cons] at hrounds
      rw [List.mem_cons, not_or] at hnul
      obtain ⟨hc, hnul⟩ := hnul
      have hzero : (c == 0) = false := beq_false_of_ne (Ne.symm hc)
      rw [strLoop]
      refine (congrArg (Except.bind · _) (load_append pre (q ++ [0]) c)).trans ?_
      change (if (c == 0) = true then Except.ok true else _) = _
      rw [hzero, if_neg Bool.false_ne_true]
      by_cases hascii : c < 0x80
      · have hnext := @ih (pre ++ [c]) q hnul (by omega)
        rw [List.append_assoc, List.length_append, List.length_singleton] at hnext
        rw [if_pos hascii, utf8Loop, if_pos hascii]
        exact hnext
      rw [if_neg hascii, utf8Loop_cons (not_lt.1 fun h => hascii (UInt8.lt_iff_toNat_lt.2 h))]
      cases utf8Lead c with
      | none => rfl
      | some lead =>
        obtain ⟨need, cp, cpMin⟩ := lead
        dsimp only
        have htail := @tailLoop_eq pre.length 0 need cp (pre ++ [c]) q (by simp)
        rw [List.append_assoc] at htail
        refine (congrArg (Except.bind · _) htail).trans ?_
        cases hseq : utf8Tail need cp q with
        | none => rfl
        | some tail =>
          obtain ⟨cp', rest⟩ := tail
          obtain ⟨seq, rfl, rfl⟩ := utf8Tail_length hseq
          have hnext := @ih (pre ++ c :: seq) rest (fun h => hnul (List.mem_append_right _ h))
            (by rw [List.length_append] at hrounds; omega)
          have hmem : pre ++ c :: seq ++ (rest ++ [0]) = pre ++ (c :: (seq ++ rest) ++ [0]) := by simp
          have hlength : (pre ++ c :: seq).length = pre.length + seq.length + 1 := by simp; omega
          rw [hmem, hlength] at hnext
          change (if cp' < cpMin then Except.ok false
            else if (decide (0xd800 ≤ cp') && decide (cp' ≤ 0xdfff)) = true then Except.ok false
            else if 0x10ffff < cp' then Except.ok false
            else strLoop _ (rounds + 1) (pre.length + seq.length + 1)) = Except.ok (if cp' < cpMin then false
              else if (decide (0xd800 ≤ cp') && decide (cp' ≤ 0xdfff)) = true then false
              else if 0x10ffff < cp' then false
              else utf8Loop rounds rest)
          rw [hnext]
          split_ifs <;> rfl

/-- **The UTF-8 check is exact.** It accepts a NUL-terminated string exactly when it is the encoding of characters,
and reads nothing behind its NUL. -/
theorem strIsUtf8At_exact {s : Bytes} (hnul : 0 ∉ s) :
    ∃ b, strIsUtf8At (s ++ [0]) = .ok b ∧ (b = true ↔ ValidUtf8 s) := by
  refine ⟨otlpStrIsUtf8 s, ?_, otlpStrIsUtf8_iff⟩
  rw [strIsUtf8At, List.length_append, List.length_singleton]
  exact @strLoop_eq _ [] s hnul le_rfl

/-- A sequence of three bytes is valid, and cut short by the NUL it is not. -/
theorem strIsUtf8At_exact_three_bytes :
    ValidUtf8 [0xe2, 0x82, 0xac] ∧ ¬ValidUtf8 [0xe2, 0x82] := by
  obtain ⟨b, hb, hvalid⟩ := strIsUtf8At_exact (s := [0xe2, 0x82, 0xac]) (by decide)
  obtain ⟨b', hb', hvalid'⟩ := strIsUtf8At_exact (s := [0xe2, 0x82]) (by decide)
  have hwhole : strIsUtf8At [0xe2, 0x82, 0xac, 0] = .ok true := by decide
  have hcut : strIsUtf8At [0xe2, 0x82, 0] = .ok false := by decide
  constructor
  · exact hvalid.1 (Except.ok.inj (hb.symm.trans hwhole))
  · rw [← hvalid', Except.ok.inj (hb'.symm.trans hcut)]
    exact Bool.false_ne_true

end OtlpC.Api
