import OtlpC.Lib.Proto3

/-!
# The grammar of the proto3 wire format

Which byte strings are messages, and with which fields, whoever wrote them: a varint may be longer than it has to
be, fields stand in any order and numbers repeat. `message` writes one of the encodings.
-/

namespace OtlpC.Proto3

/-- A varint of at most `n` bytes, and the number that its digits denote. -/
inductive Digits : ℕ → List UInt8 → ℕ → Prop where
  | last {n : ℕ} {b : UInt8} (hb : b.toNat < 128) : Digits (n + 1) [b] b.toNat
  | more {n m : ℕ} {b : UInt8} {bs : List UInt8} (hb : 128 ≤ b.toNat) (hbs : Digits n bs m) :
      Digits (n + 1) (b :: bs) (b.toNat - 128 + 128 * m)

/-- A varint of at most ten bytes, and the 64-bit value that it denotes. -/
def IsVarint (bs : List UInt8) (v : UInt64) : Prop := ∃ m, Digits 10 bs m ∧ v = UInt64.ofNat m

/-- The key of a field with the number and the wire type. -/
def IsKey (bs : List UInt8) (number wireType : ℕ) : Prop :=
  ∃ v, IsVarint bs v ∧ v.toNat / 8 = number ∧ v.toNat % 8 = wireType ∧ number ≠ 0

/-- What follows the key of the field. -/
inductive IsValue : List UInt8 → Field → Prop where
  | varint {bs : List UInt8} {n : ℕ} {v : UInt64} (hv : IsVarint bs v) : IsValue bs (.varint n v)
  | i64 {bs : List UInt8} {n : ℕ} (hlength : bs.length = 8) : IsValue bs (.i64 n (UInt64.ofNat (ofLe bs)))
  | len {l p : List UInt8} {n : ℕ} {v : UInt64} (hl : IsVarint l v) (hp : v.toNat = p.length) :
      IsValue (l ++ p) (.len n p)
  | i32 {bs : List UInt8} {n : ℕ} (hlength : bs.length = 4) : IsValue bs (.i32 n (UInt32.ofNat (ofLe bs)))

/-- The bytes are the fields, complete, one after the other. -/
inductive IsMessage : List UInt8 → List Field → Prop where
  | nil : IsMessage [] []
  | cons {key bs rest : List UInt8} {f : Field} {fs : List Field} (hkey : IsKey key f.number f.wireType)
      (hvalue : IsValue bs f) (hfs : IsMessage rest fs) : IsMessage (key ++ (bs ++ rest)) (f :: fs)

/-! ### Where a varint ends -/

theorem Digits.ne_nil {n m : ℕ} {bs : List UInt8} (h : Digits n bs m) : bs ≠ [] := by
  cases h <;> exact List.cons_ne_nil _ _

theorem Digits.unique {n n' m m' : ℕ} {bs bs' rest rest' : List UInt8} (h : Digits n bs m) (h' : Digits n' bs' m')
    (heq : bs ++ rest = bs' ++ rest') : bs = bs' ∧ m = m' ∧ rest = rest' := by
  induction h generalizing n' m' bs' with
  | last hb =>
    cases h' with
    | last hb' =>
      obtain ⟨rfl, rfl⟩ := List.cons.inj heq
      exact ⟨rfl, rfl, rfl⟩
    | more hb' _ =>
      obtain ⟨rfl, -⟩ := List.cons.inj heq
      omega
  | more hb _ ih =>
    cases h' with
    | last hb' =>
      obtain ⟨rfl, -⟩ := List.cons.inj heq
      omega
    | more hb' hbs' =>
      obtain ⟨rfl, htail⟩ := List.cons.inj heq
      obtain ⟨rfl, rfl, rfl⟩ := ih hbs' htail
      exact ⟨rfl, rfl, rfl⟩

/-- Bytes that all have the top bit are not the start of a varint that is no longer. -/
theorem Digits.not_unfinished {n m : ℕ} {bs rest k rest' : List UInt8} (h : Digits n bs m)
    (heq : bs ++ rest = k ++ rest') (hall : ∀ b ∈ k, 128 ≤ b.toNat) : k.length < n ∧ rest' ≠ [] := by
  induction h generalizing k with
  | last hb =>
    cases k with
    | nil => exact ⟨Nat.succ_pos _, by rw [← List.nil_append rest', ← heq]; exact List.cons_ne_nil _ _⟩
    | cons c k =>
      obtain ⟨rfl, -⟩ := List.cons.inj heq
      have := hall _ List.mem_cons_self
      omega
  | more hb _ ih =>
    cases k with
    | nil => exact ⟨Nat.succ_pos _, by rw [← List.nil_append rest', ← heq]; exact List.cons_ne_nil _ _⟩
    | cons c k =>
      obtain ⟨hlt, hne⟩ := ih (List.cons.inj heq).2 fun b hb => hall b (List.mem_cons_of_mem c hb)
      exact ⟨Nat.succ_lt_succ hlt, hne⟩

theorem IsVarint.ne_nil {bs : List UInt8} {v : UInt64} (h : IsVarint bs v) : bs ≠ [] := by
  obtain ⟨m, hm, -⟩ := h
  exact hm.ne_nil

theorem IsKey.ne_nil {bs : List UInt8} {n t : ℕ} (h : IsKey bs n t) : bs ≠ [] := by
  obtain ⟨v, hv, -⟩ := h
  exact hv.ne_nil

theorem IsValue.ne_nil {bs : List UInt8} {f : Field} (h : IsValue bs f) : bs ≠ [] := by
  cases h with
  | varint hv => exact hv.ne_nil
  | i64 hlength | i32 hlength => exact List.ne_nil_of_length_pos (by omega)
  | len hl _ => exact List.append_ne_nil_of_left_ne_nil hl.ne_nil _

/-! ### How long a varint is -/

theorem Digits.length_le {n m : ℕ} {bs : List UInt8} (h : Digits n bs m) : bs.length ≤ n := by
  induction h with
  | last _ => exact Nat.succ_le_succ (Nat.zero_le _)
  | more _ _ ih => exact Nat.succ_le_succ ih

theorem Digits.lt_pow {n m : ℕ} {bs : List UInt8} (h : Digits n bs m) : m < 128 ^ bs.length := by
  induction h with
  | last hb => simpa using hb
  | @more n m b bs _ _ ih =>
    have hbyte := b.toNat_lt
    rw [List.length_cons, pow_succ]
    omega

theorem Digits.exists_last {n m : ℕ} {bs : List UInt8} (h : Digits n bs m) : ∃ b ∈ bs, b.toNat < 128 := by
  induction h with
  | @last n b hb => exact ⟨b, List.mem_singleton_self b, hb⟩
  | more _ _ ih =>
    obtain ⟨b, hmem, hb⟩ := ih
    exact ⟨b, List.mem_cons_of_mem _ hmem, hb⟩

theorem Digits.eq_of_length {n n' m m' : ℕ} {bs bs' : List UInt8} (h : Digits n bs m) (h' : Digits n' bs' m')
    (hm : m = m') (hlength : bs.length = bs'.length) : bs = bs' := by
  induction h generalizing n' m' bs' with
  | @last n b hb =>
    cases h' with
    | last hb' => rw [UInt8.toNat_inj.1 hm]
    | more _ hbs' => exact absurd (List.length_eq_zero_iff.1 (Nat.succ.inj hlength).symm) hbs'.ne_nil
  | @more n m b bs hb hbs ih =>
    cases h' with
    | last _ => exact absurd (List.length_eq_zero_iff.1 (Nat.succ.inj hlength)) hbs.ne_nil
    | @more n' m' b' bs' hb' hbs' =>
      have hlt := b.toNat_lt
      have hlt' := b'.toNat_lt
      have hbyte : b = b' := by
        apply UInt8.toNat_inj.1
        omega
      rw [hbyte, ih hbs' (by omega) (Nat.succ.inj hlength)]

theorem length_putVarint_le (digits : ℕ) {k n : ℕ} (hk : 0 < k) (hn : n < 128 ^ k) :
    (putVarint digits n).length ≤ k := by
  induction digits generalizing k n with
  | zero => exact Nat.zero_le _
  | succ digits ih =>
    rw [putVarint]
    split
    · exact hk
    · next hlarge =>
      obtain ⟨k, rfl⟩ : ∃ j, k = j + 1 := ⟨k - 1, by omega⟩
      have hdiv : n / 128 < 128 ^ k := by
        rw [Nat.div_lt_iff_lt_mul (by decide), ← pow_succ]
        exact hn
      have hpos : 0 < k := by
        apply Nat.pos_of_ne_zero
        rintro rfl
        exact hlarge (by simpa using hn)
      exact Nat.succ_le_succ (ih hpos hdiv)

/-- Of the varints of a number, the one that is written is the shortest. -/
theorem Digits.length_varint_le {n m : ℕ} {bs : List UInt8} (h : Digits n bs m) :
    (varint m).length ≤ bs.length :=
  length_putVarint_le 10 (List.length_pos_of_ne_nil h.ne_nil) h.lt_pow

/-! ### What `message` writes -/

theorem digits_putVarint (n : ℕ) {v : ℕ} (hv : v < 128 ^ (n + 1)) : Digits (n + 1) (putVarint (n + 1) v) v := by
  induction n generalizing v with
  | zero =>
    have hv : v < 128 := by simpa using hv
    have hbyte : (UInt8.ofNat v).toNat = v := by
      rw [UInt8.toNat_ofNat']
      omega
    have hlast := @Digits.last 0 (UInt8.ofNat v) (by omega)
    rw [hbyte] at hlast
    rwa [putVarint, if_pos hv]
  | succ n ih =>
    rw [putVarint]
    split
    · next hsmall =>
      have hbyte : (UInt8.ofNat v).toNat = v := by
        rw [UInt8.toNat_ofNat']
        omega
      have hlast := @Digits.last (n + 1) (UInt8.ofNat v) (by omega)
      rwa [hbyte] at hlast
    · have hbyte : (UInt8.ofNat (v % 128 + 128)).toNat = v % 128 + 128 := by
        rw [UInt8.toNat_ofNat']
        omega
      have hdiv : v / 128 < 128 ^ (n + 1) := by
        rw [Nat.div_lt_iff_lt_mul (by decide), ← pow_succ]
        exact hv
      have hmore := Digits.more (b := UInt8.ofNat (v % 128 + 128)) (by omega) (ih hdiv)
      rwa [hbyte, show v % 128 + 128 - 128 + 128 * (v / 128) = v by omega] at hmore

theorem isVarint_varint {n : ℕ} (hn : n < 2 ^ 64) : IsVarint (varint n) (UInt64.ofNat n) :=
  ⟨n, digits_putVarint 9 (hn.trans (by decide)), rfl⟩

theorem isKey_varint {n t : ℕ} (hn : 0 < n ∧ n < 2 ^ 29) (ht : t < 8) : IsKey (varint (n * 8 + t)) n t := by
  have hlt : n * 8 + t < 2 ^ 64 := by omega
  have hvalue : (UInt64.ofNat (n * 8 + t)).toNat = n * 8 + t := by
    rw [UInt64.toNat_ofNat']
    omega
  refine ⟨_, isVarint_varint hlt, ?_, ?_, by omega⟩ <;> rw [hvalue] <;> omega

theorem isValue_value {f : Field} (hlen : f.bytes.length < 2 ^ 64) : IsValue f.value f := by
  cases f with
  | varint n v =>
    have hv := isVarint_varint v.toNat_lt
    rw [UInt64.ofNat_toNat] at hv
    exact .varint hv
  | i64 n v =>
    have hvalue := @IsValue.i64 (putLe 8 v.toNat) n (length_putLe 8 v.toNat)
    rwa [ofLe_putLe_u64, UInt64.ofNat_toNat] at hvalue
  | len n p =>
    have hp : p.length < 2 ^ 64 := by
      refine lt_of_le_of_lt ?_ hlen
      simp only [Field.bytes, Field.value, List.length_append]
      omega
    refine .len (isVarint_varint hp) ?_
    rw [UInt64.toNat_ofNat']
    exact Nat.mod_eq_of_lt hp
  | i32 n v =>
    have hvalue := @IsValue.i32 (putLe 4 v.toNat) n (length_putLe 4 v.toNat)
    rwa [ofLe_putLe_u32, UInt32.ofNat_toNat] at hvalue

/-- **What `message` writes** is a message with the fields. -/
theorem isMessage_message {fs : List Field} (hvalid : WellNumbered fs) (hlen : (message fs).length < 2 ^ 64) :
    IsMessage (message fs) fs := by
  induction fs with
  | nil => exact .nil
  | cons f fs ih =>
    rw [wellNumbered_cons] at hvalid
    rw [message_cons, List.length_append] at hlen
    have hwire : f.wireType < 8 := by cases f <;> simp [Field.wireType]
    rw [message_cons, Field.bytes, List.append_assoc]
    exact .cons (isKey_varint hvalid.1 hwire) (isValue_value (by omega)) (ih hvalid.2 (by omega))

end OtlpC.Proto3
