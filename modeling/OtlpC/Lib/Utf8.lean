import Mathlib.Data.List.Basic
import Mathlib.Data.Nat.Notation

/-!
# UTF-8

A byte string is valid UTF-8 when it is the encoding of a list of characters. A sequence of a lead byte and
its continuation bytes encodes the character whose code point they carry, unless it is overlong, a surrogate or
out of range.
-/

namespace OtlpC

/-- The bytes are the encoding of some characters. -/
def ValidUtf8 (bs : List UInt8) : Prop := ∃ cs : List Char, bs = cs.flatMap String.utf8EncodeChar

theorem validUtf8_nil : ValidUtf8 [] := ⟨[], rfl⟩

theorem ValidUtf8.append {bs cs : List UInt8} (hb : ValidUtf8 bs) (hc : ValidUtf8 cs) : ValidUtf8 (bs ++ cs) := by
  obtain ⟨xs, rfl⟩ := hb
  obtain ⟨ys, rfl⟩ := hc
  exact ⟨xs ++ ys, List.flatMap_append.symm⟩

namespace Utf8

/-- A code point that a character has. -/
def IsScalar (n : ℕ) : Prop := n < 0xd800 ∨ 0xdfff < n ∧ n ≤ 0x10ffff

/-- The character with the code point. -/
def scalar (n : ℕ) (h : IsScalar n) : Char := ⟨UInt32.ofNat n, by
  have hn : (UInt32.ofNat n).toNat = n := by
    rw [UInt32.toNat_ofNat']
    unfold IsScalar at h
    omega
  rw [UInt32.isValidChar, hn]
  exact h.imp id fun h => ⟨h.1, Nat.lt_succ_of_le h.2⟩⟩

theorem scalar_toNat (n : ℕ) (h : IsScalar n) : (scalar n h).val.toNat = n := by
  unfold IsScalar at h
  simp only [scalar, UInt32.toNat_ofNat']
  omega

theorem ofNat_eq {b : UInt8} {n : ℕ} (h : n = b.toNat) : UInt8.ofNat n = b := by
  rw [h, UInt8.ofNat_toNat]

theorem valid_one {a : UInt8} (h : a.toNat < 0x80) : ValidUtf8 [a] := by
  have hscalar : IsScalar a.toNat := .inl (by omega)
  refine ⟨[scalar _ hscalar], ?_⟩
  have hn := scalar_toNat _ hscalar
  simp only [List.flatMap_cons, List.flatMap_nil, List.append_nil, String.utf8EncodeChar, hn]
  rw [if_pos (by omega), ofNat_eq rfl]

theorem valid_two {a b : UInt8} (ha : a.toNat / 32 = 6) (hb : b.toNat / 64 = 2)
    (hmin : 0x80 ≤ a.toNat % 32 * 64 + b.toNat % 64) : ValidUtf8 [a, b] := by
  have hscalar : IsScalar (a.toNat % 32 * 64 + b.toNat % 64) := .inl (by omega)
  refine ⟨[scalar _ hscalar], ?_⟩
  have hn := scalar_toNat _ hscalar
  simp only [List.flatMap_cons, List.flatMap_nil, List.append_nil, String.utf8EncodeChar, hn]
  rw [if_neg (by omega), if_pos (by omega), ofNat_eq (b := a) (by omega), ofNat_eq (b := b) (by omega)]

theorem valid_three {a b c : UInt8} (ha : a.toNat / 16 = 14) (hb : b.toNat / 64 = 2) (hc : c.toNat / 64 = 2)
    (hmin : 0x800 ≤ (a.toNat % 16 * 64 + b.toNat % 64) * 64 + c.toNat % 64)
    (hscalar : IsScalar ((a.toNat % 16 * 64 + b.toNat % 64) * 64 + c.toNat % 64)) : ValidUtf8 [a, b, c] := by
  refine ⟨[scalar _ hscalar], ?_⟩
  have hn := scalar_toNat _ hscalar
  simp only [List.flatMap_cons, List.flatMap_nil, List.append_nil, String.utf8EncodeChar, hn]
  rw [if_neg (by omega), if_neg (by omega), if_pos (by omega), ofNat_eq (b := a) (by omega),
    ofNat_eq (b := b) (by omega), ofNat_eq (b := c) (by omega)]

theorem valid_four {a b c d : UInt8} (ha : a.toNat / 8 = 30) (hb : b.toNat / 64 = 2) (hc : c.toNat / 64 = 2)
    (hd : d.toNat / 64 = 2)
    (hmin : 0x10000 ≤ ((a.toNat % 8 * 64 + b.toNat % 64) * 64 + c.toNat % 64) * 64 + d.toNat % 64)
    (hscalar : IsScalar (((a.toNat % 8 * 64 + b.toNat % 64) * 64 + c.toNat % 64) * 64 + d.toNat % 64)) :
    ValidUtf8 [a, b, c, d] := by
  refine ⟨[scalar _ hscalar], ?_⟩
  have hn := scalar_toNat _ hscalar
  simp only [List.flatMap_cons, List.flatMap_nil, List.append_nil, String.utf8EncodeChar, hn]
  rw [if_neg (by omega), if_neg (by omega), if_neg (by omega), ofNat_eq (b := a) (by omega),
    ofNat_eq (b := b) (by omega), ofNat_eq (b := c) (by omega), ofNat_eq (b := d) (by omega)]

/-! The four forms of an encoding -/

theorem toNat_ofNat_of_lt {n : ℕ} (h : n < 256) : (UInt8.ofNat n).toNat = n := by
  rw [UInt8.toNat_ofNat']
  omega

theorem isScalar_val (c : Char) : IsScalar c.val.toNat := by
  have hvalid : c.val.toNat < 0xd800 ∨ 0xdfff < c.val.toNat ∧ c.val.toNat < 0x110000 := c.valid
  unfold IsScalar
  omega

/-- The encoding of a character is of the form of one of `valid_one` to `valid_four`. -/
inductive Encoded : List UInt8 → Prop where
  | one {a : UInt8} (h : a.toNat < 0x80) : Encoded [a]
  | two {a b : UInt8} (ha : a.toNat / 32 = 6) (hb : b.toNat / 64 = 2)
      (hmin : 0x80 ≤ a.toNat % 32 * 64 + b.toNat % 64) : Encoded [a, b]
  | three {a b c : UInt8} (ha : a.toNat / 16 = 14) (hb : b.toNat / 64 = 2) (hc : c.toNat / 64 = 2)
      (hmin : 0x800 ≤ (a.toNat % 16 * 64 + b.toNat % 64) * 64 + c.toNat % 64)
      (hscalar : IsScalar ((a.toNat % 16 * 64 + b.toNat % 64) * 64 + c.toNat % 64)) : Encoded [a, b, c]
  | four {a b c d : UInt8} (ha : a.toNat / 8 = 30) (hb : b.toNat / 64 = 2) (hc : c.toNat / 64 = 2)
      (hd : d.toNat / 64 = 2)
      (hmin : 0x10000 ≤ ((a.toNat % 8 * 64 + b.toNat % 64) * 64 + c.toNat % 64) * 64 + d.toNat % 64)
      (hscalar : IsScalar (((a.toNat % 8 * 64 + b.toNat % 64) * 64 + c.toNat % 64) * 64 + d.toNat % 64)) :
      Encoded [a, b, c, d]

theorem encoded_utf8EncodeChar (c : Char) : Encoded (String.utf8EncodeChar c) := by
  have hscalar := isScalar_val c
  generalize hn : c.val.toNat = n at hscalar
  unfold IsScalar at hscalar
  simp only [String.utf8EncodeChar, hn]
  split
  · refine .one ?_
    rw [toNat_ofNat_of_lt (by omega)]
    omega
  split
  · have ha := @toNat_ofNat_of_lt (n / 64 % 32 + 192) (by omega)
    have hb := @toNat_ofNat_of_lt (n % 64 + 128) (by omega)
    exact .two (by rw [ha]; omega) (by rw [hb]; omega) (by rw [ha, hb]; omega)
  split
  · have ha := @toNat_ofNat_of_lt (n / 4096 % 16 + 224) (by omega)
    have hb := @toNat_ofNat_of_lt (n / 64 % 64 + 128) (by omega)
    have hc := @toNat_ofNat_of_lt (n % 64 + 128) (by omega)
    have hcode : ((n / 4096 % 16 + 224) % 16 * 64 + (n / 64 % 64 + 128) % 64) * 64 + (n % 64 + 128) % 64 = n := by
      omega
    refine .three (by rw [ha]; omega) (by rw [hb]; omega) (by rw [hc]; omega) ?_ ?_ <;> rw [ha, hb, hc, hcode]
    · omega
    · exact hscalar
  · have ha := @toNat_ofNat_of_lt (n / 262144 % 8 + 240) (by omega)
    have hb := @toNat_ofNat_of_lt (n / 4096 % 64 + 128) (by omega)
    have hc := @toNat_ofNat_of_lt (n / 64 % 64 + 128) (by omega)
    have hd := @toNat_ofNat_of_lt (n % 64 + 128) (by omega)
    have hcode : (((n / 262144 % 8 + 240) % 8 * 64 + (n / 4096 % 64 + 128) % 64) * 64 + (n / 64 % 64 + 128) % 64) * 64
        + (n % 64 + 128) % 64 = n := by
      omega
    refine .four (by rw [ha]; omega) (by rw [hb]; omega) (by rw [hc]; omega) (by rw [hd]; omega) ?_ ?_ <;>
      rw [ha, hb, hc, hd, hcode]
    · omega
    · exact hscalar

end Utf8

end OtlpC
