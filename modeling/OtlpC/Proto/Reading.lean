import OtlpC.Lib.WireGrammar
import OtlpC.Proto.Decode

/-!
# What the reader reads

The functions of `protobuf_decode.c` against the grammar of the wire format: what they accept is what the grammar
says, up to the field number, which is cut to 32 bits, and a key that they refuse can leave the reader at the end.
-/

namespace OtlpC.Proto

open Proto3

/-! ### Varints -/

theorem toNat_or_shift {v : UInt64} {b : UInt8} {i : ℕ} (hi : i < 10) (hv : v.toNat < 2 ^ (7 * i)) :
    (v ||| ((b &&& 0x7f).toUInt64 <<< UInt64.ofNat (7 * i))).toNat =
      (v.toNat + 2 ^ (7 * i) * (b.toNat % 128)) % 2 ^ 64 := by
  have hshift : (UInt64.ofNat (7 * i)).toNat % 64 = 7 * i := by
    rw [UInt64.toNat_ofNat']
    omega
  have hlow : (b &&& 0x7f).toUInt64.toNat = b.toNat % 128 := by
    rw [UInt8.toNat_toUInt64, UInt8.toNat_and]
    exact Nat.and_two_pow_sub_one_eq_mod b.toNat 7
  have hsplit : 2 ^ 64 = 2 ^ (7 * i) * 2 ^ (64 - 7 * i) := by
    rw [← pow_add]
    congr 1
    omega
  have hpos : 0 < 2 ^ (64 - 7 * i) := Nat.two_pow_pos _
  -- the shifted bits that fit stand above those of `v`
  have hfit : b.toNat % 128 * 2 ^ (7 * i) % 2 ^ 64 = 2 ^ (7 * i) * (b.toNat % 128 % 2 ^ (64 - 7 * i)) := by
    rw [hsplit, Nat.mul_comm, Nat.mul_mod_mul_left]
  have hsum : v.toNat + 2 ^ (7 * i) * (b.toNat % 128 % 2 ^ (64 - 7 * i)) < 2 ^ 64 := by
    have hmod := Nat.mod_lt (b.toNat % 128) hpos
    calc v.toNat + 2 ^ (7 * i) * (b.toNat % 128 % 2 ^ (64 - 7 * i))
        < 2 ^ (7 * i) * 1 + 2 ^ (7 * i) * (b.toNat % 128 % 2 ^ (64 - 7 * i)) := by omega
      _ = 2 ^ (7 * i) * (1 + b.toNat % 128 % 2 ^ (64 - 7 * i)) := (Nat.mul_add _ _ _).symm
      _ ≤ 2 ^ (7 * i) * 2 ^ (64 - 7 * i) := Nat.mul_le_mul_left _ (by omega)
      _ = 2 ^ 64 := hsplit.symm
  rw [UInt64.toNat_or, UInt64.toNat_shiftLeft, hshift, hlow, Nat.shiftLeft_eq, hfit, Nat.or_comm,
    ← Nat.two_pow_add_eq_or_of_lt hv, Nat.add_comm, ← Nat.mod_eq_of_lt hsum, ← hfit, Nat.add_mod_mod,
    Nat.mul_comm (b.toNat % 128)]

theorem mask_top : ∀ n < 256, n &&& 0x80 = 0 ↔ n < 128 := by decide +kernel

theorem top_bit (b : UInt8) : (b &&& 0x80 == 0) = true ↔ b.toNat < 128 := by
  rw [beq_iff_eq, ← UInt8.toNat_inj, UInt8.toNat_and]
  exact mask_top _ b.toNat_lt

theorem ofNat_eq_of_mod {v : UInt64} {n : ℕ} (h : v.toNat = n % 2 ^ 64) : v = UInt64.ofNat n :=
  UInt64.toNat_inj.1 (h.trans UInt64.toNat_ofNat'.symm)

/-- How the loop ends: with a varint, or with bytes that all have the top bit set, as many as it takes or up to
the end. -/
theorem varintLoop_cases {n i : ℕ} (hn : n + i = 10) (hpos : 0 < n) {v : UInt64} (hv : v.toNat < 2 ^ (7 * i))
    (bs : Bytes) :
    (∃ k m rest, bs = k ++ rest ∧ Digits n k m ∧
      varintLoop v (7 * i) bs = (rest, some (UInt64.ofNat (v.toNat + 2 ^ (7 * i) * m)))) ∨
    ∃ k rest, bs = k ++ rest ∧ (∀ b ∈ k, 128 ≤ b.toNat) ∧ (k.length = n ∨ k.length < n ∧ rest = []) ∧
      varintLoop v (7 * i) bs = (rest, none) := by
  induction bs generalizing n i v with
  | nil => exact .inr ⟨[], [], rfl, fun b hb => absurd hb List.not_mem_nil, .inr ⟨hpos, rfl⟩, rfl⟩
  | cons b bs ih =>
    obtain ⟨n, rfl⟩ : ∃ k, n = k + 1 := ⟨n - 1, by omega⟩
    have hround := @toNat_or_shift v b i (by omega) hv
    rw [varintLoop]
    generalize v ||| ((b &&& 0x7f).toUInt64 <<< UInt64.ofNat (7 * i)) = v' at hround ⊢
    by_cases hb : b.toNat < 128
    · rw [if_pos ((top_bit b).2 hb)]
      rw [Nat.mod_eq_of_lt hb] at hround
      exact .inl ⟨[b], _, bs, rfl, .last hb, by rw [ofNat_eq_of_mod hround]⟩
    · rw [if_neg (mt (top_bit b).1 hb)]
      have hb := Nat.not_lt.1 hb
      split
      · next hlast =>
        obtain rfl : n = 0 := by omega
        refine .inr ⟨[b], bs, rfl, fun c hc => ?_, .inl rfl, rfl⟩
        rwa [List.mem_singleton.1 hc]
      · next hmore =>
        have hbound : v'.toNat < 2 ^ (7 * (i + 1)) := by
          have hmod := Nat.mod_le (v.toNat + 2 ^ (7 * i) * (b.toNat % 128)) (2 ^ 64)
          have hdigit : 2 ^ (7 * i) * (b.toNat % 128) ≤ 2 ^ (7 * i) * 127 := Nat.mul_le_mul_left _ (by omega)
          rw [show 7 * (i + 1) = 7 * i + 7 by omega, pow_add]
          omega
        rcases @ih n (i + 1) (by omega) (by omega) v' hbound with
          ⟨k, m, rest, rfl, hk, hloop⟩ | ⟨k, rest, rfl, hall, hlength, hloop⟩
        · refine .inl ⟨b :: k, _, rest, rfl, .more hb hk, ?_⟩
          rw [show 7 * i + 7 = 7 * (i + 1) by omega, hloop, ← ofNat_eq_of_mod]
          rw [UInt64.toNat_ofNat', hround, Nat.mod_add_mod]
          congr 1
          have hdigit : b.toNat % 128 = b.toNat - 128 := by
            have := b.toNat_lt
            omega
          rw [hdigit, show 7 * (i + 1) = 7 * i + 7 by omega, pow_add]
          ring
        · refine .inr ⟨b :: k, rest, rfl, List.forall_mem_cons.2 ⟨hb, hall⟩, ?_, hloop⟩
          exact hlength.imp (fun h => by rw [List.length_cons, h]) fun h => ⟨Nat.succ_lt_succ h.1, h.2⟩

theorem otlpPbReadVarint_cases (bs : Bytes) :
    (∃ k v rest, bs = k ++ rest ∧ IsVarint k v ∧ otlpPbReadVarint bs = (rest, some v)) ∨
    ∃ k rest, bs = k ++ rest ∧ (∀ b ∈ k, 128 ≤ b.toNat) ∧ (k.length = 10 ∨ k.length < 10 ∧ rest = []) ∧
      otlpPbReadVarint bs = (rest, none) := by
  rcases @varintLoop_cases 10 0 rfl (by decide) 0 (by decide) bs with
    ⟨k, m, rest, rfl, hk, hloop⟩ | ⟨k, rest, rfl, hall, hlength, hloop⟩
  · refine .inl ⟨k, UInt64.ofNat m, rest, rfl, ⟨m, hk, rfl⟩, ?_⟩
    rw [otlpPbReadVarint, hloop]
    simp
  · exact .inr ⟨k, rest, rfl, hall, hlength, hloop⟩

theorem otlpPbReadVarint_eq {k : Bytes} {v : UInt64} (hk : IsVarint k v) (rest : Bytes) :
    otlpPbReadVarint (k ++ rest) = (rest, some v) := by
  obtain ⟨m, hm, rfl⟩ := hk
  rcases otlpPbReadVarint_cases (k ++ rest) with
    ⟨k', v', rest', heq, ⟨m', hm', rfl⟩, hread⟩ | ⟨k', rest', heq, hall, hlength, hread⟩
  · obtain ⟨-, rfl, rfl⟩ := hm.unique hm' heq
    exact hread
  · obtain ⟨hlt, hne⟩ := hm.not_unfinished heq hall
    rcases hlength with hlength | ⟨-, hnil⟩
    · omega
    · exact absurd hnil hne

theorem otlpPbReadVarint_some {bs rest : Bytes} {v : UInt64} :
    otlpPbReadVarint bs = (rest, some v) ↔ ∃ k, bs = k ++ rest ∧ IsVarint k v := by
  constructor
  · intro h
    rcases otlpPbReadVarint_cases bs with ⟨k, v', rest', rfl, hk, hread⟩ | ⟨k, rest', rfl, -, -, hread⟩
    · rw [hread] at h
      cases h
      exact ⟨k, rfl, hk⟩
    · rw [hread] at h
      cases h
  · rintro ⟨k, rfl, hk⟩
    exact otlpPbReadVarint_eq hk rest

theorem otlpPbReadLen_some {bs rest p : Bytes} : otlpPbReadLen bs = (rest, some p) ↔
    ∃ l v, bs = l ++ (p ++ rest) ∧ IsVarint l v ∧ v.toNat = p.length := by
  constructor
  · intro h
    unfold otlpPbReadLen at h
    split at h
    · cases h
    · next r v hread =>
      split at h
      · cases h
      · next hfits =>
        obtain ⟨l, rfl, hl⟩ := otlpPbReadVarint_some.1 hread
        cases h
        refine ⟨l, v, by rw [List.take_append_drop], hl, ?_⟩
        rw [List.length_take, Nat.min_eq_left (Nat.not_lt.1 hfits)]
  · rintro ⟨l, v, rfl, hl, hv⟩
    have hfits : ¬(p ++ rest).length < v.toNat := by
      rw [List.length_append]
      omega
    rw [otlpPbReadLen, otlpPbReadVarint_eq hl]
    dsimp only
    rw [if_neg hfits, List.take_left' hv.symm, List.drop_left' hv.symm]

/-! ### Keys -/

/-- A key that `otlp_pb_read_key` refuses: one that does not end, or whose number has 32 low bits that are 0. -/
inductive BadKey : Bytes → Prop where
  | unfinished {k : Bytes} (hne : k ≠ []) (hall : ∀ b ∈ k, 128 ≤ b.toNat) (hlength : k.length ≤ 10) : BadKey k
  | zero {k : Bytes} {v : UInt64} (hv : IsVarint k v) (hzero : v.toNat / 8 % 2 ^ 32 = 0) : BadKey k

theorem otlpPbReadKey_varint {k : Bytes} {v : UInt64} (hk : IsVarint k v) (rest : Bytes) :
    otlpPbReadKey (k ++ rest) = (rest, if v.toNat / 8 % 2 ^ 32 = 0 then none
      else some (v.toNat / 8 % 2 ^ 32, v.toNat % 8)) := by
  have hread := otlpPbReadVarint_eq hk rest
  have hfield : (v >>> 3).toNat = v.toNat / 8 := by
    rw [UInt64.toNat_shiftRight, Nat.shiftRight_eq_div_pow]
    rfl
  have htype : (v &&& 7).toNat = v.toNat % 8 := by
    rw [UInt64.toNat_and]
    exact Nat.and_two_pow_sub_one_eq_mod v.toNat 3
  rw [otlpPbReadVarint] at hread
  rw [otlpPbReadKey, hread]
  dsimp only
  rw [hfield, htype]
  split <;> rfl

theorem otlpPbReadKey_eq {k : Bytes} {n t : ℕ} (hk : IsKey k n t) (hn : n % 2 ^ 32 ≠ 0) (rest : Bytes) :
    otlpPbReadKey (k ++ rest) = (rest, some (n % 2 ^ 32, t)) := by
  obtain ⟨v, hv, rfl, rfl, -⟩ := hk
  rw [otlpPbReadKey_varint hv, if_neg hn]

/-- **`otlp_pb_read_key`**: a key, or nothing and the reader is at the end, or nothing before the end. -/
theorem otlpPbReadKey_cases (bs : Bytes) :
    (∃ k n t rest, bs = k ++ rest ∧ IsKey k n t ∧ n % 2 ^ 32 ≠ 0 ∧
      otlpPbReadKey bs = (rest, some (n % 2 ^ 32, t))) ∨
    ((bs = [] ∨ BadKey bs) ∧ otlpPbReadKey bs = ([], none)) ∨
    ∃ rest, rest ≠ [] ∧ otlpPbReadKey bs = (rest, none) := by
  rcases otlpPbReadVarint_cases bs with ⟨k, v, rest, rfl, hk, -⟩ | ⟨k, rest, rfl, hall, hlength, hread⟩
  · have hkey := otlpPbReadKey_varint hk rest
    by_cases hzero : v.toNat / 8 % 2 ^ 32 = 0
    · rw [if_pos hzero] at hkey
      cases rest with
      | nil =>
        rw [List.append_nil] at hkey ⊢
        exact .inr (.inl ⟨.inr (.zero hk hzero), hkey⟩)
      | cons b rest => exact .inr (.inr ⟨b :: rest, List.cons_ne_nil _ _, hkey⟩)
    · rw [if_neg hzero] at hkey
      have hne : v.toNat / 8 ≠ 0 := fun h => hzero (by rw [h, Nat.zero_mod])
      exact .inl ⟨k, _, _, rest, rfl, ⟨v, hk, rfl, rfl, hne⟩, hzero, hkey⟩
  · have hkey : otlpPbReadKey (k ++ rest) = (rest, none) := by
      rw [otlpPbReadVarint] at hread
      rw [otlpPbReadKey, hread]
    cases rest with
    | nil =>
      rw [List.append_nil] at hkey ⊢
      refine .inr (.inl ⟨?_, hkey⟩)
      by_cases hnil : k = []
      · exact .inl hnil
      · exact .inr (.unfinished hnil hall (by rcases hlength with h | h <;> omega))
    | cons b rest => exact .inr (.inr ⟨b :: rest, List.cons_ne_nil _ _, hkey⟩)

theorem otlpPbReadKey_end {bs : Bytes} (h : bs = [] ∨ BadKey bs) : otlpPbReadKey bs = ([], none) := by
  rcases h with rfl | h
  · rfl
  · cases h with
    | unfinished hne hall hlength =>
      rcases otlpPbReadVarint_cases bs with ⟨k, v, rest, heq, ⟨m, hm, -⟩, -⟩ | ⟨k, rest, heq, hk, hlengthk, hread⟩
      · rw [← List.append_nil bs] at heq
        exact absurd rfl (hm.not_unfinished heq.symm hall).2
      · have hnil : rest = [] := by
          rcases hlengthk with hten | ⟨-, hnil⟩
          · have hlen := congrArg List.length heq
            rw [List.length_append] at hlen
            exact List.length_eq_zero_iff.1 (by omega)
          · exact hnil
        rw [otlpPbReadVarint, hnil] at hread
        rw [otlpPbReadKey, hread]
    | zero hv hzero =>
      have hkey := otlpPbReadKey_varint hv []
      rwa [List.append_nil, if_pos hzero] at hkey

/-! ### Values -/

/-- **`otlp_pb_skip`** passes over one value of the wire type, whatever the number of its field. -/
theorem otlpPbSkip_some {bs rest : Bytes} {t : ℕ} (n : ℕ) : otlpPbSkip bs t = some rest ↔
    ∃ p f, bs = p ++ rest ∧ IsValue p f ∧ f.number = n ∧ f.wireType = t := by
  constructor
  · intro h
    unfold otlpPbSkip at h
    split_ifs at h with h0 h1 hlt h2 h5 hlt
    · split at h
      · cases h
      · next r v hread =>
        cases h
        obtain ⟨k, rfl, hk⟩ := otlpPbReadVarint_some.1 hread
        exact ⟨k, .varint n v, rfl, .varint hk, rfl, h0.symm⟩
    · cases h
      have hlength : (bs.take 8).length = 8 := List.length_take_of_le (Nat.not_lt.1 hlt)
      exact ⟨bs.take 8, _, (List.take_append_drop 8 bs).symm, .i64 (n := n) hlength, rfl, h1.symm⟩
    · split at h
      · cases h
      · next r p hread =>
        cases h
        obtain ⟨l, v, rfl, hl, hv⟩ := otlpPbReadLen_some.1 hread
        exact ⟨l ++ p, .len n p, (List.append_assoc _ _ _).symm, .len hl hv, rfl, h2.symm⟩
    · cases h
      have hlength : (bs.take 4).length = 4 := List.length_take_of_le (Nat.not_lt.1 hlt)
      exact ⟨bs.take 4, _, (List.take_append_drop 4 bs).symm, .i32 (n := n) hlength, rfl, h5.symm⟩
  · rintro ⟨p, f, rfl, hp, -, rfl⟩
    cases hp with
    | varint hv => simp [otlpPbSkip, Field.wireType, wireVarint, otlpPbReadVarint_eq hv]
    | i64 hlength =>
      simp [otlpPbSkip, Field.wireType, wireVarint, wireFixed64, hlength, List.drop_left' hlength]
    | len hl hv =>
      have hread := (@otlpPbReadLen_some _ rest _).2 ⟨_, _, rfl, hl, hv⟩
      simp [otlpPbSkip, Field.wireType, wireVarint, wireFixed64, wireLen, List.append_assoc, hread]
    | i32 hlength =>
      simp [otlpPbSkip, Field.wireType, wireVarint, wireFixed64, wireLen, wireFixed32, hlength,
        List.drop_left' hlength]

end OtlpC.Proto
