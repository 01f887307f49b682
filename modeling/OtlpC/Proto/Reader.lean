import OtlpC.Http.Indexed
import OtlpC.Proto.Encode
import OtlpC.Proto.PartialSuccess

/-!
# The reader, index by index

`otlp_pb_read_varint` and `otlp_pb_read_key` once more, over the whole buffer and with the position that they move:
every `buf[pos]` is a `load`, which faults outside of the buffer, and the loop faults when it takes more rounds
than there are bytes. What they do at a position is what the functions on the bytes from there on do.
-/

namespace OtlpC.Proto.Indexed

open Http.Indexed (Checked load roundsOf)
open Proto3

/-- The `while` of `otlp_pb_read_key` and `otlp_pb_read_varint`: the position it leaves and the value. -/
def readLoop (buf : Bytes) : (rounds : ℕ) → UInt64 → (shift pos : ℕ) → Checked (ℕ × Option UInt64)
  | 0, _, _, _ => .error .diverged
  | rounds + 1, v, shift, pos =>
    if pos < buf.length then do
      let b ← load buf pos
      let v := v ||| ((b &&& 0x7f).toUInt64 <<< UInt64.ofNat shift)
      if b &&& 0x80 == 0 then .ok (pos + 1, some v)
      else if 64 ≤ shift + 7 then .ok (pos + 1, none)
      else readLoop buf rounds v (shift + 7) (pos + 1)
    else .ok (pos, none)

def otlpPbReadVarint (buf : Bytes) (pos : ℕ) : Checked (ℕ × Option UInt64) :=
  readLoop buf (roundsOf buf) 0 0 pos

/-- The field number and the wire type. -/
def otlpPbReadKey (buf : Bytes) (pos : ℕ) : Checked (ℕ × Option (ℕ × ℕ)) := do
  match ← readLoop buf (roundsOf buf) 0 0 pos with
  | (pos, none) => .ok (pos, none)
  | (pos, some key) =>
    let field := (key >>> 3).toNat % 2 ^ 32
    if field = 0 then .ok (pos, none) else .ok (pos, some (field, (key &&& 7).toNat))

/-! ### The same on the bytes from the position on -/

theorem load_eq {buf rest : Bytes} {pos : ℕ} {b : UInt8} (hdrop : buf.drop pos = b :: rest) :
    load buf pos = .ok b := by
  have hlt : pos < buf.length := by
    apply Nat.lt_of_not_le
    intro hle
    rw [List.drop_eq_nil_of_le hle] at hdrop
    cases hdrop
  have hbyte : buf[pos]? = some b := by
    rw [← Nat.add_zero pos, ← List.getElem?_drop, hdrop]
    rfl
  rw [load, if_pos hlt, Http.byteAt, List.getD_eq_getElem?_getD, hbyte]
  rfl

theorem readLoop_eq (buf : Bytes) {rounds : ℕ} (v : UInt64) (shift pos : ℕ) (hrounds : buf.length - pos < rounds) :
    ∃ pos', readLoop buf rounds v shift pos = .ok (pos', (varintLoop v shift (buf.drop pos)).2) ∧
      (varintLoop v shift (buf.drop pos)).1 = buf.drop pos' ∧ pos ≤ pos' ∧ pos' ≤ max pos buf.length := by
  induction rounds generalizing v shift pos with
  | zero => omega
  | succ rounds ih =>
    rw [readLoop]
    by_cases hlt : pos < buf.length
    · have hdrop : buf.drop pos = buf[pos] :: buf.drop (pos + 1) := List.drop_eq_getElem_cons hlt
      rw [if_pos hlt, load_eq hdrop, hdrop, varintLoop]
      change ∃ pos', (if buf[pos] &&& 0x80 == 0 then _ else _) = _ ∧ _
      split
      · exact ⟨pos + 1, rfl, rfl, by omega, by omega⟩
      · split
        · exact ⟨pos + 1, rfl, rfl, by omega, by omega⟩
        · obtain ⟨pos', hloop, hrest, hle, hend⟩ := ih _ (shift + 7) (pos + 1) (by omega)
          exact ⟨pos', hloop, hrest, by omega, by omega⟩
    · have hnil : buf.drop pos = [] := List.drop_eq_nil_of_le (Nat.not_lt.1 hlt)
      rw [if_neg hlt, hnil]
      exact ⟨pos, rfl, hnil.symm, le_rfl, le_max_left _ _⟩

/-- **`otlp_pb_read_varint`** moves over what it reads of the bytes from the position on. -/
theorem otlpPbReadVarint_eq {buf k rest : Bytes} {pos : ℕ} {o : Option UInt64} (hdrop : buf.drop pos = k ++ rest)
    (hread : Proto.otlpPbReadVarint (k ++ rest) = (rest, o)) :
    otlpPbReadVarint buf pos = .ok (pos + k.length, o) := by
  have hrounds : buf.length - pos < roundsOf buf := by
    unfold roundsOf
    omega
  obtain ⟨pos', hloop, hrest, hle, hend⟩ := readLoop_eq buf 0 0 pos hrounds
  rw [hdrop] at hloop hrest
  rw [Proto.otlpPbReadVarint] at hread
  rw [hread] at hloop hrest
  have hlength := congrArg List.length hdrop
  have hleft : rest.length = (buf.drop pos').length := congrArg List.length hrest
  rw [List.length_append, List.length_drop] at hlength
  rw [List.length_drop] at hleft
  have hpos : pos' = pos + k.length := by
    omega
  rw [otlpPbReadVarint, hloop, hpos]

/-- It reads a varint, or bytes that all have the top bit set, ten of them or up to the end. -/
theorem otlpPbReadVarint_cases (buf : Bytes) (pos : ℕ) :
    (∃ k v rest, buf.drop pos = k ++ rest ∧ IsVarint k v ∧
      otlpPbReadVarint buf pos = .ok (pos + k.length, some v)) ∨
    ∃ k rest, buf.drop pos = k ++ rest ∧ (∀ b ∈ k, 128 ≤ b.toNat) ∧ (k.length = 10 ∨ k.length < 10 ∧ rest = []) ∧
      otlpPbReadVarint buf pos = .ok (pos + k.length, none) := by
  rcases Proto.otlpPbReadVarint_cases (buf.drop pos) with
    ⟨k, v, rest, hdrop, hk, hread⟩ | ⟨k, rest, hdrop, hall, hlength, hread⟩
  · rw [hdrop] at hread
    exact .inl ⟨k, v, rest, hdrop, hk, otlpPbReadVarint_eq hdrop hread⟩
  · rw [hdrop] at hread
    exact .inr ⟨k, rest, hdrop, hall, hlength, otlpPbReadVarint_eq hdrop hread⟩

theorem otlpPbReadVarint_some {buf : Bytes} {pos pos' : ℕ} {v : UInt64}
    (hread : otlpPbReadVarint buf pos = .ok (pos', some v)) :
    ∃ k rest, buf.drop pos = k ++ rest ∧ IsVarint k v ∧ pos' = pos + k.length := by
  rcases otlpPbReadVarint_cases buf pos with ⟨k, v', rest, hdrop, hk, hread'⟩ | ⟨k, rest, -, -, -, hread'⟩
  · rw [hread'] at hread
    cases hread
    exact ⟨k, rest, hdrop, hk, rfl⟩
  · rw [hread'] at hread
    cases hread

theorem length_le_ten {k : Bytes} {v : UInt64} (hk : IsVarint k v) : k.length ≤ 10 := by
  obtain ⟨m, hm, -⟩ := hk
  exact hm.length_le

theorem lt_0x80_iff (b : UInt8) : b < 0x80 ↔ b.toNat < 128 := UInt8.lt_iff_toNat_lt

/-- A byte below 0x80 among the next ten is what makes a varint. -/
theorem otlpPbReadVarint_accepts (buf : Bytes) (pos : ℕ) :
    ∃ pos' o, otlpPbReadVarint buf pos = .ok (pos', o) ∧ pos ≤ pos' ∧ pos' ≤ pos + 10 ∧
      pos' ≤ max pos buf.length ∧ (o.isSome = true ↔ ∃ b ∈ (buf.drop pos).take 10, b < 0x80) := by
  have hend {k rest : Bytes} (hdrop : buf.drop pos = k ++ rest) : pos + k.length ≤ max pos buf.length := by
    have hlength := congrArg List.length hdrop
    rw [List.length_drop, List.length_append] at hlength
    omega
  rcases otlpPbReadVarint_cases buf pos with
    ⟨k, v, rest, hdrop, hk, hread⟩ | ⟨k, rest, hdrop, hall, hlength, hread⟩
  · have hten := length_le_ten hk
    refine ⟨pos + k.length, some v, hread, by omega, by omega, hend hdrop, fun _ => ?_, fun _ => rfl⟩
    obtain ⟨m, hm, -⟩ := hk
    obtain ⟨b, hmem, hb⟩ := hm.exists_last
    refine ⟨b, ?_, (lt_0x80_iff b).2 hb⟩
    rw [hdrop, List.take_append, List.take_of_length_le hten]
    exact List.mem_append_left _ hmem
  · have hten : k.length ≤ 10 := by rcases hlength with h | h <;> omega
    refine ⟨pos + k.length, none, hread, by omega, by omega, hend hdrop, fun h => (nomatch h), ?_⟩
    rintro ⟨b, hmem, hb⟩
    have htake : (buf.drop pos).take 10 = k := by
      rw [hdrop]
      rcases hlength with hlength | ⟨hlt, rfl⟩
      · exact List.take_left' hlength
      · rw [List.append_nil, List.take_of_length_le hten]
    rw [htake] at hmem
    exact absurd ((lt_0x80_iff b).1 hb) (Nat.not_lt.2 (hall b hmem))

/-! ### What is written -/

theorem writes_varint (v : UInt64) : Enc.Writes (otlpPbVarint v) (varint v.toNat) := by
  have hwritten : clearLast (varintTmp 10 v) = varint v.toNat :=
    clearLast_varintTmp 9 v (v.toNat_lt.trans (by decide))
  have hten : (varint v.toNat).length ≤ 10 := (digits_putVarint 9 (v.toNat_lt.trans (by decide))).length_le
  have hpos : (PbData.bytes (varint v.toNat)).len ≠ 0 := mt List.length_eq_zero_iff.1 (varint_ne_nil _)
  have hroom : PbBuf.inline.bytes.length + (varint v.toNat).length ≤ PbBuf.inline.cap := by
    change 0 + (varint v.toNat).length ≤ 192
    omega
  have hmax : ¬sizeMax - PbBuf.inline.bytes.length < (varint v.toNat).length := by
    change ¬2 ^ 64 - 1 - 0 < (varint v.toNat).length
    omega
  have hreserve : bufReserve .granting .inline (varint v.toNat).length =
      (.ok ⟨_, hroom, PbBuf.inline.fits⟩, .granting) := by
    rw [bufReserve, reserve, if_neg hmax, dif_pos hroom]
  have hok : ∃ b, otlpPbVarint v .granting .inline = (.ok, b, .granting) := by
    rw [otlpPbVarint, hwritten, bufAppend, if_neg hpos, hreserve]
    exact ⟨_, rfl⟩
  obtain ⟨b, hok⟩ := hok
  exact ⟨.granting, b, .granting, hok, appends_varint v hok⟩

theorem length_varint_le {k : Bytes} {v : UInt64} (hk : IsVarint k v) : (varint v.toNat).length ≤ k.length := by
  obtain ⟨m, hm, rfl⟩ := hk
  by_cases hten : k.length = 10
  · rw [hten]
    exact (digits_putVarint 9 ((UInt64.ofNat m).toNat_lt.trans (by decide))).length_le
  · -- fewer digits make a number that fits
    have hle := hm.length_le
    have hlt : m < 2 ^ 64 := by
      calc m < 128 ^ k.length := hm.lt_pow
        _ ≤ 128 ^ 9 := Nat.pow_le_pow_right (by decide) (by omega)
        _ < 2 ^ 64 := by decide
    rw [UInt64.toNat_ofNat', Nat.mod_eq_of_lt hlt]
    exact hm.length_varint_le

/-- **Varints.** -/
theorem varints_round_trip :
    (∀ v : UInt64, ∃ enc : Bytes, Appends (otlpPbVarint v) enc ∧ Enc.Writes (otlpPbVarint v) enc ∧
      (∀ before rest, otlpPbReadVarint (before ++ (enc ++ rest)) before.length =
        .ok ((before ++ enc).length, some v)) ∧
      1 ≤ enc.length ∧ enc.length ≤ 10 ∧
      (∀ bs, otlpPbReadVarint bs 0 = .ok (bs.length, some v) → enc.length ≤ bs.length) ∧
      ∀ n bs, Digits n bs v.toNat → bs.length ≤ enc.length → bs = enc) ∧
    ∀ buf pos, ∃ pos' o, otlpPbReadVarint buf pos = .ok (pos', o) ∧ pos ≤ pos' ∧ pos' ≤ pos + 10 ∧
      pos' ≤ max pos buf.length ∧ (o.isSome = true ↔ ∃ b ∈ (buf.drop pos).take 10, b < 0x80) := by
  refine ⟨fun v => ?_, otlpPbReadVarint_accepts⟩
  have hdigits : Digits 10 (varint v.toNat) v.toNat := digits_putVarint 9 (v.toNat_lt.trans (by decide))
  have hvarint : IsVarint (varint v.toNat) v := ⟨_, hdigits, UInt64.ofNat_toNat.symm⟩
  refine ⟨varint v.toNat, appends_varint v, writes_varint v, fun before rest => ?_,
    List.length_pos_of_ne_nil (varint_ne_nil _), hdigits.length_le, fun bs hread => ?_, fun n bs hbs hle => ?_⟩
  · have hdrop : (before ++ (varint v.toNat ++ rest)).drop before.length = varint v.toNat ++ rest := List.drop_left
    rw [otlpPbReadVarint_eq hdrop (Proto.otlpPbReadVarint_eq hvarint rest), List.length_append]
  · obtain ⟨k, rest, hdrop, hk, hlength⟩ := otlpPbReadVarint_some hread
    rw [hlength, Nat.zero_add]
    exact length_varint_le hk
  · exact hbs.eq_of_length hdigits rfl (Nat.le_antisymm hle hbs.length_varint_le)

/-! ### Keys -/

/-- **`otlp_pb_read_key`** moves as `otlp_pb_read_varint` does. -/
theorem otlpPbReadKey_eq {buf k rest : Bytes} {pos : ℕ} {o : Option UInt64} (hdrop : buf.drop pos = k ++ rest)
    (hread : Proto.otlpPbReadVarint (k ++ rest) = (rest, o)) :
    otlpPbReadKey buf pos = .ok (pos + k.length, (Proto.otlpPbReadKey (k ++ rest)).2) := by
  have hloop := otlpPbReadVarint_eq hdrop hread
  rw [otlpPbReadVarint] at hloop
  rw [Proto.otlpPbReadVarint] at hread
  rw [otlpPbReadKey, hloop, Proto.otlpPbReadKey, hread]
  cases o with
  | none => rfl
  | some key =>
    change (if (key >>> 3).toNat % 2 ^ 32 = 0 then _ else _) = Except.ok (_, Prod.snd (if _ then _ else _))
    split <;> rfl

theorem otlpPbReadKey_none {buf : Bytes} {pos pos' : ℕ} (hread : otlpPbReadVarint buf pos = .ok (pos', none)) :
    otlpPbReadKey buf pos = .ok (pos', none) := by
  rw [otlpPbReadVarint] at hread
  rw [otlpPbReadKey, hread]
  rfl

theorem otlpPbReadKey_varint {buf k rest : Bytes} {pos : ℕ} {v : UInt64} (hdrop : buf.drop pos = k ++ rest)
    (hk : IsVarint k v) : otlpPbReadKey buf pos = .ok (pos + k.length,
      if v.toNat / 8 % 2 ^ 32 = 0 then none else some (v.toNat / 8 % 2 ^ 32, v.toNat % 8)) := by
  rw [otlpPbReadKey_eq hdrop (Proto.otlpPbReadVarint_eq hk rest), Proto.otlpPbReadKey_varint hk]

/-- A key that is accepted at the position has a number that a field may have, and stands for the varint that is
read there; one with a larger number is refused. -/
def KeysExact (buf : Bytes) (pos : ℕ) : Prop :=
  (∀ pos' field wireType, otlpPbReadKey buf pos = .ok (pos', some (field, wireType)) →
    1 ≤ field ∧ field ≤ 2 ^ 29 - 1 ∧
      ∃ v, otlpPbReadVarint buf pos = .ok (pos', some v) ∧ field * 8 + wireType = v.toNat) ∧
  ∀ pos' v, otlpPbReadVarint buf pos = .ok (pos', some v) → 2 ^ 29 ≤ v.toNat / 8 →
    otlpPbReadKey buf pos = .ok (pos', none)

/-- **Field keys** stand for themselves exactly where the number is one that a field may have or a multiple of
`2 ^ 32`, which the cast to `uint32_t` makes 0. -/
theorem keysExact_iff (buf : Bytes) (pos : ℕ) : KeysExact buf pos ↔
    ∀ k rest v, buf.drop pos = k ++ rest → IsVarint k v → v.toNat / 8 < 2 ^ 29 ∨ v.toNat / 8 % 2 ^ 32 = 0 := by
  constructor
  · rintro ⟨-, hlarge⟩ k rest v hdrop hk
    have hread := otlpPbReadVarint_eq hdrop (Proto.otlpPbReadVarint_eq hk rest)
    have hkey := otlpPbReadKey_varint hdrop hk
    by_cases hlt : v.toNat / 8 < 2 ^ 29
    · exact .inl hlt
    · rw [hlarge _ v hread (Nat.not_lt.1 hlt)] at hkey
      right
      by_contra hne
      rw [if_neg hne] at hkey
      cases hkey
  · intro hnumbers
    constructor
    · intro pos' field wireType haccept
      rcases otlpPbReadVarint_cases buf pos with ⟨k, v, rest, hdrop, hk, hread⟩ | ⟨k, rest, hdrop, hall, hlength, hread⟩
      · have hkey := otlpPbReadKey_varint hdrop hk
        rw [haccept] at hkey
        split at hkey
        · cases hkey
        · next hne =>
          cases hkey
          have hlt : v.toNat / 8 < 2 ^ 29 := (hnumbers k rest v hdrop hk).resolve_right hne
          exact ⟨by omega, by omega, v, hread, by omega⟩
      · rw [otlpPbReadKey_none hread] at haccept
        cases haccept
    · intro pos' v hread hle
      obtain ⟨k, rest, hdrop, hk, rfl⟩ := otlpPbReadVarint_some hread
      have hzero := (hnumbers k rest v hdrop hk).resolve_left (Nat.not_lt.2 hle)
      rw [otlpPbReadKey_varint hdrop hk, if_pos hzero]

/-- A response whose one field has the number `2 ^ 32 + 1`: the key is read as that of `partial_success`. -/
theorem key_aliased :
    ∃ body : Bytes, body = [0x8a, 0x80, 0x80, 0x80, 0x80, 0x01, 0x02, 0x08, 0x05] ∧
      IsMessage body [.len (2 ^ 32 + 1) [0x08, 0x05]] ∧ ¬KeysExact body 0 ∧
      otlpPbReadKey body 0 = .ok (6, some (partialSuccessField, wireLen)) ∧
      otlpExporterOtelDecodePartialSuccess body = some { rejected := 5, errorMessage := none } := by
  have hkey : IsKey (varint ((2 ^ 32 + 1) * 8 + 2)) (2 ^ 32 + 1) 2 :=
    ⟨_, isVarint_varint (by decide), by decide, by decide, by decide⟩
  have hvalue : IsValue ([0x02] ++ [0x08, 0x05]) (.len (2 ^ 32 + 1) [0x08, 0x05]) :=
    .len (isVarint_varint (n := 2) (by decide)) (by decide)
  refine ⟨_, by decide +kernel, .cons hkey hvalue .nil, ?_, by decide +kernel, by decide +kernel⟩
  rintro ⟨haccepted, -⟩
  obtain ⟨-, -, v, hread, heq⟩ := haccepted 6 1 2 (by decide +kernel)
  have hread' : otlpPbReadVarint (varint ((2 ^ 32 + 1) * 8 + 2) ++ ([0x02] ++ [0x08, 0x05] ++ [])) 0 =
      .ok (6, some 34359738378) := by decide +kernel
  rw [hread'] at hread
  cases hread
  exact absurd heq (by decide)

end OtlpC.Proto.Indexed
