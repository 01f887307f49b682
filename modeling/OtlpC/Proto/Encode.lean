import OtlpC.Api.Heap
import OtlpC.Lib.Proto3

/-!
# The wire encoder

`protobuf_encode.c`: a buffer that grows while it is appended to, and the functions that append to it. An encoder
of the library is a sequence of such calls that stops at the first failure. `Emits f fs` says which fields an
encoder has appended when it succeeds; it composes along the sequence, so that what the encoders of the messages
write is read off their text.
-/

namespace OtlpC.Proto

open Api Proto3

/-! ### The buffer -/

abbrev otlpPbSboSize : ℕ := 192

/-- `struct otlp_pb_buf`: the `len` bytes in use and the capacity, which is 0 before the buffer is set up. -/
structure PbBuf where
  bytes : Bytes
  cap : ℕ
  le_cap : bytes.length ≤ cap
  fits : cap ≤ ptrdiffMax

/-- The inline buffer of a local variable, after `otlp_pb_buf_init` with an initial capacity of 0. -/
def PbBuf.inline : PbBuf := ⟨[], otlpPbSboSize, Nat.zero_le _, by decide⟩

def otlpPbBufInit (h : Heap) (initialCap : ℕ) : OtlpStatus × PbBuf × Heap :=
  if otlpPbSboSize < initialCap then
    match otlpMalloc h initialCap with
    | (none, h) => (.errNomem, .inline, h)
    | (some c, h) => (.ok, ⟨[], initialCap, Nat.zero_le _, c.fits⟩, h)
  else (.ok, .inline, h)

/-- The `while` of `buf_reserve`; the capacity is not 0, so that it is done or too large within 64 rounds. -/
def growCap : ℕ → ℕ → ℕ → Option ℕ
  | 0, _, _ => none
  | rounds + 1, need, newCap =>
    if newCap < need then
      if sizeMax / 2 < newCap then none else growCap rounds need (newCap * 2)
    else some newCap

theorem le_growCap {rounds need newCap c : ℕ} (hc : growCap rounds need newCap = some c) : need ≤ c := by
  induction rounds generalizing newCap with
  | zero => cases hc
  | succ rounds ih =>
    rw [growCap] at hc
    split at hc
    · split at hc
      · cases hc
      · exact ih hc
    · cases hc
      omega

/-- A capacity with room for `n` bytes more. -/
structure Room (b : PbBuf) (n : ℕ) where
  cap : ℕ
  room : b.bytes.length + n ≤ cap
  fits : cap ≤ ptrdiffMax

/-- `buf_reserve` of a buffer with `cap` and `len`: the buffer as it is when there is room, else one in a new
block. -/
def reserve {ρ : Type} (h : Heap) (cap len additional : ℕ) (keep : len + additional ≤ cap → ρ)
    (move : ∀ newCap, ¬len + additional ≤ cap →
      growCap 64 (len + additional) (if cap = 0 then otlpPbSboSize else cap) = some newCap → newCap ≤ ptrdiffMax → ρ) :
    Except OtlpStatus ρ × Heap :=
  if sizeMax - len < additional then (.error .errOverflow, h)
  else if hroom : len + additional ≤ cap then (.ok (keep hroom), h)
  else
    match hgrow : growCap 64 (len + additional) (if cap = 0 then otlpPbSboSize else cap) with
    | none => (.error .errOverflow, h)
    | some newCap =>
      match otlpMalloc h newCap with
      | (none, h) => (.error .errNomem, h)
      | (some c, h) => (.ok (move newCap hroom hgrow c.fits), h)

/-- `buf_reserve`; of the memory it tells the capacity. -/
def bufReserve (h : Heap) (b : PbBuf) (additional : ℕ) : Except OtlpStatus (Room b additional) × Heap :=
  reserve h b.cap b.bytes.length additional (fun hroom => ⟨b.cap, hroom, b.fits⟩)
    fun newCap _ hgrow hfits => ⟨newCap, le_growCap hgrow, hfits⟩

/-- A pointer with a length: what it points at, or NULL. -/
inductive PbData where
  | bytes (data : Bytes)
  | null (len : ℕ)

def PbData.len : PbData → ℕ
  | bytes data => data.length
  | null len => len

/-! ### Appending -/

/-- A function that appends to a buffer. -/
abbrev Enc := Heap → PbBuf → OtlpStatus × PbBuf × Heap

namespace Enc

def done : Enc := fun h b => (.ok, b, h)

def fail (st : OtlpStatus) : Enc := fun h b => (st, b, h)

/-- `st = f(buf); if (st != OTLP_OK) return st; return g(buf);` -/
instance : AndThen Enc where
  andThen f g := fun h b =>
    match f h b with
    | (.ok, b, h) => g () h b
    | r => r

def onlyIf (c : Bool) (f : Enc) : Enc := if c then f else done

/-- `if (has) ...` with the value that is there. -/
def forSome {α : Type} (a : Option α) (f : α → Enc) : Enc := a.elim done f

/-- The loop over `xs`. -/
def each {α : Type} (f : α → Enc) (xs : List α) : Enc := xs.foldr (fun x rest => f x >> rest) done

/-- A local buffer that `build` fills and `use` appends. -/
def withSub (build : Enc) (use : PbData → Enc) : Enc := fun h b =>
  match build h .inline with
  | (.ok, sub, h) => use (.bytes sub.bytes) h b
  | (st, _, h) => (st, b, h)

/-- The encoder can write `out` into a new buffer. -/
def Writes (f : Enc) (out : Bytes) : Prop := ∃ h b h', f h .inline = (.ok, b, h') ∧ b.bytes = out

end Enc

def bufAppend (data : PbData) : Enc := fun h b =>
  if data.len = 0 then (.ok, b, h)
  else
    match data with
    | .null _ => (.errNull, b, h)
    | .bytes bs =>
      match bufReserve h b bs.length with
      | (.error st, h) => (st, b, h)
      | (.ok r, h) => (.ok, ⟨b.bytes ++ bs, r.cap, by rw [List.length_append]; exact r.room, r.fits⟩, h)

/-- The bytes of `tmp` in `otlp_pb_varint`, each with the continuation bit. -/
def varintTmp : ℕ → UInt64 → Bytes
  | 0, _ => []
  | n + 1, v =>
    ((v &&& 0x7f) ||| 0x80).toUInt8 :: (if v >>> 7 ≠ 0 then varintTmp n (v >>> 7) else [])

/-- `tmp[n - 1] &= 0x7F`. -/
def clearLast : Bytes → Bytes
  | [] => []
  | [b] => [b &&& 0x7f]
  | b :: bs => b :: clearLast bs

def otlpPbVarint (v : UInt64) : Enc := bufAppend (.bytes (clearLast (varintTmp 10 v)))

def otlpPbFixed64 (v : UInt64) : Enc :=
  bufAppend (.bytes ((List.range 8).map fun i => (v >>> (UInt64.ofNat i * 8)).toUInt8))

def otlpPbFixed32 (v : UInt32) : Enc :=
  bufAppend (.bytes ((List.range 4).map fun i => (v >>> (UInt32.ofNat i * 8)).toUInt8))

def otlpPbBytes (data : PbData) : Enc :=
  otlpPbVarint (UInt64.ofNat data.len) >> .onlyIf (data.len ≠ 0) (bufAppend data)

/-- NULL counts as empty. -/
def otlpPbString (str : Option Bytes) : Enc := otlpPbBytes ((str.map PbData.bytes).getD (.null 0))

/-! Wire types -/

abbrev otlpPbWireVarint : UInt32 := 0
abbrev otlpPbWireFixed64 : UInt32 := 1
abbrev otlpPbWireLen : UInt32 := 2
abbrev otlpPbWireFixed32 : UInt32 := 5

def otlpPbTag (fieldNumber wireType : UInt32) : Enc :=
  if fieldNumber = 0 then .fail .errInvalidArgument
  else if wireType ≠ otlpPbWireVarint ∧ wireType ≠ otlpPbWireFixed64 ∧ wireType ≠ otlpPbWireLen ∧
      wireType ≠ otlpPbWireFixed32 then .fail .errInvalidArgument
  else otlpPbVarint (fieldNumber.toUInt64 <<< 3 ||| wireType.toUInt64)

def otlpPbFieldVarint (fieldNum : UInt32) (value : UInt64) : Enc :=
  if value = 0 then .done else otlpPbTag fieldNum otlpPbWireVarint >> otlpPbVarint value

def otlpPbFieldFixed64 (fieldNum : UInt32) (value : UInt64) : Enc :=
  if value = 0 then .done else otlpPbTag fieldNum otlpPbWireFixed64 >> otlpPbFixed64 value

def otlpPbFieldFixed32 (fieldNum value : UInt32) : Enc :=
  if value = 0 then .done else otlpPbTag fieldNum otlpPbWireFixed32 >> otlpPbFixed32 value

def otlpPbFieldBytes (fieldNum : UInt32) (data : PbData) : Enc :=
  if data.len = 0 then .done else otlpPbTag fieldNum otlpPbWireLen >> otlpPbBytes data

def otlpPbFieldString (fieldNum : UInt32) (str : Option Bytes) : Enc :=
  match str with
  | none | some [] => .done
  | some s => otlpPbTag fieldNum otlpPbWireLen >> otlpPbBytes (.bytes s)

def otlpPbFieldMessage (fieldNum : UInt32) (data : PbData) : Enc :=
  if data.len = 0 then .done
  else otlpPbTag fieldNum otlpPbWireLen >> otlpPbVarint (UInt64.ofNat data.len) >> bufAppend data

/-! ### What has been appended -/

/-- When the encoder succeeds, it has appended `out`. -/
def Appends (f : Enc) (out : Bytes) : Prop :=
  ∀ ⦃h b b' h'⦄, f h b = (.ok, b', h') → b'.bytes = b.bytes ++ out

/-- When the encoder succeeds, it has appended the fields. -/
def Emits (f : Enc) (fs : List Field) : Prop := Appends f (message fs)

theorem andThen_ok {f g : Enc} {h h' : Heap} {b b' : PbBuf} (hok : (f >> g) h b = (.ok, b', h')) :
    ∃ b₁ h₁, f h b = (.ok, b₁, h₁) ∧ g h₁ b₁ = (.ok, b', h') := by
  change (match f h b with
    | (.ok, b, h) => g h b
    | r => r) = _ at hok
  split at hok
  · next b₁ h₁ heq => exact ⟨b₁, h₁, heq, hok⟩
  · next hne => exact absurd hok (hne b' h')

theorem Appends.andThen {f g : Enc} {as bs : Bytes} (hf : Appends f as) (hg : Appends g bs) :
    Appends (f >> g) (as ++ bs) := by
  intro h b b' h' hok
  obtain ⟨b₁, h₁, hok₁, hok₂⟩ := andThen_ok hok
  rw [hg hok₂, hf hok₁, List.append_assoc]

theorem appends_done : Appends .done [] := by
  intro h b b' h' hok
  cases hok
  rw [List.append_nil]

theorem appends_fail {st : OtlpStatus} (hst : st ≠ .ok) (out : Bytes) : Appends (.fail st) out := by
  intro h b b' h' hok
  exact absurd (Prod.mk.inj hok).1 hst

theorem Appends.onlyIf {f : Enc} {out : Bytes} (c : Bool) (hf : Appends f out) :
    Appends (.onlyIf c f) (if c then out else []) := by
  unfold Enc.onlyIf
  cases c
  · exact appends_done
  · exact hf

theorem bufReserve_error {h h' : Heap} {b : PbBuf} {n : ℕ} {st : OtlpStatus}
    (herror : bufReserve h b n = (.error st, h')) : st ≠ .ok := by
  unfold bufReserve reserve at herror
  split at herror
  · obtain ⟨hst, -⟩ := Prod.mk.inj herror
    cases hst
    decide
  · split at herror
    · cases (Prod.mk.inj herror).1
    · split at herror
      · obtain ⟨hst, -⟩ := Prod.mk.inj herror
        cases hst
        decide
      · split at herror
        · obtain ⟨hst, -⟩ := Prod.mk.inj herror
          cases hst
          decide
        · cases (Prod.mk.inj herror).1

theorem appends_bufAppend (bs : Bytes) : Appends (bufAppend (.bytes bs)) bs := by
  intro h b b' h' hok
  unfold bufAppend at hok
  split at hok
  · next hlen =>
    cases hok
    rw [List.length_eq_zero_iff.1 hlen, List.append_nil]
  · dsimp only at hok
    split at hok
    · next heq =>
      obtain ⟨rfl, -⟩ := Prod.mk.inj hok
      exact absurd rfl (bufReserve_error heq)
    · cases hok
      rfl

theorem Appends.withSub {build : Enc} {use : PbData → Enc} {sub out : Bytes} (hbuild : Appends build sub)
    (huse : Appends (use (.bytes sub)) out) : Appends (.withSub build use) out := by
  intro h b b' h' hok
  unfold Enc.withSub at hok
  rcases hsub : build h .inline with ⟨st, b₁, h₁⟩
  rw [hsub] at hok
  by_cases hst : st = .ok
  · subst hst
    have hbytes : b₁.bytes = sub := hbuild hsub
    dsimp only at hok
    rw [hbytes] at hok
    exact huse hok
  · cases st
    · exact absurd rfl hst
    all_goals cases (Prod.mk.inj hok).1

/-! ### Numbers -/

theorem toNat_contByte (v : UInt64) : ((v &&& 0x7f ||| 0x80).toUInt8).toNat = v.toNat % 128 + 128 := by
  have hmod : v.toNat &&& 0x7f = v.toNat % 128 := Nat.and_two_pow_sub_one_eq_mod v.toNat 7
  have hlt : v.toNat % 128 < 128 := Nat.mod_lt _ (by decide)
  have hor : ∀ n < 128, n ||| 0x80 = n + 128 := by decide +kernel
  have hval : (v &&& 0x7f ||| 0x80).toNat = v.toNat % 128 + 128 := by
    rw [UInt64.toNat_or, UInt64.toNat_and]
    change v.toNat &&& 0x7f ||| 0x80 = _
    rw [hmod, hor _ hlt]
  rw [UInt64.toNat_toUInt8, hval]
  omega

theorem contByte_eq (v : UInt64) : (v &&& 0x7f ||| 0x80).toUInt8 = UInt8.ofNat (v.toNat % 128 + 128) := by
  apply UInt8.toNat_inj.1
  rw [toNat_contByte, UInt8.toNat_ofNat']
  omega

theorem lastByte_eq {v : UInt64} (hv : v.toNat < 128) :
    (v &&& 0x7f ||| 0x80).toUInt8 &&& 0x7f = UInt8.ofNat v.toNat := by
  apply UInt8.toNat_inj.1
  have hmask : ∀ n < 128, (n + 128) &&& 0x7f = n := by decide +kernel
  rw [UInt8.toNat_and, toNat_contByte, UInt8.toNat_ofNat', Nat.mod_eq_of_lt hv]
  change (v.toNat + 128) &&& 0x7f = _
  rw [hmask _ hv]
  omega

theorem clearLast_varintTmp (n : ℕ) (v : UInt64) (hv : v.toNat < 128 ^ (n + 1)) :
    clearLast (varintTmp (n + 1) v) = putVarint (n + 1) v.toNat := by
  induction n generalizing v with
  | zero =>
    have hlt : v.toNat < 128 := by simpa using hv
    rw [varintTmp, putVarint, if_pos hlt, ← lastByte_eq hlt]
    split <;> rfl
  | succ n ih =>
    have hshift : (v >>> 7).toNat = v.toNat / 128 := by
      rw [UInt64.toNat_shiftRight]
      exact Nat.shiftRight_eq_div_pow v.toNat 7
    have hzero : v >>> 7 = 0 ↔ v.toNat < 128 := by
      rw [← UInt64.toNat_inj, hshift]
      change v.toNat / 128 = 0 ↔ _
      omega
    have hdiv : (v >>> 7).toNat < 128 ^ (n + 1) := by
      rw [hshift, Nat.div_lt_iff_lt_mul (by decide), ← pow_succ]
      exact hv
    rw [varintTmp, putVarint]
    by_cases hlt : v.toNat < 128
    · rw [if_neg (not_not.2 (hzero.2 hlt)), if_pos hlt, ← lastByte_eq hlt]
      rfl
    · have hne : v >>> 7 ≠ 0 := mt hzero.1 hlt
      have hcons : varintTmp (n + 1) (v >>> 7) ≠ [] := by
        rw [varintTmp]
        exact List.cons_ne_nil _ _
      rw [if_pos hne, if_neg hlt, contByte_eq, clearLast.eq_3 _ _ hcons, ih _ hdiv, hshift]

theorem appends_varint (v : UInt64) : Appends (otlpPbVarint v) (varint v.toNat) := by
  have heq := clearLast_varintTmp 9 v (v.toNat_lt.trans (by decide))
  unfold otlpPbVarint
  rw [heq]
  exact appends_bufAppend _

theorem putLe_eq_map (k n : ℕ) : putLe k n = (List.range k).map fun i => UInt8.ofNat (n >>> (i * 8)) := by
  induction k generalizing n with
  | zero => rfl
  | succ k ih =>
    have hhead : UInt8.ofNat (n % 256) = UInt8.ofNat n := by
      apply UInt8.toNat_inj.1
      simp
    rw [putLe, ih, List.range_succ_eq_map, List.map_cons, List.map_map, hhead]
    refine congrArg (UInt8.ofNat n :: ·) (List.map_congr_left fun i _ => ?_)
    have hshift : n / 256 = n >>> 8 := (Nat.shiftRight_eq_div_pow n 8).symm
    rw [hshift, ← Nat.shiftRight_add, Function.comp_apply, Nat.succ_mul, Nat.add_comm]

theorem appends_fixed64 (v : UInt64) : Appends (otlpPbFixed64 v) (putLe 8 v.toNat) := by
  have hbytes : ((List.range 8).map fun i => (v >>> (UInt64.ofNat i * 8)).toUInt8) = putLe 8 v.toNat := by
    rw [putLe_eq_map]
    refine List.map_congr_left fun i hi => ?_
    have hi : i < 8 := List.mem_range.1 hi
    have hshift : (UInt64.ofNat i * 8).toNat % 64 = i * 8 := by
      rw [UInt64.toNat_mul, UInt64.toNat_ofNat']
      change i % 2 ^ 64 * 8 % 2 ^ 64 % 64 = i * 8
      omega
    apply UInt8.toNat_inj.1
    rw [UInt64.toNat_toUInt8, UInt64.toNat_shiftRight, hshift, UInt8.toNat_ofNat']
  unfold otlpPbFixed64
  rw [hbytes]
  exact appends_bufAppend _

theorem appends_fixed32 (v : UInt32) : Appends (otlpPbFixed32 v) (putLe 4 v.toNat) := by
  have hbytes : ((List.range 4).map fun i => (v >>> (UInt32.ofNat i * 8)).toUInt8) = putLe 4 v.toNat := by
    rw [putLe_eq_map]
    refine List.map_congr_left fun i hi => ?_
    have hi : i < 4 := List.mem_range.1 hi
    have hshift : (UInt32.ofNat i * 8).toNat % 32 = i * 8 := by
      rw [UInt32.toNat_mul, UInt32.toNat_ofNat']
      change i % 2 ^ 32 * 8 % 2 ^ 32 % 32 = i * 8
      omega
    apply UInt8.toNat_inj.1
    rw [UInt32.toNat_toUInt8, UInt32.toNat_shiftRight, hshift, UInt8.toNat_ofNat']
  unfold otlpPbFixed32
  rw [hbytes]
  exact appends_bufAppend _

theorem length_le_of_bufAppend {h h' : Heap} {b b' : PbBuf} {bs : Bytes}
    (hok : bufAppend (.bytes bs) h b = (.ok, b', h')) : bs.length ≤ ptrdiffMax := by
  have happend := appends_bufAppend bs hok
  have hle := b'.le_cap.trans b'.fits
  rw [happend, List.length_append] at hle
  omega

theorem appends_lenPrefixed (bs : Bytes) :
    Appends (otlpPbVarint (UInt64.ofNat bs.length) >> bufAppend (.bytes bs)) (varint bs.length ++ bs) := by
  intro h b b' h' hok
  obtain ⟨b₁, h₁, hok₁, hok₂⟩ := andThen_ok hok
  have hlen : (UInt64.ofNat bs.length).toNat = bs.length := by
    have hle := length_le_of_bufAppend hok₂
    unfold ptrdiffMax at hle
    rw [UInt64.toNat_ofNat']
    omega
  rw [appends_bufAppend bs hok₂, appends_varint _ hok₁, hlen, List.append_assoc]

theorem appends_bytes (bs : Bytes) : Appends (otlpPbBytes (.bytes bs)) (varint bs.length ++ bs) := by
  unfold otlpPbBytes Enc.onlyIf
  by_cases hlen : bs.length = 0
  · rw [List.length_eq_zero_iff.1 hlen]
    exact (appends_varint 0).andThen appends_done
  · rw [if_pos (by simpa [PbData.len] using hlen)]
    exact appends_lenPrefixed bs

theorem appends_tag (n w : UInt32) (hw : w.toNat < 8) : Appends (otlpPbTag n w) (varint (n.toNat * 8 + w.toNat)) := by
  unfold otlpPbTag
  split
  · exact appends_fail (by decide) _
  · split
    · exact appends_fail (by decide) _
    · have hkey : (n.toUInt64 <<< 3 ||| w.toUInt64).toNat = n.toNat * 8 + w.toNat := by
        have hn := n.toNat_lt
        have hshift : (n.toUInt64 <<< 3).toNat = n.toNat * 8 := by
          rw [UInt64.toNat_shiftLeft, UInt32.toNat_toUInt64]
          change n.toNat <<< 3 % 2 ^ 64 = _
          rw [Nat.shiftLeft_eq]
          omega
        rw [UInt64.toNat_or, hshift, UInt32.toNat_toUInt64, Nat.mul_comm]
        exact (Nat.two_pow_add_eq_or_of_lt (i := 3) hw n.toNat).symm
      rw [← hkey]
      exact appends_varint _

/-! ### Fields -/

theorem emits_done : Emits .done [] := appends_done

theorem Emits.andThen {f g : Enc} {fs gs : List Field} (hf : Emits f fs) (hg : Emits g gs) :
    Emits (f >> g) (fs ++ gs) := by
  unfold Emits
  rw [message_append]
  exact Appends.andThen hf hg

theorem Emits.onlyIf {f : Enc} {fs : List Field} (c : Bool) (hf : Emits f fs) :
    Emits (.onlyIf c f) (if c then fs else []) := by
  cases c
  · exact emits_done
  · exact hf

theorem emits_each {α : Type} {f : α → Enc} {g : α → List Field} (hf : ∀ x, Emits (f x) (g x)) (xs : List α) :
    Emits (.each f xs) (xs.flatMap g) := by
  induction xs with
  | nil => exact emits_done
  | cons x xs ih => exact (hf x).andThen ih

theorem emits_field {value : Enc} {f : Field} {n w : UInt32} (hvalue : Appends value f.value)
    (hnumber : f.number = n.toNat) (hwire : f.wireType = w.toNat) : Emits (otlpPbTag n w >> value) [f] := by
  have hw : w.toNat < 8 := by
    rw [← hwire]
    cases f <;> simp [Field.wireType]
  have hbytes : message [f] = varint (n.toNat * 8 + w.toNat) ++ f.value := by
    rw [message_cons, message_nil, List.append_nil, Field.bytes, hnumber, hwire]
  unfold Emits
  rw [hbytes]
  exact (appends_tag n w hw).andThen hvalue

theorem emits_tagVarint (n : UInt32) (v : UInt64) :
    Emits (otlpPbTag n otlpPbWireVarint >> otlpPbVarint v) [.varint n.toNat v] :=
  emits_field (appends_varint v) rfl rfl

theorem emits_tagFixed64 (n : UInt32) (v : UInt64) :
    Emits (otlpPbTag n otlpPbWireFixed64 >> otlpPbFixed64 v) [.i64 n.toNat v] :=
  emits_field (appends_fixed64 v) rfl rfl

theorem emits_tagFixed32 (n v : UInt32) :
    Emits (otlpPbTag n otlpPbWireFixed32 >> otlpPbFixed32 v) [.i32 n.toNat v] :=
  emits_field (appends_fixed32 v) rfl rfl

theorem emits_tagBytes (n : UInt32) (bs : Bytes) :
    Emits (otlpPbTag n otlpPbWireLen >> otlpPbBytes (.bytes bs)) [.len n.toNat bs] :=
  emits_field (appends_bytes bs) rfl rfl

theorem emits_fieldVarint (n : UInt32) (v : UInt64) : Emits (otlpPbFieldVarint n v) (omitZero n.toNat v) := by
  unfold otlpPbFieldVarint omitZero
  split
  · exact emits_done
  · exact emits_tagVarint n v

theorem emits_fieldFixed64 (n : UInt32) (v : UInt64) : Emits (otlpPbFieldFixed64 n v) (omitZero64 n.toNat v) := by
  unfold otlpPbFieldFixed64 omitZero64
  split
  · exact emits_done
  · exact emits_tagFixed64 n v

theorem emits_fieldBytes (n : UInt32) (bs : Bytes) :
    Emits (otlpPbFieldBytes n (.bytes bs)) (omitEmpty n.toNat bs) := by
  unfold otlpPbFieldBytes
  split
  · next hlen =>
    rw [List.length_eq_zero_iff.1 hlen]
    exact emits_done
  · next hlen =>
    rw [omitEmpty_of_ne (mt List.length_eq_zero_iff.2 hlen)]
    exact emits_tagBytes n bs

theorem emits_fieldString (n : UInt32) (s : Bytes) :
    Emits (otlpPbFieldString n (some s)) (omitEmpty n.toNat s) := by
  cases s with
  | nil => exact emits_done
  | cons c s => exact emits_tagBytes n (c :: s)

theorem emits_fieldMessage (n : UInt32) (bs : Bytes) :
    Emits (otlpPbFieldMessage n (.bytes bs)) (omitEmpty n.toNat bs) := by
  unfold otlpPbFieldMessage
  split
  · next hlen =>
    rw [List.length_eq_zero_iff.1 hlen]
    exact emits_done
  · next hlen =>
    rw [omitEmpty_of_ne (mt List.length_eq_zero_iff.2 hlen)]
    exact emits_field (appends_lenPrefixed bs) rfl rfl

theorem emits_onlyIf_varint (n v : UInt32) :
    Emits (.onlyIf (v != 0) (otlpPbFieldVarint n v.toUInt64)) (omitZero n.toNat v.toUInt64) := by
  by_cases hv : v = 0
  · rw [hv]
    exact emits_done
  · rw [Enc.onlyIf, if_pos (bne_iff_ne.2 hv)]
    exact emits_fieldVarint n v.toUInt64

theorem emits_tagOptI64 (n : UInt32) (t : Option UInt64) :
    Emits (.forSome t fun t => otlpPbTag n otlpPbWireFixed64 >> otlpPbFixed64 t) (optI64 n.toNat t) := by
  cases t with
  | none => exact emits_done
  | some t => exact emits_tagFixed64 n t

theorem emits_optFixed64 (n : UInt32) (t : Option UInt64) :
    Emits (.forSome t fun t => otlpPbFieldFixed64 n t) (omitZero64 n.toNat (t.getD 0)) := by
  cases t with
  | none => exact emits_done
  | some t => exact emits_fieldFixed64 n t

theorem emits_tagOptLen {k : ℕ} (n : UInt32) (id : Option (Vector UInt8 k)) :
    Emits (.forSome id fun id => otlpPbTag n otlpPbWireLen >> otlpPbBytes (.bytes id.toList))
      (optLen n.toNat (id.map Vector.toList)) := by
  cases id with
  | none => exact emits_done
  | some id => exact emits_tagBytes n id.toList

theorem emits_optBytes {k : ℕ} (hk : 0 < k) (n : UInt32) (id : Option (Vector UInt8 k)) :
    Emits (.forSome id fun id => otlpPbFieldBytes n (.bytes id.toList)) (optLen n.toNat (id.map Vector.toList)) := by
  cases id with
  | none => exact emits_done
  | some id =>
    have hne : id.toList ≠ [] := List.ne_nil_of_length_pos (by rwa [Vector.length_toList])
    have hemits := emits_fieldBytes n id.toList
    rwa [omitEmpty_of_ne hne] at hemits

theorem emits_subMessage {build : Enc} {fs : List Field} (n : UInt32) (hbuild : Emits build fs) :
    Emits (.withSub build (otlpPbFieldMessage n)) (omitEmpty n.toNat (message fs)) :=
  Appends.withSub hbuild (emits_fieldMessage n (message fs))

end OtlpC.Proto
