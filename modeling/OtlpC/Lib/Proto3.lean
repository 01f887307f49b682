import Mathlib.Data.List.Basic
import Mathlib.Data.Nat.Notation
import Mathlib.Tactic.Ring

/-!
# The proto3 wire format

A message is a list of fields, each a number and a value of one of the four wire types in use. `message`
writes the fields and `fields` reads them back. What a decoder does with them follows: a singular field is
its last occurrence, a repeated field all of them in order, a packed field the values in its payloads.
-/

namespace OtlpC.Proto3

/-! ### Numbers -/

/-- The base-128 digits of `n`, the lowest first; all but the last have the top bit set. -/
def putVarint : ℕ → ℕ → List UInt8
  | 0, _ => []
  | digits + 1, n =>
    if n < 128 then [UInt8.ofNat n] else UInt8.ofNat (n % 128 + 128) :: putVarint digits (n / 128)

/-- A 64-bit number takes ten digits at most. -/
def varint (n : ℕ) : List UInt8 := putVarint 10 n

def takeVarint : ℕ → List UInt8 → Option (ℕ × List UInt8)
  | 0, _ => none
  | _ + 1, [] => none
  | digits + 1, b :: bs =>
    if b.toNat < 128 then some (b.toNat, bs)
    else (takeVarint digits bs).map fun r => (b.toNat - 128 + 128 * r.1, r.2)

theorem takeVarint_putVarint (digits : ℕ) {n : ℕ} (h : n < 128 ^ (digits + 1)) (rest : List UInt8) :
    takeVarint (digits + 1) (putVarint (digits + 1) n ++ rest) = some (n, rest) := by
  induction digits generalizing n with
  | zero =>
    have hn : n < 128 := by simpa using h
    have hbyte : (UInt8.ofNat n).toNat = n := by rw [UInt8.toNat_ofNat']; omega
    simp [putVarint, takeVarint, hn]
    omega
  | succ digits ih =>
    unfold putVarint
    split
    · next hn =>
      have hbyte : (UInt8.ofNat n).toNat = n := by rw [UInt8.toNat_ofNat']; omega
      rw [List.singleton_append, takeVarint, hbyte, if_pos hn]
    · next hn =>
      have hbyte : (UInt8.ofNat (n % 128 + 128)).toNat = n % 128 + 128 := by
        rw [UInt8.toNat_ofNat']
        omega
      have hdiv : n / 128 < 128 ^ (digits + 1) := by
        rw [Nat.div_lt_iff_lt_mul (by decide), ← pow_succ]
        exact h
      rw [List.cons_append, takeVarint, hbyte, if_neg (by omega), ih hdiv]
      simp only [Option.map_some, Option.some.injEq, Prod.mk.injEq, and_true]
      omega

theorem takeVarint_varint {n : ℕ} (h : n < 2 ^ 64) (rest : List UInt8) :
    takeVarint 10 (varint n ++ rest) = some (n, rest) :=
  takeVarint_putVarint 9 (h.trans (by decide)) rest

theorem putVarint_ne_nil (digits n : ℕ) : putVarint (digits + 1) n ≠ [] := by
  unfold putVarint
  split <;> exact List.cons_ne_nil _ _

theorem varint_ne_nil (n : ℕ) : varint n ≠ [] := putVarint_ne_nil 9 n

/-- `n` in `k` bytes, the lowest first. -/
def putLe : ℕ → ℕ → List UInt8
  | 0, _ => []
  | k + 1, n => UInt8.ofNat (n % 256) :: putLe k (n / 256)

def ofLe : List UInt8 → ℕ
  | [] => 0
  | b :: bs => b.toNat + 256 * ofLe bs

@[simp] theorem length_putLe (k n : ℕ) : (putLe k n).length = k := by
  induction k generalizing n with
  | zero => rfl
  | succ k ih => rw [putLe, List.length_cons, ih]

theorem ofLe_putLe (k : ℕ) {n : ℕ} (h : n < 256 ^ k) : ofLe (putLe k n) = n := by
  induction k generalizing n with
  | zero => simpa [putLe, ofLe, eq_comm] using h
  | succ k ih =>
    have hdiv : n / 256 < 256 ^ k := by
      rw [Nat.div_lt_iff_lt_mul (by decide), ← pow_succ]
      exact h
    have hbyte : (UInt8.ofNat (n % 256)).toNat = n % 256 := by
      rw [UInt8.toNat_ofNat']
      omega
    rw [putLe, ofLe, hbyte, ih hdiv]
    omega

theorem ofLe_putLe_u64 (v : UInt64) : ofLe (putLe 8 v.toNat) = v.toNat :=
  ofLe_putLe 8 (v.toNat_lt.trans_le (by decide))

theorem ofLe_putLe_u32 (v : UInt32) : ofLe (putLe 4 v.toNat) = v.toNat :=
  ofLe_putLe 4 (v.toNat_lt.trans_le (by decide))

/-! ### Fields -/

/-- A field number with its value. -/
inductive Field where
  | varint (number : ℕ) (v : UInt64)
  | i64 (number : ℕ) (v : UInt64)
  | len (number : ℕ) (payload : List UInt8)
  | i32 (number : ℕ) (v : UInt32)
deriving Repr, DecidableEq

namespace Field

def number : Field → ℕ
  | varint n _ => n
  | i64 n _ => n
  | len n _ => n
  | i32 n _ => n

def wireType : Field → ℕ
  | varint _ _ => 0
  | i64 _ _ => 1
  | len _ _ => 2
  | i32 _ _ => 5

def value : Field → List UInt8
  | varint _ v => Proto3.varint v.toNat
  | i64 _ v => putLe 8 v.toNat
  | len _ p => Proto3.varint p.length ++ p
  | i32 _ v => putLe 4 v.toNat

def bytes (f : Field) : List UInt8 := Proto3.varint (f.number * 8 + f.wireType) ++ f.value

def Valid (f : Field) : Prop := 0 < f.number ∧ f.number < 2 ^ 29

@[simp] theorem valid_varint {n : ℕ} {v : UInt64} : (varint n v).Valid ↔ 0 < n ∧ n < 2 ^ 29 := Iff.rfl
@[simp] theorem valid_i64 {n : ℕ} {v : UInt64} : (i64 n v).Valid ↔ 0 < n ∧ n < 2 ^ 29 := Iff.rfl
@[simp] theorem valid_len {n : ℕ} {p : List UInt8} : (len n p).Valid ↔ 0 < n ∧ n < 2 ^ 29 := Iff.rfl
@[simp] theorem valid_i32 {n : ℕ} {v : UInt32} : (i32 n v).Valid ↔ 0 < n ∧ n < 2 ^ 29 := Iff.rfl

end Field

def message (fs : List Field) : List UInt8 := fs.flatMap Field.bytes

@[simp] theorem message_nil : message [] = [] := rfl

@[simp] theorem message_cons (f : Field) (fs : List Field) : message (f :: fs) = f.bytes ++ message fs := rfl

@[simp] theorem message_append (fs gs : List Field) : message (fs ++ gs) = message fs ++ message gs :=
  List.flatMap_append

theorem bytes_ne_nil (f : Field) : f.bytes ≠ [] := by
  intro h
  exact varint_ne_nil _ (List.append_eq_nil_iff.1 h).1

theorem message_eq_nil {fs : List Field} : message fs = [] ↔ fs = [] := by
  cases fs with
  | nil => simp
  | cons f fs => simp [bytes_ne_nil f]

/-- The first field, and what follows it. -/
def takeField (bs : List UInt8) : Option (Field × List UInt8) := do
  let (key, bs) ← takeVarint 10 bs
  let number := key / 8
  if number = 0 then none
  else if key % 8 = 0 then
    let (v, bs) ← takeVarint 10 bs
    some (.varint number (UInt64.ofNat v), bs)
  else if key % 8 = 1 then
    if bs.length < 8 then none else some (.i64 number (UInt64.ofNat (ofLe (bs.take 8))), bs.drop 8)
  else if key % 8 = 2 then
    let (n, bs) ← takeVarint 10 bs
    if bs.length < n then none else some (.len number (bs.take n), bs.drop n)
  else if key % 8 = 5 then
    if bs.length < 4 then none else some (.i32 number (UInt32.ofNat (ofLe (bs.take 4))), bs.drop 4)
  else none

/-- All fields; every round reads a byte. -/
def fieldsLoop : ℕ → List UInt8 → Option (List Field)
  | _, [] => some []
  | 0, _ :: _ => none
  | rounds + 1, b :: bs => do
    let (f, bs) ← takeField (b :: bs)
    let fs ← fieldsLoop rounds bs
    some (f :: fs)

def fields (bs : List UInt8) : Option (List Field) := fieldsLoop bs.length bs

theorem takeField_bytes {f : Field} (hvalid : f.Valid) (hlen : f.bytes.length < 2 ^ 64) (rest : List UInt8) :
    takeField (f.bytes ++ rest) = some (f, rest) := by
  obtain ⟨hpos, hlt⟩ := hvalid
  have hwire : f.wireType < 8 := by cases f <;> simp [Field.wireType]
  have hkey : f.number * 8 + f.wireType < 2 ^ 64 := by omega
  have hnumber : (f.number * 8 + f.wireType) / 8 = f.number := by omega
  have htype : (f.number * 8 + f.wireType) % 8 = f.wireType := by omega
  unfold takeField Field.bytes
  rw [List.append_assoc, takeVarint_varint hkey]
  simp only [Option.bind_eq_bind, Option.bind_some, hnumber, htype, if_neg hpos.ne']
  cases f with
  | varint n v =>
    simp [Field.wireType, Field.value, Field.number, takeVarint_varint v.toNat_lt]
  | i64 n v =>
    have htake : (putLe 8 v.toNat ++ rest).take 8 = putLe 8 v.toNat := List.take_left' (length_putLe 8 _)
    have hdrop : (putLe 8 v.toNat ++ rest).drop 8 = rest := List.drop_left' (length_putLe 8 _)
    simp [Field.wireType, Field.value, Field.number, htake, hdrop, ofLe_putLe_u64]
  | len n p =>
    have hp : p.length < 2 ^ 64 := by
      refine lt_of_le_of_lt ?_ hlen
      simp [Field.bytes, Field.value]
      omega
    simp [Field.wireType, Field.value, Field.number, takeVarint_varint hp]
  | i32 n v =>
    have htake : (putLe 4 v.toNat ++ rest).take 4 = putLe 4 v.toNat := List.take_left' (length_putLe 4 _)
    have hdrop : (putLe 4 v.toNat ++ rest).drop 4 = rest := List.drop_left' (length_putLe 4 _)
    simp [Field.wireType, Field.value, Field.number, htake, hdrop, ofLe_putLe_u32]

theorem fieldsLoop_message {fs : List Field} (hvalid : ∀ f ∈ fs, f.Valid)
    (hlen : (message fs).length < 2 ^ 64) (rounds : ℕ) (hrounds : fs.length ≤ rounds) :
    fieldsLoop rounds (message fs) = some fs := by
  induction fs generalizing rounds with
  | nil => simp [fieldsLoop]
  | cons f fs ih =>
    obtain ⟨rounds, rfl⟩ : ∃ k, rounds = k + 1 := ⟨rounds - 1, by simp at hrounds; omega⟩
    rw [message_cons, List.length_append] at hlen
    obtain ⟨b, bs, hbytes⟩ := List.exists_cons_of_ne_nil (bytes_ne_nil f)
    have hhead := takeField_bytes (hvalid f List.mem_cons_self) (by omega) (message fs)
    have htail := ih (fun g hg => hvalid g (List.mem_cons_of_mem f hg)) (by omega) rounds (by simpa using hrounds)
    rw [message_cons]
    rw [hbytes, List.cons_append] at hhead ⊢
    simp [fieldsLoop, hhead, htail]

theorem length_le_message (fs : List Field) : fs.length ≤ (message fs).length := by
  induction fs with
  | nil => simp
  | cons f fs ih =>
    have hpos := List.length_pos_iff.2 (bytes_ne_nil f)
    rw [message_cons, List.length_append, List.length_cons]
    omega

/-- **What `message` writes, `fields` reads back.** -/
theorem fields_message {fs : List Field} (hvalid : ∀ f ∈ fs, f.Valid) (hlen : (message fs).length < 2 ^ 64) :
    fields (message fs) = some fs :=
  fieldsLoop_message hvalid hlen _ (length_le_message fs)

theorem length_payload_lt {n : ℕ} {p : List UInt8} {fs : List Field} (h : Field.len n p ∈ fs) :
    p.length < (message fs).length := by
  induction fs with
  | nil => simp at h
  | cons f fs ih =>
    rw [message_cons, List.length_append]
    rcases List.mem_cons.1 h with rfl | h
    · have hpos := List.length_pos_iff.2 (varint_ne_nil (n * 8 + 2))
      simp only [Field.bytes, Field.number, Field.wireType, Field.value, List.length_append]
      omega
    · have := ih h
      omega

/-! ### Reading a message -/

/-- The payloads of the length-delimited fields with number `n`. -/
def lens (n : ℕ) (fs : List Field) : List (List UInt8) :=
  fs.filterMap fun
    | .len m p => if m = n then some p else none
    | _ => none

def varints (n : ℕ) (fs : List Field) : List UInt64 :=
  fs.filterMap fun
    | .varint m v => if m = n then some v else none
    | _ => none

def i64s (n : ℕ) (fs : List Field) : List UInt64 :=
  fs.filterMap fun
    | .i64 m v => if m = n then some v else none
    | _ => none

def i32s (n : ℕ) (fs : List Field) : List UInt32 :=
  fs.filterMap fun
    | .i32 m v => if m = n then some v else none
    | _ => none

/-- A singular field: the last occurrence, or the default. -/
def lastD {α : Type*} (xs : List α) (default : α) : α := xs.getLast?.getD default

/-- A singular sub-message; several occurrences are merged by reading them as one. -/
def subMessage (n : ℕ) (fs : List Field) : List UInt8 := (lens n fs).flatten

@[simp] theorem lens_nil (n : ℕ) : lens n [] = [] := rfl
@[simp] theorem varints_nil (n : ℕ) : varints n [] = [] := rfl
@[simp] theorem i64s_nil (n : ℕ) : i64s n [] = [] := rfl
@[simp] theorem i32s_nil (n : ℕ) : i32s n [] = [] := rfl

@[simp] theorem lens_append (n : ℕ) (fs gs : List Field) : lens n (fs ++ gs) = lens n fs ++ lens n gs :=
  List.filterMap_append

@[simp] theorem varints_append (n : ℕ) (fs gs : List Field) :
    varints n (fs ++ gs) = varints n fs ++ varints n gs :=
  List.filterMap_append

@[simp] theorem i64s_append (n : ℕ) (fs gs : List Field) : i64s n (fs ++ gs) = i64s n fs ++ i64s n gs :=
  List.filterMap_append

@[simp] theorem i32s_append (n : ℕ) (fs gs : List Field) : i32s n (fs ++ gs) = i32s n fs ++ i32s n gs :=
  List.filterMap_append

@[simp] theorem lens_cons_len (n m : ℕ) (p : List UInt8) (fs : List Field) :
    lens n (.len m p :: fs) = if m = n then p :: lens n fs else lens n fs := by
  by_cases h : m = n <;> simp [lens, h]

@[simp] theorem lens_cons_varint (n m : ℕ) (v : UInt64) (fs : List Field) :
    lens n (.varint m v :: fs) = lens n fs := rfl

@[simp] theorem lens_cons_i64 (n m : ℕ) (v : UInt64) (fs : List Field) :
    lens n (.i64 m v :: fs) = lens n fs := rfl

@[simp] theorem lens_cons_i32 (n m : ℕ) (v : UInt32) (fs : List Field) :
    lens n (.i32 m v :: fs) = lens n fs := rfl

@[simp] theorem varints_cons_varint (n m : ℕ) (v : UInt64) (fs : List Field) :
    varints n (.varint m v :: fs) = if m = n then v :: varints n fs else varints n fs := by
  by_cases h : m = n <;> simp [varints, h]

@[simp] theorem varints_cons_len (n m : ℕ) (p : List UInt8) (fs : List Field) :
    varints n (.len m p :: fs) = varints n fs := rfl

@[simp] theorem varints_cons_i64 (n m : ℕ) (v : UInt64) (fs : List Field) :
    varints n (.i64 m v :: fs) = varints n fs := rfl

@[simp] theorem varints_cons_i32 (n m : ℕ) (v : UInt32) (fs : List Field) :
    varints n (.i32 m v :: fs) = varints n fs := rfl

@[simp] theorem i64s_cons_i64 (n m : ℕ) (v : UInt64) (fs : List Field) :
    i64s n (.i64 m v :: fs) = if m = n then v :: i64s n fs else i64s n fs := by
  by_cases h : m = n <;> simp [i64s, h]

@[simp] theorem i64s_cons_len (n m : ℕ) (p : List UInt8) (fs : List Field) :
    i64s n (.len m p :: fs) = i64s n fs := rfl

@[simp] theorem i64s_cons_varint (n m : ℕ) (v : UInt64) (fs : List Field) :
    i64s n (.varint m v :: fs) = i64s n fs := rfl

@[simp] theorem i64s_cons_i32 (n m : ℕ) (v : UInt32) (fs : List Field) :
    i64s n (.i32 m v :: fs) = i64s n fs := rfl

@[simp] theorem i32s_cons_i32 (n m : ℕ) (v : UInt32) (fs : List Field) :
    i32s n (.i32 m v :: fs) = if m = n then v :: i32s n fs else i32s n fs := by
  by_cases h : m = n <;> simp [i32s, h]

@[simp] theorem i32s_cons_len (n m : ℕ) (p : List UInt8) (fs : List Field) :
    i32s n (.len m p :: fs) = i32s n fs := rfl

@[simp] theorem i32s_cons_varint (n m : ℕ) (v : UInt64) (fs : List Field) :
    i32s n (.varint m v :: fs) = i32s n fs := rfl

@[simp] theorem i32s_cons_i64 (n m : ℕ) (v : UInt64) (fs : List Field) :
    i32s n (.i64 m v :: fs) = i32s n fs := rfl

/-! ### Repeated fields and omitted defaults -/

def repeated (n : ℕ) (ps : List (List UInt8)) : List Field := ps.map (Field.len n)

/-- A length-delimited field that is left out when it is empty. -/
def omitEmpty (n : ℕ) (p : List UInt8) : List Field := if p.isEmpty then [] else [.len n p]

theorem omitEmpty_of_ne {n : ℕ} {p : List UInt8} (hp : p ≠ []) : omitEmpty n p = [.len n p] :=
  if_neg (mt List.isEmpty_iff.1 hp)

def omitZero (n : ℕ) (v : UInt64) : List Field := if v = 0 then [] else [.varint n v]

def omitZero64 (n : ℕ) (v : UInt64) : List Field := if v = 0 then [] else [.i64 n v]

@[simp] theorem lastD_nil {α : Type*} (d : α) : lastD [] d = d := rfl

@[simp] theorem lastD_singleton {α : Type*} (a d : α) : lastD [a] d = a := rfl

@[simp] theorem lens_repeated (n m : ℕ) (ps : List (List UInt8)) :
    lens n (repeated m ps) = if m = n then ps else [] := by
  induction ps with
  | nil => simp [repeated]
  | cons p ps ih =>
    rw [repeated, List.map_cons, lens_cons_len]
    change (if m = n then p :: lens n (repeated m ps) else lens n (repeated m ps)) = _
    rw [ih]
    split <;> rfl

@[simp] theorem varints_repeated (n m : ℕ) (ps : List (List UInt8)) : varints n (repeated m ps) = [] := by
  simp [varints, repeated]

@[simp] theorem i64s_repeated (n m : ℕ) (ps : List (List UInt8)) : i64s n (repeated m ps) = [] := by
  simp [i64s, repeated]

@[simp] theorem i32s_repeated (n m : ℕ) (ps : List (List UInt8)) : i32s n (repeated m ps) = [] := by
  simp [i32s, repeated]

@[simp] theorem lens_omitEmpty (n m : ℕ) (p : List UInt8) :
    lens n (omitEmpty m p) = if m = n ∧ p ≠ [] then [p] else [] := by
  cases p <;> simp [omitEmpty]

@[simp] theorem varints_omitEmpty (n m : ℕ) (p : List UInt8) : varints n (omitEmpty m p) = [] := by
  cases p <;> simp [omitEmpty]

@[simp] theorem i64s_omitEmpty (n m : ℕ) (p : List UInt8) : i64s n (omitEmpty m p) = [] := by
  cases p <;> simp [omitEmpty]

@[simp] theorem i32s_omitEmpty (n m : ℕ) (p : List UInt8) : i32s n (omitEmpty m p) = [] := by
  cases p <;> simp [omitEmpty]

@[simp] theorem varints_omitZero (n m : ℕ) (v : UInt64) :
    varints n (omitZero m v) = if m = n ∧ v ≠ 0 then [v] else [] := by
  by_cases h : v = 0 <;> simp [omitZero, h]

@[simp] theorem lens_omitZero (n m : ℕ) (v : UInt64) : lens n (omitZero m v) = [] := by
  by_cases h : v = 0 <;> simp [omitZero, h]

@[simp] theorem i64s_omitZero (n m : ℕ) (v : UInt64) : i64s n (omitZero m v) = [] := by
  by_cases h : v = 0 <;> simp [omitZero, h]

@[simp] theorem i32s_omitZero (n m : ℕ) (v : UInt64) : i32s n (omitZero m v) = [] := by
  by_cases h : v = 0 <;> simp [omitZero, h]

@[simp] theorem i64s_omitZero64 (n m : ℕ) (v : UInt64) :
    i64s n (omitZero64 m v) = if m = n ∧ v ≠ 0 then [v] else [] := by
  by_cases h : v = 0 <;> simp [omitZero64, h]

@[simp] theorem lens_omitZero64 (n m : ℕ) (v : UInt64) : lens n (omitZero64 m v) = [] := by
  by_cases h : v = 0 <;> simp [omitZero64, h]

@[simp] theorem varints_omitZero64 (n m : ℕ) (v : UInt64) : varints n (omitZero64 m v) = [] := by
  by_cases h : v = 0 <;> simp [omitZero64, h]

@[simp] theorem i32s_omitZero64 (n m : ℕ) (v : UInt64) : i32s n (omitZero64 m v) = [] := by
  by_cases h : v = 0 <;> simp [omitZero64, h]

def optLen (n : ℕ) (p : Option (List UInt8)) : List Field := p.toList.map (Field.len n)

def optI64 (n : ℕ) (v : Option UInt64) : List Field := v.toList.map (Field.i64 n)

@[simp] theorem lens_optLen (n m : ℕ) (p : Option (List UInt8)) :
    lens n (optLen m p) = if m = n then p.toList else [] := by
  cases p <;> simp [optLen]

@[simp] theorem varints_optLen (n m : ℕ) (p : Option (List UInt8)) : varints n (optLen m p) = [] := by
  cases p <;> simp [optLen]

@[simp] theorem i64s_optLen (n m : ℕ) (p : Option (List UInt8)) : i64s n (optLen m p) = [] := by
  cases p <;> simp [optLen]

@[simp] theorem i32s_optLen (n m : ℕ) (p : Option (List UInt8)) : i32s n (optLen m p) = [] := by
  cases p <;> simp [optLen]

@[simp] theorem i64s_optI64 (n m : ℕ) (v : Option UInt64) :
    i64s n (optI64 m v) = if m = n then v.toList else [] := by
  cases v <;> simp [optI64]

@[simp] theorem lens_optI64 (n m : ℕ) (v : Option UInt64) : lens n (optI64 m v) = [] := by
  cases v <;> simp [optI64]

@[simp] theorem varints_optI64 (n m : ℕ) (v : Option UInt64) : varints n (optI64 m v) = [] := by
  cases v <;> simp [optI64]

@[simp] theorem i32s_optI64 (n m : ℕ) (v : Option UInt64) : i32s n (optI64 m v) = [] := by
  cases v <;> simp [optI64]

theorem omitEmpty_eq_nil {n : ℕ} {p : List UInt8} : omitEmpty n p = [] ↔ p = [] := by
  cases p <;> simp [omitEmpty]

theorem omitZero_eq_nil {n : ℕ} {v : UInt64} : omitZero n v = [] ↔ v = 0 := by
  by_cases hv : v = 0 <;> simp [omitZero, hv]

theorem omitZero64_eq_nil {n : ℕ} {v : UInt64} : omitZero64 n v = [] ↔ v = 0 := by
  by_cases hv : v = 0 <;> simp [omitZero64, hv]

theorem optLen_eq_nil {n : ℕ} {p : Option (List UInt8)} : optLen n p = [] ↔ p = none := by
  cases p <;> simp [optLen]

@[simp] theorem lastD_omitted_bytes (p : List UInt8) : lastD (if p = [] then [] else [p]) [] = p := by
  by_cases h : p = [] <;> simp [h]

@[simp] theorem lastD_omitted_u64 (v : UInt64) : lastD (if v = 0 then [] else [v]) 0 = v := by
  by_cases h : v = 0 <;> simp [h]

@[simp] theorem lastD_toList {α : Type*} (a : Option α) (d : α) : lastD a.toList d = a.getD d := by
  cases a <;> rfl

@[simp] theorem flatten_omitted_bytes (p : List UInt8) : (if p = [] then [] else [p]).flatten = p := by
  by_cases h : p = [] <;> simp [h]

theorem mapM_map_some {α β γ : Type*} {f : β → Option γ} {g : α → β} {k : α → γ} {xs : List α}
    (h : ∀ a ∈ xs, f (g a) = some (k a)) : (xs.map g).mapM f = some (xs.map k) := by
  induction xs with
  | nil => rfl
  | cons a xs ih =>
    have htail := ih fun b hb => h b (List.mem_cons_of_mem a hb)
    simp [List.map_cons, List.mapM_cons, h a List.mem_cons_self, htail]

def Avoids (n : ℕ) (fs : List Field) : Prop := ∀ f ∈ fs, f.number ≠ n

@[simp] theorem avoids_nil (n : ℕ) : Avoids n [] := fun _ hf => absurd hf List.not_mem_nil

@[simp] theorem avoids_cons {n : ℕ} {f : Field} {fs : List Field} :
    Avoids n (f :: fs) ↔ f.number ≠ n ∧ Avoids n fs := List.forall_mem_cons

@[simp] theorem avoids_append {n : ℕ} {fs gs : List Field} : Avoids n (fs ++ gs) ↔ Avoids n fs ∧ Avoids n gs :=
  List.forall_mem_append

section

variable {n m : ℕ} (hne : m ≠ n)
include hne

@[simp] theorem avoids_repeated (ps : List (List UInt8)) : Avoids n (repeated m ps) := by
  intro f hf
  obtain ⟨p, -, rfl⟩ := List.mem_map.1 hf
  exact hne

@[simp] theorem avoids_omitEmpty (p : List UInt8) : Avoids n (omitEmpty m p) := by
  unfold omitEmpty
  split
  · exact avoids_nil n
  · exact avoids_cons.2 ⟨hne, avoids_nil n⟩

@[simp] theorem avoids_omitZero (v : UInt64) : Avoids n (omitZero m v) := by
  unfold omitZero
  split
  · exact avoids_nil n
  · exact avoids_cons.2 ⟨hne, avoids_nil n⟩

@[simp] theorem avoids_omitZero64 (v : UInt64) : Avoids n (omitZero64 m v) := by
  unfold omitZero64
  split
  · exact avoids_nil n
  · exact avoids_cons.2 ⟨hne, avoids_nil n⟩

end

/-! ### Field numbers -/

def WellNumbered (fs : List Field) : Prop := ∀ f ∈ fs, f.Valid

@[simp] theorem wellNumbered_nil : WellNumbered [] := fun _ hf => absurd hf List.not_mem_nil

@[simp] theorem wellNumbered_cons {f : Field} {fs : List Field} :
    WellNumbered (f :: fs) ↔ f.Valid ∧ WellNumbered fs := List.forall_mem_cons

@[simp] theorem wellNumbered_append {fs gs : List Field} :
    WellNumbered (fs ++ gs) ↔ WellNumbered fs ∧ WellNumbered gs := List.forall_mem_append

section

variable {n : ℕ} (hpos : 0 < n) (hlt : n < 2 ^ 29)
include hpos hlt

@[simp] theorem wellNumbered_repeated (ps : List (List UInt8)) : WellNumbered (repeated n ps) := by
  intro f hf
  obtain ⟨p, -, rfl⟩ := List.mem_map.1 hf
  exact ⟨hpos, hlt⟩

@[simp] theorem wellNumbered_omitEmpty (p : List UInt8) : WellNumbered (omitEmpty n p) := by
  unfold omitEmpty
  split
  · exact wellNumbered_nil
  · exact wellNumbered_cons.2 ⟨⟨hpos, hlt⟩, wellNumbered_nil⟩

@[simp] theorem wellNumbered_omitZero (v : UInt64) : WellNumbered (omitZero n v) := by
  unfold omitZero
  split
  · exact wellNumbered_nil
  · exact wellNumbered_cons.2 ⟨⟨hpos, hlt⟩, wellNumbered_nil⟩

@[simp] theorem wellNumbered_omitZero64 (v : UInt64) : WellNumbered (omitZero64 n v) := by
  unfold omitZero64
  split
  · exact wellNumbered_nil
  · exact wellNumbered_cons.2 ⟨⟨hpos, hlt⟩, wellNumbered_nil⟩

@[simp] theorem wellNumbered_optLen (p : Option (List UInt8)) : WellNumbered (optLen n p) := by
  cases p with
  | none => exact wellNumbered_nil
  | some p => exact wellNumbered_cons.2 ⟨⟨hpos, hlt⟩, wellNumbered_nil⟩

@[simp] theorem wellNumbered_optI64 (v : Option UInt64) : WellNumbered (optI64 n v) := by
  cases v with
  | none => exact wellNumbered_nil
  | some v => exact wellNumbered_cons.2 ⟨⟨hpos, hlt⟩, wellNumbered_nil⟩

end

def nonEmpty (ps : List (List UInt8)) : List (List UInt8) := ps.filter fun p => !p.isEmpty

theorem flatMap_omitEmpty (n : ℕ) (ps : List (List UInt8)) :
    ps.flatMap (omitEmpty n) = repeated n (nonEmpty ps) := by
  induction ps with
  | nil => rfl
  | cons p ps ih =>
    rw [List.flatMap_cons, ih]
    cases p <;> simp [omitEmpty, repeated, nonEmpty]

theorem flatMap_omitEmpty_map {α : Type*} (n : ℕ) (payload : α → List UInt8) (xs : List α) :
    (xs.flatMap fun x => omitEmpty n (payload x)) =
      repeated n ((xs.filter fun x => !(payload x).isEmpty).map payload) := by
  rw [← List.flatMap_map, flatMap_omitEmpty, nonEmpty, List.filter_map]
  rfl

/-! ### Packed fields -/

/-- The first 64-bit value of a packed payload, and the rest. -/
def takeLe (bs : List UInt8) : Option (UInt64 × List UInt8) :=
  if bs.length < 8 then none else some (UInt64.ofNat (ofLe (bs.take 8)), bs.drop 8)

/-- The first varint of a packed payload, and the rest. -/
def takeU64 (bs : List UInt8) : Option (UInt64 × List UInt8) :=
  (takeVarint 10 bs).map fun r => (UInt64.ofNat r.1, r.2)

/-- The values in a packed payload, with a reader of the first one. -/
def unpack (take : List UInt8 → Option (UInt64 × List UInt8)) : ℕ → List UInt8 → Option (List UInt64)
  | _, [] => some []
  | 0, _ :: _ => none
  | rounds + 1, b :: bs => do
    let (v, rest) ← take (b :: bs)
    let vs ← unpack take rounds rest
    some (v :: vs)

def gather (part : Field → Option (List UInt64)) (fs : List Field) : Option (List UInt64) :=
  (fs.mapM part).map List.flatten

/-- A repeated field: `take` reads a packed payload, `one` the value of a field that is not packed. -/
def packed (take : List UInt8 → Option (UInt64 × List UInt8)) (one : Field → Option UInt64) (n : ℕ) :
    List Field → Option (List UInt64) :=
  gather fun f =>
    if f.number = n then
      match f with
      | .len _ p => unpack take p.length p
      | f => some (one f).toList
    else some []

/-- A repeated 64-bit field, packed or not. -/
abbrev packedI64s : ℕ → List Field → Option (List UInt64) :=
  packed takeLe fun
    | .i64 _ v => some v
    | _ => none

abbrev packedVarints : ℕ → List Field → Option (List UInt64) :=
  packed takeU64 fun
    | .varint _ v => some v
    | _ => none

theorem gather_append (part : Field → Option (List UInt64)) (fs gs : List Field) :
    gather part (fs ++ gs) = (gather part fs).bind fun vs => (gather part gs).map (vs ++ ·) := by
  unfold gather
  rw [List.mapM_append]
  cases fs.mapM part with
  | none => rfl
  | some vs => cases gs.mapM part <;> simp

theorem gather_of_nil {part : Field → Option (List UInt64)} {fs : List Field} (h : ∀ f ∈ fs, part f = some []) :
    gather part fs = some [] := by
  induction fs with
  | nil => rfl
  | cons f fs ih =>
    have htail := ih fun g hg => h g (List.mem_cons_of_mem f hg)
    rw [← List.singleton_append, gather_append, htail]
    simp [gather, h f List.mem_cons_self]

/-! What a packed payload holds -/

theorem takeLe_putLe (v : UInt64) (rest : List UInt8) : takeLe (putLe 8 v.toNat ++ rest) = some (v, rest) := by
  have hlength : 8 ≤ (putLe 8 v.toNat ++ rest).length := by
    rw [List.length_append, length_putLe]
    omega
  rw [takeLe, if_neg (by omega), List.take_left' (length_putLe 8 v.toNat), List.drop_left' (length_putLe 8 v.toNat),
    ofLe_putLe_u64]
  simp

theorem takeU64_varint (v : UInt64) (rest : List UInt8) : takeU64 (varint v.toNat ++ rest) = some (v, rest) := by
  rw [takeU64, takeVarint_varint v.toNat_lt, Option.map_some, UInt64.ofNat_toNat]

section Packed

variable {take : List UInt8 → Option (UInt64 × List UInt8)} {one : Field → Option UInt64} {n : ℕ}

theorem unpack_cons {rounds : ℕ} {v : UInt64} {bs rest : List UInt8} (hne : bs ≠ []) (htake : take bs = some (v, rest)) :
    unpack take (rounds + 1) bs = (unpack take rounds rest).map (v :: ·) := by
  obtain ⟨b, bs, rfl⟩ := List.exists_cons_of_ne_nil hne
  rw [unpack, htake]
  show ((unpack take rounds rest).bind fun vs => some (v :: vs)) = _
  cases unpack take rounds rest <;> rfl

theorem unpack_flatMap {put : UInt64 → List UInt8} (hput : ∀ v, put v ≠ [])
    (htake : ∀ v rest, take (put v ++ rest) = some (v, rest)) (vs : List UInt64) (rounds : ℕ)
    (hrounds : (vs.flatMap put).length ≤ rounds) : unpack take rounds (vs.flatMap put) = some vs := by
  induction vs generalizing rounds with
  | nil => cases rounds <;> rfl
  | cons v vs ih =>
    have hpos := List.length_pos_iff.2 (hput v)
    rw [List.flatMap_cons, List.length_append] at hrounds
    obtain ⟨rounds, rfl⟩ : ∃ k, rounds = k + 1 := ⟨rounds - 1, by omega⟩
    rw [List.flatMap_cons, unpack_cons (List.append_ne_nil_of_left_ne_nil (hput v) _) (htake v _), ih rounds (by omega)]
    rfl

@[simp] theorem packed_append (fs gs : List Field) :
    packed take one n (fs ++ gs) = (packed take one n fs).bind fun vs => (packed take one n gs).map (vs ++ ·) :=
  gather_append _ fs gs

theorem packed_of_ne {fs : List Field} (h : Avoids n fs) : packed take one n fs = some [] :=
  gather_of_nil fun f hf => if_neg (h f hf)

theorem packed_cons_i64 {m : ℕ} (h : m ≠ n) (v : UInt64) (fs : List Field) :
    packed take one n (.i64 m v :: fs) = packed take one n fs := by
  rw [← List.singleton_append, packed_append, packed_of_ne (by simpa [Field.number] using h)]
  simp

/-- **A packed field reads back**; it is left out when it is empty. -/
theorem packed_omitEmpty {put : UInt64 → List UInt8} (hput : ∀ v, put v ≠ [])
    (htake : ∀ v rest, take (put v ++ rest) = some (v, rest)) (vs : List UInt64) :
    packed take one n (omitEmpty n (vs.flatMap put)) = some vs := by
  cases vs with
  | nil => rfl
  | cons v vs =>
    have hne : (v :: vs).flatMap put ≠ [] := by
      rw [List.flatMap_cons]
      exact List.append_ne_nil_of_left_ne_nil (hput v) _
    have hunpack := unpack_flatMap hput htake (v :: vs) _ le_rfl
    rw [omitEmpty_of_ne hne]
    simp only [packed, gather, List.mapM_cons, List.mapM_nil, Field.number, if_true, hunpack]
    simp

end Packed

/-! ### Signed numbers -/

/-- What a `sint32` stands for: 0, -1, 1, -2, … -/
def unzigzag (n : ℕ) : ℤ := if n % 2 = 0 then (n / 2 : ℕ) else -(n / 2 : ℕ) - 1

end OtlpC.Proto3
