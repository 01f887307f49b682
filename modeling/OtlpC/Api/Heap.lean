import OtlpC.Exporter.State
import OtlpC.Lib.Utf8

/-!
# Memory and strings

The allocator wrappers and the string helpers of `internal_util.c`. A block is known by its number: no two
allocations get the same one, and a block that `otlp_realloc` grows counts as a new one. An owned string or
array carries the number of its block with its contents, so that what an object owns can be read off it.
-/

namespace OtlpC.Api

open Exporter

/-- `PTRDIFF_MAX`: no block is larger. -/
def ptrdiffMax : ℕ := 2 ^ 63 - 1

/-- The allocator: the number of the next block, the requests refused so far, and which requests, by number
and size, it grants. -/
structure Heap where
  next : ℕ
  refused : ℕ
  grants : ℕ → ℕ → Bool

/-- A block of `size` bytes. -/
structure Chunk (size : ℕ) where
  block : ℕ
  fits : size ≤ ptrdiffMax

/-- `otlp_malloc`, `otlp_calloc` and `otlp_realloc`. -/
def otlpMalloc (h : Heap) (size : ℕ) : Option (Chunk size) × Heap :=
  if fits : size ≤ ptrdiffMax ∧ h.grants h.next size then (some ⟨h.next, fits.1⟩, { h with next := h.next + 1 })
  else (none, { h with next := h.next + 1, refused := h.refused + 1 })

/-- An owned `char *`. -/
structure HeapStr where
  block : ℕ
  bytes : Bytes
  fits : bytes.length + 1 ≤ ptrdiffMax
deriving Repr

/-- An owned array of values of `size` bytes each. -/
structure HeapArr (α : Type) (size : ℕ) where
  block : ℕ
  items : List α
  fits : items.length * size ≤ ptrdiffMax
deriving Repr

def otlpDupStr (h : Heap) : Option Bytes → Option HeapStr × Heap
  | none => (none, h)
  | some s =>
    if s.length = sizeMax then (none, h)
    else
      match otlpMalloc h (s.length + 1) with
      | (none, h) => (none, h)
      | (some c, h) => (some ⟨c.block, s, c.fits⟩, h)

/-- An allocation of as many bytes as `items` take, and the `memcpy` into it. -/
def dupArr {α : Type} (size : ℕ) (h : Heap) (items : List α) : Option (HeapArr α size) × Heap :=
  match otlpMalloc h (items.length * size) with
  | (none, h) => (none, h)
  | (some c, h) => (some ⟨c.block, items, c.fits⟩, h)

/-- A nullable string: `otlp_str_is_utf8` takes NULL for valid. -/
def isUtf8 (s : Option Bytes) : Bool := otlpStrIsUtf8 (s.getD [])

def otlpIdIsAllZero {n : ℕ} (id : Vector UInt8 n) : Bool := id.toList.all (· == 0)

def Heap.granting : Heap := ⟨0, 0, fun _ _ => true⟩

theorem eq_of_isSome {α : Type} {r : Option α × Heap} (hr : r.1.isSome = true) : r = (some (r.1.get hr), r.2) :=
  Prod.ext (Option.some_get hr).symm rfl

theorem eq_of_ok {α : Type} {r : OtlpStatus × α × Heap} (hr : r.1 = .ok) : r = (.ok, r.2.1, r.2.2) := Prod.ext hr rfl

/-! ### What an object owns -/

/-- A block that an object owns, with the text in it when that is the text of a proto `string` field. -/
structure Leaf where
  block : ℕ
  text : Option Bytes
deriving Repr, DecidableEq

def HeapStr.leaf (s : HeapStr) : Leaf := ⟨s.block, some s.bytes⟩

def HeapArr.leaf {α : Type} {size : ℕ} (a : HeapArr α size) : Leaf := ⟨a.block, none⟩

def blockLeaf (block : ℕ) : Leaf := ⟨block, none⟩

/-- The block was allocated between the two heaps. -/
def Leaf.Fresh (h h' : Heap) (l : Leaf) : Prop := h.next ≤ l.block ∧ l.block < h'.next

def Leaf.Valid (l : Leaf) : Prop := ∀ t, l.text = some t → otlpStrIsUtf8 t = true

theorem valid_blockLeaf (block : ℕ) : (blockLeaf block).Valid := fun _ ht => nomatch ht

/-- Between the heaps, allocations were made and none undone. -/
structure Heap.Le (h h' : Heap) : Prop where
  next_le : h.next ≤ h'.next
  refused_le : h.refused ≤ h'.refused

theorem Heap.Le.refl (h : Heap) : h.Le h := ⟨le_rfl, le_rfl⟩

theorem Heap.Le.trans {h h' h'' : Heap} (h₁ : h.Le h') (h₂ : h'.Le h'') : h.Le h'' :=
  ⟨h₁.next_le.trans h₂.next_le, h₁.refused_le.trans h₂.refused_le⟩

theorem Leaf.Fresh.mono {h₀ h h' h₁ : Heap} {l : Leaf} (hl : l.Fresh h h') (h₀h : h₀.Le h) (hh₁ : h'.Le h₁) :
    l.Fresh h₀ h₁ :=
  ⟨h₀h.next_le.trans hl.1, hl.2.trans_le hh₁.next_le⟩

/-- What was owned stays or goes, and what is new was allocated since and holds valid text. -/
structure Grows (h : Heap) (ls : List Leaf) (h' : Heap) (ls' : List Leaf) : Prop where
  le : h.Le h'
  mem : ∀ l ∈ ls', l ∈ ls ∨ l.Fresh h h' ∧ l.Valid

theorem Grows.refl (h : Heap) (ls : List Leaf) : Grows h ls h ls := ⟨.refl h, fun _ hl => .inl hl⟩

theorem Grows.trans {h h' h'' : Heap} {ls ls' ls'' : List Leaf} (h₁ : Grows h ls h' ls')
    (h₂ : Grows h' ls' h'' ls'') : Grows h ls h'' ls'' := by
  refine ⟨h₁.le.trans h₂.le, fun l hl => ?_⟩
  rcases h₂.mem l hl with hl | ⟨hfresh, hvalid⟩
  · rcases h₁.mem l hl with hl | ⟨hfresh, hvalid⟩
    · exact .inl hl
    · exact .inr ⟨hfresh.mono (.refl h) h₂.le, hvalid⟩
  · exact .inr ⟨hfresh.mono h₁.le (.refl h''), hvalid⟩

theorem Grows.append {h h' : Heap} {ls ls' : List Leaf} (pre post : List Leaf) (hg : Grows h ls h' ls') :
    Grows h (pre ++ ls ++ post) h' (pre ++ ls' ++ post) := by
  refine ⟨hg.le, fun l hl => ?_⟩
  simp only [List.mem_append] at hl ⊢
  rcases hl with (hl | hl) | hl
  · exact .inl (.inl (.inl hl))
  · exact (hg.mem l hl).imp (fun hl => .inl (.inr hl)) id
  · exact .inl (.inr hl)

theorem Grows.of_eq {h h' : Heap} {ls ls' ms ms' : List Leaf} (hg : Grows h ls h' ls') (hls : ls = ms)
    (hls' : ls' = ms') : Grows h ms h' ms' :=
  hls ▸ hls' ▸ hg

theorem Grows.of_le {h h' : Heap} (hle : h.Le h') (ls : List Leaf) : Grows h ls h' ls :=
  ⟨hle, fun _ hl => .inl hl⟩

/-- All that is owned was allocated before, and the text in it is valid. -/
def Owns (h : Heap) (ls : List Leaf) : Prop := ∀ l ∈ ls, l.block < h.next ∧ l.Valid

theorem Owns.of_fresh {h h' : Heap} {ls : List Leaf} (hls : ∀ l ∈ ls, l.Fresh h h' ∧ l.Valid) : Owns h' ls :=
  fun l hl => ⟨(hls l hl).1.2, (hls l hl).2⟩

theorem Owns.grows {h h' : Heap} {ls ls' : List Leaf} (howns : Owns h ls) (hgrows : Grows h ls h' ls') :
    Owns h' ls' := by
  intro l hl
  rcases hgrows.mem l hl with hl | ⟨hfresh, hvalid⟩
  · exact ⟨(howns l hl).1.trans_le hgrows.le.next_le, (howns l hl).2⟩
  · exact ⟨hfresh.2, hvalid⟩

theorem Grows.both {h h' : Heap} {ls ls' ms ms' : List Leaf} (hls : Grows h ls h' ls') (hms : Grows h ms h' ms') :
    Grows h (ls ++ ms) h' (ls' ++ ms') := by
  refine ⟨hls.le, fun l hl => ?_⟩
  rcases List.mem_append.1 hl with hl | hl
  · exact (hls.mem l hl).imp (List.mem_append_left _) id
  · exact (hms.mem l hl).imp (List.mem_append_right _) id

/-! ### Allocation -/

theorem otlpMalloc_le (h : Heap) (size : ℕ) : h.Le (otlpMalloc h size).2 := by
  unfold otlpMalloc
  split <;> exact ⟨Nat.le_succ _, by simp⟩

theorem otlpMalloc_some {h h' : Heap} {size : ℕ} {c : Chunk size} (hc : otlpMalloc h size = (some c, h')) :
    c.block = h.next ∧ h' = { h with next := h.next + 1 } := by
  unfold otlpMalloc at hc
  split at hc
  · obtain ⟨hc, rfl⟩ := Prod.mk.inj hc
    cases hc
    exact ⟨rfl, rfl⟩
  · cases (Prod.mk.inj hc).1

theorem otlpMalloc_none {h h' : Heap} {size : ℕ} (hc : otlpMalloc h size = (none, h')) :
    h.refused < h'.refused := by
  unfold otlpMalloc at hc
  split at hc
  · cases (Prod.mk.inj hc).1
  · obtain ⟨-, rfl⟩ := Prod.mk.inj hc
    exact Nat.lt_succ_self _

theorem otlpMalloc_fresh {h h' : Heap} {size : ℕ} {c : Chunk size} (hc : otlpMalloc h size = (some c, h'))
    (t : Option Bytes) : Leaf.Fresh h h' ⟨c.block, t⟩ := by
  obtain ⟨hblock, rfl⟩ := otlpMalloc_some hc
  exact ⟨hblock.ge, hblock.trans_lt (Nat.lt_succ_self _)⟩

theorem otlpDupStr_le (h : Heap) (s : Option Bytes) : h.Le (otlpDupStr h s).2 := by
  cases s with
  | none => exact .refl h
  | some s =>
    rw [otlpDupStr]
    split
    · exact .refl h
    · have hle := otlpMalloc_le h (s.length + 1)
      split <;> next heq => rwa [heq] at hle

theorem otlpDupStr_some {h h' : Heap} {s : Option Bytes} {c : HeapStr} (hc : otlpDupStr h s = (some c, h')) :
    s = some c.bytes ∧ c.leaf.Fresh h h' := by
  cases s with
  | none => cases (Prod.mk.inj hc).1
  | some s =>
    rw [otlpDupStr] at hc
    split at hc
    · cases (Prod.mk.inj hc).1
    · split at hc
      · cases (Prod.mk.inj hc).1
      · next heq =>
        obtain ⟨hc, rfl⟩ := Prod.mk.inj hc
        cases hc
        exact ⟨rfl, otlpMalloc_fresh heq _⟩

theorem otlpDupStr_refused {h h' : Heap} {s : Bytes} (hs : s.length ≠ sizeMax)
    (hc : otlpDupStr h (some s) = (none, h')) : h.refused < h'.refused := by
  rw [otlpDupStr, if_neg hs] at hc
  split at hc
  · next heq =>
    obtain ⟨-, rfl⟩ := Prod.mk.inj hc
    exact otlpMalloc_none heq
  · cases (Prod.mk.inj hc).1

theorem otlpDupStr_none {h h' : Heap} {s : Bytes} (hs : s.length + 1 ≤ ptrdiffMax)
    (hc : otlpDupStr h (some s) = (none, h')) : h.refused < h'.refused := by
  have hmax : s.length ≠ sizeMax := by
    unfold ptrdiffMax at hs
    unfold sizeMax
    omega
  exact otlpDupStr_refused hmax hc

theorem dupArr_le {α : Type} (size : ℕ) (h : Heap) (items : List α) : h.Le (dupArr size h items).2 := by
  have hle := otlpMalloc_le h (items.length * size)
  unfold dupArr
  split <;> next heq => rwa [heq] at hle

theorem dupArr_some {α : Type} {size : ℕ} {h h' : Heap} {items : List α} {c : HeapArr α size}
    (hc : dupArr size h items = (some c, h')) : c.items = items ∧ c.leaf.Fresh h h' := by
  unfold dupArr at hc
  split at hc
  · cases (Prod.mk.inj hc).1
  · next heq =>
    obtain ⟨hc, rfl⟩ := Prod.mk.inj hc
    cases hc
    exact ⟨rfl, otlpMalloc_fresh heq _⟩

theorem dupArr_none {α : Type} {size : ℕ} {h h' : Heap} {items : List α}
    (hc : dupArr size h items = (none, h')) : h.refused < h'.refused := by
  unfold dupArr at hc
  split at hc
  · next heq =>
    obtain ⟨-, rfl⟩ := Prod.mk.inj hc
    exact otlpMalloc_none heq
  · cases (Prod.mk.inj hc).1

/-! ### UTF-8 -/

/-- What the masks of the check say of a byte. -/
theorem byte_masks : ∀ n < 256, (n &&& 0xe0 = 0xc0 → n / 32 = 6 ∧ n &&& 0x1f = n % 32) ∧
    (n &&& 0xf0 = 0xe0 → n / 16 = 14 ∧ n &&& 0x0f = n % 16) ∧
    (n &&& 0xf8 = 0xf0 → n / 8 = 30 ∧ n &&& 0x07 = n % 8) ∧
    (n &&& 0xc0 = 0x80 → n / 64 = 2 ∧ n &&& 0x3f = n % 64) := by decide +kernel

theorem mask_lead_two : ∀ n < 256, n &&& 0xe0 = 0xc0 → n / 32 = 6 ∧ n &&& 0x1f = n % 32 :=
  fun n hn => (byte_masks n hn).1

theorem mask_lead_three : ∀ n < 256, n &&& 0xf0 = 0xe0 → n / 16 = 14 ∧ n &&& 0x0f = n % 16 :=
  fun n hn => (byte_masks n hn).2.1

theorem mask_lead_four : ∀ n < 256, n &&& 0xf8 = 0xf0 → n / 8 = 30 ∧ n &&& 0x07 = n % 8 :=
  fun n hn => (byte_masks n hn).2.2.1

theorem mask_tail : ∀ n < 256, n &&& 0xc0 = 0x80 → n / 64 = 2 ∧ n &&& 0x3f = n % 64 :=
  fun n hn => (byte_masks n hn).2.2.2

theorem mask_eq {c m v : UInt8} (h : (c &&& m == v) = true) : c.toNat &&& m.toNat = v.toNat := by
  rw [← UInt8.toNat_and, beq_iff_eq.1 h]

theorem utf8Tail_succ {need cp cp' : ℕ} {p rest : Bytes} (h : utf8Tail (need + 1) cp p = some (cp', rest)) :
    ∃ c p', p = c :: p' ∧ c.toNat / 64 = 2 ∧ utf8Tail need (cp * 64 + c.toNat % 64) p' = some (cp', rest) := by
  cases p with
  | nil => simp [utf8Tail] at h
  | cons c p =>
    rw [utf8Tail] at h
    split at h
    · cases h
    · next hmask =>
      have hmask := mask_eq (by simpa using hmask : (c &&& 0xc0 == 0x80) = true)
      obtain ⟨hlead, hbits⟩ := mask_tail _ c.toNat_lt hmask
      refine ⟨c, p, rfl, hlead, ?_⟩
      rwa [UInt8.toNat_and, show (0x3f : UInt8).toNat = 0x3f from rfl, hbits] at h

theorem utf8Tail_zero {cp cp' : ℕ} {p rest : Bytes} (h : utf8Tail 0 cp p = some (cp', rest)) :
    cp' = cp ∧ rest = p := by
  cases h
  exact ⟨rfl, rfl⟩

theorem isScalar_of_checks {cp : ℕ} (h₁ : ¬(decide (0xd800 ≤ cp) && decide (cp ≤ 0xdfff)) = true)
    (h₂ : ¬0x10ffff < cp) : Utf8.IsScalar cp := by
  simp only [Bool.and_eq_true, decide_eq_true_eq] at h₁
  unfold Utf8.IsScalar
  omega

theorem utf8Loop_sound (rounds : ℕ) (p : Bytes) (hrounds : p.length ≤ rounds) (h : utf8Loop rounds p = true) :
    ValidUtf8 p := by
  induction rounds generalizing p with
  | zero =>
    rw [List.length_eq_zero_iff.1 (Nat.le_zero.1 hrounds)]
    exact validUtf8_nil
  | succ rounds ih =>
    cases p with
    | nil => exact validUtf8_nil
    | cons c p =>
      have hlen : p.length ≤ rounds := by simpa using hrounds
      rw [utf8Loop] at h
      split at h
      · next hc => exact (Utf8.valid_one hc).append (ih p hlen h)
      · dsimp only at h
        split at h
        · cases h
        · next need cp cpMin hlead =>
          split at h
          · cases h
          · next cp' rest htail =>
            simp only [Bool.if_false_left, Bool.and_eq_true, Bool.not_eq_true', decide_eq_false_iff_not] at h
            obtain ⟨hmin, hsurrogate, hmax, hloop⟩ := h
            have hscalar := isScalar_of_checks (by simpa using hsurrogate) hmax
            split_ifs at hlead with h₂ h₃ h₄
            · cases hlead
              obtain ⟨hdiv, hbits⟩ := mask_lead_two _ c.toNat_lt (mask_eq h₂)
              obtain ⟨d, p, rfl, hd, htail⟩ := utf8Tail_succ htail
              obtain ⟨rfl, rfl⟩ := utf8Tail_zero htail
              rw [UInt8.toNat_and, show (0x1f : UInt8).toNat = 0x1f from rfl, hbits] at hmin
              exact (Utf8.valid_two hdiv hd (not_lt.1 hmin)).append (ih _ (by simp at hlen; omega) hloop)
            · cases hlead
              obtain ⟨hdiv, hbits⟩ := mask_lead_three _ c.toNat_lt (mask_eq h₃)
              obtain ⟨d, p, rfl, hd, htail⟩ := utf8Tail_succ htail
              obtain ⟨e, p, rfl, he, htail⟩ := utf8Tail_succ htail
              obtain ⟨rfl, rfl⟩ := utf8Tail_zero htail
              rw [UInt8.toNat_and, show (0x0f : UInt8).toNat = 0x0f from rfl, hbits] at hmin hscalar
              exact (Utf8.valid_three hdiv hd he (not_lt.1 hmin) hscalar).append
                (ih _ (by simp at hlen; omega) hloop)
            · cases hlead
              obtain ⟨hdiv, hbits⟩ := mask_lead_four _ c.toNat_lt (mask_eq h₄)
              obtain ⟨d, p, rfl, hd, htail⟩ := utf8Tail_succ htail
              obtain ⟨e, p, rfl, he, htail⟩ := utf8Tail_succ htail
              obtain ⟨f, p, rfl, hf, htail⟩ := utf8Tail_succ htail
              obtain ⟨rfl, rfl⟩ := utf8Tail_zero htail
              rw [UInt8.toNat_and, show (0x07 : UInt8).toNat = 0x07 from rfl, hbits] at hmin hscalar
              exact (Utf8.valid_four hdiv hd he hf (not_lt.1 hmin) hscalar).append
                (ih _ (by simp at hlen; omega) hloop)

/-- **What `otlp_str_is_utf8` accepts is valid UTF-8.** -/
theorem otlpStrIsUtf8_sound {s : Bytes} (h : otlpStrIsUtf8 s = true) : ValidUtf8 s :=
  utf8Loop_sound _ s le_rfl h

end OtlpC.Api
