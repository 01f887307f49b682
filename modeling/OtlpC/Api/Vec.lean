import OtlpC.Api.Heap

/-!
# Arrays that grow

The pattern of the attribute, event and link arrays: nothing until the first element, then 4, 8, … slots up
to a maximum. And the loop that fills an array element by element and stops at the first failure.
-/

namespace OtlpC.Api

/-! ### Filling an array -/

section Fill

variable {α β : Type}

/-- The `for` of the builders and of the copies: every element takes memory and may fail. -/
def fillAll (fill : Heap → α → Except OtlpStatus β × Heap) (h : Heap) :
    (xs : List α) → Except OtlpStatus { ys : List β // ys.length = xs.length } × Heap
  | [] => (.ok ⟨[], rfl⟩, h)
  | x :: xs =>
    match fill h x with
    | (.error st, h) => (.error st, h)
    | (.ok y, h) =>
      match fillAll fill h xs with
      | (.error st, h) => (.error st, h)
      | (.ok ys, h) => (.ok ⟨y :: ys.1, by rw [List.length_cons, List.length_cons, ys.2]⟩, h)

variable {fill : Heap → α → Except OtlpStatus β × Heap}

theorem fillAll_le (hfill : ∀ (h : Heap) x, h.Le (fill h x).2) (h : Heap) (xs : List α) :
    h.Le (fillAll fill h xs).2 := by
  induction xs generalizing h with
  | nil => exact .refl h
  | cons x xs ih =>
    have hx := hfill h x
    rw [fillAll]
    split
    · next heq => rwa [heq] at hx
    · next y h₁ heq =>
      rw [heq] at hx
      have hxs := ih h₁
      split <;> next heq => exact hx.trans (by rwa [heq] at hxs)

theorem fillAll_cons_ok {h h' : Heap} {x : α} {xs : List α} {ys : { ys : List β // ys.length = (x :: xs).length }}
    (hok : fillAll fill h (x :: xs) = (.ok ys, h')) :
    ∃ y h₁ zs, fill h x = (.ok y, h₁) ∧ fillAll fill h₁ xs = (.ok zs, h') ∧ ys.1 = y :: zs.1 := by
  rw [fillAll] at hok
  split at hok
  · cases (Prod.mk.inj hok).1
  · next y h₁ hy =>
    split at hok
    · cases (Prod.mk.inj hok).1
    · next zs h₂ hzs =>
      obtain ⟨hys, rfl⟩ := Prod.mk.inj hok
      cases hys
      exact ⟨y, h₁, zs, hy, hzs, rfl⟩

theorem fillAll_map {γ : Type} {f : α → γ} {g : β → γ} (hfill : ∀ h x y h', fill h x = (.ok y, h') → g y = f x)
    {h h' : Heap} {xs : List α} {ys : { ys : List β // ys.length = xs.length }}
    (hok : fillAll fill h xs = (.ok ys, h')) : ys.1.map g = xs.map f := by
  induction xs generalizing h with
  | nil =>
    obtain ⟨hys, -⟩ := Prod.mk.inj hok
    cases hys
    rfl
  | cons x xs ih =>
    obtain ⟨y, h₁, zs, hy, hzs, hys⟩ := fillAll_cons_ok hok
    rw [hys, List.map_cons, List.map_cons, hfill h x y h₁ hy, ih hzs]

/-- What the filled elements own was allocated while they were filled. -/
theorem fillAll_leaves {leaves : β → List Leaf} {P : Leaf → Prop} (hle : ∀ (h : Heap) x, h.Le (fill h x).2)
    (hfill : ∀ h x y h', fill h x = (.ok y, h') → ∀ l ∈ leaves y, l.Fresh h h' ∧ P l)
    {h h' : Heap} {xs : List α} {ys : { ys : List β // ys.length = xs.length }}
    (hok : fillAll fill h xs = (.ok ys, h')) : ∀ l ∈ ys.1.flatMap leaves, l.Fresh h h' ∧ P l := by
  induction xs generalizing h with
  | nil =>
    obtain ⟨hys, -⟩ := Prod.mk.inj hok
    cases hys
    simp
  | cons x xs ih =>
    obtain ⟨y, h₁, zs, hy, hzs, hys⟩ := fillAll_cons_ok hok
    have hle₁ : h.Le h₁ := by simpa [hy] using hle h x
    have hle₂ := fillAll_le hle h₁ xs
    rw [hzs] at hle₂
    intro l hl
    rw [hys, List.flatMap_cons, List.mem_append] at hl
    rcases hl with hl | hl
    · obtain ⟨hfresh, hp⟩ := hfill h x y h₁ hy l hl
      exact ⟨hfresh.mono (.refl h) hle₂, hp⟩
    · obtain ⟨hfresh, hp⟩ := ih hzs l hl
      exact ⟨hfresh.mono hle₁ (.refl h'), hp⟩

/-- Where a filling step only fails for want of memory, so does the loop. -/
theorem fillAll_error (hle : ∀ (h : Heap) x, h.Le (fill h x).2) {xs : List α}
    (hfill : ∀ x ∈ xs, ∀ h st h', fill h x = (.error st, h') → h.refused < h'.refused)
    {h h' : Heap} {st : OtlpStatus} (herror : fillAll fill h xs = (.error st, h')) : h.refused < h'.refused := by
  induction xs generalizing h with
  | nil => cases (Prod.mk.inj herror).1
  | cons x xs ih =>
    rw [fillAll] at herror
    split at herror
    · next heq =>
      obtain ⟨-, rfl⟩ := Prod.mk.inj herror
      exact hfill x List.mem_cons_self _ _ _ heq
    · next y h₁ heq =>
      have hle₁ : h.Le h₁ := by simpa [heq] using hle h x
      split at herror
      · next heq' =>
        obtain ⟨hst, rfl⟩ := Prod.mk.inj herror
        cases hst
        exact hle₁.refused_le.trans_lt (ih (fun x hx => hfill x (List.mem_cons_of_mem _ hx)) heq')
      · cases (Prod.mk.inj herror).1

theorem fillAll_error_ne (hfill : ∀ h x st h', fill h x = (.error st, h') → st ≠ .ok) {h h' : Heap}
    {xs : List α} {st : OtlpStatus} (herror : fillAll fill h xs = (.error st, h')) : st ≠ .ok := by
  induction xs generalizing h with
  | nil => cases (Prod.mk.inj herror).1
  | cons x xs ih =>
    rw [fillAll] at herror
    split at herror
    · next heq =>
      obtain ⟨hst, -⟩ := Prod.mk.inj herror
      cases hst
      exact hfill _ _ _ _ heq
    · split at herror
      · next heq =>
        obtain ⟨hst, rfl⟩ := Prod.mk.inj herror
        cases hst
        exact ih heq
      · cases (Prod.mk.inj herror).1

end Fill

/-! ### Growing an array -/

theorem map_modify {α β : Type} {f : α → β} {g : α → α} {g' : β → β} (hg : ∀ x, f (g x) = g' (f x)) (xs : List α)
    (i : ℕ) : (xs.modify i g).map f = (xs.map f).modify i g' := by
  induction xs generalizing i with
  | nil => simp
  | cons x xs ih =>
    cases i with
    | zero => simp [hg]
    | succ i => simp [ih]

theorem mem_modify {α : Type} {xs : List α} {i : ℕ} {f : α → α} {y : α} (hy : y ∈ xs.modify i f) :
    y ∈ xs ∨ ∃ x, xs[i]? = some x ∧ y = f x := by
  obtain ⟨j, hj⟩ := List.mem_iff_getElem?.1 hy
  rw [List.getElem?_modify] at hj
  split at hj
  · next hij =>
    subst hij
    obtain ⟨x, hx, rfl⟩ := Option.map_eq_some_iff.1 hj
    exact .inr ⟨x, hx, rfl⟩
  · exact .inl (List.mem_iff_getElem?.2 ⟨j, by simpa using hj⟩)

/-- An array with `cap` slots of which the first are in use; NULL until the first element. -/
structure GrowVec (α : Type) (size : ℕ) where
  block : Option ℕ
  items : List α
  cap : ℕ
  le_cap : items.length ≤ cap
  fits : cap * size ≤ ptrdiffMax
deriving Repr

/-- An array with a free slot. -/
structure RoomyVec (α : Type) (size : ℕ) extends GrowVec α size where
  room : items.length < cap

namespace GrowVec

variable {α : Type} {size : ℕ}

def empty : GrowVec α size := ⟨none, [], 0, le_rfl, by rw [Nat.zero_mul]; exact Nat.zero_le _⟩

def newCap (cap max : ℕ) : ℕ := min (if cap = 0 then min 4 max else cap * 2) max

theorem newCap_fits {cap max : ℕ} (hsize : size ≤ 64) (hfits : cap * size ≤ ptrdiffMax) :
    newCap cap max * size < 2 ^ 64 := by
  unfold ptrdiffMax at hfits
  have hle : newCap cap max ≤ if cap = 0 then 4 else cap * 2 := by
    unfold newCap
    split <;> omega
  have hmul := Nat.mul_le_mul_right size hle
  split at hmul
  · omega
  · rw [Nat.mul_right_comm] at hmul
    omega

theorem lt_newCap {n cap max : ℕ} (hn : n = cap) (hlt : n < max) : n < newCap cap max := by
  unfold newCap
  split <;> omega

/-- Makes sure of a free slot below the maximum. -/
def grow (v : GrowVec α size) (max : ℕ) (hlt : v.items.length < max) (hsize : size ≤ 64) (h : Heap) :
    Option (RoomyVec α size) × Heap :=
  if hfull : v.items.length = v.cap then
    match otlpMalloc h (newCap v.cap max * size % 2 ^ 64) with
    | (none, h) => (none, h)
    | (some c, h) =>
      (some {
        block := some c.block
        items := v.items
        cap := newCap v.cap max
        le_cap := (lt_newCap hfull hlt).le
        fits := Nat.mod_eq_of_lt (newCap_fits hsize v.fits) ▸ c.fits
        room := lt_newCap hfull hlt }, h)
  else (some { v with room := lt_of_le_of_ne v.le_cap hfull }, h)

/-- The next slot, in use. -/
def push (v : RoomyVec α size) (x : α) : GrowVec α size where
  block := v.block
  items := v.items ++ [x]
  cap := v.cap
  le_cap := by rw [List.length_append]; exact v.room
  fits := v.fits

/-- A write to the slot at `i`. -/
def modify (v : GrowVec α size) (i : ℕ) (f : α → α) : GrowVec α size where
  block := v.block
  items := v.items.modify i f
  cap := v.cap
  le_cap := by rw [List.length_modify]; exact v.le_cap
  fits := v.fits

def leaves (elem : α → List Leaf) (v : GrowVec α size) : List Leaf :=
  v.block.toList.map blockLeaf ++ v.items.flatMap elem

theorem length_le (v : GrowVec α size) : v.items.length * size ≤ ptrdiffMax :=
  (Nat.mul_le_mul_right size v.le_cap).trans v.fits

theorem grow_le (v : GrowVec α size) (max : ℕ) (hlt : v.items.length < max) (hsize : size ≤ 64) (h : Heap) :
    h.Le (v.grow max hlt hsize h).2 := by
  unfold grow
  split
  · have hle := otlpMalloc_le h (newCap v.cap max * size % 2 ^ 64)
    split <;> next heq => rwa [heq] at hle
  · exact .refl h

theorem grow_some {v : GrowVec α size} {max : ℕ} {hlt : v.items.length < max} {hsize : size ≤ 64}
    {h h' : Heap} {v' : RoomyVec α size} (hv : v.grow max hlt hsize h = (some v', h')) (elem : α → List Leaf) :
    v'.items = v.items ∧ Grows h (v.leaves elem) h' (v'.leaves elem) := by
  have hle := grow_le v max hlt hsize h
  rw [hv] at hle
  unfold grow at hv
  split at hv
  · split at hv
    · cases (Prod.mk.inj hv).1
    · next c h₁ heq =>
      obtain ⟨hv, rfl⟩ := Prod.mk.inj hv
      cases hv
      refine ⟨rfl, hle, fun l hl => ?_⟩
      rcases List.mem_append.1 hl with hl | hl
      · obtain rfl : l = blockLeaf c.block := by simpa using hl
        exact .inr ⟨otlpMalloc_fresh heq none, valid_blockLeaf _⟩
      · exact .inl (List.mem_append_right _ hl)
  · obtain ⟨hv, rfl⟩ := Prod.mk.inj hv
    cases hv
    exact ⟨rfl, .refl _ _⟩

theorem grow_none {v : GrowVec α size} {max : ℕ} {hlt : v.items.length < max} {hsize : size ≤ 64}
    {h h' : Heap} (hv : v.grow max hlt hsize h = (none, h')) : h.refused < h'.refused := by
  unfold grow at hv
  split at hv
  · split at hv
    · next heq =>
      obtain ⟨-, rfl⟩ := Prod.mk.inj hv
      exact otlpMalloc_none heq
    · cases (Prod.mk.inj hv).1
  · cases (Prod.mk.inj hv).1

theorem mem_leaves_push {v : RoomyVec α size} {x : α} {elem : α → List Leaf} {l : Leaf}
    (hl : l ∈ (push v x).leaves elem) : l ∈ v.leaves elem ∨ l ∈ elem x := by
  simp only [push, leaves, List.flatMap_append, List.flatMap_cons, List.flatMap_nil, List.append_nil,
    List.mem_append] at hl ⊢
  tauto

theorem mem_leaves_modify {v : GrowVec α size} {i : ℕ} {f : α → α} {elem : α → List Leaf} {l : Leaf}
    (hl : l ∈ (v.modify i f).leaves elem) : l ∈ v.leaves elem ∨ ∃ x, v.items[i]? = some x ∧ l ∈ elem (f x) := by
  simp only [modify, leaves, List.mem_append, List.mem_flatMap] at hl ⊢
  rcases hl with hl | ⟨y, hy, hl⟩
  · exact .inl (.inl hl)
  · rcases mem_modify hy with hy | ⟨x, hx, rfl⟩
    · exact .inl (.inr ⟨y, hy, hl⟩)
    · exact .inr ⟨x, hx, hl⟩

theorem leaves_subset_of_mem {v : GrowVec α size} {elem : α → List Leaf} {x : α} (hx : x ∈ v.items) {l : Leaf}
    (hl : l ∈ elem x) : l ∈ v.leaves elem :=
  List.mem_append_right _ (List.mem_flatMap.2 ⟨x, hx, hl⟩)

end GrowVec

end OtlpC.Api
