import Mathlib.Data.List.Basic
import Mathlib.Tactic.Ring

/-!
# Blocks of memory

A block is a range of addresses, and two blocks are apart when they share none. An array of slots is a block
cut into blocks of one size. Memory gives a byte to every address; `fill` and `copy` change one range of it.
-/

namespace OtlpC

/-- The `size` addresses from `addr` on. -/
structure Block where
  addr : ℕ
  size : ℕ
deriving Repr, DecidableEq

namespace Block

def Has (b : Block) (a : ℕ) : Prop := b.addr ≤ a ∧ a < b.addr + b.size

instance (b : Block) (a : ℕ) : Decidable (b.Has a) := inferInstanceAs (Decidable (_ ∧ _))

def Apart (b c : Block) : Prop := b.addr + b.size ≤ c.addr ∨ c.addr + c.size ≤ b.addr

instance (b c : Block) : Decidable (b.Apart c) := inferInstanceAs (Decidable (_ ∨ _))

def Within (b c : Block) : Prop := c.addr ≤ b.addr ∧ b.addr + b.size ≤ c.addr + c.size

theorem Apart.symm {b c : Block} (h : b.Apart c) : c.Apart b := Or.symm h

theorem Apart.of_within {b c d : Block} (h : b.Apart c) (hd : d.Within c) : b.Apart d := by
  unfold Apart Within at *
  omega

theorem Apart.not_has {b c : Block} (h : b.Apart c) {a : ℕ} (ha : b.Has a) : ¬c.Has a := by
  unfold Apart Has at *
  omega

theorem Apart.addr_ne {b c : Block} (h : b.Apart c) (hb : 0 < b.size) (hc : 0 < c.size) :
    b.addr ≠ c.addr := by
  unfold Apart at h
  omega

/-! ### Slots -/

/-- Slot `i` of an array of slots of `size` bytes at `base`. -/
def slot (base size i : ℕ) : Block := ⟨base + i * size, size⟩

theorem slot_within {base size n i : ℕ} (h : i < n) : (slot base size i).Within ⟨base, size * n⟩ := by
  have hle : (i + 1) * size ≤ n * size := Nat.mul_le_mul_right size h
  rw [Nat.add_mul, Nat.one_mul, Nat.mul_comm n size] at hle
  exact ⟨Nat.le_add_right _ _, by simp only [slot]; omega⟩

theorem slot_apart {base size i j : ℕ} (h : i ≠ j) : (slot base size i).Apart (slot base size j) := by
  rcases Nat.lt_or_gt_of_ne h with hlt | hgt
  · have hle : (i + 1) * size ≤ j * size := Nat.mul_le_mul_right size hlt
    rw [Nat.add_mul, Nat.one_mul] at hle
    exact .inl (by simp only [slot]; omega)
  · have hle : (j + 1) * size ≤ i * size := Nat.mul_le_mul_right size hgt
    rw [Nat.add_mul, Nat.one_mul] at hle
    exact .inr (by simp only [slot]; omega)

/-- The slot that an address starts is found by division. -/
theorem slot_index {base size i : ℕ} (h : 0 < size) : (base + i * size - base) / size = i := by
  rw [Nat.add_sub_cancel_left, Nat.mul_div_cancel i h]

end Block

/-! ### Memory -/

abbrev Memory := ℕ → UInt8

def Memory.fill (m : Memory) (b : Block) (bytes : ℕ → UInt8) : Memory :=
  fun a => if b.Has a then bytes a else m a

def Memory.copy (m : Memory) (dst src n : ℕ) : Memory :=
  fun a => if dst ≤ a ∧ a < dst + n then m (src + (a - dst)) else m a

theorem fill_of_apart {m : Memory} {b c : Block} {bytes : ℕ → UInt8} (h : b.Apart c) {a : ℕ} (ha : c.Has a) :
    m.fill b bytes a = m a := if_neg (h.symm.not_has ha)

theorem copy_at {m : Memory} {dst src n i : ℕ} (h : i < n) : m.copy dst src n (dst + i) = m (src + i) := by
  rw [Memory.copy, if_pos ⟨Nat.le_add_right _ _, Nat.add_lt_add_left h dst⟩, Nat.add_sub_cancel_left]

end OtlpC
