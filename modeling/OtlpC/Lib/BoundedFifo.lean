import Mathlib.Data.List.Basic

/-!
# Bounded FIFO queues

`BoundedFifo α cap` is a list of at most `cap` items, oldest first. `push` refuses an item exactly
when `cap` items are queued; `pop` takes the oldest one. This is the specification the lock-free
ring of the exporter is compared with, and the queue the exporter's own state holds.
-/

namespace OtlpC

/-- At most `cap` items, oldest first. -/
structure BoundedFifo (α : Type*) (cap : ℕ) where
  items : List α
  bounded : items.length ≤ cap

namespace BoundedFifo

variable {α : Type*} {cap : ℕ}

@[ext] theorem ext {f g : BoundedFifo α cap} (h : f.items = g.items) : f = g := by
  cases f; cases g; cases h; rfl

def empty : BoundedFifo α cap := ⟨[], Nat.zero_le _⟩

/-- Append an item, or `none` when `cap` items are queued. -/
def push (f : BoundedFifo α cap) (item : α) : Option (BoundedFifo α cap) :=
  if h : f.items.length < cap then some ⟨f.items ++ [item], by rw [List.length_append]; exact h⟩ else none

/-- Take the oldest item, or `none` when nothing is queued. -/
def pop (f : BoundedFifo α cap) : Option (α × BoundedFifo α cap) :=
  match h : f.items with
  | [] => none
  | item :: rest => some (item, ⟨rest, by have := f.bounded; rw [h] at this; exact Nat.le_of_succ_le this⟩)

def size (f : BoundedFifo α cap) : ℕ := f.items.length

@[simp] theorem items_empty : (empty : BoundedFifo α cap).items = [] := rfl

theorem push_eq_some {f g : BoundedFifo α cap} {item : α} (h : f.push item = some g) :
    f.items.length < cap ∧ g.items = f.items ++ [item] := by
  unfold push at h
  split at h
  · next hlt =>
    rw [Option.some.injEq] at h
    exact ⟨hlt, by rw [← h]⟩
  · contradiction

theorem push_of_lt {f : BoundedFifo α cap} (item : α) (h : f.items.length < cap) :
    f.push item = some ⟨f.items ++ [item], by rw [List.length_append]; exact h⟩ := dif_pos h

theorem push_eq_none {f : BoundedFifo α cap} {item : α} :
    f.push item = none ↔ f.items.length = cap := by
  have := f.bounded
  unfold push
  split
  · simp only [reduceCtorEq, false_iff]; omega
  · simp only [true_iff]; omega

theorem pop_eq_some {f g : BoundedFifo α cap} {item : α} (h : f.pop = some (item, g)) :
    f.items = item :: g.items := by
  unfold pop at h
  split at h
  · contradiction
  · next item' rest hitems =>
    simp only [Option.some.injEq, Prod.mk.injEq] at h
    rw [hitems, h.1, ← h.2]

theorem pop_eq_none {f : BoundedFifo α cap} : f.pop = none ↔ f.items = [] := by
  unfold pop
  split
  · next h => simp [h]
  · next h => simp [h]

end BoundedFifo

end OtlpC
