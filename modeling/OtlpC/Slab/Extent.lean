import OtlpC.Slab.FreeList

/-!
# The extent of the arena

`otlp_slab_create` rounds the slot size up and multiplies it by the capacity in `size_t`, and asks for as many
bytes as that gives. The slots lie in the block it is given exactly when the rounded size times the capacity
is below `2 ^ 64`.
-/

namespace OtlpC.Slab.FreeList

open Queue (u64)

/-- The slots of the new slab lie in the bytes that were requested for its arena, and so does all that is
handed out from it. -/
structure SlotsInside (slotSize : ℕ) (c : Created) : Prop where
  slot_le : slotSize ≤ c.slab.slotSize
  arena_fits : c.slab.slotSize * c.slab.capacity < 2 ^ 64
  freeStack_fits : c.slab.capacity * 8 < 2 ^ 64
  inside : ∀ i < c.slab.capacity, i * c.slab.slotSize + c.slab.slotSize ≤ c.arenaBytes
  handed : ∀ calls size libc a, (otlpSlabAlloc (run c.slab calls).slab size libc).2 = some ⟨a, .slab⟩ →
    (slotAt c.slab a).Within ⟨c.slab.arena, c.arenaBytes⟩

/-- The slot size as it is stored, over the integers. -/
def roundedUp (slotSize : ℕ) : ℕ := (slotSize + 7) / 8 * 8

theorem roundUp_of_lt {slotSize : ℕ} (h : slotSize + 7 < 2 ^ 64) :
    roundUp slotSize otlpSlabAlign = roundedUp slotSize := by
  have hlt : slotSize + otlpSlabAlign - 1 < 2 ^ 64 := h
  unfold roundUp roundedUp
  rw [Queue.u64_of_lt hlt]
  rfl

/-- A size that is rounded up past `2 ^ 64` comes out as no more than 7. -/
theorem roundUp_le_of_wraps {slotSize : ℕ} (hslot : slotSize < 2 ^ 64) (h : 2 ^ 64 ≤ slotSize + 7) :
    roundUp slotSize otlpSlabAlign ≤ 7 := by
  have hwraps : u64 (slotSize + otlpSlabAlign - 1) ≤ 7 := by
    have hsum : slotSize + otlpSlabAlign - 1 = slotSize + 7 := rfl
    rw [hsum, u64]
    omega
  exact (Nat.div_mul_le_self _ _).trans hwraps

theorem roundUp_lt (slotSize : ℕ) : roundUp slotSize otlpSlabAlign < 2 ^ 64 :=
  (Nat.div_mul_le_self _ _).trans_lt (Nat.mod_lt _ (by decide))

theorem SlotsInside.of_fits {slotSize capacity : ℕ} {heap : Allocator} {c : Created}
    (hcreate : otlpSlabCreate slotSize capacity heap = some c) (hfits : roundedUp slotSize * capacity < 2 ^ 64) :
    SlotsInside slotSize c := by
  obtain ⟨hslot, hcapacity, hsize, hcap, hbytes, -, -⟩ := otlpSlabCreate_eq hcreate
  have hpos := Nat.pos_of_ne_zero hcapacity
  have hrounded : roundedUp slotSize < 2 ^ 64 := (Nat.le_mul_of_pos_right _ hpos).trans_lt hfits
  have hexact : roundUp slotSize otlpSlabAlign = roundedUp slotSize := by
    refine roundUp_of_lt ?_
    unfold roundedUp at hrounded
    omega
  have hle : slotSize ≤ roundedUp slotSize := by
    unfold roundedUp
    omega
  have height : 8 ≤ roundedUp slotSize := by
    unfold roundedUp
    omega
  rw [hexact, Queue.u64_of_lt hfits] at hbytes
  rw [hexact] at hsize
  have hproduct : c.slab.slotSize * c.slab.capacity < 2 ^ 64 := by rwa [hsize, hcap]
  have hwithin {i : ℕ} (hi : i < c.slab.capacity) :
      (Block.slot c.slab.arena c.slab.slotSize i).Within ⟨c.slab.arena, c.arenaBytes⟩ := by
    rw [hbytes, ← hsize, ← hcap]
    exact Block.slot_within hi
  refine ⟨?_, hproduct, ?_, fun i hi => ?_, fun calls size libc a h => ?_⟩
  · rwa [hsize]
  · rw [hcap, Nat.mul_comm]
    exact (Nat.mul_le_mul_right _ height).trans_lt hfits
  · obtain ⟨-, hend⟩ := hwithin hi
    simp only [Block.slot] at hend
    omega
  · obtain ⟨i, hi, rfl⟩ := handed_slot hcreate hproduct calls h
    exact hwithin hi

/-- **The slots lie inside the arena exactly when the rounded slot size times the capacity does not wrap**,
whatever requests the allocator below serves. -/
theorem slots_inside_iff {slotSize capacity : ℕ} {heap : Allocator} {c : Created}
    (hcreate : otlpSlabCreate slotSize capacity heap = some c) :
    SlotsInside slotSize c ↔ roundedUp slotSize * capacity < 2 ^ 64 := by
  refine ⟨fun h => ?_, SlotsInside.of_fits hcreate⟩
  obtain ⟨hslot, -, hsize, hcap, -⟩ := otlpSlabCreate_eq hcreate
  have hle := h.slot_le
  have hfits := h.arena_fits
  rw [hsize] at hle
  have hexact : roundUp slotSize otlpSlabAlign = roundedUp slotSize := by
    rcases Nat.lt_or_ge (slotSize + 7) (2 ^ 64) with hlt | hwraps
    · exact roundUp_of_lt hlt
    · have := roundUp_le_of_wraps (hle.trans_lt (roundUp_lt slotSize)) hwraps
      omega
  rwa [hsize, hcap, hexact] at hfits

theorem slots_inside_iff_small : ∃ c, otlpSlabCreate 13 4 .spread = some c ∧
    (SlotsInside 13 c ↔ roundedUp 13 * 4 < 2 ^ 64) := by
  obtain ⟨c, hcreate⟩ := Option.isSome_iff_exists.1 (by decide +kernel :
    (otlpSlabCreate 13 4 .spread).isSome = true)
  exact ⟨c, hcreate, slots_inside_iff hcreate⟩

/-- Two slots of `2 ^ 63` bytes: the arena is a block of no bytes. -/
theorem arena_wrapped : ∃ heap c, otlpSlabCreate (2 ^ 63) 2 heap = some c ∧ c.arenaBytes = 0 ∧
    ¬SlotsInside (2 ^ 63) c := by
  refine ⟨.spread, ⟨⟨2 ^ 63, 2, 2001, [false, false], 0, [0, 1], {}⟩, 0, 2, 16⟩, by decide +kernel, rfl, ?_⟩
  intro h
  exact absurd (h.inside 0 (by decide)) (by decide)

end OtlpC.Slab.FreeList
