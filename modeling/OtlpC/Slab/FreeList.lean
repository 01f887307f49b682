import Mathlib.Data.List.Perm.Subperm
import OtlpC.Slab.Slab

/-!
# The free list of a slab

`otlp_slab_create`, `otlp_slab_alloc` and `otlp_slab_free_ptr` of `slab.c`, called on a slab of their own.
The free stack and the marks of the slots in use stay complements of each other whatever is freed: a pointer
twice, a pointer into the middle of a slot, a pointer from elsewhere.
-/

namespace OtlpC.Slab.FreeList

open Queue (u64)

/-! ### The functions -/

/-- The allocator below: what it answers to its `k`-th request, for `n` bytes. It may serve any request, with
a block that lies in the address space. -/
structure Allocator where
  alloc : ℕ → ℕ → Option ℕ
  placed : ∀ k n a, alloc k n = some a → 0 < a ∧ a + n < 2 ^ 64

/-- A slab, and the sizes of the blocks it was made of. -/
structure Created where
  slab : OtlpSlab
  arenaBytes : ℕ
  usedBytes : ℕ
  freeStackBytes : ℕ
deriving Repr, DecidableEq

def otlpSlabCreate (slotSize capacity : ℕ) (heap : Allocator) : Option Created :=
  if slotSize = 0 || capacity = 0 then none
  else
    let alignedSlot := roundUp slotSize otlpSlabAlign
    let arenaBytes := u64 (alignedSlot * capacity)
    let freeStackBytes := u64 (capacity * 8)
    match heap.alloc 0 sizeofSlab, heap.alloc 1 arenaBytes, heap.alloc 2 capacity,
        heap.alloc 3 freeStackBytes with
    | some _, some arena, some _, some _ =>
      some {
        slab := {
          slotSize := alignedSlot, capacity, arena
          used := List.replicate capacity false
          inUse := 0
          -- written from the bottom up, so that slot 0 is on top
          freeStack := ((List.range capacity).map fun i => capacity - 1 - i).reverse
          stats := {} }
        arenaBytes, usedBytes := capacity, freeStackBytes }
    | _, _, _, _ => none

/-- `libc` is what `malloc` answers when the slab cannot. -/
def otlpSlabAlloc (s : OtlpSlab) (size : ℕ) (libc : Option ℕ) : OtlpSlab × Option Chunk :=
  let s := { s with stats.allocCount := s.stats.allocCount + 1 }
  match if size ≤ s.slotSize then s.freeStack else [] with
  | i :: stack =>
    ({ s with
        freeStack := stack
        used := s.used.set i true
        inUse := s.inUse + 1
        stats.slabHits := s.stats.slabHits + 1 }, some ⟨u64 (s.arena + i * s.slotSize), .slab⟩)
  | [] =>
    ({ s with stats.mallocFallbacks := s.stats.mallocFallbacks + 1 }, libc.map fun p => ⟨p, .libc⟩)

def otlpSlabFreePtr (s : OtlpSlab) (p : ℕ) : OtlpSlab :=
  if p = 0 then s
  else
    let s := { s with stats.freeCount := s.stats.freeCount + 1 }
    if s.inArena p then
      let i := (p - s.arena) / s.slotSize
      if i < s.capacity && s.used.getD i false then
        { s with
          used := s.used.set i false
          inUse := s.inUse - 1
          stats.slabFreeHits := s.stats.slabFreeHits + 1
          freeStack := i :: s.freeStack }
      -- a double free or no slot at all
      else s
    else { s with stats.mallocFreeFallbacks := s.stats.mallocFreeFallbacks + 1 }

/-! ### Runs -/

/-- A call on the slab; what is freed is any pointer. -/
inductive Call where
  | alloc (size : ℕ) (libc : Option ℕ)
  | freePtr (p : ℕ)
deriving Repr, DecidableEq

/-- A slab with its callers: `held` are the pointers into the arena that were handed out and whose slot was
not freed since, through whichever pointer into it. -/
structure Run where
  slab : OtlpSlab
  held : List ℕ
deriving Repr, DecidableEq

/-- The slot that the pointer `a` starts. -/
def slotAt (s : OtlpSlab) (a : ℕ) : Block := ⟨a, s.slotSize⟩

def step (r : Run) : Call → Run
  | .alloc size libc =>
    let out := otlpSlabAlloc r.slab size libc
    ⟨out.1, match out.2 with
      | some ⟨a, .slab⟩ => a :: r.held
      | _ => r.held⟩
  | .freePtr p =>
    ⟨otlpSlabFreePtr r.slab p, r.held.filter fun a => ¬(slotAt r.slab a).Has p⟩

/-- The state after the calls on a new slab. -/
def run (s : OtlpSlab) (calls : List Call) : Run :=
  calls.foldl step ⟨s, []⟩

/-! ### The invariant -/

/-- The free stack and the marks are complements, and the count goes with them. -/
structure Complement (s : OtlpSlab) : Prop where
  used_length : s.used.length = s.capacity
  nodup : s.freeStack.Nodup
  mem_freeStack : ∀ i, i ∈ s.freeStack ↔ s.used[i]? = some false
  inUse_add : s.inUse + s.freeStack.length = s.capacity

/-- The arena lies in the address space. -/
structure Placed (s : OtlpSlab) : Prop where
  product : s.slotSize * s.capacity < 2 ^ 64
  arena_pos : 0 < s.arena
  arena_fits : s.arena + s.slotSize * s.capacity < 2 ^ 64

/-- The callers hold the slots that are marked, and no two of them overlap. -/
structure Held (r : Run) : Prop where
  mem_held : ∀ a, a ∈ r.held ↔ ∃ i, r.slab.used[i]? = some true ∧ a = r.slab.arena + i * r.slab.slotSize
  apart : r.held.Pairwise fun a b => (slotAt r.slab a).Apart (slotAt r.slab b)

variable {s : OtlpSlab} {r : Run}

theorem Complement.lt_capacity (h : Complement s) {i : ℕ} {u : Bool} (hi : s.used[i]? = some u) :
    i < s.capacity := by
  rw [← h.used_length]
  exact (List.getElem?_eq_some_iff.1 hi).1

theorem Complement.freeTop_le (h : Complement s) : s.freeStack.length ≤ s.capacity := by
  have := h.inUse_add
  omega

theorem Complement.inUse_eq (h : Complement s) : s.inUse = s.capacity - s.freeStack.length := by
  have := h.inUse_add
  omega

theorem Placed.slot_addr (h : Placed s) {i : ℕ} (hi : i < s.capacity) :
    u64 (s.arena + i * s.slotSize) = s.arena + i * s.slotSize := by
  have hle : i * s.slotSize ≤ s.slotSize * s.capacity := by
    rw [Nat.mul_comm s.slotSize]
    exact Nat.mul_le_mul_right _ hi.le
  have harena := h.arena_fits
  exact Queue.u64_of_lt (by omega)

theorem Placed.inArena_iff (h : Placed s) {p : ℕ} :
    s.inArena p = true ↔ s.arena ≤ p ∧ p < s.arena + s.slotSize * s.capacity := by
  unfold OtlpSlab.inArena
  rw [Queue.u64_of_lt h.product, Queue.u64_of_lt h.arena_fits]
  simp

/-! ### What a call does -/

/-- `t` is `s` with other marks and another free stack; the statistics are free. -/
structure Marks (s t : OtlpSlab) (used : List Bool) (inUse : ℕ) (freeStack : List ℕ) : Prop where
  slotSize_eq : t.slotSize = s.slotSize
  capacity_eq : t.capacity = s.capacity
  arena_eq : t.arena = s.arena
  used_eq : t.used = used
  inUse_eq : t.inUse = inUse
  freeStack_eq : t.freeStack = freeStack

/-- Slot `i`, on top of the free stack, is taken. -/
def Takes (s t : OtlpSlab) (i : ℕ) : Prop :=
  ∃ stack, s.freeStack = i :: stack ∧ Marks s t (s.used.set i true) (s.inUse + 1) stack

/-- Slot `i` is put on the free stack. -/
def Returns (s t : OtlpSlab) (i : ℕ) : Prop :=
  Marks s t (s.used.set i false) (s.inUse - 1) (i :: s.freeStack)

/-- Nothing but the statistics changes. -/
def Ignores (s t : OtlpSlab) : Prop := Marks s t s.used s.inUse s.freeStack

theorem otlpSlabAlloc_cases (s : OtlpSlab) (size : ℕ) (libc : Option ℕ) :
    let out := otlpSlabAlloc s size libc
    (∃ i, Takes s out.1 i ∧ out.2 = some ⟨u64 (s.arena + i * s.slotSize), .slab⟩) ∨
      (Ignores s out.1 ∧ ∀ a, out.2 ≠ some ⟨a, .slab⟩) := by
  intro out
  have hlibc : ∀ a, libc.map (fun p => (⟨p, .libc⟩ : Chunk)) ≠ some ⟨a, .slab⟩ := by
    intro a h
    obtain ⟨p, -, hp⟩ := Option.map_eq_some_iff.1 h
    cases congrArg Chunk.origin hp
  have hout : out = otlpSlabAlloc s size libc := rfl
  unfold otlpSlabAlloc at hout
  by_cases hsize : size ≤ s.slotSize
  · cases hstack : s.freeStack with
    | nil =>
      simp only [if_pos hsize, hstack] at hout
      rw [hout]
      exact .inr ⟨⟨rfl, rfl, rfl, rfl, rfl, hstack.symm⟩, hlibc⟩
    | cons i stack =>
      simp only [if_pos hsize, hstack] at hout
      rw [hout]
      exact .inl ⟨i, ⟨stack, hstack, rfl, rfl, rfl, rfl, rfl, rfl⟩, rfl⟩
  · simp only [if_neg hsize] at hout
    rw [hout]
    exact .inr ⟨⟨rfl, rfl, rfl, rfl, rfl, rfl⟩, hlibc⟩

theorem otlpSlabFreePtr_of_used {p : ℕ} (hzero : p ≠ 0) (harena : s.inArena p = true)
    (hcapacity : (p - s.arena) / s.slotSize < s.capacity)
    (hused : s.used[(p - s.arena) / s.slotSize]? = some true) :
    Returns s (otlpSlabFreePtr s p) ((p - s.arena) / s.slotSize) := by
  have hgetD : s.used.getD ((p - s.arena) / s.slotSize) false = true := by
    rw [List.getD_eq_getElem?_getD, hused]
    rfl
  have hslot : (decide ((p - s.arena) / s.slotSize < s.capacity) &&
      s.used.getD ((p - s.arena) / s.slotSize) false) = true := by
    rw [hgetD, decide_eq_true hcapacity]
    rfl
  unfold otlpSlabFreePtr
  rw [if_neg hzero]
  dsimp only
  rw [if_pos (by exact harena), if_pos hslot]
  exact ⟨rfl, rfl, rfl, rfl, rfl, rfl⟩

theorem otlpSlabFreePtr_of_unused {p : ℕ}
    (h : s.inArena p = true → s.used[(p - s.arena) / s.slotSize]? ≠ some true) :
    Ignores s (otlpSlabFreePtr s p) := by
  unfold otlpSlabFreePtr
  dsimp only
  split_ifs with hzero harena hslot
  · exact ⟨rfl, rfl, rfl, rfl, rfl, rfl⟩
  · have hused : s.used[(p - s.arena) / s.slotSize]? = some true := by
      rw [Bool.and_eq_true, List.getD_eq_getElem?_getD] at hslot
      cases hget : s.used[(p - s.arena) / s.slotSize]? with
      | none => simp [hget] at hslot
      | some u => simpa [hget] using hslot.2
    exact absurd hused (h harena)
  · exact ⟨rfl, rfl, rfl, rfl, rfl, rfl⟩
  · exact ⟨rfl, rfl, rfl, rfl, rfl, rfl⟩

/-- An address lies in slot `i` exactly when the division finds `i`. -/
theorem slot_has_iff {base size i a : ℕ} (hbase : base ≤ a) (hsize : 0 < size) :
    (Block.slot base size i).Has a ↔ i = (a - base) / size := by
  unfold Block.Has Block.slot
  dsimp only
  rw [eq_comm, Nat.div_eq_iff hsize]
  constructor
  · rintro ⟨hle, hlt⟩
    constructor <;> omega
  · rintro ⟨hle, hlt⟩
    constructor <;> omega

theorem otlpSlabFreePtr_cases (hs : Complement s) (hplaced : Placed s) (p : ℕ) :
    (∃ i, s.used[i]? = some true ∧ (∀ j, (Block.slot s.arena s.slotSize j).Has p ↔ j = i) ∧
        Returns s (otlpSlabFreePtr s p) i) ∨
      (Ignores s (otlpSlabFreePtr s p) ∧
        ∀ i, s.used[i]? = some true → ¬(Block.slot s.arena s.slotSize i).Has p) := by
  by_cases harena : s.inArena p = true
  · obtain ⟨hle, hlt⟩ := hplaced.inArena_iff.1 harena
    have hzero : p ≠ 0 := (hplaced.arena_pos.trans_le hle).ne'
    have hsize : 0 < s.slotSize := by
      refine Nat.pos_of_ne_zero fun hempty => ?_
      rw [hempty, Nat.zero_mul] at hlt
      omega
    by_cases hused : s.used[(p - s.arena) / s.slotSize]? = some true
    · exact .inl ⟨_, hused, fun j => slot_has_iff hle hsize,
        otlpSlabFreePtr_of_used hzero harena (hs.lt_capacity hused) hused⟩
    · refine .inr ⟨otlpSlabFreePtr_of_unused fun _ => hused, fun i hi hhas => ?_⟩
      rw [(slot_has_iff hle hsize).1 hhas] at hi
      exact hused hi
  · refine .inr ⟨otlpSlabFreePtr_of_unused fun h => absurd h harena, fun i hi hhas => ?_⟩
    have hwithin : (Block.slot s.arena s.slotSize i).Within ⟨s.arena, s.slotSize * s.capacity⟩ :=
      Block.slot_within (hs.lt_capacity hi)
    refine harena (hplaced.inArena_iff.2 ?_)
    obtain ⟨hle, hlt⟩ := hhas
    obtain ⟨hle', hlt'⟩ := hwithin
    dsimp only at hle' hlt'
    omega

/-! ### What a call keeps -/

theorem Marks.placed {t : OtlpSlab} {used : List Bool} {inUse : ℕ} {stack : List ℕ}
    (h : Marks s t used inUse stack) (hs : Placed s) : Placed t := by
  refine ⟨?_, ?_, ?_⟩
  · rw [h.slotSize_eq, h.capacity_eq]
    exact hs.product
  · rw [h.arena_eq]
    exact hs.arena_pos
  · rw [h.arena_eq, h.slotSize_eq, h.capacity_eq]
    exact hs.arena_fits

theorem Ignores.complement {t : OtlpSlab} (h : Ignores s t) (hs : Complement s) : Complement t := by
  refine ⟨?_, ?_, ?_, ?_⟩
  · rw [h.used_eq, h.capacity_eq]
    exact hs.used_length
  · rw [h.freeStack_eq]
    exact hs.nodup
  · rw [h.freeStack_eq, h.used_eq]
    exact hs.mem_freeStack
  · rw [h.inUse_eq, h.freeStack_eq, h.capacity_eq]
    exact hs.inUse_add

theorem Takes.unused {t : OtlpSlab} {i : ℕ} (h : Takes s t i) (hs : Complement s) :
    s.used[i]? = some false := by
  obtain ⟨stack, hstack, -⟩ := h
  rw [← hs.mem_freeStack, hstack]
  exact List.mem_cons_self

theorem Takes.complement {t : OtlpSlab} {i : ℕ} (h : Takes s t i) (hs : Complement s) : Complement t := by
  have hlt : i < s.used.length := (List.getElem?_eq_some_iff.1 (h.unused hs)).1
  obtain ⟨stack, hstack, hmarks⟩ := h
  have hnodup := hs.nodup
  rw [hstack, List.nodup_cons] at hnodup
  refine ⟨?_, ?_, fun j => ?_, ?_⟩
  · rw [hmarks.used_eq, hmarks.capacity_eq, List.length_set]
    exact hs.used_length
  · rw [hmarks.freeStack_eq]
    exact hnodup.2
  · have hmem := hs.mem_freeStack j
    rw [hstack, List.mem_cons] at hmem
    rw [hmarks.freeStack_eq, hmarks.used_eq]
    by_cases hj : j = i
    · subst hj
      rw [List.getElem?_set_self hlt]
      exact ⟨fun hmem => absurd hmem hnodup.1, fun h => absurd (Option.some.inj h) (by decide)⟩
    · rw [List.getElem?_set_ne (Ne.symm hj), ← hmem]
      exact ⟨.inr, fun h => h.resolve_left hj⟩
  · have hadd := hs.inUse_add
    rw [hstack, List.length_cons] at hadd
    rw [hmarks.inUse_eq, hmarks.freeStack_eq, hmarks.capacity_eq]
    omega

theorem Returns.complement {t : OtlpSlab} {i : ℕ} (h : Returns s t i) (hused : s.used[i]? = some true)
    (hs : Complement s) : Complement t := by
  have hlt : i < s.used.length := (List.getElem?_eq_some_iff.1 hused).1
  have hnot : i ∉ s.freeStack := by
    rw [hs.mem_freeStack, hused]
    decide
  have hnodup : (i :: s.freeStack).Nodup := List.nodup_cons.2 ⟨hnot, hs.nodup⟩
  refine ⟨?_, ?_, fun j => ?_, ?_⟩
  · rw [h.used_eq, h.capacity_eq, List.length_set]
    exact hs.used_length
  · rw [h.freeStack_eq]
    exact hnodup
  · rw [h.freeStack_eq, h.used_eq, List.mem_cons, hs.mem_freeStack]
    by_cases hj : j = i
    · subst hj
      rw [List.getElem?_set_self hlt]
      exact ⟨fun _ => rfl, fun _ => .inl rfl⟩
    · rw [List.getElem?_set_ne (Ne.symm hj)]
      exact ⟨fun h => h.resolve_left hj, .inr⟩
  · -- some slot is unaccounted for by the free stack, so that the count is not zero
    have hsub : (i :: s.freeStack).length ≤ s.capacity := by
      refine (hnodup.subperm fun j hj => ?_).length_le.trans_eq (List.length_range (n := s.capacity))
      rw [List.mem_range]
      rcases List.mem_cons.1 hj with rfl | hj
      · exact hs.lt_capacity hused
      · exact hs.lt_capacity ((hs.mem_freeStack j).1 hj)
    have hadd := hs.inUse_add
    rw [List.length_cons] at hsub
    rw [h.inUse_eq, h.freeStack_eq, h.capacity_eq, List.length_cons]
    omega

theorem Complement.handed (hs : Complement s) (hplaced : Placed s) {size : ℕ} {libc : Option ℕ} {a : ℕ}
    (h : (otlpSlabAlloc s size libc).2 = some ⟨a, .slab⟩) :
    ∃ i, s.used[i]? = some false ∧ a = s.arena + i * s.slotSize := by
  rcases otlpSlabAlloc_cases s size libc with ⟨i, htakes, hchunk⟩ | ⟨-, hchunk⟩
  · have hunused := htakes.unused hs
    rw [hplaced.slot_addr (hs.lt_capacity hunused), h] at hchunk
    exact ⟨i, hunused, congrArg Chunk.addr (Option.some.inj hchunk)⟩
  · exact absurd h (hchunk a)

/-! ### What the callers hold -/

theorem Marks.slotAt_eq {t : OtlpSlab} {used : List Bool} {inUse : ℕ} {stack : List ℕ}
    (h : Marks s t used inUse stack) : slotAt t = slotAt s := by
  funext a
  unfold slotAt
  rw [h.slotSize_eq]

theorem Held.of_ignores {t : OtlpSlab} {held : List ℕ} (h : Held ⟨s, held⟩) (hmarks : Ignores s t) :
    Held ⟨t, held⟩ := by
  refine ⟨fun a => ?_, ?_⟩
  · dsimp only
    rw [hmarks.used_eq, hmarks.arena_eq, hmarks.slotSize_eq]
    exact h.mem_held a
  · dsimp only
    rw [hmarks.slotAt_eq]
    exact h.apart

theorem Held.apart_unused (h : Held r) {i : ℕ} (hi : r.slab.used[i]? = some false) {a : ℕ} (ha : a ∈ r.held) :
    (Block.slot r.slab.arena r.slab.slotSize i).Apart (slotAt r.slab a) := by
  obtain ⟨j, hj, rfl⟩ := (h.mem_held a).1 ha
  refine Block.slot_apart fun heq => ?_
  rw [heq, hj] at hi
  exact absurd (Option.some.inj hi) (by decide)

theorem Held.of_takes {t : OtlpSlab} {held : List ℕ} {i : ℕ} (h : Held ⟨s, held⟩) (hs : Complement s)
    (htakes : Takes s t i) : Held ⟨t, (s.arena + i * s.slotSize) :: held⟩ := by
  have hunused := htakes.unused hs
  have hlt : i < s.used.length := (List.getElem?_eq_some_iff.1 hunused).1
  obtain ⟨stack, -, hmarks⟩ := htakes
  refine ⟨fun a => ?_, ?_⟩
  · dsimp only
    rw [hmarks.used_eq, hmarks.arena_eq, hmarks.slotSize_eq, List.mem_cons, h.mem_held]
    constructor
    · rintro (rfl | ⟨j, hj, rfl⟩)
      · exact ⟨i, List.getElem?_set_self hlt, rfl⟩
      · refine ⟨j, ?_, rfl⟩
        rw [List.getElem?_set_ne, hj]
        rintro rfl
        rw [hj] at hunused
        exact absurd (Option.some.inj hunused) (by decide)
    · rintro ⟨j, hj, rfl⟩
      by_cases hji : j = i
      · exact .inl (by rw [hji])
      · rw [List.getElem?_set_ne (Ne.symm hji)] at hj
        exact .inr ⟨j, hj, rfl⟩
  · dsimp only
    rw [hmarks.slotAt_eq]
    exact List.pairwise_cons.2 ⟨fun a ha => h.apart_unused hunused ha, h.apart⟩

theorem filter_held_eq {held : List ℕ} {p : ℕ} (h : Held ⟨s, held⟩)
    (hnone : ∀ i, s.used[i]? = some true → ¬(Block.slot s.arena s.slotSize i).Has p) :
    (held.filter fun a => ¬(slotAt s a).Has p) = held := by
  refine List.filter_eq_self.2 fun a ha => ?_
  obtain ⟨i, hi, rfl⟩ := (h.mem_held a).1 ha
  exact decide_eq_true (hnone i hi)

theorem Held.of_returns {t : OtlpSlab} {held : List ℕ} {i p : ℕ} (h : Held ⟨s, held⟩)
    (hhas : ∀ j, (Block.slot s.arena s.slotSize j).Has p ↔ j = i) (hmarks : Returns s t i) :
    Held ⟨t, held.filter fun a => ¬(slotAt s a).Has p⟩ := by
  refine ⟨fun a => ?_, ?_⟩
  · dsimp only
    rw [hmarks.used_eq, hmarks.arena_eq, hmarks.slotSize_eq, List.mem_filter, h.mem_held, decide_eq_true_iff]
    constructor
    · rintro ⟨⟨j, hj, rfl⟩, hnot⟩
      have hji : j ≠ i := fun heq => hnot ((hhas j).2 heq)
      exact ⟨j, by rw [List.getElem?_set_ne hji.symm, hj], rfl⟩
    · rintro ⟨j, hj, rfl⟩
      have hji : j ≠ i := by
        rintro rfl
        rw [List.getElem?_set, if_pos rfl] at hj
        split_ifs at hj
        exact absurd (Option.some.inj hj) (by decide)
      rw [List.getElem?_set_ne hji.symm] at hj
      exact ⟨⟨j, hj, rfl⟩, fun hp => hji ((hhas j).1 hp)⟩
  · dsimp only
    rw [hmarks.slotAt_eq]
    exact h.apart.filter _

/-! ### Runs -/

/-- What holds between two calls of a slab that was made as `made`, and of its callers. -/
structure Sound (made : OtlpSlab) (r : Run) : Prop where
  complement : Complement r.slab
  placed : Placed r.slab
  held : Held r
  same : ∃ used inUse stack, Marks made r.slab used inUse stack

theorem Marks.trans {t v : OtlpSlab} {used used' : List Bool} {inUse inUse' : ℕ} {stack stack' : List ℕ}
    (h : Marks s t used inUse stack) (h' : Marks t v used' inUse' stack') : Marks s v used' inUse' stack' :=
  ⟨h'.slotSize_eq.trans h.slotSize_eq, h'.capacity_eq.trans h.capacity_eq, h'.arena_eq.trans h.arena_eq,
    h'.used_eq, h'.inUse_eq, h'.freeStack_eq⟩

theorem sound_step {made : OtlpSlab} (h : Sound made r) (call : Call) : Sound made (step r call) := by
  obtain ⟨s, held⟩ := r
  obtain ⟨hs, hplaced, hheld, used, inUse, stack, hsame⟩ := h
  dsimp only at hs hplaced hheld hsame
  cases call with
  | alloc size libc =>
    unfold step
    dsimp only
    rcases otlpSlabAlloc_cases s size libc with ⟨i, htakes, hchunk⟩ | ⟨hignores, hchunk⟩
    · rw [hplaced.slot_addr (hs.lt_capacity (htakes.unused hs))] at hchunk
      rw [hchunk]
      obtain ⟨stack, -, hmarks⟩ := id htakes
      exact ⟨htakes.complement hs, hmarks.placed hplaced, hheld.of_takes hs htakes, _, _, _,
        hsame.trans hmarks⟩
    · have hkept : (match (otlpSlabAlloc s size libc).2 with
          | some ⟨a, .slab⟩ => a :: held
          | _ => held) = held := by
        split
        · next a heq => exact absurd heq (hchunk a)
        · rfl
      rw [hkept]
      exact ⟨hignores.complement hs, hignores.placed hplaced, hheld.of_ignores hignores, _, _, _,
        hsame.trans hignores⟩
  | freePtr p =>
    unfold step
    dsimp only
    rcases otlpSlabFreePtr_cases hs hplaced p with ⟨i, hused, hhas, hreturns⟩ | ⟨hignores, hnone⟩
    · exact ⟨hreturns.complement hused hs, hreturns.placed hplaced, hheld.of_returns hhas hreturns,
        _, _, _, hsame.trans hreturns⟩
    · rw [filter_held_eq hheld hnone]
      exact ⟨hignores.complement hs, hignores.placed hplaced, hheld.of_ignores hignores, _, _, _,
        hsame.trans hignores⟩

theorem sound_foldl {made : OtlpSlab} (h : Sound made r) (calls : List Call) :
    Sound made (calls.foldl step r) := by
  induction calls generalizing r with
  | nil => exact h
  | cons call calls ih => exact ih (sound_step h call)

theorem otlpSlabCreate_eq {slotSize capacity : ℕ} {heap : Allocator} {c : Created}
    (h : otlpSlabCreate slotSize capacity heap = some c) :
    slotSize ≠ 0 ∧ capacity ≠ 0 ∧ c.slab.slotSize = roundUp slotSize otlpSlabAlign ∧
      c.slab.capacity = capacity ∧ c.arenaBytes = u64 (roundUp slotSize otlpSlabAlign * capacity) ∧
      c.freeStackBytes = u64 (capacity * 8) ∧ (0 < c.slab.arena ∧ c.slab.arena + c.arenaBytes < 2 ^ 64) ∧
      c.slab.used = List.replicate capacity false ∧ c.slab.inUse = 0 ∧
      c.slab.freeStack = List.range capacity := by
  unfold otlpSlabCreate at h
  split_ifs at h with hzero
  simp only [Bool.or_eq_true, decide_eq_true_eq, not_or] at hzero
  dsimp only at h
  split at h
  · next arena _ _ harena _ _ =>
    cases h
    refine ⟨hzero.1, hzero.2, rfl, rfl, rfl, rfl, heap.placed _ _ _ harena, rfl, rfl, ?_⟩
    refine List.ext_getElem (by simp) fun i hi _ => ?_
    rw [List.length_reverse, List.length_map, List.length_range] at hi
    rw [List.getElem_reverse, List.getElem_map, List.getElem_range, List.getElem_range, List.length_map,
      List.length_range]
    omega
  · contradiction

theorem sound_create {slotSize capacity : ℕ} {heap : Allocator} {c : Created}
    (h : otlpSlabCreate slotSize capacity heap = some c) (hfits : c.slab.slotSize * c.slab.capacity < 2 ^ 64) :
    Sound c.slab ⟨c.slab, []⟩ := by
  obtain ⟨-, -, hslot, hcapacity, hbytes, -, ⟨hpos, hplaced⟩, hused, hinUse, hstack⟩ := otlpSlabCreate_eq h
  rw [← hcapacity, ← hslot, Queue.u64_of_lt hfits] at hbytes
  rw [hbytes] at hplaced
  refine ⟨⟨?_, ?_, fun i => ?_, ?_⟩, ⟨hfits, hpos, hplaced⟩, ⟨fun a => ?_, .nil⟩, _, _, _,
    ⟨rfl, rfl, rfl, rfl, rfl, rfl⟩⟩
  · rw [hused, hcapacity, List.length_replicate]
  · rw [hstack]
    exact List.nodup_range
  · rw [hstack, hused, List.mem_range, List.getElem?_replicate]
    simp
  · rw [hinUse, hstack, hcapacity, List.length_range, Nat.zero_add]
  · simp [hused, List.getElem?_replicate]

theorem handed_slot {slotSize capacity : ℕ} {heap : Allocator} {c : Created}
    (hcreate : otlpSlabCreate slotSize capacity heap = some c)
    (hfits : c.slab.slotSize * c.slab.capacity < 2 ^ 64) (calls : List Call) {size : ℕ} {libc : Option ℕ}
    {a : ℕ} (h : (otlpSlabAlloc (run c.slab calls).slab size libc).2 = some ⟨a, .slab⟩) :
    ∃ i < c.slab.capacity, a = c.slab.arena + i * c.slab.slotSize := by
  obtain ⟨hs, hplaced, -, used, inUse, stack, hsame⟩ : Sound c.slab (run c.slab calls) :=
    sound_foldl (sound_create hcreate hfits) calls
  rw [← hsame.capacity_eq, ← hsame.arena_eq, ← hsame.slotSize_eq]
  obtain ⟨i, hunused, ha⟩ := hs.handed hplaced h
  exact ⟨i, hs.lt_capacity hunused, ha⟩

/-- **The free list of a slab.** After any calls on a slab whose slots fit in the address space, the free stack
is duplicate-free and has exactly the slots that are not marked, the count of slots in use is what is missing
from it, no two pointers held share a byte, and a slot that is handed out next was free. -/
theorem free_list_of_run {slotSize capacity : ℕ} {heap : Allocator} {c : Created}
    (hcreate : otlpSlabCreate slotSize capacity heap = some c)
    (hfits : c.slab.slotSize * c.slab.capacity < 2 ^ 64) (calls : List Call) :
    let r := run c.slab calls
    (r.slab.freeStack.Nodup ∧
        ∀ i, i ∈ r.slab.freeStack ↔ i < c.slab.capacity ∧ r.slab.used[i]? ≠ some true) ∧
      r.slab.inUse = c.slab.capacity - r.slab.freeStack.length ∧
      r.slab.freeStack.length ≤ c.slab.capacity ∧
      (∀ size libc a, (otlpSlabAlloc r.slab size libc).2 = some ⟨a, .slab⟩ →
        ∃ i < c.slab.capacity, r.slab.used[i]? = some false ∧ a = c.slab.arena + i * c.slab.slotSize ∧
          ∀ b ∈ r.held, (slotAt c.slab a).Apart (slotAt c.slab b)) ∧
      (∀ a, a ∈ r.held ↔ ∃ i, r.slab.used[i]? = some true ∧ a = c.slab.arena + i * c.slab.slotSize) ∧
      r.held.Pairwise fun a b => (slotAt c.slab a).Apart (slotAt c.slab b) := by
  intro r
  obtain ⟨hs, hplaced, hheld, used, inUse, stack, hsame⟩ : Sound c.slab r :=
    sound_foldl (sound_create hcreate hfits) calls
  rw [← hsame.capacity_eq, ← hsame.arena_eq, ← hsame.slotSize_eq, ← hsame.slotAt_eq]
  refine ⟨⟨hs.nodup, fun i => ?_⟩, hs.inUse_eq, hs.freeTop_le, fun size libc a h => ?_, hheld.mem_held,
    hheld.apart⟩
  · rw [hs.mem_freeStack]
    constructor
    · intro hi
      refine ⟨hs.lt_capacity hi, ?_⟩
      rw [hi]
      decide
    · rintro ⟨hlt, hi⟩
      rw [← hs.used_length] at hlt
      rw [List.getElem?_eq_getElem hlt] at hi ⊢
      simpa using hi
  · obtain ⟨i, hunused, ha⟩ := hs.handed hplaced h
    rw [ha]
    exact ⟨i, hs.lt_capacity hunused, hunused, rfl, fun b hb => hheld.apart_unused hunused hb⟩

/-- An allocator with an address for each of the four requests. -/
def Allocator.spread : Allocator where
  alloc k n := if n ≤ 512 then some (1000 * (k + 1) % 5000 + 1) else none
  placed := by
    intro k n a h
    split_ifs at h
    rw [Option.some.injEq] at h
    omega

/-- A slot freed twice, one freed through its middle, and a pointer from elsewhere. -/
def roughCalls : List Call :=
  [.alloc 8 none, .alloc 8 none, .freePtr 2001, .freePtr 2001, .freePtr 2020, .freePtr 9000, .alloc 8 none]

/-- The second slot is in use, is given back through its middle, and is handed out again. -/
theorem free_list_of_run_rough : ∃ c, otlpSlabCreate 13 4 .spread = some c ∧
    (run c.slab roughCalls).slab.freeStack.Nodup ∧
      (run c.slab roughCalls).slab.inUse = 4 - (run c.slab roughCalls).slab.freeStack.length ∧
      (run c.slab (roughCalls.take 4)).held = [2017] ∧ (run c.slab (roughCalls.take 5)).held = [] ∧
      1 ∈ (run c.slab (roughCalls.take 5)).slab.freeStack ∧ 2017 ∈ (run c.slab roughCalls).held ∧
      (run c.slab roughCalls).slab.used[1]? = some true := by
  have hcreate : otlpSlabCreate 13 4 .spread = some ⟨⟨16, 4, 2001, List.replicate 4 false, 0, [0, 1, 2, 3], {}⟩,
      64, 4, 32⟩ := by decide +kernel
  obtain ⟨⟨hnodup, -⟩, hinUse, -, -, hheld, -⟩ := free_list_of_run hcreate (by decide) roughCalls
  have hagain : 2017 ∈ (run ⟨16, 4, 2001, List.replicate 4 false, 0, [0, 1, 2, 3], {}⟩ roughCalls).held := by
    decide +kernel
  refine ⟨_, hcreate, hnodup, hinUse, by decide +kernel, by decide +kernel, by decide +kernel, hagain, ?_⟩
  obtain ⟨i, hused, hat⟩ := (hheld 2017).1 hagain
  have hslot : 2017 = 2001 + i * 16 := hat
  obtain rfl : i = 1 := by omega
  exact hused

/-! ### The installed slab -/

theorem slab_otlpSlabAlloc {w w' : World} {size : ℕ} {ans : Option Given} {chunk : Option Chunk}
    (h : Slab.otlpSlabAlloc w size ans = some (w', chunk)) :
    otlpSlabAlloc w.slab size (ans.map Given.addr) = (w'.slab, chunk) := by
  unfold Slab.otlpSlabAlloc at h
  unfold otlpSlabAlloc
  dsimp only at h ⊢
  rcases hfree : (if size ≤ w.slab.slotSize then w.slab.freeStack else []) with - | ⟨i, stack⟩
  · rw [hfree] at h
    dsimp only at h ⊢
    cases ans with
    | none =>
      cases h
      rfl
    | some g =>
      simp only [externAlloc] at h
      split_ifs at h
      cases h
      rfl
  · rw [hfree] at h
    cases h
    rfl

theorem slab_slabFreeHook {w : World} {p i : ℕ} (hslot : w.slab.slotOf p = some i) (hzero : p ≠ 0) :
    (slabFreeHook w p).slab = otlpSlabFreePtr w.slab p := by
  have hcond := hslot
  unfold OtlpSlab.slotOf at hcond
  dsimp only at hcond
  split_ifs at hcond with hused
  rw [Bool.and_eq_true, Bool.and_eq_true] at hused
  obtain rfl := Option.some.inj hcond
  unfold otlpSlabFreePtr slabFreeHook
  rw [if_neg hzero]
  dsimp only
  rw [if_pos (by exact hused.1.1), if_pos (by rw [Bool.and_eq_true]; exact ⟨hused.1.2, hused.2⟩), hslot]
  rfl

end OtlpC.Slab.FreeList
