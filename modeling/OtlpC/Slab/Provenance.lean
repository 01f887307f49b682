import OtlpC.Slab.Slab

/-!
# Every block goes back to where it came from

As long as no request that fits a slot arrives while the slab is full, the installed allocator hands out
disjoint blocks of at least the requested size, and gives each one back to the allocator it came from.
-/

namespace OtlpC.Slab

open Queue (u64)

/-! ### Correctness -/

/-- **A correct allocator**, as far as a state shows it. -/
structure Correct (w : World) : Prop where
  handled_eq : ∀ h ∈ w.handled, h.1 = h.2
  apart : w.live.Pairwise fun b c => (b.block w.slab.slotSize).Apart (c.block w.slab.slotSize)
  enough : ∀ b ∈ w.live, b.size ≤ (b.block w.slab.slotSize).size
  backed : ∀ b ∈ w.live, b.origin = .slab → ∃ o ∈ w.own, (b.block w.slab.slotSize).Within o

/-- `realloc` keeps the first bytes of the block. -/
def ReallocKeeps (w : World) (l : Label) : Prop :=
  ∀ p n ans b w' q, l = .realloc (some p) n ans → w.live.find? (·.addr == p) = some b →
    step w l = some w' → w'.ret = some q → ∀ i < min b.size n, w'.mem (q + i) = w.mem (p + i)

/-- The size of the request that reaches `slab_alloc_hook` in a step. -/
def request (w : World) : Label → Option ℕ
  | .malloc n _ => some n
  | .calloc count size _ => some (u64 (count * size))
  | .realloc none n _ => some n
  | .realloc (some p) n _ => if n ≠ 0 && w.slab.inArena p then some n else none
  | .free _ => none
  | .store _ _ => none

/-- The size of a `calloc` does not wrap. -/
def whole : Label → Bool
  | .calloc count size _ => count * size < 2 ^ 64
  | _ => true

/-- No request that fits a slot arrives while the slab is full, and no `calloc` asks for more than
`SIZE_MAX`. -/
structure Roomy (w : World) (l : Label) : Prop where
  room : ∀ n ∈ request w l, n ≤ w.slab.slotSize → w.slab.freeStack ≠ []
  whole_eq : whole l = true

instance (w : World) (l : Label) : Decidable (Roomy w l) :=
  decidable_of_iff ((∀ n ∈ request w l, n ≤ w.slab.slotSize → w.slab.freeStack ≠ []) ∧ whole l = true)
    ⟨fun h => ⟨h.1, h.2⟩, fun h => ⟨h.1, h.2⟩⟩

/-! ### The invariant -/

def OtlpSlab.arenaBlock (s : OtlpSlab) : Block := ⟨s.arena, s.slotSize * s.capacity⟩

structure SlabOk (w : World) : Prop where
  slot_pos : 0 < w.slab.slotSize
  arena_mem : w.slab.arenaBlock ∈ w.own
  arena_fits : w.slab.arena + w.slab.slotSize * w.slab.capacity < 2 ^ 64
  used_length : w.slab.used.length = w.slab.capacity
  stack_nodup : w.slab.freeStack.Nodup
  stack_free : ∀ i ∈ w.slab.freeStack, w.slab.used[i]? = some false
  slot_live : ∀ b ∈ w.live, b.origin = .slab → ∃ i, w.slab.used[i]? = some true ∧
    b.addr = w.slab.arena + i * w.slab.slotSize ∧ b.size ≤ w.slab.slotSize
  prev_live : ∀ b ∈ w.live, b.origin ≠ .slab → b.origin = .prev ∧ b.asked = b.size ∧
    ∀ o ∈ w.own, (b.block w.slab.slotSize).Apart o
  apart : w.live.Pairwise fun b c => (b.block w.slab.slotSize).Apart (c.block w.slab.slotSize)
  handled_eq : ∀ h ∈ w.handled, h.1 = h.2

theorem lt_capacity {s : OtlpSlab} (h : s.used.length = s.capacity) {i : ℕ} {u : Bool}
    (hi : s.used[i]? = some u) : i < s.capacity := by
  rw [← h]
  exact (List.getElem?_eq_some_iff.1 hi).1

variable {w : World}

theorem block_slab {b : Live} (h : b.origin = .slab) (slotSize : ℕ) :
    b.block slotSize = ⟨b.addr, slotSize⟩ := by
  rw [Live.block, h]

theorem block_prev {b : Live} (h : b.origin = .prev) (slotSize : ℕ) :
    b.block slotSize = ⟨b.addr, reserved b.asked⟩ := by
  rw [Live.block, h]

theorem reserved_pos (n : ℕ) : 0 < reserved n := lt_max_of_lt_right Nat.zero_lt_one

theorem le_reserved (n : ℕ) : n ≤ reserved n := le_max_left n 1

theorem SlabOk.slot_within (hok : SlabOk w) {b : Live} (hb : b ∈ w.live) (h : b.origin = .slab) :
    (b.block w.slab.slotSize).Within w.slab.arenaBlock := by
  obtain ⟨i, hused, haddr, -⟩ := hok.slot_live b hb h
  rw [block_slab h, haddr]
  exact Block.slot_within (lt_capacity hok.used_length hused)

theorem SlabOk.correct (hok : SlabOk w) : Correct w where
  handled_eq := hok.handled_eq
  apart := hok.apart
  enough b hb := by
    by_cases h : b.origin = .slab
    · obtain ⟨i, -, -, hsize⟩ := hok.slot_live b hb h
      rw [block_slab h]
      exact hsize
    · obtain ⟨hprev, hasked, -⟩ := hok.prev_live b hb h
      rw [block_prev hprev, ← hasked]
      exact le_reserved b.asked
  backed b hb h := ⟨_, hok.arena_mem, hok.slot_within hb h⟩

theorem SlabOk.inArena_iff (hok : SlabOk w) (p : ℕ) :
    w.slab.inArena p = true ↔ w.slab.arenaBlock.Has p := by
  have hfits := hok.arena_fits
  have hinner : u64 (w.slab.slotSize * w.slab.capacity) = w.slab.slotSize * w.slab.capacity :=
    Queue.u64_of_lt (by omega)
  rw [OtlpSlab.inArena, hinner, Queue.u64_of_lt hfits, Bool.and_eq_true, decide_eq_true_eq,
    decide_eq_true_eq]
  rfl

theorem SlabOk.slotOf_slab (hok : SlabOk w) {b : Live} (hb : b ∈ w.live) (h : b.origin = .slab) :
    w.slab.inArena b.addr = true ∧ ∃ i, w.slab.slotOf b.addr = some i ∧ w.slab.used[i]? = some true ∧
      b.addr = w.slab.arena + i * w.slab.slotSize := by
  obtain ⟨i, hused, haddr, -⟩ := hok.slot_live b hb h
  have hwithin := hok.slot_within hb h
  have harena : w.slab.inArena b.addr = true := by
    rw [hok.inArena_iff]
    rw [block_slab h] at hwithin
    have hpos := hok.slot_pos
    unfold Block.Within at hwithin
    exact ⟨hwithin.1, by have := hwithin.2; dsimp only at this; omega⟩
  refine ⟨harena, i, ?_, hused, haddr⟩
  have hindex : (b.addr - w.slab.arena) / w.slab.slotSize = i := by
    rw [haddr]
    exact Block.slot_index hok.slot_pos
  have hlt := lt_capacity hok.used_length hused
  rw [OtlpSlab.slotOf, hindex, harena]
  simp [hlt, hused]

theorem SlabOk.slotOf_prev (hok : SlabOk w) {b : Live} (hb : b ∈ w.live) (h : b.origin ≠ .slab) :
    w.slab.inArena b.addr = false ∧ w.slab.slotOf b.addr = none := by
  obtain ⟨hprev, -, hown⟩ := hok.prev_live b hb h
  have hapart := hown _ hok.arena_mem
  rw [block_prev hprev] at hapart
  have hpos := reserved_pos b.asked
  have harena : w.slab.inArena b.addr = false := by
    rw [Bool.eq_false_iff, ne_eq, hok.inArena_iff]
    exact hapart.not_has ⟨le_rfl, by simpa using hpos⟩
  exact ⟨harena, by rw [OtlpSlab.slotOf, harena]; rfl⟩

/-! ### Allocating -/

/-- What an allocation leaves: the slab, the live blocks and their contents are as they were, but for the
block handed out. -/
structure Allocated (w : World) (n : ℕ) (w' : World) (c : Option Chunk) : Prop where
  ok : SlabOk (w'.hand n n c)
  live_eq : w'.live = w.live
  slotSize_eq : w'.slab.slotSize = w.slab.slotSize
  same : ∀ b ∈ w.live, ∀ a, (b.block w.slab.slotSize).Has a → w'.mem a = w.mem a

theorem SlabOk.hand_none (hok : SlabOk w) (n : ℕ) : SlabOk (w.hand n n none) :=
  ⟨hok.slot_pos, hok.arena_mem, hok.arena_fits, hok.used_length, hok.stack_nodup, hok.stack_free,
    hok.slot_live, hok.prev_live, hok.apart, hok.handled_eq⟩

theorem admits_iff {own : List Block} {slotSize : ℕ} {others : List Live} {addr n : ℕ} :
    admits own slotSize others addr n = true ↔ (0 < addr ∧ addr + reserved n < 2 ^ 64) ∧
      (∀ o ∈ own, Block.Apart ⟨addr, reserved n⟩ o) ∧
      ∀ b ∈ others, b.origin ≠ .slab → Block.Apart ⟨addr, reserved n⟩ (b.block slotSize) := by
  simp only [admits, Bool.and_eq_true, decide_eq_true_eq, List.all_eq_true, Bool.or_eq_true, beq_iff_eq,
    or_iff_not_imp_left, and_assoc, ne_eq]

/-- A block that an allocator below may hand out is apart from every live block. -/
theorem SlabOk.admitted_apart (hok : SlabOk w) {others : List Live} (hsub : ∀ b ∈ others, b ∈ w.live)
    {addr n : ℕ} (h : admits w.own w.slab.slotSize others addr n = true) {b : Live} (hb : b ∈ others) :
    Block.Apart ⟨addr, reserved n⟩ (b.block w.slab.slotSize) := by
  obtain ⟨-, hown, hothers⟩ := admits_iff.1 h
  by_cases hslab : b.origin = .slab
  · exact (hown _ hok.arena_mem).of_within (hok.slot_within (hsub b hb) hslab)
  · exact hothers b hb hslab

theorem SlabOk.hand_prev (hok : SlabOk w) {n : ℕ} {addr : ℕ} {bytes : ℕ → UInt8}
    (h : admits w.own w.slab.slotSize w.live addr n = true) :
    SlabOk (({ w with mem := w.mem.fill ⟨addr, reserved n⟩ bytes } : World).hand n n
      (some ⟨addr, .prev⟩)) := by
  refine ⟨hok.slot_pos, hok.arena_mem, hok.arena_fits, hok.used_length, hok.stack_nodup, hok.stack_free,
    ?_, ?_, ?_, hok.handled_eq⟩
  · rintro b hb hslab
    rcases List.mem_cons.1 hb with rfl | hb
    · contradiction
    · exact hok.slot_live b hb hslab
  · rintro b hb hslab
    rcases List.mem_cons.1 hb with rfl | hb
    · exact ⟨rfl, rfl, (admits_iff.1 h).2.1⟩
    · exact hok.prev_live b hb hslab
  · exact List.pairwise_cons.2 ⟨fun b hb => hok.admitted_apart (fun _ hb => hb) h hb, hok.apart⟩

theorem externAlloc_allocated (hok : SlabOk w) {n : ℕ} {ans : Option Given} {w' : World}
    {c : Option Chunk} (h : externAlloc w .prev n ans = some (w', c)) : Allocated w n w' c := by
  cases ans with
  | none =>
    cases h
    exact ⟨hok.hand_none n, rfl, rfl, fun _ _ _ _ => rfl⟩
  | some g =>
    simp only [externAlloc] at h
    split at h
    · next hadmits =>
      cases h
      exact ⟨hok.hand_prev hadmits, rfl, rfl,
        fun b hb a ha => fill_of_apart (hok.admitted_apart (fun _ hb => hb) hadmits hb) ha⟩
    · contradiction

theorem slot_allocated (hok : SlabOk w) {n i : ℕ} {stack : List ℕ} (hstack : w.slab.freeStack = i :: stack)
    (hn : n ≤ w.slab.slotSize) (inUse : ℕ) (stats : OtlpSlabStats) :
    SlabOk (({ w with slab := { w.slab with
      freeStack := stack, used := w.slab.used.set i true, inUse, stats } } : World).hand n n
        (some ⟨u64 (w.slab.arena + i * w.slab.slotSize), .slab⟩)) := by
  have hfree : w.slab.used[i]? = some false := hok.stack_free i (hstack ▸ List.mem_cons_self)
  have hlt := lt_capacity hok.used_length hfree
  have hnodup := List.nodup_cons.1 (hstack ▸ hok.stack_nodup)
  have hslot : (Block.slot w.slab.arena w.slab.slotSize i).Within w.slab.arenaBlock := Block.slot_within hlt
  have haddr : u64 (w.slab.arena + i * w.slab.slotSize) = w.slab.arena + i * w.slab.slotSize := by
    have hfits := hok.arena_fits
    have hend := hslot.2
    simp only [Block.slot, OtlpSlab.arenaBlock] at hend
    exact Queue.u64_of_lt (by omega)
  -- a slot in use is another one
  have hother : ∀ {j : ℕ}, w.slab.used[j]? = some true → j ≠ i := by
    rintro j hj rfl
    rw [hfree] at hj
    contradiction
  have hset : ∀ {j : ℕ} {u : Bool}, w.slab.used[j]? = some u → j ≠ i →
      (w.slab.used.set i true)[j]? = some u := by
    intro j u hj hne
    rw [List.getElem?_set_ne (Ne.symm hne), hj]
  rw [haddr]
  refine ⟨hok.slot_pos, hok.arena_mem, hok.arena_fits, (List.length_set ..).trans hok.used_length,
    hnodup.2, ?_, ?_, ?_, ?_, hok.handled_eq⟩
  · intro j hj
    have hne : j ≠ i := fun heq => hnodup.1 (heq ▸ hj)
    exact hset (hok.stack_free j (hstack ▸ List.mem_cons_of_mem i hj)) hne
  · rintro b hb hslab
    rcases List.mem_cons.1 hb with rfl | hb
    · refine ⟨i, ?_, rfl, hn⟩
      exact List.getElem?_set_self (hok.used_length ▸ hlt)
    · obtain ⟨j, hused, hrest⟩ := hok.slot_live b hb hslab
      exact ⟨j, hset hused (hother hused), hrest⟩
  · rintro b hb hslab
    rcases List.mem_cons.1 hb with rfl | hb
    · contradiction
    · exact hok.prev_live b hb hslab
  · refine List.pairwise_cons.2 ⟨fun b hb => ?_, hok.apart⟩
    change (Block.slot w.slab.arena w.slab.slotSize i).Apart (b.block w.slab.slotSize)
    by_cases hslab : b.origin = .slab
    · obtain ⟨j, hused, hj, -⟩ := hok.slot_live b hb hslab
      rw [block_slab hslab, hj]
      exact Block.slot_apart (hother hused).symm
    · exact ((hok.prev_live b hb hslab).2.2 _ hok.arena_mem).of_within hslot |>.symm

/-- **What `slab_alloc_hook` does** while there is room. -/
theorem slabAllocHook_allocated (hok : SlabOk w) {n : ℕ} {ans : Option Given} {w' : World}
    {c : Option Chunk} (hroom : n ≤ w.slab.slotSize → w.slab.freeStack ≠ [])
    (h : slabAllocHook w n ans = some (w', c)) : Allocated w n w' c := by
  unfold slabAllocHook at h
  split at h
  · next hn =>
    obtain ⟨i, stack, hstack⟩ := List.exists_cons_of_ne_nil (hroom hn)
    simp only [otlpSlabAlloc, hn, if_true, hstack, Option.some.injEq, Prod.mk.injEq] at h
    obtain ⟨rfl, rfl⟩ := h
    exact ⟨slot_allocated hok hstack hn _ _, rfl, rfl, fun _ _ _ _ => rfl⟩
  · exact externAlloc_allocated hok h

/-! ### Releasing -/

theorem SlabOk.mem_drop {p : ℕ} {b : Live} (hb : b ∈ (w.drop p).live) : b ∈ w.live ∧ b.addr ≠ p := by
  simpa [World.drop] using hb

theorem SlabOk.drop_apart (hok : SlabOk w) (p : ℕ) :
    (w.drop p).live.Pairwise fun b c => (b.block w.slab.slotSize).Apart (c.block w.slab.slotSize) :=
  hok.apart.sublist List.filter_sublist

theorem handle_eq {b : Live} {p : ℕ} (h : w.live.find? (·.addr == p) = some b) (taker : Origin) :
    w.handle p taker = { w with handled := w.handled ++ [(b.origin, taker)] } := by
  rw [World.handle, h]
  rfl

theorem SlabOk.handled_append (hok : SlabOk w) (o : Origin) : ∀ h ∈ w.handled ++ [(o, o)], h.1 = h.2 := by
  intro h hmem
  rcases List.mem_append.1 hmem with hmem | hmem
  · exact hok.handled_eq h hmem
  · rw [List.mem_singleton.1 hmem]

theorem SlabOk.release_prev (hok : SlabOk w) {b : Live} {p : ℕ}
    (hfind : w.live.find? (·.addr == p) = some b) (hprev : b.origin = .prev) :
    SlabOk ((w.handle p .prev).drop p) := by
  rw [handle_eq hfind, hprev]
  exact ⟨hok.slot_pos, hok.arena_mem, hok.arena_fits, hok.used_length, hok.stack_nodup, hok.stack_free,
    fun c hc => hok.slot_live c (SlabOk.mem_drop hc).1, fun c hc => hok.prev_live c (SlabOk.mem_drop hc).1,
    hok.drop_apart _, hok.handled_append .prev⟩

/-- **What `slab_free_hook` does** with a live block. -/
theorem slabFreeHook_ok (hok : SlabOk w) {b : Live} {p : ℕ}
    (hfind : w.live.find? (·.addr == p) = some b) :
    SlabOk (slabFreeHook w p) ∧ (slabFreeHook w p).live = (w.drop p).live ∧ (slabFreeHook w p).mem = w.mem ∧
      (slabFreeHook w p).slab.slotSize = w.slab.slotSize := by
  have hb : b ∈ w.live := List.mem_of_find?_eq_some hfind
  obtain rfl : b.addr = p := by simpa using List.find?_some hfind
  by_cases hslab : b.origin = .slab
  · obtain ⟨-, i, hslot, hused, haddr⟩ := hok.slotOf_slab hb hslab
    have hlt := lt_capacity hok.used_length hused
    have hfind' : ({ w with slab := { w.slab with
        used := w.slab.used.set i false
        inUse := w.slab.inUse - 1
        freeStack := i :: w.slab.freeStack
        stats.freeCount := w.slab.stats.freeCount + 1
        stats.slabFreeHits := w.slab.stats.slabFreeHits + 1 } } : World).live.find?
          (·.addr == b.addr) = some b := hfind
    have hnotin : i ∉ w.slab.freeStack := by
      intro hmem
      rw [hok.stack_free i hmem] at hused
      contradiction
    have hset : ∀ {j : ℕ} {u : Bool}, w.slab.used[j]? = some u → j ≠ i →
        (w.slab.used.set i false)[j]? = some u := by
      intro j u hj hne
      rw [List.getElem?_set_ne (Ne.symm hne), hj]
    simp only [slabFreeHook, hslot, handle_eq hfind', hslab]
    refine ⟨⟨hok.slot_pos, hok.arena_mem, hok.arena_fits, (List.length_set ..).trans hok.used_length,
      List.nodup_cons.2 ⟨hnotin, hok.stack_nodup⟩, ?_, ?_, ?_, hok.drop_apart _, hok.handled_append .slab⟩,
      rfl, rfl, rfl⟩
    · intro j hj
      rcases List.mem_cons.1 hj with rfl | hj
      · exact List.getElem?_set_self (hok.used_length ▸ hlt)
      · exact hset (hok.stack_free j hj) fun heq => hnotin (heq ▸ hj)
    · intro c hc hcslab
      obtain ⟨hc, hne⟩ := SlabOk.mem_drop hc
      obtain ⟨j, hjused, hj, hsize⟩ := hok.slot_live c hc hcslab
      refine ⟨j, hset hjused fun heq => hne ?_, hj, hsize⟩
      rw [hj, haddr, heq]
    · intro c hc hcprev
      exact hok.prev_live c (SlabOk.mem_drop hc).1 hcprev
  · obtain ⟨-, hslot⟩ := hok.slotOf_prev hb hslab
    obtain ⟨hprev, -⟩ := hok.prev_live b hb hslab
    simp only [slabFreeHook, hslot]
    exact ⟨hok.release_prev hfind hprev, rfl, rfl, rfl⟩

/-! ### Resizing -/

theorem SlabOk.with_mem (hok : SlabOk w) (mem : Memory) : SlabOk { w with mem } :=
  ⟨hok.slot_pos, hok.arena_mem, hok.arena_fits, hok.used_length, hok.stack_nodup, hok.stack_free,
    hok.slot_live, hok.prev_live, hok.apart, hok.handled_eq⟩

theorem SlabOk.with_ret (hok : SlabOk w) (ret : Option ℕ) : SlabOk { w with ret } :=
  ⟨hok.slot_pos, hok.arena_mem, hok.arena_fits, hok.used_length, hok.stack_nodup, hok.stack_free,
    hok.slot_live, hok.prev_live, hok.apart, hok.handled_eq⟩

theorem block_pos (hok : SlabOk w) (b : Live) : 0 < (b.block w.slab.slotSize).size := by
  unfold Live.block
  cases b.origin with
  | slab => exact hok.slot_pos
  | prev | libc => exact reserved_pos b.asked

/-- What a successful `realloc` of the block `b` to `n` bytes leaves. -/
structure Resized (w : World) (b : Live) (n : ℕ) (w' : World) : Prop where
  ok : SlabOk w'
  keeps : ∀ q, w'.ret = some q → ∀ i < min b.size n, w'.mem (q + i) = w.mem (b.addr + i)

theorem externRealloc_resized (hok : SlabOk w) {b : Live} {p n : ℕ} {ans : Option Given} {w' : World}
    (hfind : w.live.find? (·.addr == p) = some b) (hprev : b.origin = .prev) (hasked : b.asked = b.size)
    (h : externRealloc w b n ans = some w') : Resized w b n w' := by
  obtain rfl : b.addr = p := by simpa using List.find?_some hfind
  cases ans with
  | none =>
    cases h
    rw [handle_eq hfind, hprev]
    exact ⟨⟨hok.slot_pos, hok.arena_mem, hok.arena_fits, hok.used_length, hok.stack_nodup, hok.stack_free,
      hok.slot_live, hok.prev_live, hok.apart, hok.handled_append .prev⟩, nofun⟩
  | some g =>
    simp only [externRealloc] at h
    split at h
    · next hadmits =>
      rw [Option.some.injEq] at h
      subst h
      refine ⟨(hok.release_prev hfind hprev).hand_prev hadmits, fun q hq i hi => ?_⟩
      obtain rfl : g.addr = q := Option.some.inj hq
      have hhas : Block.Has ⟨g.addr, reserved n⟩ (g.addr + i) := by
        have hle := le_reserved n
        refine ⟨Nat.le_add_right _ _, ?_⟩
        dsimp only
        omega
      rw [← hasked] at hi
      simp only [World.hand, Memory.fill, if_pos hhas, Nat.add_sub_cancel_left, if_pos hi]
      rfl
    · contradiction

theorem arenaRealloc_resized (hok : SlabOk w) {b : Live} {p n : ℕ} {w₁ : World} {c : Chunk}
    (hfind : w.live.find? (·.addr == p) = some b) (hslab : b.origin = .slab)
    (halloc : Allocated w n w₁ (some c)) :
    Resized w b n (slabFreeHook { w₁.hand n n (some c) with
      mem := w₁.mem.copy c.addr p (min w₁.slab.slotSize n) } p) := by
  have hb : b ∈ w.live := List.mem_of_find?_eq_some hfind
  obtain rfl : b.addr = p := by simpa using List.find?_some hfind
  have hok' := halloc.ok.with_mem (w₁.mem.copy c.addr b.addr (min w₁.slab.slotSize n))
  -- the new block is another one, so that the old one is found
  have hne : c.addr ≠ b.addr := by
    have hapart := (List.pairwise_cons.1 halloc.ok.apart).1 b (halloc.live_eq ▸ hb)
    exact hapart.addr_ne (block_pos halloc.ok _) (block_pos halloc.ok b)
  have hfind' : (w₁.hand n n (some c)).live.find? (·.addr == b.addr) = some b := by
    change List.find? _ (_ :: w₁.live) = some b
    rw [List.find?_cons_of_neg (by simpa using hne), halloc.live_eq, hfind]
  obtain ⟨hfreed, -, hmem, -⟩ := slabFreeHook_ok hok' hfind'
  refine ⟨hfreed, fun q hq i hi => ?_⟩
  obtain ⟨-, -, -, hsize⟩ := hok.slot_live b hb hslab
  have hi' : i < min w₁.slab.slotSize n := by
    rw [halloc.slotSize_eq]
    omega
  obtain rfl : c.addr = q := by
    have hret : (slabFreeHook { w₁.hand n n (some c) with
        mem := w₁.mem.copy c.addr b.addr (min w₁.slab.slotSize n) } b.addr).ret = some c.addr := by
      unfold slabFreeHook
      split <;> rfl
    exact Option.some.inj (hret.symm.trans hq)
  rw [hmem]
  refine (copy_at hi').trans (halloc.same b hb _ ?_)
  rw [block_slab hslab]
  exact ⟨Nat.le_add_right _ _, by dsimp only; omega⟩

/-- **What `slab_realloc_hook` does** with a live block while there is room. -/
theorem slabReallocHook_resized (hok : SlabOk w) {b : Live} {p n : ℕ} {ans : Option Given} {w' : World}
    (hfind : w.live.find? (·.addr == p) = some b)
    (hroom : n ≠ 0 → w.slab.inArena p = true → n ≤ w.slab.slotSize → w.slab.freeStack ≠ [])
    (h : slabReallocHook w b n ans = some w') : Resized w b n w' := by
  have hb : b ∈ w.live := List.mem_of_find?_eq_some hfind
  obtain rfl : b.addr = p := by simpa using List.find?_some hfind
  unfold slabReallocHook at h
  split at h
  · cases h
    exact ⟨(slabFreeHook_ok hok hfind).1.with_ret none, nofun⟩
  next hn =>
  by_cases hslab : b.origin = .slab
  · obtain ⟨harena, -⟩ := hok.slotOf_slab hb hslab
    rw [if_pos harena] at h
    split at h
    · contradiction
    · next w₁ halloc =>
      cases h
      exact ⟨(slabAllocHook_allocated hok (hroom hn harena) halloc).ok, nofun⟩
    · next w₁ c halloc =>
      rw [Option.some.injEq] at h
      subst h
      exact arenaRealloc_resized hok hfind hslab (slabAllocHook_allocated hok (hroom hn harena) halloc)
  · obtain ⟨harena, -⟩ := hok.slotOf_prev hb hslab
    obtain ⟨hprev, hasked, -⟩ := hok.prev_live b hb hslab
    rw [harena, if_neg Bool.false_ne_true] at h
    exact externRealloc_resized hok hfind hprev hasked h

/-! ### Runs -/

theorem slabOk_step (hok : SlabOk w) {l : Label} {w' : World} (hroomy : Roomy w l) (h : step w l = some w') :
    SlabOk w' := by
  cases l with
  | malloc n ans =>
    obtain ⟨⟨w₁, c⟩, halloc, rfl⟩ := Option.map_eq_some_iff.1 h
    exact (slabAllocHook_allocated hok (hroomy.room n rfl) halloc).ok
  | calloc count size ans =>
    obtain ⟨⟨w₁, c⟩, halloc, rfl⟩ := Option.map_eq_some_iff.1 h
    have halloc := slabAllocHook_allocated hok (hroomy.room _ rfl) halloc
    have hwhole := Queue.u64_of_lt (of_decide_eq_true hroomy.whole_eq)
    rw [hwhole] at halloc ⊢
    cases c with
    | none => exact halloc.ok
    | some c => exact halloc.ok.with_mem _
  | realloc p n ans =>
    cases p with
    | none =>
      obtain ⟨⟨w₁, c⟩, halloc, rfl⟩ := Option.map_eq_some_iff.1 h
      exact (slabAllocHook_allocated hok (hroomy.room n rfl) halloc).ok
    | some p =>
      obtain ⟨b, hfind, hresize⟩ := Option.bind_eq_some_iff.1 h
      refine (slabReallocHook_resized hok hfind (fun hn harena => hroomy.room n ?_) hresize).ok
      simp [request, hn, harena]
  | free p =>
    cases p with
    | none =>
      cases h
      exact hok
    | some p =>
      obtain ⟨b, hfind, rfl⟩ := Option.map_eq_some_iff.1 h
      exact (slabFreeHook_ok hok hfind).1
  | store a byte =>
    simp only [step] at h
    split at h
    · cases h
      exact hok.with_mem _
    · contradiction

theorem reallocKeeps_of_roomy (hok : SlabOk w) {l : Label} (hroomy : Roomy w l) : ReallocKeeps w l := by
  rintro p n ans b w' q rfl hfind h hret i hi
  obtain rfl : b.addr = p := by simpa using List.find?_some hfind
  rw [step, hfind, Option.bind_some] at h
  refine (slabReallocHook_resized hok hfind (fun hn harena => hroomy.room n ?_) h).keeps q hret i hi
  simp [request, hn, harena]

/-- The sizes of the slab do not wrap. -/
structure Fits (slotSize capacity : ℕ) : Prop where
  slot : slotSize + 7 < 2 ^ 64
  arena : roundUp slotSize otlpSlabAlign * capacity < 2 ^ 64

theorem roundUp_pos {slotSize capacity : ℕ} (h : Fits slotSize capacity) (hslot : slotSize ≠ 0) :
    0 < roundUp slotSize otlpSlabAlign := by
  have hlt : slotSize + otlpSlabAlign - 1 < 2 ^ 64 := h.slot
  rw [roundUp, Queue.u64_of_lt hlt, otlpSlabAlign]
  omega

theorem slabOk_install {slotSize capacity : ℕ} {env : InstallEnv} (hfits : Fits slotSize capacity)
    (h : otlpInstallSlabAllocator slotSize capacity env = some w) : SlabOk w := by
  unfold otlpInstallSlabAllocator at h
  split at h
  · contradiction
  next hzero =>
  simp only [Bool.or_eq_true, decide_eq_true_eq, not_or] at hzero
  have hpos := roundUp_pos hfits hzero.1
  dsimp only at h
  split at h
  · next slab arena used freeStack _ _ _ _ =>
    split at h
    · next hown =>
      have hsize : reserved (u64 (roundUp slotSize otlpSlabAlign * capacity)) =
          roundUp slotSize otlpSlabAlign * capacity := by
        rw [Queue.u64_of_lt hfits.arena]
        exact max_eq_left (Nat.mul_pos hpos (Nat.pos_of_ne_zero hzero.2))
      simp only [ownBlocks, List.all_cons, List.all_nil, Bool.and_eq_true, decide_eq_true_eq, hsize] at hown
      cases h
      refine ⟨hpos, ?_, hown.1.2.1.2, by simp, List.nodup_range, ?_, nofun, nofun, .nil, nofun⟩
      · simp [ownBlocks, OtlpSlab.arenaBlock, hsize]
      · intro i hi
        have hlt := List.mem_range.1 hi
        simp [hlt]
    · contradiction
  · contradiction

/-- **The installed slab allocator is a correct allocator** over any previous one, in every run in which no
request that fits a slot arrives while the slab is full: every block is released by, or resized in, the
allocator that produced it, live blocks are disjoint and as large as requested, and `realloc` keeps the first
bytes. -/
theorem slabCorrect_of_run {slotSize capacity : ℕ} {env : InstallEnv} (hfits : Fits slotSize capacity)
    (hinstall : otlpInstallSlabAllocator slotSize capacity env = some w) {ls : List Label} {w' : World}
    (hrun : Steps.run step w ls = some w') (hroomy : Steps.Along step Roomy w ls) :
    Correct w' ∧ Steps.Along step ReallocKeeps w ls := by
  have hok := slabOk_install hfits hinstall
  constructor
  · exact (Steps.along_invariant (P := SlabOk) (fun _ _ _ hok hroomy h => slabOk_step hok hroomy h) hok
      hroomy hrun).correct
  · exact Steps.along_of_along (P := SlabOk) (fun _ _ _ hok hroomy h => slabOk_step hok hroomy h)
      (fun _ _ hok hroomy => reallocKeeps_of_roomy hok hroomy) hok hroomy

/-! ### Runs on a small slab -/

def Given.zeros (addr : ℕ) : Given := { addr, bytes := fun _ => 0 }

/-- An environment in which the slab can be installed. -/
def InstallEnv.fine : InstallEnv :=
  { slab := some (.zeros 1000), arena := some (.zeros 2000), used := some (.zeros 3000),
    freeStack := some (.zeros 4000), mem := fun _ => 0 }

/-- A small block grows out of the arena and both it and a large one are freed. -/
def movedRun : List Label :=
  [.malloc 8 none, .store 2000 7, .malloc 100 (some (.zeros 5000)), .realloc (some 2000) 200
    (some (.zeros 6000)), .free (some 5000), .free (some 6000)]

theorem slabCorrect_of_run_moved : ∃ w w', otlpInstallSlabAllocator 13 2 .fine = some w ∧
    Steps.run step w movedRun = some w' ∧ w'.handled = [(.slab, .slab), (.prev, .prev), (.prev, .prev)] ∧
      w'.mem 6000 = 7 ∧ Correct w' ∧ Steps.Along step ReallocKeeps w movedRun := by
  have hrun : ((otlpInstallSlabAllocator 13 2 .fine).bind fun w => Steps.run step w movedRun).map
      (fun w' => (w'.handled, w'.mem 6000)) = some ([(.slab, .slab), (.prev, .prev), (.prev, .prev)], 7) := by
    decide +kernel
  obtain ⟨w', hw', hread⟩ := Option.map_eq_some_iff.1 hrun
  obtain ⟨hhandled, hbyte⟩ := Prod.mk.inj hread
  obtain ⟨w, hinstall, hrun⟩ := Option.bind_eq_some_iff.1 hw'
  have hroomy : ∀ w ∈ otlpInstallSlabAllocator 13 2 .fine, Steps.Along step Roomy w movedRun := by
    decide +kernel
  obtain ⟨hcorrect, hkeeps⟩ := slabCorrect_of_run ⟨by decide, by decide⟩ hinstall hrun (hroomy w hinstall)
  exact ⟨w, w', hinstall, hrun, hhandled, hbyte, hcorrect, hkeeps⟩

/-- Two small blocks from a slab of one slot, and the second one freed. -/
def overflowRun : List Label :=
  [.malloc 8 none, .malloc 8 (some (.zeros 5000)), .free (some 5000)]

/-- The block that libc's `malloc` produced is given to the previous allocator's `free`. -/
theorem overflow_freed_elsewhere : ∃ w w', otlpInstallSlabAllocator 8 1 .fine = some w ∧
    Steps.run step w overflowRun = some w' ∧ ¬Correct w' := by
  have hrun : ((otlpInstallSlabAllocator 8 1 .fine).bind fun w => Steps.run step w overflowRun).map
      World.handled = some [(.libc, .prev)] := by decide +kernel
  obtain ⟨w', hw', hhandled⟩ := Option.map_eq_some_iff.1 hrun
  obtain ⟨w, hinstall, hrun⟩ := Option.bind_eq_some_iff.1 hw'
  refine ⟨w, w', hinstall, hrun, fun hcorrect => ?_⟩
  have hsame := hcorrect.handled_eq (.libc, .prev) (by rw [hhandled]; exact List.mem_singleton.2 rfl)
  contradiction

end OtlpC.Slab
