import OtlpC.Api.Clones
import OtlpC.Lib.Owning
import Mathlib.Data.Finset.Basic

/-!
# Memory that is given back

The functions of `internal_util.c` once more, with every `otlp_free` they make: what is freed when a value is
replaced, when an attribute goes, and when a builder or a copy cannot go on. The ledger tells which blocks are live,
and counts the calls that free what is not. Each function owns what it should (`Owning`), and but for the ledger it
does what the function of the same name does that keeps none (`Erases`).
-/

namespace OtlpC.Memory

open Exporter Api

/-! ### The ledger -/

/-- The allocator with the blocks that are live; `faults` counts the frees of other blocks. -/
structure Mem where
  heap : Heap
  live : Finset ℕ
  faults : ℕ
  lt_next : ∀ b ∈ live, b < heap.next

abbrev MemM := StateM Mem

def Mem.new (grants : ℕ → ℕ → Bool) : Mem := ⟨⟨0, 0, grants⟩, ∅, 0, by simp⟩

theorem otlpMalloc_next (h : Heap) (size : ℕ) : (Api.otlpMalloc h size).2.next = h.next + 1 := by
  unfold Api.otlpMalloc
  split <;> rfl

/-- The blocks that are live once an allocation has been made. -/
def Mem.grown {size : ℕ} (s : Mem) : Option (Chunk size) → Finset ℕ
  | none => s.live
  | some _ => insert s.heap.next s.live

theorem Mem.grown_lt {size : ℕ} (s : Mem) (r : Option (Chunk size)) : ∀ b ∈ s.grown r, b < s.heap.next + 1 := by
  intro b hb
  cases r with
  | none => exact (s.lt_next b hb).trans (Nat.lt_succ_self _)
  | some c =>
    rcases Finset.mem_insert.1 hb with rfl | hb
    · exact Nat.lt_succ_self _
    · exact (s.lt_next b hb).trans (Nat.lt_succ_self _)

def otlpMalloc (size : ℕ) : MemM (Option (Chunk size)) := fun s =>
  let r := Api.otlpMalloc s.heap size
  (r.1, { s with
    heap := r.2
    live := s.grown r.1
    lt_next := otlpMalloc_next s.heap size ▸ s.grown_lt r.1 })

/-- `otlp_free`, which does nothing with NULL. -/
def otlpFree : Option ℕ → MemM Unit
  | none => pure ()
  | some b => fun s =>
    if b ∈ s.live then
      ((), { s with live := s.live.erase b, lt_next := fun c hc => s.lt_next c (Finset.mem_of_mem_erase hc) })
    else ((), { s with faults := s.faults + 1 })

/-- `otlp_realloc`: the old block is freed once there is a new one. -/
def otlpRealloc (p : Option ℕ) (size : ℕ) : MemM (Option (Chunk size)) := do
  match ← otlpMalloc size with
  | none => return none
  | some c =>
    otlpFree p
    return some c

/-! ### Owning and erasing -/

def Mem.held (s : Mem) : Multiset ℕ := s.live.val

def Mem.Sound (s : Mem) : Prop := s.faults = 0

/-- The program turns the live blocks `pre` into those of its result, and frees no block that is not live. -/
abbrev Owns {α : Type} (pre : Multiset ℕ) (f : MemM α) (post : α → Multiset ℕ) : Prop :=
  Owning Mem.held Mem.Sound pre f post

section Erases

variable {α β : Type} {f : MemM α} {g : Heap → α × Heap}

/-- What is left of a result when the ledger is dropped. -/
def erase (r : α × Mem) : α × Heap := (r.1, r.2.heap)

/-- But for the ledger, the program does what `g` does. -/
def Erases (f : MemM α) (g : Heap → α × Heap) : Prop := ∀ s, erase (f s) = g s.heap

theorem Erases.elim {k : α → MemM β} {s : Mem} (hf : Erases f g) (P : β × Mem → Prop)
    (hk : ∀ a s', g s.heap = (a, s'.heap) → P (k a s')) : P ((f >>= k) s) :=
  hk (f s).1 (f s).2 (hf s).symm

theorem Erases.step {k : α → MemM β} {s : Mem} {r : β × Heap} (hf : Erases f g)
    (hk : ∀ a s', g s.heap = (a, s'.heap) → erase (k a s') = r) : erase ((f >>= k) s) = r :=
  hk (f s).1 (f s).2 (hf s).symm

theorem erase_release {k : Unit → MemM β} {x : MemM Unit} {s : Mem} {r : β × Heap} (hx : ∀ s, (x s).2.heap = s.heap)
    (hk : ∀ s', s'.heap = s.heap → erase (k () s') = r) : erase ((x >>= k) s) = r :=
  hk (x s).2 (hx s)

end Erases

/-! ### Blocks -/

def blocks (ls : List Leaf) : Multiset ℕ := (ls.map Leaf.block : List ℕ)

@[simp] theorem blocks_nil : blocks [] = 0 := rfl

@[simp] theorem blocks_cons (l : Leaf) (ls : List Leaf) : blocks (l :: ls) = {l.block} + blocks ls := rfl

@[simp] theorem blocks_append (ls ms : List Leaf) : blocks (ls ++ ms) = blocks ls + blocks ms := by
  simp [blocks]

theorem blocks_flatMap {α : Type} (leaves : α → List Leaf) (xs : List α) :
    blocks (xs.flatMap leaves) = (xs.map fun x => blocks (leaves x)).sum := by
  induction xs with
  | nil => rfl
  | cons x xs ih => rw [List.flatMap_cons, blocks_append, ih, List.map_cons, List.sum_cons]

def optBlock (p : Option ℕ) : Multiset ℕ := (p.toList : List ℕ)

@[simp] theorem optBlock_none : optBlock none = 0 := rfl

@[simp] theorem optBlock_some (b : ℕ) : optBlock (some b) = {b} := rfl

@[simp] theorem block_blockLeaf (b : ℕ) : (blockLeaf b).block = b := rfl

@[simp] theorem block_strLeaf (s : HeapStr) : s.leaf.block = s.block := rfl

@[simp] theorem block_arrLeaf {α : Type} {size : ℕ} (a : HeapArr α size) : a.leaf.block = a.block := rfl

@[simp] theorem blocks_strLeaves (s : Option HeapStr) : blocks (strLeaves s) = optBlock (s.map HeapStr.block) := by
  cases s <;> rfl

/-! ### The allocator -/

theorem owns_otlpMalloc (size : ℕ) : Owns 0 (otlpMalloc size) fun c => optBlock (c.map Chunk.block) := by
  intro s rest hs hheld
  refine ⟨hs, ?_⟩
  change (s.grown (Api.otlpMalloc s.heap size).1).val = optBlock ((Api.otlpMalloc s.heap size).1.map Chunk.block) + rest
  have hheld : s.live.val = rest := hheld.trans (zero_add rest)
  rcases hc : Api.otlpMalloc s.heap size with ⟨_ | c, h⟩
  · exact hheld.trans (zero_add rest).symm
  · have hblock := (otlpMalloc_some hc).1
    have hnext : s.heap.next ∉ s.live := fun hmem => (s.lt_next _ hmem).false
    simp only [Mem.grown, Finset.insert_val_of_notMem hnext, hheld, Option.map_some, optBlock_some, hblock]
    rfl

theorem owns_otlpFree (p : Option ℕ) : Owns (optBlock p) (otlpFree p) fun _ => 0 := by
  cases p with
  | none => exact .pure rfl
  | some b =>
    intro s rest hs hheld
    have hheld : s.live.val = b ::ₘ rest := hheld
    have hmem : b ∈ s.live := by
      rw [← Finset.mem_val, hheld]
      exact Multiset.mem_cons_self b rest
    simp only [otlpFree, if_pos hmem, Mem.held, Finset.erase_val, hheld]
    exact ⟨hs, by simp⟩

theorem owns_otlpRealloc (p : Option ℕ) (size : ℕ) :
    Owns (optBlock p) (otlpRealloc p size) fun c => optBlock ((c.map Chunk.block).or p) := by
  refine (owns_otlpMalloc size).step (zero_add _).symm fun c => ?_
  cases c with
  | none => exact .pure (by simp)
  | some c => exact (owns_otlpFree p).step (r := {c.block}) (add_comm _ _) fun _ => .pure (by simp)

theorem erases_otlpMalloc (size : ℕ) : Erases (otlpMalloc size) (Api.otlpMalloc · size) := fun _ => rfl

theorem otlpFree_heap (p : Option ℕ) (s : Mem) : (otlpFree p s).2.heap = s.heap := by
  cases p with
  | none => rfl
  | some b =>
    dsimp only [otlpFree]
    split <;> rfl

theorem erases_otlpRealloc (p : Option ℕ) (size : ℕ) : Erases (otlpRealloc p size) (Api.otlpMalloc · size) := by
  intro s
  refine (erases_otlpMalloc size).step fun c s' hc => ?_
  show _ = Api.otlpMalloc s.heap size
  rw [hc]
  cases c with
  | none => rfl
  | some c => exact erase_release (otlpFree_heap p) fun s'' hs => Prod.ext rfl hs

/-! ### Strings and arrays -/

theorem fits_string {s : Bytes} (c : Chunk (s.length + 1)) : s.length + 1 ≤ ptrdiffMax := c.fits

theorem fits_array {α : Type} {items : List α} {size : ℕ} (c : Chunk (items.length * size)) :
    items.length * size ≤ ptrdiffMax :=
  c.fits

def otlpDupStr : Option Bytes → MemM (Option HeapStr)
  | none => return none
  | some s => do
    if s.length = sizeMax then return none
    else
      match ← otlpMalloc (s.length + 1) with
      | none => return none
      | some c => return some ⟨c.block, s, fits_string c⟩

/-- An allocation of as many bytes as `items` take, and the `memcpy` into it. -/
def dupArr {α : Type} (size : ℕ) (items : List α) : MemM (Option (HeapArr α size)) := do
  match ← otlpMalloc (items.length * size) with
  | none => return none
  | some c => return some ⟨c.block, items, fits_array c⟩

theorem owns_otlpDupStr (s : Option Bytes) : Owns 0 (otlpDupStr s) fun r => optBlock (r.map HeapStr.block) := by
  cases s with
  | none => exact .pure rfl
  | some s =>
    rw [otlpDupStr]
    split
    · exact .pure rfl
    · refine (owns_otlpMalloc _).bind fun c => ?_
      cases c <;> exact .pure rfl

theorem owns_dupArr {α : Type} (size : ℕ) (items : List α) :
    Owns 0 (dupArr size items) fun r => optBlock (r.map HeapArr.block) := by
  refine (owns_otlpMalloc _).bind fun c => ?_
  cases c <;> exact .pure rfl

theorem erases_otlpDupStr (s : Option Bytes) : Erases (otlpDupStr s) (Api.otlpDupStr · s) := by
  intro m
  cases s with
  | none => rfl
  | some s =>
    show _ = Api.otlpDupStr m.heap (some s)
    rw [otlpDupStr, Api.otlpDupStr]
    split
    · rfl
    · refine (erases_otlpMalloc _).step fun c m' hc => ?_
      rw [hc]
      cases c <;> rfl

theorem erases_dupArr {α : Type} (size : ℕ) (items : List α) : Erases (dupArr size items) (Api.dupArr size · items) := by
  intro m
  refine (erases_otlpMalloc _).step fun c m' hc => ?_
  show _ = Api.dupArr size m.heap items
  rw [Api.dupArr, hc]
  cases c <;> rfl

end OtlpC.Memory
