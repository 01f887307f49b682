import OtlpC.Lib.Blocks
import OtlpC.Lib.Steps
import OtlpC.Queue.Ring

/-!
# The slab allocator

`slab.c` installed as the process-wide allocator, and `otlp_malloc`, `otlp_calloc`, `otlp_realloc` and
`otlp_free` of `internal_util.c` on top of it. The allocator installed before it and libc's are abstract:
what they answer is an input of the step, and an answer that no correct allocator gives (a block that
overlaps one it has handed out) disables the step.
-/

namespace OtlpC.Slab

open Queue (u64)

/-! ### State -/

/-- Which allocator produced a block, or took it back: a slot of the arena, the previously installed
allocator, or libc's. -/
inductive Origin where
  | slab
  | prev
  | libc
deriving Repr, DecidableEq

/-- `otlp_slab_stats_t` without the two constants and `in_use`, which the slab holds. -/
structure OtlpSlabStats where
  allocCount : ℕ := 0
  slabHits : ℕ := 0
  mallocFallbacks : ℕ := 0
  freeCount : ℕ := 0
  slabFreeHits : ℕ := 0
  mallocFreeFallbacks : ℕ := 0
deriving Repr, DecidableEq

/-- `struct otlp_slab`; `freeStack` is `free_stack[0 .. free_top)`, its top first. -/
structure OtlpSlab where
  slotSize : ℕ
  capacity : ℕ
  arena : ℕ
  used : List Bool
  inUse : ℕ
  freeStack : List ℕ
  stats : OtlpSlabStats
deriving Repr, DecidableEq

/-- A block that a caller holds: the size it asked for, and the size that reached the allocator that
produced it. -/
structure Live where
  addr : ℕ
  size : ℕ
  asked : ℕ
  origin : Origin
deriving Repr, DecidableEq

/-- What an allocator reserves for a request of `n` bytes: `malloc(0)` is an address of its own. -/
def reserved (n : ℕ) : ℕ := max n 1

def Live.block (slotSize : ℕ) (b : Live) : Block :=
  ⟨b.addr, match b.origin with | .slab => slotSize | _ => reserved b.asked⟩

/-- The slab in its process. `own` are the blocks of the previous allocator that the slab is made of,
`handled` the producer and the taker of every block released or resized, `ret` what the last call
returned. -/
structure World where
  slab : OtlpSlab
  own : List Block
  mem : Memory
  live : List Live
  handled : List (Origin × Origin)
  ret : Option ℕ

/-! ### The allocators below -/

structure Given where
  addr : ℕ
  bytes : ℕ → UInt8

/-- The block of `n` bytes is one that a correct allocator may hand out next to `others`. -/
def admits (own : List Block) (slotSize : ℕ) (others : List Live) (addr n : ℕ) : Bool :=
  0 < addr && addr + reserved n < 2 ^ 64 && own.all (fun b => Block.Apart ⟨addr, reserved n⟩ b) &&
    others.all fun b => b.origin == .slab || Block.Apart ⟨addr, reserved n⟩ (b.block slotSize)

/-- A pointer returned to the slab's hooks, and who produced it. -/
structure Chunk where
  addr : ℕ
  origin : Origin

def externAlloc (w : World) (origin : Origin) (n : ℕ) : Option Given → Option (World × Option Chunk)
  | none => some (w, none)
  | some g =>
    if admits w.own w.slab.slotSize w.live g.addr n then
      some ({ w with mem := w.mem.fill ⟨g.addr, reserved n⟩ g.bytes }, some ⟨g.addr, origin⟩)
    else none

/-! ### The hooks -/

def otlpSlabAlloc (w : World) (size : ℕ) (ans : Option Given) : Option (World × Option Chunk) :=
  let s := { w.slab with stats.allocCount := w.slab.stats.allocCount + 1 }
  match if size ≤ s.slotSize then s.freeStack else [] with
  | i :: stack =>
    some ({ w with slab := { s with
        freeStack := stack
        used := s.used.set i true
        inUse := s.inUse + 1
        stats.slabHits := s.stats.slabHits + 1 } }, some ⟨u64 (s.arena + i * s.slotSize), .slab⟩)
  | [] =>
    -- overflow: libc malloc, not the previous allocator
    externAlloc { w with slab := { s with stats.mallocFallbacks := s.stats.mallocFallbacks + 1 } } .libc
      size ans

def slabAllocHook (w : World) (n : ℕ) (ans : Option Given) : Option (World × Option Chunk) :=
  if n ≤ w.slab.slotSize then otlpSlabAlloc w n ans else externAlloc w .prev n ans

def OtlpSlab.inArena (s : OtlpSlab) (p : ℕ) : Bool :=
  s.arena ≤ p && p < u64 (s.arena + u64 (s.slotSize * s.capacity))

def OtlpSlab.slotOf (s : OtlpSlab) (p : ℕ) : Option ℕ :=
  let i := (p - s.arena) / s.slotSize
  if s.inArena p && i < s.capacity && s.used.getD i false then some i else none

/-- The allocator `taker` is given the live block at `p`. -/
def World.handle (w : World) (p : ℕ) (taker : Origin) : World :=
  { w with handled := w.handled ++ ((w.live.find? (·.addr == p)).map fun b => (b.origin, taker)).toList }

def World.drop (w : World) (p : ℕ) : World := { w with live := w.live.filter (·.addr != p) }

def slabFreeHook (w : World) (p : ℕ) : World :=
  match w.slab.slotOf p with
  | some i =>
    (({ w with slab := { w.slab with
      used := w.slab.used.set i false
      inUse := w.slab.inUse - 1
      freeStack := i :: w.slab.freeStack
      stats.freeCount := w.slab.stats.freeCount + 1
      stats.slabFreeHits := w.slab.stats.slabFreeHits + 1 } } : World).handle p .slab).drop p
  | none => (w.handle p .prev).drop p

/-- A request of `size` bytes, which reached the allocator as `asked`, has been answered. -/
def World.hand (w : World) (size asked : ℕ) (c : Option Chunk) : World :=
  { w with
    live := (c.map fun c => { addr := c.addr, size, asked, origin := c.origin }).toList ++ w.live
    ret := c.map Chunk.addr }

/-- The previous allocator's `realloc` of the live block `b`. It knows only blocks of its own. -/
def externRealloc (w : World) (b : Live) (n : ℕ) (ans : Option Given) : Option World :=
  let w := w.handle b.addr .prev
  match ans with
  | none => some { w with ret := none }
  | some g =>
    let rest := w.drop b.addr
    if admits rest.own rest.slab.slotSize rest.live g.addr n then
      let bytes a := if a - g.addr < min b.asked n then w.mem (b.addr + (a - g.addr)) else g.bytes a
      some (({ rest with mem := w.mem.fill ⟨g.addr, reserved n⟩ bytes } : World).hand n n
        (some ⟨g.addr, .prev⟩))
    else none

def slabReallocHook (w : World) (b : Live) (n : ℕ) (ans : Option Given) : Option World :=
  if n = 0 then some { slabFreeHook w b.addr with ret := none }
  else if w.slab.inArena b.addr then
    match slabAllocHook w n ans with
    | none => none
    | some (w, none) => some { w with ret := none }
    | some (w, some c) =>
      let w := w.hand n n (some c)
      let copied := { w with mem := w.mem.copy c.addr b.addr (min w.slab.slotSize n) }
      some (slabFreeHook copied b.addr)
  else externRealloc w b n ans

/-! ### The installed allocator -/

/-- Calls through the installed allocator, and the callers' own writes. -/
inductive Label where
  | malloc (n : ℕ) (ans : Option Given)
  | calloc (count size : ℕ) (ans : Option Given)
  | realloc (p : Option ℕ) (n : ℕ) (ans : Option Given)
  | free (p : Option ℕ)
  | store (a : ℕ) (byte : UInt8)

/-- `otlp_calloc` clears what it was given. -/
def clear (w : World) (total : ℕ) : Option Chunk → World
  | none => w
  | some c => { w with mem := w.mem.fill ⟨c.addr, total⟩ fun _ => 0 }

def step (w : World) : Label → Option World
  | .malloc n ans => (slabAllocHook w n ans).map fun r => r.1.hand n n r.2
  | .calloc count size ans =>
    let total := u64 (count * size)
    (slabAllocHook w total ans).map fun r => (clear r.1 total r.2).hand (count * size) total r.2
  | .realloc none n ans => (slabAllocHook w n ans).map fun r => r.1.hand n n r.2
  | .realloc (some p) n ans => (w.live.find? (·.addr == p)).bind fun b => slabReallocHook w b n ans
  | .free none => some w
  | .free (some p) => (w.live.find? (·.addr == p)).map fun _ => slabFreeHook w p
  | .store a byte =>
    if w.live.any fun b => b.addr ≤ a && a < b.addr + b.size then
      some { w with mem := Function.update w.mem a byte }
    else none

/-! ### Installing -/

def otlpSlabAlign : ℕ := 8

def roundUp (v align : ℕ) : ℕ := u64 (v + align - 1) / align * align

def sizeofSlab : ℕ := 128

/-- What the allocator installed before answers the four requests of `otlp_slab_create`. -/
structure InstallEnv where
  slab : Option Given
  arena : Option Given
  used : Option Given
  freeStack : Option Given
  mem : Memory

def ownBlocks (slotSize capacity : ℕ) (slab arena used freeStack : Given) : List Block :=
  [⟨slab.addr, reserved sizeofSlab⟩, ⟨arena.addr, reserved (u64 (slotSize * capacity))⟩,
    ⟨used.addr, reserved capacity⟩, ⟨freeStack.addr, reserved (u64 (capacity * 8))⟩]

/-- `otlp_install_slab_allocator`, when it returns `OTLP_OK`. -/
def otlpInstallSlabAllocator (slotSize capacity : ℕ) (env : InstallEnv) : Option World :=
  if slotSize = 0 || capacity = 0 then none
  else
    let slotSize := roundUp slotSize otlpSlabAlign
    match env.slab, env.arena, env.used, env.freeStack with
    | some slab, some arena, some used, some freeStack =>
      let own := ownBlocks slotSize capacity slab arena used freeStack
      if own.all (fun b => 0 < b.addr && b.addr + b.size < 2 ^ 64) && decide (own.Pairwise Block.Apart) then
        some {
          slab := {
            slotSize, capacity, arena := arena.addr, used := List.replicate capacity false, inUse := 0,
            freeStack := List.range capacity, stats := {} }
          own, mem := env.mem, live := [], handled := [], ret := none }
      else none
    | _, _, _, _ => none

end OtlpC.Slab
