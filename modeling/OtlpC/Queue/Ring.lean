import Mathlib.Data.Int.ModEq
import Mathlib.Data.Nat.Bitwise
import Mathlib.Logic.Function.Basic
import OtlpC.Status

/-!
# The MPSC ring, called from one thread

`mpsc_queue.c` embedded function by function: `mpscQueueInit`, `mpscQueuePush`, `mpscQueuePop`,
`mpscQueueSize`, and `roundUpPow2`, which `otlp_exporter_create` applies to the configured capacity.
`head`, `tail` and the slots' sequence numbers are `uint64_t`, held as naturals and reduced where the
code computes a new one; a slot's `data` is `none` for `NULL`.

`mpsc_queue_push` loops on a weak compare-and-swap, which may fail although `head` is unchanged. Its
model takes one bit for each round of the loop that says whether the compare-and-swap may succeed in
it, and is `none` when the call has not returned within these rounds.
-/

namespace OtlpC.Queue

structure MpscSlot (α : Type*) where
  seq : ℕ
  data : Option α

/-- `struct mpsc_queue`: `slots` is read and written at indices up to `mask` only. -/
structure MpscQueue (α : Type*) where
  slots : ℕ → MpscSlot α
  mask : ℕ
  head : ℕ
  tail : ℕ

variable {α : Type*}

/-- A `uint64_t` result. -/
def u64 (n : ℕ) : ℕ := n % 2 ^ 64

/-- `(int64_t) seq - (int64_t) h`, which wraps. -/
def diff64 (seq h : ℕ) : ℤ := ((seq : ℤ) - h).bmod (2 ^ 64)

def sizeofSlot : ℕ := 16

def isPow2 (n : ℕ) : Bool := 0 < n && n &&& (n - 1) == 0

/-- The fields `mpsc_queue_init` stores; `otlp_calloc` has set every `data` to `NULL`. -/
def freshRing (capacity : ℕ) : MpscQueue α :=
  { slots := fun i => ⟨i, none⟩, mask := capacity - 1, head := 0, tail := 0 }

def mpscQueueInit (capacity : ℕ) (callocOk : Bool) : Except OtlpStatus (MpscQueue α) :=
  if !isPow2 capacity then .error .errInvalidArgument
  else if sizeMax / sizeofSlot < capacity then .error .errInvalidArgument
  else if !callocOk then .error .errNomem
  else .ok (freshRing capacity)

/-- `slot->data = item`. -/
def MpscQueue.writeData (q : MpscQueue α) (i : ℕ) (item : α) : MpscQueue α :=
  { q with slots := Function.update q.slots i { q.slots i with data := some item } }

/-- `otlp_atomic_store_u64(&slot->seq, seq)`. -/
def MpscQueue.storeSeq (q : MpscQueue α) (i seq : ℕ) : MpscQueue α :=
  { q with slots := Function.update q.slots i { q.slots i with seq := seq } }

/-- The `for (;;)` of `mpsc_queue_push` with the head `h` it last read. -/
def pushLoop (q : MpscQueue α) (item : α) (h : ℕ) : List Bool → Option (MpscQueue α × OtlpStatus)
  | [] => none
  | casMaySucceed :: rounds =>
    let slot := h &&& q.mask
    let diff := diff64 (q.slots slot).seq h
    if diff = 0 then
      if casMaySucceed && q.head == h then
        some ((({ q with head := u64 (h + 1) }).writeData slot item).storeSeq slot (u64 (h + 1)), .ok)
      else pushLoop q item q.head rounds
    else if diff < 0 then some (q, .errBufferFull)
    else pushLoop q item q.head rounds

def mpscQueuePush (q : MpscQueue α) (item : α) (rounds : List Bool) :
    Option (MpscQueue α × OtlpStatus) :=
  pushLoop q item q.head rounds

def mpscQueuePop (q : MpscQueue α) : MpscQueue α × Option α :=
  let t := q.tail
  let slot := t &&& q.mask
  let diff := diff64 (q.slots slot).seq (u64 (t + 1))
  if diff ≠ 0 then (q, none)
  else ({ q.storeSeq slot (u64 (t + q.mask + 1)) with tail := u64 (t + 1) }, (q.slots slot).data)

def mpscQueueSize (q : MpscQueue α) : ℕ := if q.tail ≤ q.head then q.head - q.tail else 0

/-- The `while (r < v)` of `round_up_pow2`; 64 rounds reach `SIZE_MAX / 2`. -/
def roundUpLoop (v : ℕ) : ℕ → ℕ → ℕ
  | 0, r => r
  | fuel + 1, r => if r < v then (if sizeMax / 2 < r then r else roundUpLoop v fuel (r * 2)) else r

def roundUpPow2 (v : ℕ) : ℕ := roundUpLoop v 64 1

/-! ### Small facts about the definitions -/

@[simp] theorem writeData_slots (q : MpscQueue α) (i : ℕ) (item : α) :
    (q.writeData i item).slots = Function.update q.slots i { q.slots i with data := some item } := rfl
@[simp] theorem writeData_mask (q : MpscQueue α) (i : ℕ) (item : α) :
    (q.writeData i item).mask = q.mask := rfl
@[simp] theorem writeData_head (q : MpscQueue α) (i : ℕ) (item : α) :
    (q.writeData i item).head = q.head := rfl
@[simp] theorem writeData_tail (q : MpscQueue α) (i : ℕ) (item : α) :
    (q.writeData i item).tail = q.tail := rfl
@[simp] theorem storeSeq_slots (q : MpscQueue α) (i seq : ℕ) :
    (q.storeSeq i seq).slots = Function.update q.slots i { q.slots i with seq := seq } := rfl
@[simp] theorem storeSeq_mask (q : MpscQueue α) (i seq : ℕ) : (q.storeSeq i seq).mask = q.mask := rfl
@[simp] theorem storeSeq_head (q : MpscQueue α) (i seq : ℕ) : (q.storeSeq i seq).head = q.head := rfl
@[simp] theorem storeSeq_tail (q : MpscQueue α) (i seq : ℕ) : (q.storeSeq i seq).tail = q.tail := rfl

theorem u64_of_lt {n : ℕ} (h : n < 2 ^ 64) : u64 n = n := Nat.mod_eq_of_lt h

theorem diff64_eq {a b : ℕ} (hab : a < b + 2 ^ 63) (hba : b < a + 2 ^ 63) :
    diff64 a b = (a : ℤ) - b := by
  unfold diff64
  apply Int.bmod_eq_of_le <;> omega

theorem diff64_eq_zero {a b : ℕ} (ha : a < 2 ^ 64) (hb : b < 2 ^ 64) : diff64 a b = 0 ↔ a = b := by
  unfold diff64
  rw [← Int.dvd_iff_bmod_eq_zero]
  omega

theorem isPow2_iff {n : ℕ} : isPow2 n = true ↔ ∃ k, n = 2 ^ k := by
  unfold isPow2
  rcases Nat.eq_zero_or_pos n with rfl | hpos
  · simp only [lt_irrefl, decide_false, Bool.false_and, Bool.false_eq_true, false_iff, not_exists]
    intro k
    exact (Nat.two_pow_pos k).ne
  · simp only [hpos, decide_true, Bool.true_and, beq_iff_eq]
    exact Nat.and_sub_one_eq_zero_iff_isPowerOfTwo hpos.ne'

theorem mpscQueueInit_eq_ok {capacity : ℕ} {callocOk : Bool} {q : MpscQueue α}
    (h : mpscQueueInit capacity callocOk = .ok q) :
    (∃ k, capacity = 2 ^ k) ∧ capacity < 2 ^ 60 ∧ q = freshRing capacity := by
  unfold mpscQueueInit at h
  split at h
  · contradiction
  next hpow =>
  split at h
  · contradiction
  next hsize =>
  split at h
  · contradiction
  · simp only [Bool.not_eq_true', Bool.not_eq_false] at hpow
    refine ⟨isPow2_iff.1 hpow, ?_, (Except.ok.inj h).symm⟩
    simp only [sizeMax, sizeofSlot] at hsize
    omega

theorem and_mask {mask cap : ℕ} (hpow : ∃ k, cap = 2 ^ k) (hmask : mask = cap - 1) (h : ℕ) :
    h &&& mask = h % cap := by
  obtain ⟨k, rfl⟩ := hpow
  rw [hmask, Nat.and_two_pow_sub_one_eq_mod]

/-- `round_up_pow2` is the least power of two that is not below its argument, or `2 ^ 63`. -/
theorem roundUpLoop_spec (v fuel k : ℕ) (hfuel : fuel + k = 64) (hk : k ≤ 63) :
    ∃ m, k ≤ m ∧ m ≤ 63 ∧ roundUpLoop v fuel (2 ^ k) = 2 ^ m ∧ (v ≤ 2 ^ m ∨ m = 63) ∧
      (k < m → 2 ^ (m - 1) < v) := by
  induction fuel generalizing k with
  | zero => omega
  | succ fuel ih =>
    rw [roundUpLoop]
    by_cases hlt : 2 ^ k < v
    · rw [if_pos hlt]
      by_cases hbig : sizeMax / 2 < 2 ^ k
      · rw [if_pos hbig]
        have hk63 : 63 ≤ k := by
          by_contra hk'
          have := Nat.pow_le_pow_right (show 0 < 2 by decide) (show k ≤ 62 by omega)
          simp only [sizeMax] at hbig
          omega
        exact ⟨k, le_rfl, hk, rfl, Or.inr (by omega), fun h => absurd h (lt_irrefl k)⟩
      · rw [if_neg hbig, ← pow_succ]
        have hk62 : k ≤ 62 := by
          by_contra hk'
          rw [show k = 63 by omega] at hbig
          exact hbig (by decide)
        obtain ⟨m, hkm, hm, heq, hv, hmin⟩ := ih (k + 1) (by omega) (by omega)
        refine ⟨m, by omega, hm, heq, hv, fun _ => ?_⟩
        by_cases hkm' : k + 1 < m
        · exact hmin hkm'
        · rwa [show m - 1 = k by omega]
    · rw [if_neg hlt]
      exact ⟨k, le_rfl, hk, rfl, Or.inl (not_lt.1 hlt), fun h => absurd h (lt_irrefl k)⟩

theorem roundUpPow2_spec (v : ℕ) :
    ∃ m ≤ 63, roundUpPow2 v = 2 ^ m ∧ (v ≤ 2 ^ m ∨ m = 63) ∧ (0 < m → 2 ^ (m - 1) < v) := by
  obtain ⟨m, _, hm, heq, hv, hmin⟩ := roundUpLoop_spec v 64 0 rfl (by omega)
  exact ⟨m, hm, heq, hv, hmin⟩

/-- The exporter asks for a ring of one slot only when it is configured with one. -/
theorem roundUpPow2_eq_one {v : ℕ} (hv : v ≠ 0) : roundUpPow2 v = 1 ↔ v = 1 := by
  obtain ⟨m, _, heq, hle, hmin⟩ := roundUpPow2_spec v
  rw [heq, Nat.pow_eq_one]
  constructor
  · rintro (h | rfl)
    · omega
    · rcases hle with hle | hle
      · simp only [pow_zero] at hle; omega
      · omega
  · rintro rfl
    right
    by_contra hm
    have := hmin (by omega)
    have := Nat.two_pow_pos (m - 1)
    omega

theorem mod_inj_of_window {cap a i j : ℕ} (hi : a ≤ i) (hi' : i < a + cap) (hj : a ≤ j)
    (hj' : j < a + cap) (h : i % cap = j % cap) : i = j :=
  Nat.ModEq.eq_of_abs_lt h (by rw [abs_lt]; omega)

end OtlpC.Queue
