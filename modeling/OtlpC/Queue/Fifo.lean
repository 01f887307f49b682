import OtlpC.Lib.BoundedFifo
import OtlpC.Queue.Ring

/-!
# The ring is a bounded FIFO, for every capacity but one

A sequential history of calls on a ring just initialised returns what the same calls return on an
empty `BoundedFifo` of that capacity, exactly when the capacity is at least two (`calls_eq_iff`).
`Holds q f` ties the slots to the list: the `n` queued items are published in the slots of turns
`tail .. tail + n`, and the slots of the turns up to `tail + capacity` carry their own turn.

With capacity 1 the mark `h + 1` of a published slot is the turn `h + 1` of the next push to it, so
the ring is never full: the second push overwrites the first item, and no pop finds its turn again.
-/

namespace OtlpC.Queue

variable {α : Type*} {cap : ℕ}

/-! ### Histories -/

/-- One call; a push comes with the rounds of its loop. -/
inductive Call (α : Type*) where
  | push (item : α) (rounds : List Bool)
  | pop
  | size

/-- What a call returns. -/
inductive Result (α : Type*) where
  | status (st : OtlpStatus)
  | popped (item : Option α)
  | size (n : ℕ)
deriving DecidableEq

def MpscQueue.call (q : MpscQueue α) : Call α → Option (MpscQueue α × Result α)
  | .push item rounds => (mpscQueuePush q item rounds).map fun r => (r.1, .status r.2)
  | .pop => some ((mpscQueuePop q).1, .popped (mpscQueuePop q).2)
  | .size => some (q, .size (mpscQueueSize q))

/-- The results of a history, or `none` when a push has not returned within its rounds. -/
def MpscQueue.calls (q : MpscQueue α) : List (Call α) → Option (List (Result α))
  | [] => some []
  | c :: cs => (q.call c).bind fun r => (r.1.calls cs).map (r.2 :: ·)

/-- The specification: the same call on a bounded FIFO. -/
def fifoCall (f : BoundedFifo α cap) : Call α → BoundedFifo α cap × Result α
  | .push item _ =>
    match f.push item with
    | some g => (g, .status .ok)
    | none => (f, .status .errBufferFull)
  | .pop =>
    match f.pop with
    | some (item, g) => (g, .popped (some item))
    | none => (f, .popped none)
  | .size => (f, .size f.size)

def fifoCalls (f : BoundedFifo α cap) : List (Call α) → List (Result α)
  | [] => []
  | c :: cs => (fifoCall f c).2 :: fifoCalls (fifoCall f c).1 cs

/-- A weak compare-and-swap does not fail forever. -/
def Call.CasSucceeds : Call α → Prop
  | .push _ rounds => true ∈ rounds
  | _ => True

def Call.pushes : Call α → ℕ
  | .push _ _ => 1
  | _ => 0

/-- The number of push calls of a history. -/
def pushes (cs : List (Call α)) : ℕ := (cs.map Call.pushes).sum

/-! ### The simulation -/

/-- The ring `q` holds the queue `f`. -/
structure Holds (q : MpscQueue α) (f : BoundedFifo α cap) : Prop where
  mask : q.mask = cap - 1
  head : q.head = q.tail + f.items.length
  published : ∀ i (h : i < f.items.length),
    q.slots ((q.tail + i) % cap) = ⟨q.tail + i + 1, some f.items[i]⟩
  free : ∀ i, q.head ≤ i → i < q.tail + cap → (q.slots (i % cap)).seq = i

theorem holds_init : Holds (freshRing cap) (BoundedFifo.empty : BoundedFifo α cap) where
  mask := rfl
  head := rfl
  published := fun i h => absurd h (Nat.not_lt_zero i)
  free := fun i _ hi => Nat.mod_eq_of_lt (by simpa [freshRing] using hi)

theorem Holds.tail_le {q : MpscQueue α} {f : BoundedFifo α cap} (h : Holds q f) :
    q.tail ≤ q.head ∧ q.head ≤ q.tail + cap := by
  have := h.head
  have := f.bounded
  omega

theorem pushLoop_free {q : MpscQueue α} {item : α} {rounds : List Bool} (hhead : q.head < 2 ^ 63)
    (hseq : (q.slots (q.head &&& q.mask)).seq = q.head) (hcas : true ∈ rounds) :
    pushLoop q item q.head rounds =
      some ((({ q with head := q.head + 1 } : MpscQueue α).writeData (q.head &&& q.mask) item).storeSeq
        (q.head &&& q.mask) (q.head + 1), .ok) := by
  have hdiff : diff64 (q.slots (q.head &&& q.mask)).seq q.head = 0 := by
    rw [hseq, diff64_eq_zero (by omega) (by omega)]
  induction rounds with
  | nil => simp at hcas
  | cons b rounds ih =>
    rw [pushLoop]
    simp only [hdiff, if_true, beq_self_eq_true, Bool.and_true]
    cases b with
    | true => simp only [if_true, u64_of_lt (show q.head + 1 < 2 ^ 64 by omega)]
    | false =>
      simp only [Bool.false_eq_true, if_false]
      exact ih (by simpa using hcas)

theorem pushLoop_full {q : MpscQueue α} {item : α} {rounds : List Bool} (hhead : q.head < 2 ^ 63)
    (hseq : (q.slots (q.head &&& q.mask)).seq < q.head) (hcas : true ∈ rounds) :
    pushLoop q item q.head rounds = some (q, .errBufferFull) := by
  have hdiff : diff64 (q.slots (q.head &&& q.mask)).seq q.head < 0 := by
    rw [diff64_eq (by omega) (by omega)]
    omega
  cases rounds with
  | nil => simp at hcas
  | cons b rounds =>
    rw [pushLoop]
    simp only [hdiff.ne, hdiff, if_false, if_true]

theorem Holds.append {q : MpscQueue α} {f g : BoundedFifo α cap} {item : α} (h : Holds q f)
    (hlt : f.items.length < cap) (hg : g.items = f.items ++ [item]) :
    Holds ((({ q with head := q.head + 1 } : MpscQueue α).writeData (q.head % cap) item).storeSeq
      (q.head % cap) (q.head + 1)) g where
  mask := h.mask
  head := by simp only [storeSeq_head, writeData_head, storeSeq_tail, writeData_tail, h.head, hg,
    List.length_append, List.length_singleton]; omega
  published := by
    intro i hi
    have hhead := h.head
    simp only [hg, List.length_append, List.length_singleton] at hi
    simp only [storeSeq_slots, writeData_slots, storeSeq_tail, writeData_tail, Function.update_self,
      Function.update_apply, hg]
    by_cases hlast : i = f.items.length
    · subst hlast
      rw [← hhead, if_pos rfl]
      simp
    · have hi' : i < f.items.length := by omega
      have hne : (q.tail + i) % cap ≠ q.head % cap := fun he => by
        have := mod_inj_of_window (a := q.tail) (by omega) (by omega) (by omega) (by omega) he
        omega
      simp only [if_neg hne, h.published i hi', List.getElem_append_left hi']
  free := by
    intro i hlo hhi
    simp only [storeSeq_head, writeData_head, storeSeq_tail, writeData_tail] at hlo hhi
    have hne : i % cap ≠ q.head % cap := fun he => by
      have := h.tail_le
      have := mod_inj_of_window (a := q.tail) (by omega) (by omega) (by omega) (by omega) he
      omega
    simp only [storeSeq_slots, writeData_slots, Function.update_self, Function.update_apply,
      if_neg hne]
    exact h.free i (by omega) hhi

theorem Holds.dropHead {q : MpscQueue α} {f g : BoundedFifo α cap} {item : α} (h : Holds q f)
    (hf : f.items = item :: g.items) :
    Holds ({ q.storeSeq (q.tail % cap) (q.tail + cap) with tail := q.tail + 1 } : MpscQueue α) g where
  mask := h.mask
  head := by simp only [storeSeq_head, h.head, hf, List.length_cons]; omega
  published := by
    intro i hi
    have hbound := f.bounded
    have hi' : i + 1 < f.items.length := by simp [hf, hi]
    have hne : (q.tail + 1 + i) % cap ≠ q.tail % cap := fun he => by
      have := mod_inj_of_window (a := q.tail) (by omega) (by omega) (by omega) (by omega) he
      omega
    have hslot := h.published (i + 1) hi'
    simp only [storeSeq_slots, Function.update_apply, if_neg hne]
    rw [show q.tail + 1 + i = q.tail + (i + 1) by omega, hslot]
    simp [hf]
  free := by
    intro i hlo hhi
    have hhead := h.head
    have hlen := congrArg List.length hf
    simp only [List.length_cons] at hlen
    simp only [storeSeq_head, storeSeq_slots, Function.update_apply] at hlo hhi ⊢
    by_cases hlast : i = q.tail + cap
    · rw [if_pos (by rw [hlast, Nat.add_mod_right])]
      exact hlast.symm
    · have hne : i % cap ≠ q.tail % cap := fun he => by
        have := mod_inj_of_window (a := q.tail) (by omega) (by omega) (by omega) (by omega) he
        omega
      rw [if_neg hne]
      exact h.free i hlo (by omega)

section refinement
variable (hpow : ∃ k, cap = 2 ^ k) (hsize : cap < 2 ^ 60) (htwo : 2 ≤ cap)
include hpow hsize htwo

theorem push_refines {q : MpscQueue α} {f : BoundedFifo α cap} {item : α} {rounds : List Bool}
    (h : Holds q f) (hhead : q.head < 2 ^ 63) (hcas : true ∈ rounds) :
    ∃ q', mpscQueuePush q item rounds = some (q', if f.items.length < cap then .ok else .errBufferFull) ∧
      q'.head ≤ q.head + 1 ∧ Holds q' (fifoCall f (.push item rounds)).1 := by
  have hslot := and_mask hpow h.mask q.head
  have hlen := h.head
  by_cases hlt : f.items.length < cap
  · have hseq : (q.slots (q.head &&& q.mask)).seq = q.head := by
      rw [hslot]; exact h.free q.head le_rfl (by omega)
    rw [mpscQueuePush, pushLoop_free hhead hseq hcas, if_pos hlt]
    refine ⟨_, rfl, le_rfl, ?_⟩
    rw [hslot]
    exact h.append hlt (by simp [fifoCall, BoundedFifo.push_of_lt item hlt])
  · have hfull : f.items.length = cap := le_antisymm f.bounded (not_lt.1 hlt)
    have hpos : 0 < f.items.length := by omega
    have hseq : (q.slots (q.head &&& q.mask)).seq = q.tail + 1 := by
      have hpub := h.published 0 hpos
      rw [hslot, hlen, hfull, Nat.add_mod_right]
      simpa using congrArg MpscSlot.seq hpub
    rw [mpscQueuePush, pushLoop_full hhead (by omega) hcas, if_neg hlt]
    refine ⟨_, rfl, Nat.le_succ _, ?_⟩
    simpa [fifoCall, BoundedFifo.push_eq_none.2 hfull] using h

theorem pop_refines {q : MpscQueue α} {f : BoundedFifo α cap} (h : Holds q f)
    (hhead : q.head < 2 ^ 63) :
    (mpscQueuePop q).2 = f.items.head? ∧ (mpscQueuePop q).1.head = q.head ∧
      Holds (mpscQueuePop q).1 (fifoCall f (.pop : Call α)).1 := by
  have hslot := and_mask hpow h.mask q.tail
  have hlen := h.head
  have hmask := h.mask
  have htail := h.tail_le
  rw [mpscQueuePop]
  simp only [hslot, u64_of_lt (show q.tail + 1 < 2 ^ 64 by omega),
    u64_of_lt (show q.tail + q.mask + 1 < 2 ^ 64 by omega)]
  cases hitems : f.items with
  | nil =>
    have hseq : (q.slots (q.tail % cap)).seq = q.tail := by
      rw [hitems] at hlen
      exact h.free q.tail (by simp [hlen]) (by omega)
    have hdiff : diff64 q.tail (q.tail + 1) ≠ 0 := by
      rw [Ne, diff64_eq_zero (by omega) (by omega)]; omega
    rw [hseq, if_pos hdiff]
    exact ⟨rfl, rfl, by simpa [fifoCall, BoundedFifo.pop_eq_none.2 hitems] using h⟩
  | cons item rest =>
    have hpos : 0 < f.items.length := by simp [hitems]
    have hpub : q.slots (q.tail % cap) = ⟨q.tail + 1, some item⟩ := by
      simpa [hitems] using h.published 0 hpos
    have hdiff : ¬ diff64 (q.slots (q.tail % cap)).seq (q.tail + 1) ≠ 0 := by
      simp only [hpub, not_not, diff64_eq_zero (show q.tail + 1 < 2 ^ 64 by omega)
        (show q.tail + 1 < 2 ^ 64 by omega)]
    rw [if_neg hdiff]
    refine ⟨by simp [hpub], rfl, ?_⟩
    rw [show q.tail + q.mask + 1 = q.tail + cap by omega]
    cases hpop : f.pop with
    | none => rw [BoundedFifo.pop_eq_none.1 hpop] at hitems; contradiction
    | some r =>
      rw [fifoCall, hpop]
      exact h.dropHead (BoundedFifo.pop_eq_some hpop)

/-- One call on the ring is the call on the FIFO it holds. -/
theorem call_refines {q : MpscQueue α} {f : BoundedFifo α cap} {c : Call α} (h : Holds q f)
    (hhead : q.head < 2 ^ 63) (hcas : c.CasSucceeds) :
    ∃ q', q.call c = some (q', (fifoCall f c).2) ∧ q'.head ≤ q.head + c.pushes ∧
      Holds q' (fifoCall f c).1 := by
  cases c with
  | push item rounds =>
    obtain ⟨q', hq', hle, hholds⟩ := push_refines hpow hsize htwo h hhead hcas
    refine ⟨q', ?_, hle, hholds⟩
    simp only [MpscQueue.call, hq', Option.map_some, fifoCall, BoundedFifo.push]
    split <;> rfl
  | pop =>
    obtain ⟨hres, hle, hholds⟩ := pop_refines hpow hsize htwo h hhead
    refine ⟨_, ?_, hle.le, hholds⟩
    rw [MpscQueue.call, hres, fifoCall]
    cases hpop : f.pop with
    | none => simp [BoundedFifo.pop_eq_none.1 hpop]
    | some r => simp [BoundedFifo.pop_eq_some hpop]
  | size =>
    refine ⟨q, ?_, le_rfl, h⟩
    have := h.head
    simp only [MpscQueue.call, mpscQueueSize, if_pos h.tail_le.1, fifoCall, BoundedFifo.size]
    rw [show q.head - q.tail = f.items.length by omega]

theorem calls_refine {cs : List (Call α)} {q : MpscQueue α} {f : BoundedFifo α cap} (h : Holds q f)
    (hhead : q.head + pushes cs < 2 ^ 63) (hcas : ∀ c ∈ cs, c.CasSucceeds) :
    q.calls cs = some (fifoCalls f cs) := by
  induction cs generalizing q f with
  | nil => rfl
  | cons c cs ih =>
    simp only [pushes, List.map_cons, List.sum_cons] at hhead
    obtain ⟨q', hq', hle, hholds⟩ :=
      call_refines hpow hsize htwo h (c := c) (by omega) (hcas c (by simp))
    have hrest := ih hholds (by simp only [pushes]; omega) fun d hd => hcas d (by simp [hd])
    simp only [MpscQueue.calls, hq', Option.bind_some, hrest, Option.map_some, fifoCalls]

end refinement

/-- With capacity 1 the second of two pushes to an empty ring is accepted. -/
theorem calls_capacity_one (item : α) :
    (freshRing 1 : MpscQueue α).calls [.push item [true], .push item [true]] =
      some [.status .ok, .status .ok] := by
  simp [freshRing, MpscQueue.calls, MpscQueue.call, mpscQueuePush, pushLoop, diff64, u64, MpscQueue.writeData,
    MpscQueue.storeSeq]

/-- **The ring is a bounded FIFO of its capacity exactly when that is not 1**: for every capacity
`mpsc_queue_init` accepts, all results of all histories of fewer than `2 ^ 63` pushes agree. -/
theorem calls_eq_iff [Nonempty α] {capacity : ℕ} {callocOk : Bool} {q : MpscQueue α}
    (hinit : mpscQueueInit capacity callocOk = .ok q) :
    (∀ cs : List (Call α), (∀ c ∈ cs, c.CasSucceeds) → pushes cs < 2 ^ 63 →
      q.calls cs = some (fifoCalls (BoundedFifo.empty : BoundedFifo α capacity) cs)) ↔
      capacity ≠ 1 := by
  obtain ⟨hpow, hsize, rfl⟩ := mpscQueueInit_eq_ok hinit
  constructor
  · rintro hall rfl
    obtain ⟨item⟩ := ‹Nonempty α›
    have h := hall [.push item [true], .push item [true]] (by simp [Call.CasSucceeds])
      (by simp [pushes, Call.pushes])
    rw [calls_capacity_one] at h
    simp [fifoCalls, fifoCall, BoundedFifo.push, BoundedFifo.empty] at h
  · intro hne cs hcas hpushes
    have hpos : 0 < capacity := by
      obtain ⟨k, rfl⟩ := hpow
      exact Nat.two_pow_pos k
    exact calls_refine hpow hsize (by omega) holds_init (by simpa [freshRing] using hpushes) hcas

/-- A witness: a ring of four slots. -/
theorem calls_eq_iff_four : ∃ q : MpscQueue ℕ, mpscQueueInit 4 true = .ok q ∧
    q.calls [.push 7 [false, true], .pop, .pop] = some [.status .ok, .popped (some 7), .popped none] :=
  ⟨_, rfl, (calls_eq_iff (show (mpscQueueInit 4 true : Except _ (MpscQueue ℕ)) = .ok (freshRing 4) from rfl)).2
    (by decide) [.push 7 [false, true], .pop, .pop] (by simp [Call.CasSucceeds]) (by decide)⟩

/-- An exporter created with `queue_capacity = 1` pushes three items to a ring that then pops
nothing, where a FIFO refuses the last two and returns the first. -/
theorem capacity_one_not_fifo : ∃ q : MpscQueue ℕ, mpscQueueInit (roundUpPow2 1) true = .ok q ∧
    q.calls [.push 7 [true], .push 8 [true], .push 9 [true], .pop, .size] =
      some [.status .ok, .status .ok, .status .ok, .popped none, .size 3] ∧
    fifoCalls (BoundedFifo.empty : BoundedFifo ℕ 1)
      [.push 7 [true], .push 8 [true], .push 9 [true], .pop, .size] =
      [.status .ok, .status .errBufferFull, .status .errBufferFull, .popped (some 7), .size 0] :=
  ⟨_, rfl, by decide, by decide⟩

end OtlpC.Queue
