import OtlpC.Lib.ClaimQueue
import OtlpC.Queue.Safety

/-!
# The shared ring is a queue of claimed places

The ring refines `ClaimQueue` under every interleaving. A producer claims its place by its compare-and-swap on
`head` and publishes it by its store to the slot; the consumer takes the front by its store to the slot; a call
returns `OTLP_ERR_BUFFER_FULL` or `NULL` on what it loads from a slot. `performed` reads these operations off a run.

So a push is refused only while every place is taken, and a pop returns `NULL` only while the front place is
claimed and not published, or there is none: a producer that stalls between its two steps holds back what others
have pushed behind it.
-/

namespace OtlpC.Queue

open Steps

variable {P α : Type*} [DecidableEq P] {cap : ℕ}

/-! ### What the accesses carry out -/

/-- What the next access of producer `p` does to the queue. -/
def produceOp (s : Shared P α) (p : P) (casMaySucceed : Bool) : Option (ClaimQueue.Op P α) :=
  match s.prod p with
  | .loadSeq item h =>
    if diff64 (s.q.slots (h &&& s.q.mask)).seq h < 0 then some (.refuse p item) else none
  | .cas item h => if casMaySucceed && s.q.head == h then some (.claim p item) else none
  | .storeSeq _ _ => some (.publish p)
  | _ => none

def consumeOp (s : Shared P α) : Option (ClaimQueue.Op P α) :=
  match s.cons with
  | .loadSeq t =>
    if diff64 (s.q.slots (t &&& s.q.mask)).seq (u64 (t + 1)) ≠ 0 then some .nothing else none
  | .storeSeq _ data => data.map .take
  | _ => none

def opOf (s : Shared P α) : Act P α → Option (ClaimQueue.Op P α)
  | .produce p casMaySucceed => produceOp s p casMaySucceed
  | .consume => consumeOp s
  | _ => none

/-! ### The queue in the ring -/

/-- The place of turn `i`: published when the slot carries the next turn. -/
def Shared.place (cap : ℕ) (s : Shared P α) (i : ℕ) (c : P × α) : Place P α :=
  ⟨c.1, c.2, (s.q.slots (i % cap)).seq == i + 1⟩

/-- The places of the queue are the claims that are not released. -/
def Represents (s : Shared P α) (q : ClaimQueue P α cap) : Prop :=
  ∀ i, q.places[i]? = s.claims[s.released + i]?.map (s.place cap (s.released + i))

variable {s t : Shared P α} {q : ClaimQueue P α cap}

omit [DecidableEq P] in
theorem represents_init : Represents (Shared.init (freshRing cap) : Shared P α) (.empty : ClaimQueue P α cap) :=
  fun _ => rfl

omit [DecidableEq P] in
theorem Represents.length (hrep : Represents s q) (hinv : s.released ≤ s.claims.length) :
    q.places.length = s.claims.length - s.released := by
  refine le_antisymm ?_ ?_
  · by_contra hlt
    have hlast := hrep (s.claims.length - s.released)
    rw [List.getElem?_eq_getElem (by omega), List.getElem?_eq_none_iff.2 (by omega)] at hlast
    cases hlast
  · by_contra hlt
    have hlast := hrep q.places.length
    rw [List.getElem?_eq_none_iff.2 le_rfl, List.getElem?_eq_getElem (by omega)] at hlast
    cases hlast

omit [DecidableEq P] in
theorem Represents.mem (hrep : Represents s q) {c : Place P α} (hc : c ∈ q.places) :
    ∃ i d, s.released ≤ i ∧ s.claims[i]? = some d ∧ c = s.place cap i d := by
  obtain ⟨i, hi⟩ := List.mem_iff_getElem?.1 hc
  rw [hrep i, Option.map_eq_some_iff] at hi
  obtain ⟨d, hd, rfl⟩ := hi
  exact ⟨s.released + i, d, Nat.le_add_right _ _, hd, rfl⟩

omit [DecidableEq P] in
theorem Represents.of_eq (hrep : Represents s q) (hclaims : t.claims = s.claims) (hreleased : t.released = s.released)
    (hseq : ∀ i, (t.q.slots i).seq = (s.q.slots i).seq) : Represents t q := by
  intro i
  rw [hrep i, hclaims, hreleased]
  exact congrArg (Option.map · _) (funext fun c => by simp only [Shared.place, hseq])

theorem Inv.owner_of_unpublished (h : Inv cap s) {i : ℕ} {d : P × α} (hr : s.released ≤ i)
    (hd : s.claims[i]? = some d) (hunpub : (s.place cap i d).published = false) :
    s.prod d.1 = .writeData d.2 i ∨ s.prod d.1 = .storeSeq d.2 i := by
  refine (h.claimed i d hd hr).resolve_left fun hpub => ?_
  simp [Shared.place, hpub] at hunpub

theorem Represents.settled (h : Inv cap s) (hrep : Represents s q) {p : P}
    (hpc : ∀ item i, s.prod p ≠ .writeData item i ∧ s.prod p ≠ .storeSeq item i) : q.Settled p := by
  rintro c hc rfl
  obtain ⟨i, d, hr, hd, rfl⟩ := hrep.mem hc
  by_contra hunpub
  rcases h.owner_of_unpublished hr hd (by simpa using hunpub) with hw | hw
  · exact (hpc _ _).1 hw
  · exact (hpc _ _).2 hw

/-! ### The operations -/

theorem Represents.claim (h : Inv cap s) (hrep : Represents s q) {p : P} {item : α}
    (hpc : s.prod p = .cas item s.q.head) (hclaims : t.claims = s.claims ++ [(p, item)])
    (hreleased : t.released = s.released) (hseq : ∀ i, (t.q.slots i).seq = (s.q.slots i).seq) :
    ∃ q' : ClaimQueue P α cap, ClaimQueue.Step q (.claim p item) q' ∧ Represents t q' := by
  have hprod := h.prod p
  rw [hpc] at hprod
  have hfits : s.q.head < s.released + cap := hprod.2 rfl
  have hwin := h.window
  have hlen := h.head
  have hplaces := hrep.length (by omega)
  have hroom : q.places.length < cap := by omega
  have hfree := h.free s.q.head le_rfl hfits
  refine ⟨q.claim p item hroom, .claim q p item hroom (hrep.settled h (by simp [hpc])), fun i => ?_⟩
  rw [hclaims, hreleased]
  change (q.places ++ [⟨p, item, false⟩])[i]? = _
  rcases lt_trichotomy i q.places.length with hlt | rfl | hgt
  · rw [List.getElem?_append_left hlt, List.getElem?_append_left (by omega), hrep i]
    exact congrArg (Option.map · _) (funext fun c => by simp only [Shared.place, hseq])
  · have hlast : s.released + q.places.length = s.claims.length := by omega
    rw [hlast, List.getElem?_concat_length, List.getElem?_concat_length, Option.map_some, ← hlen]
    simp [Shared.place, hseq, hfree]
  · rw [List.getElem?_eq_none_iff.2 (by rw [List.length_append]; exact hgt),
      List.getElem?_eq_none_iff.2 (by rw [List.length_append, List.length_singleton]; omega), Option.map_none]

theorem Represents.publish (h : Inv cap s) (hrep : Represents s q) {p : P} {item : α} {j : ℕ}
    (hpc : s.prod p = .storeSeq item j) (hclaims : t.claims = s.claims) (hreleased : t.released = s.released)
    (hseq : ∀ i, (t.q.slots i).seq = if i = j % cap then j + 1 else (s.q.slots i).seq) :
    ClaimQueue.Step q (.publish p) (q.publish p) ∧ Represents t (q.publish p) := by
  have hprod := h.prod p
  rw [hpc] at hprod
  obtain ⟨hr, hclaim, hslot⟩ := hprod
  have hwin := h.window
  have hlt := claims_lt h hclaim
  refine ⟨.publish q p fun hsettled => ?_, fun i => ?_⟩
  · have hmem : s.place cap j (p, item) ∈ q.places := by
      refine List.mem_iff_getElem?.2 ⟨j - s.released, ?_⟩
      rw [hrep, show s.released + (j - s.released) = j by omega, hclaim, Option.map_some]
    simpa [Shared.place, hslot] using hsettled _ hmem rfl
  · rw [hclaims, hreleased]
    change (q.places.map (ClaimQueue.publishPlace p))[i]? = _
    rw [List.getElem?_map, hrep i, Option.map_map]
    cases hd : s.claims[s.released + i]? with
    | none => rfl
    | some d =>
      rw [Option.map_some, Option.map_some, Option.some.injEq, Function.comp_apply]
      have hi := claims_lt h hd
      rcases eq_or_ne (s.released + i) j with rfl | hne
      · obtain rfl : d = (p, item) := Option.some.inj (hd.symm.trans hclaim)
        simp [ClaimQueue.publishPlace, Shared.place, hseq]
      · have hother : (s.released + i) % cap ≠ j % cap := slot_ne (by omega) (by omega) hr (by omega) hne
        by_cases howner : d.1 = p
        · -- the producer is at its store for turn `j`, so its other places are published
          have hpub : (s.place cap (s.released + i) d).published = true := by
            by_contra hno
            rcases h.owner_of_unpublished (by omega) hd (by simpa using hno) with hw | hw
            · rw [howner, hpc] at hw
              cases hw
            · rw [howner, hpc] at hw
              exact hne (PushPc.storeSeq.inj hw).2.symm
          simp only [Shared.place] at hpub
          simp [ClaimQueue.publishPlace, Shared.place, hseq, howner, hother, hpub]
        · simp [ClaimQueue.publishPlace, Shared.place, hseq, howner, hother]

theorem Represents.take (h : Inv cap s) (hrep : Represents s q) {j : ℕ} {data : Option α}
    (hpc : s.cons = .storeSeq j data) (hclaims : t.claims = s.claims) (hreleased : t.released = s.released + 1)
    (hseq : ∀ i, (t.q.slots i).seq = if i = j % cap then j + cap else (s.q.slots i).seq) :
    ∃ item, data = some item ∧ ClaimQueue.Step q (.take item) q.drop ∧ Represents t q.drop := by
  have hcons := h.cons
  rw [hpc] at hcons
  obtain ⟨rfl, c, hget, hslot, rfl⟩ := hcons
  have hwin := h.window
  have hrel : s.released = s.q.tail := by simp only [Shared.released, hpc]
  have hfront : q.places[0]? = some ⟨c.1, c.2, true⟩ := by
    rw [hrep 0, hrel, Nat.add_zero, hget, Option.map_some]
    simp [Shared.place, hslot]
  refine ⟨c.2, rfl, .take q c.1 c.2 (by rw [List.head?_eq_getElem?, hfront]), fun i => ?_⟩
  change q.places.tail[i]? = _
  rw [List.getElem?_tail, hrep (i + 1), hclaims, hreleased, Nat.add_right_comm, Nat.add_assoc]
  cases hd : s.claims[s.released + (i + 1)]? with
  | none => rfl
  | some d =>
    have hi := claims_lt h hd
    have hother : (s.released + (i + 1)) % cap ≠ s.q.tail % cap :=
      slot_ne (by omega) (by omega) hrel.le (by omega) (by omega)
    simp [Shared.place, hseq, hother]

section verdicts
variable (hpow : ∃ k, cap = 2 ^ k) (hsize : cap < 2 ^ 60) (htwo : 2 ≤ cap)

/-- The slot of a turn that is no more than `head` shows an earlier turn only when the window is full: a turn
that has left the window since it was read shows a later one. -/
theorem Inv.full_of_seq_lt (h : Inv cap s) (htwo : 2 ≤ cap) {i : ℕ} (hle : i ≤ s.q.head)
    (hlt : (s.q.slots (i % cap)).seq < i) : s.q.head = s.released + cap := by
  have hwin := h.window
  obtain ⟨j, hlo, hhi, hj⟩ := exists_window_turn (show 0 < cap by omega) s.released i
  have hge : j ≤ (s.q.slots (i % cap)).seq := by
    rw [← hj]
    rcases Nat.lt_or_ge j s.q.head with hclaimed | hfree
    · rcases h.claimed_seq hlo hclaimed with he | he <;> omega
    · exact (h.free j hfree hhi).ge
  by_contra hroom
  -- then the turn itself is in the window, and `j` is it
  have hji : j = i := mod_inj_of_window hlo hhi (show s.released ≤ i by omega) (by omega) hj
  omega

include hpow htwo in
theorem Represents.refuse (h : Inv cap s) (hrep : Represents s q) (hbound : s.q.head + cap < 2 ^ 63) {p : P}
    {item : α} {i : ℕ} (hpc : s.prod p = .loadSeq item i)
    (hdiff : diff64 (s.q.slots (i &&& s.q.mask)).seq i < 0) : q.places.length = cap := by
  have hprod := h.prod p
  rw [hpc] at hprod
  have hle : i ≤ s.q.head := hprod
  have hseq := h.seq_le (by omega) i
  have hlen := h.head
  have hwin := h.window
  rw [and_mask hpow h.mask, diff64_eq (by omega) (by omega)] at hdiff
  have hfull := h.full_of_seq_lt htwo hle (by omega)
  rw [hrep.length (by omega)]
  omega

include hpow hsize in
theorem Represents.nothing (h : Inv cap s) (hrep : Represents s q) (hhead : s.q.head < 2 ^ 63) {i : ℕ}
    (hpc : s.cons = .loadSeq i) (hdiff : diff64 (s.q.slots (i &&& s.q.mask)).seq (u64 (i + 1)) ≠ 0) :
    ∀ c, q.places.head? = some c → c.published = false := by
  have hcons := h.cons
  rw [hpc] at hcons
  obtain rfl : i = s.q.tail := hcons
  have hrel : s.released = s.q.tail := by simp only [Shared.released, hpc]
  have hcap : 0 < cap := by
    obtain ⟨k, rfl⟩ := hpow
    exact Nat.two_pow_pos k
  have hseq := h.seq_le hcap s.q.tail
  have hwin := h.window
  rw [and_mask hpow h.mask, u64_of_lt (by omega), Ne, diff64_eq_zero (by omega) (by omega)] at hdiff
  intro c hc
  rw [List.head?_eq_getElem?, hrep 0, Option.map_eq_some_iff] at hc
  obtain ⟨d, -, rfl⟩ := hc
  simpa [Shared.place, hrel] using hdiff

end verdicts

/-! ### The simulation -/

section simulation
variable (hpow : ∃ k, cap = 2 ^ k) (hsize : cap < 2 ^ 60) (htwo : 2 ≤ cap)
include hpow hsize htwo

theorem represents_produce (h : Inv cap s) (hrep : Represents s q) (hbound : s.q.head + cap < 2 ^ 63) {p : P}
    {b : Bool} (hstep : produceStep s p b = some t) :
    ∃ q', Path ClaimQueue.Step q (produceOp s p b).toList q' ∧ Represents t q' := by
  cases hpc : s.prod p with
  | idle => simp [produceStep, hpc] at hstep
  | loadHead item =>
    simp only [produceStep, hpc, Option.some.injEq] at hstep
    subst hstep
    simp only [produceOp, hpc]
    exact ⟨q, .nil q, hrep.of_eq rfl rfl fun _ => rfl⟩
  | loadSeq item i =>
    simp only [produceStep, hpc] at hstep
    simp only [produceOp, hpc]
    split at hstep
    · next hzero =>
      cases hstep
      rw [if_neg (by omega)]
      exact ⟨q, .nil q, hrep.of_eq rfl rfl fun _ => rfl⟩
    · split at hstep
      · next hneg =>
        cases hstep
        rw [if_pos hneg]
        exact ⟨q, .single (.refuse q p item (hrep.refuse hpow htwo h hbound hpc hneg)),
          hrep.of_eq rfl rfl fun _ => rfl⟩
      · next hneg =>
        cases hstep
        rw [if_neg hneg]
        exact ⟨q, .nil q, hrep.of_eq rfl rfl fun _ => rfl⟩
  | cas item i =>
    simp only [produceStep, hpc] at hstep
    simp only [produceOp, hpc]
    split at hstep
    · next hwin =>
      rw [if_pos hwin]
      simp only [Bool.and_eq_true, beq_iff_eq] at hwin
      obtain ⟨-, rfl⟩ := hwin
      cases hstep
      obtain ⟨q', hclaim, hrep'⟩ := hrep.claim h (t := ({ s with
        q := { s.q with head := u64 (s.q.head + 1) }, claims := s.claims ++ [(p, item)] } :
          Shared P α).setProd p (.writeData item s.q.head)) hpc rfl rfl fun _ => rfl
      exact ⟨q', .single hclaim, hrep'⟩
    · next hlost =>
      cases hstep
      rw [if_neg hlost]
      exact ⟨q, .nil q, hrep.of_eq rfl rfl fun _ => rfl⟩
  | writeData item i =>
    simp only [produceStep, hpc, Option.some.injEq] at hstep
    subst hstep
    simp only [produceOp, hpc]
    refine ⟨q, .nil q, hrep.of_eq rfl rfl fun j => ?_⟩
    simp only [setProd_q, MpscQueue.writeData, Function.update_apply]
    split <;> simp_all
  | storeSeq item i =>
    have hlt := claims_lt h (h.prod p |> fun hp => by rw [hpc] at hp; exact hp.2.1)
    simp only [produceStep, hpc, and_mask hpow h.mask, u64_of_lt (show i + 1 < 2 ^ 64 by omega),
      Option.some.injEq] at hstep
    subst hstep
    simp only [produceOp, hpc]
    obtain ⟨hpublish, hrep'⟩ := hrep.publish h (t := ({ s with q := s.q.storeSeq (i % cap) (i + 1) } :
      Shared P α).setProd p .idle) hpc rfl rfl fun j => by
        simp only [setProd_q, MpscQueue.storeSeq, Function.update_apply]
        split <;> rfl
    exact ⟨_, .single hpublish, hrep'⟩

theorem represents_consume (h : Inv cap s) (hrep : Represents s q) (hbound : s.q.head + cap < 2 ^ 63)
    (hstep : consumeStep s = some t) :
    ∃ q', Path ClaimQueue.Step q (consumeOp s).toList q' ∧ Represents t q' := by
  have hwin := h.window
  have htail := h.tail_le
  cases hpc : s.cons with
  | idle => simp [consumeStep, hpc] at hstep
  | loadTail =>
    simp only [consumeStep, hpc, Option.some.injEq] at hstep
    subst hstep
    simp only [consumeOp, hpc]
    exact ⟨q, .nil q, hrep.of_eq rfl (by simp only [Shared.released, hpc]) fun _ => rfl⟩
  | loadSeq i =>
    simp only [consumeStep, hpc] at hstep
    simp only [consumeOp, hpc]
    split at hstep
    · next hdiff =>
      cases hstep
      rw [if_pos hdiff]
      exact ⟨q, .single (.nothing q (hrep.nothing hpow hsize h (by omega) hpc hdiff)),
        hrep.of_eq rfl (by simp only [Shared.released, hpc]) fun _ => rfl⟩
    · next hdiff =>
      cases hstep
      rw [if_neg hdiff]
      exact ⟨q, .nil q, hrep.of_eq rfl (by simp only [Shared.released, hpc]) fun _ => rfl⟩
  | readData i =>
    simp only [consumeStep, hpc, Option.some.injEq] at hstep
    subst hstep
    simp only [consumeOp, hpc]
    exact ⟨q, .nil q, hrep.of_eq rfl (by simp only [Shared.released, hpc]) fun _ => rfl⟩
  | storeSeq i data =>
    have hcons := h.cons
    rw [hpc] at hcons
    obtain rfl : i = s.q.tail := hcons.1
    have hmask := h.mask
    simp only [consumeStep, hpc, and_mask hpow h.mask, u64_of_lt (show s.q.tail + s.q.mask + 1 < 2 ^ 64 by omega),
      Option.some.injEq] at hstep
    subst hstep
    simp only [consumeOp, hpc]
    obtain ⟨item, rfl, htake, hrep'⟩ := hrep.take h (t := { s with
      q := s.q.storeSeq (s.q.tail % cap) (s.q.tail + s.q.mask + 1), cons := .storeTail s.q.tail data }) hpc rfl
      (by simp only [Shared.released, hpc]) fun j => by
        simp only [MpscQueue.storeSeq, Function.update_apply, show s.q.tail + s.q.mask + 1 = s.q.tail + cap by omega]
        split <;> rfl
    exact ⟨_, .single htake, hrep'⟩
  | storeTail i data =>
    have hcons := h.cons
    rw [hpc] at hcons
    obtain rfl : i = s.q.tail := hcons.1
    simp only [consumeStep, hpc, u64_of_lt (show s.q.tail + 1 < 2 ^ 64 by omega), Option.some.injEq] at hstep
    subst hstep
    simp only [consumeOp, hpc]
    exact ⟨q, .nil q, hrep.of_eq rfl (by simp only [Shared.released, hpc]) fun _ => rfl⟩

/-- **Every step of every thread carries out its operation.** -/
theorem represents_step (h : Inv cap s) (hrep : Represents s q) (hbound : s.calls.length + cap < 2 ^ 63)
    {a : Act P α} (hstep : step s a = some t) :
    ∃ q', Path ClaimQueue.Step q (opOf s a).toList q' ∧ Represents t q' := by
  have hhead : s.q.head + cap < 2 ^ 63 := by
    have := h.claims_le
    have := h.head
    omega
  cases a with
  | push p item =>
    simp only [step] at hstep
    split at hstep
    · cases hstep
      exact ⟨q, .nil q, hrep.of_eq rfl rfl fun _ => rfl⟩
    · contradiction
  | produce p b => exact represents_produce hpow hsize htwo h hrep hhead hstep
  | pop =>
    simp only [step] at hstep
    split at hstep
    · next hpc =>
      cases hstep
      exact ⟨q, .nil q, hrep.of_eq rfl (by simp only [Shared.released, hpc]) fun _ => rfl⟩
    · contradiction
  | consume => exact represents_consume hpow hsize htwo h hrep hhead hstep

end simulation

theorem along_calls {n : ℕ} {acts : List (Act P α)} (hrun : run step s acts = some t)
    (hcalls : t.calls.length + cap < n) : Along step (fun u _ => u.calls.length + cap < n) s acts := by
  induction acts generalizing s with
  | nil => trivial
  | cons a acts ih =>
    obtain ⟨u, hu, hrun⟩ := run_cons_eq_some.1 hrun
    have hle : u.calls.length ≤ t.calls.length :=
      run_invariant (P := fun v : Shared P α => u.calls.length ≤ v.calls.length)
        (fun _ _ _ hv hstep => hv.trans (calls_le_of_step hstep)) le_rfl hrun
    have hle' := calls_le_of_step hu
    exact .cons hu (by omega) (ih hrun)

/-- What a run that carried out `ops` has made of the queue. -/
structure RingRefines (cap : ℕ) (s : Shared P α) (ops : List (ClaimQueue.Op P α)) (q : ClaimQueue P α cap) : Prop where
  path : Path ClaimQueue.Step .empty ops q
  represents : Represents s q
  /-- The items claimed are those taken and those still queued, in one order. -/
  inOrder : ClaimQueue.claimed ops = ClaimQueue.taken ops ++ q.items
  /-- While no producer is between its compare-and-swap and its second store, a producer is refused when the
  bounded FIFO of the items is full, and the consumer finds nothing when it is empty. -/
  fifo : (∀ p item i, s.prod p ≠ .writeData item i ∧ s.prod p ≠ .storeSeq item i) →
    (∀ p item, ClaimQueue.Step q (.refuse p item) q ↔ q.fifo.push item = none) ∧
      (ClaimQueue.Step q .nothing q ↔ q.fifo.pop = none)

/-- **The shared ring refines a queue of claimed places.** For every capacity of two or more slots that
`mpsc_queue_init` accepts and every interleaving of any producers and the consumer, with fewer than
`2 ^ 63 - capacity` push calls, what the accesses carry out is a run of that queue. -/
theorem ringRefines_of_run {capacity : ℕ} {callocOk : Bool} {q₀ : MpscQueue α}
    (hinit : mpscQueueInit capacity callocOk = .ok q₀) (htwo : 2 ≤ capacity) {acts : List (Act P α)}
    (hrun : run step (Shared.init q₀) acts = some s) (hcalls : s.calls.length + capacity < 2 ^ 63) :
    ∃ q, RingRefines capacity s (performed step opOf (Shared.init q₀) acts) q := by
  obtain ⟨hpow, hsize, rfl⟩ := mpscQueueInit_eq_ok hinit
  have hinv : Inv capacity s := inv_run hpow hsize htwo (inv_init capacity) hrun (by omega)
  have hinit : Represents (Shared.init (freshRing capacity) : Shared P α) (ClaimQueue.empty : ClaimQueue P α capacity) :=
    represents_init
  obtain ⟨q, hpath, hrep⟩ := path_of_run (I := Inv capacity)
    (C := fun u _ => u.calls.length + capacity < 2 ^ 63)
    (fun u a v hu hfew hstep => inv_step hpow hsize htwo hu (by omega) hstep)
    (fun u a v q hu hfew hrep hstep => represents_step hpow hsize htwo hu hrep hfew hstep)
    (inv_init capacity) hinit (along_calls hrun hcalls) hrun
  refine ⟨q, hpath, hrep, ?_, fun hquiet => ⟨fun p item => ?_, ?_⟩⟩
  · simpa [ClaimQueue.items, ClaimQueue.empty] using ClaimQueue.items_of_path hpath
  · rw [ClaimQueue.push_fifo_eq_none]
    refine ⟨fun hrefuse => ?_, fun hfull => .refuse q p item hfull⟩
    cases hrefuse with
    | refuse _ _ hfull => exact hfull
  · rw [← ClaimQueue.pop_fifo fun c hc => hrep.settled hinv (hquiet c.owner) c hc rfl]
    refine ⟨fun hnothing => ?_, fun hfront => .nothing q hfront⟩
    cases hnothing with
    | nothing hfront => exact hfront

/-- A witness: the second producer publishes while the first is between its compare-and-swap and its stores, and
the consumer finds nothing. -/
theorem ringRefines_of_run_held_back : ∃ s : Shared Bool ℕ, ∃ q, RingRefines 2 s
    [.claim true 7, .claim false 8, .publish false, .nothing] q := by
  let acts : List (Act Bool ℕ) := [.push true 7, .push false 8, .produce true true, .produce true true,
    .produce true true, .produce false true, .produce false true, .produce false true, .produce false true,
    .produce false true, .pop, .consume, .consume]
  have hrun : ((run step (Shared.init (freshRing 2)) acts).map fun s : Shared Bool ℕ => s.calls.length) = some 2 := by
    rfl
  obtain ⟨s, hs, hlen⟩ := Option.map_eq_some_iff.1 hrun
  have hinit : (mpscQueueInit 2 true : Except _ (MpscQueue ℕ)) = .ok (freshRing 2) := rfl
  obtain ⟨q, hq⟩ := ringRefines_of_run hinit le_rfl hs (by rw [hlen]; decide)
  exact ⟨s, q, hq⟩

end OtlpC.Queue
