import OtlpC.Queue.Refinement

/-!
# Pushes are lock-free

A push goes round its loop again for one of two reasons: another producer has claimed a place since it read
`head`, or the weak compare-and-swap failed for no reason. So the accesses a push makes are bounded by what the
others achieve in the meantime: whoever is held up, somebody else gets on.

The induction is on the run. `PushPc.lag` is how far `head` has moved past what the producer knows of it: a round
is paid for by the lag it takes away, and the lag by the claims of others.
-/

namespace OtlpC.Queue

open Steps

variable {P α : Type*} [DecidableEq P] {cap : ℕ}

def Act.isAccess (p : P) : Act P α → Bool
  | .produce p' _ => p' = p
  | _ => false

def Act.isPush (p : P) : Act P α → Bool
  | .push p' _ => p' = p
  | _ => false

def claimedByOther (p : P) : ClaimQueue.Op P α → Bool
  | .claim p' _ => p' ≠ p
  | _ => false

def spuriousFailure (p : P) (s : Shared P α) : Act P α → Option Unit
  | .produce p' casMaySucceed =>
    match s.prod p' with
    | .cas _ h => if p' = p ∧ casMaySucceed = false ∧ s.q.head = h then some () else none
    | _ => none
  | _ => none

def PushPc.left : PushPc α → ℕ
  | .idle => 0
  | .loadHead _ => 5
  | .loadSeq _ _ => 4
  | .cas _ _ => 3
  | .writeData _ _ => 2
  | .storeSeq _ _ => 1

/-- How far `head` has moved past the value that a producer holds. -/
def PushPc.lag (head : ℕ) : PushPc α → ℕ
  | .loadSeq _ h => head - h
  | .cas _ h => head - h
  | _ => 0

/-- What producer `p` may still take: its own accesses, and two for every time it is held up. -/
def Shared.allowance (s : Shared P α) (p : P) (obstacles : ℕ) : ℕ :=
  2 * (obstacles + (s.prod p).lag s.q.head) + (s.prod p).left

variable {s t : Shared P α}

/-- A slot that shows a later turn than `h` tells that `head` has moved on. -/
theorem Inv.lt_head_of_seq_gt (h : Inv cap s) (hpow : ∃ k, cap = 2 ^ k) (hsize : cap < 2 ^ 60) (htwo : 2 ≤ cap)
    (hhead : s.q.head < 2 ^ 63) {i : ℕ} (hle : i ≤ s.q.head)
    (hdiff : 0 < diff64 (s.q.slots (i &&& s.q.mask)).seq i) : i < s.q.head := by
  by_contra hge
  obtain rfl : i = s.q.head := by omega
  have hwin := h.window
  have hseq := h.seq_le (by omega) s.q.head
  rw [and_mask hpow h.mask] at hdiff
  rcases hwin.2.lt_or_eq with hroom | hfull
  · rw [h.free _ le_rfl hroom, diff64_eq (by omega) (by omega)] at hdiff
    omega
  · -- the window is full, so the slot still shows the turn that it was released for
    have hslot : (s.q.slots (s.q.head % cap)).seq ≤ s.released + 1 := by
      rw [hfull, Nat.add_mod_right]
      rcases h.claimed_seq le_rfl (show s.released < s.q.head by omega) with he | he <;> omega
    rw [diff64_eq (by omega) (by omega)] at hdiff
    omega

section step
variable (hpow : ∃ k, cap = 2 ^ k) (hsize : cap < 2 ^ 60) (htwo : 2 ≤ cap)
include hpow hsize htwo

/-- **One access** of the producer takes one off its allowance. -/
theorem allowance_produce (h : Inv cap s) (hhead : s.q.head < 2 ^ 63) {p : P} {b : Bool}
    (hstep : step s (.produce p b) = some t) (n : ℕ) :
    1 + t.allowance p n ≤ s.allowance p (n + (spuriousFailure p s (.produce p b)).toList.length) := by
  have hprod := h.prod p
  unfold Shared.allowance
  simp only [step] at hstep
  cases hpc : s.prod p with
  | idle => simp [produceStep, hpc] at hstep
  | loadHead item =>
    simp only [produceStep, hpc, Option.some.injEq] at hstep
    subst hstep
    simp only [spuriousFailure, hpc, setProd_prod, setProd_q, Function.update_self, PushPc.lag, PushPc.left,
      Option.toList_none, List.length_nil]
    omega
  | loadSeq item i =>
    rw [hpc] at hprod
    have hle : i ≤ s.q.head := hprod
    simp only [produceStep, hpc] at hstep
    simp only [spuriousFailure, hpc, PushPc.lag, PushPc.left, Option.toList_none, List.length_nil]
    split at hstep
    · cases hstep
      simp only [setProd_prod, setProd_q, Function.update_self]
      omega
    · split at hstep
      · cases hstep
        simp only [setProd_prod, Function.update_self]
        omega
      · next hzero hneg =>
        cases hstep
        have hlt := h.lt_head_of_seq_gt hpow hsize htwo hhead hle (by omega)
        simp only [setProd_prod, Function.update_self]
        omega
  | cas item i =>
    rw [hpc] at hprod
    have hle : i ≤ s.q.head := hprod.1
    simp only [produceStep, hpc] at hstep
    simp only [spuriousFailure, hpc, PushPc.lag, PushPc.left, true_and]
    split at hstep
    · cases hstep
      simp only [setProd_prod, Function.update_self]
      omega
    · next hlost =>
      cases hstep
      simp only [setProd_prod, setProd_q, Function.update_self, Nat.sub_self]
      rcases hle.lt_or_eq with hlt | rfl
      · omega
      · -- nothing has moved: the failure is a spurious one
        have hb : b = false := by simpa using hlost
        rw [if_pos ⟨hb, rfl⟩]
        simp only [Option.toList_some, List.length_singleton]
        omega
  | writeData item i =>
    simp only [produceStep, hpc, Option.some.injEq] at hstep
    subst hstep
    simp only [spuriousFailure, hpc, setProd_prod, Function.update_self, PushPc.lag, PushPc.left,
      Option.toList_none, List.length_nil]
    omega
  | storeSeq item i =>
    simp only [produceStep, hpc, Option.some.injEq] at hstep
    subst hstep
    simp only [spuriousFailure, hpc, setProd_prod, Function.update_self, PushPc.lag, PushPc.left,
      Option.toList_none, List.length_nil]
    omega

end step

theorem allowance_other {p : P} {a : Act P α} (hstep : step s a = some t) (haccess : a.isAccess p = false)
    (hpush : a.isPush p = false) (n : ℕ) (hhead : s.q.head < 2 ^ 63) :
    t.allowance p n ≤ s.allowance p (n + (opOf s a).toList.countP (claimedByOther p)) := by
  suffices hmoved : t.prod p = s.prod p ∧
      t.q.head ≤ s.q.head + (opOf s a).toList.countP (claimedByOther p) by
    obtain ⟨hprod, hhead⟩ := hmoved
    unfold Shared.allowance
    rw [hprod]
    cases s.prod p <;> simp only [PushPc.lag, PushPc.left] <;> omega
  cases a with
  | push p' item =>
    have hne : p ≠ p' := fun he => by simp [Act.isPush, he] at hpush
    simp only [step] at hstep
    split at hstep
    · cases hstep
      exact ⟨Function.update_of_ne hne .., Nat.le_add_right _ _⟩
    · contradiction
  | produce p' b =>
    have hne : p ≠ p' := fun he => by simp [Act.isAccess, he] at haccess
    simp only [step] at hstep
    cases hpc : s.prod p' with
    | idle => simp [produceStep, hpc] at hstep
    | cas item i =>
      simp only [produceStep, hpc] at hstep
      simp only [opOf, produceOp, hpc]
      split at hstep
      · next hwin =>
        cases hstep
        rw [if_pos hwin]
        simp only [Bool.and_eq_true, beq_iff_eq] at hwin
        have hcount : (some (ClaimQueue.Op.claim p' item)).toList.countP (claimedByOther p) = 1 := by
          simp [claimedByOther, hne.symm]
        refine ⟨Function.update_of_ne hne .., ?_⟩
        rw [hcount, setProd_q, u64_of_lt (by omega), hwin.2]
      · cases hstep
        exact ⟨Function.update_of_ne hne .., Nat.le_add_right _ _⟩
    | loadSeq item i =>
      simp only [produceStep, hpc] at hstep
      repeat' split at hstep
      all_goals
        cases hstep
        exact ⟨Function.update_of_ne hne .., Nat.le_add_right _ _⟩
    | loadHead item =>
      simp only [produceStep, hpc, Option.some.injEq] at hstep
      subst hstep
      exact ⟨Function.update_of_ne hne .., Nat.le_add_right _ _⟩
    | writeData item i =>
      simp only [produceStep, hpc, Option.some.injEq] at hstep
      subst hstep
      exact ⟨Function.update_of_ne hne .., Nat.le_add_right _ _⟩
    | storeSeq item i =>
      simp only [produceStep, hpc, Option.some.injEq] at hstep
      subst hstep
      exact ⟨Function.update_of_ne hne .., Nat.le_add_right _ _⟩
  | pop =>
    simp only [step] at hstep
    split at hstep
    · cases hstep
      exact ⟨rfl, Nat.le_add_right _ _⟩
    · contradiction
  | consume =>
    simp only [step, consumeStep] at hstep
    repeat' split at hstep
    all_goals first
      | contradiction
      | cases hstep; exact ⟨rfl, Nat.le_add_right _ _⟩

/-! ### Runs -/

/-- What held up producer `p` in a run: the places others claimed, and its spurious failures. -/
def obstacles (p : P) (s : Shared P α) (acts : List (Act P α)) : ℕ :=
  (performed step opOf s acts).countP (claimedByOther p) + (performed step (spuriousFailure p) s acts).length

theorem obstacles_cons {p : P} {a : Act P α} (acts : List (Act P α)) (hstep : step s a = some t) :
    obstacles p s (a :: acts) = obstacles p t acts + (opOf s a).toList.countP (claimedByOther p) +
      (spuriousFailure p s a).toList.length := by
  rw [obstacles, performed_cons acts hstep, performed_cons acts hstep, List.countP_append, List.length_append,
    obstacles]
  omega

theorem isAccess_iff {p : P} {a : Act P α} : a.isAccess p = true ↔ ∃ b, a = .produce p b := by
  cases a <;> simp [Act.isAccess, eq_comm]

theorem accesses_le (hpow : ∃ k, cap = 2 ^ k) (hsize : cap < 2 ^ 60) (htwo : 2 ≤ cap) (h : Inv cap s) {p : P}
    {acts : List (Act P α)} (hrun : run step s acts = some t) (hcalls : t.calls.length + cap < 2 ^ 63)
    (hpush : ∀ a ∈ acts, a.isPush p = false) :
    acts.countP (Act.isAccess p) ≤ s.allowance p (obstacles p s acts) := by
  induction acts generalizing s with
  | nil => exact Nat.zero_le _
  | cons a acts ih =>
    have hfew := (along_calls hrun hcalls).1
    obtain ⟨u, hu, hrun⟩ := run_cons_eq_some.1 hrun
    have hhead : s.q.head < 2 ^ 63 := by
      have := h.claims_le
      have := h.head
      omega
    have hrest := ih (inv_step hpow hsize htwo h (by omega) hu) hrun fun b hb => hpush b (List.mem_cons_of_mem a hb)
    rw [List.countP_cons, obstacles_cons acts hu]
    by_cases haccess : a.isAccess p = true
    · obtain ⟨b, rfl⟩ := isAccess_iff.1 haccess
      have hpaid := allowance_produce hpow hsize htwo h hhead hu (obstacles p u acts)
      rw [if_pos haccess]
      simp only [Shared.allowance] at hrest hpaid ⊢
      omega
    · rw [Bool.not_eq_true] at haccess
      have hpaid := allowance_other hu haccess (hpush a List.mem_cons_self) (obstacles p u acts) hhead
      simp only [haccess, Bool.false_eq_true, if_false, Nat.add_zero]
      simp only [Shared.allowance] at hrest hpaid ⊢
      omega

/-- **Pushes are lock-free.** In every interleaving with fewer than `2 ^ 63 - capacity` push calls, a push call
makes at most five accesses, and two more for every place that other producers claim while it runs and for every
spurious failure of its compare-and-swap. -/
theorem push_lock_free {capacity : ℕ} {callocOk : Bool} {q₀ : MpscQueue α}
    (hinit : mpscQueueInit capacity callocOk = .ok q₀) (htwo : 2 ≤ capacity) {before acts : List (Act P α)} {p : P}
    {item : α} (hbefore : run step (Shared.init q₀) (before ++ [.push p item]) = some s)
    (hrun : run step s acts = some t) (hcalls : t.calls.length + capacity < 2 ^ 63)
    (hpush : ∀ a ∈ acts, a.isPush p = false) :
    acts.countP (Act.isAccess p) ≤ 5 + 2 * obstacles p s acts := by
  obtain ⟨hpow, hsize, rfl⟩ := mpscQueueInit_eq_ok hinit
  have hfew : s.calls.length ≤ t.calls.length :=
    run_invariant (P := fun v : Shared P α => s.calls.length ≤ v.calls.length)
      (fun _ _ _ hv hstep => hv.trans (calls_le_of_step hstep)) le_rfl hrun
  have hinv : Inv capacity s := inv_run hpow hsize htwo (inv_init capacity) hbefore (by omega)
  have hpc : s.prod p = .loadHead item := by
    rw [run_append, Option.bind_eq_some_iff] at hbefore
    obtain ⟨u, -, hcall⟩ := hbefore
    obtain ⟨v, hstep, hnil⟩ := run_cons_eq_some.1 hcall
    cases hnil
    simp only [step] at hstep
    split at hstep
    · cases hstep
      exact Function.update_self ..
    · contradiction
  have hle := accesses_le hpow hsize htwo hinv hrun hcalls hpush
  simp only [Shared.allowance, hpc, PushPc.lag, PushPc.left] at hle
  omega

/-- A witness: another producer claims the place that a push was after, and the push goes round once more. -/
theorem push_lock_free_one_obstacle : ∃ s t : Shared Bool ℕ, ∃ acts : List (Act Bool ℕ),
    run step (Shared.init (freshRing 2)) [.push false 8, .push true 7] = some s ∧ run step s acts = some t ∧
      obstacles true s acts = 1 ∧ acts.countP (Act.isAccess true) ≤ 5 + 2 * obstacles true s acts := by
  let acts : List (Act Bool ℕ) := [.produce true true, .produce true true, .produce false true,
    .produce false true, .produce false true, .produce true true, .produce true true, .produce true true,
    .produce true true, .produce true true]
  have hruns : ((run step (Shared.init (freshRing 2)) [.push false 8, .push true 7]).bind fun s : Shared Bool ℕ =>
      (run step s acts).map fun t => (obstacles true s acts, t.calls.length)) = some (1, 2) := by rfl
  obtain ⟨s, hbefore, hrest⟩ := Option.bind_eq_some_iff.1 hruns
  obtain ⟨t, hrun, hcounts⟩ := Option.map_eq_some_iff.1 hrest
  obtain ⟨hobstacles, hlen⟩ := Prod.mk.inj hcounts
  have hinit : (mpscQueueInit 2 true : Except _ (MpscQueue ℕ)) = .ok (freshRing 2) := rfl
  have hcall : run step (Shared.init (freshRing 2)) ([.push false 8] ++ [.push true 7]) = some s := hbefore
  exact ⟨s, t, acts, hbefore, hrun, hobstacles,
    push_lock_free hinit le_rfl hcall hrun (by rw [hlen]; decide) (by decide)⟩

end OtlpC.Queue
