import Mathlib.Data.List.Perm.Subperm
import OtlpC.Queue.Interleaving

/-!
# Safety of the shared ring under every interleaving

The invariant `Inv cap s` ties the slots to the history. With `r` the turns the consumer has released,
the window `r .. r + cap` covers every slot once: a turn below `head` is claimed, and its slot is either
published with the item its producer pushed, or its producer is still at one of its two stores; a turn
from `head` on is free, and its slot carries that turn. A producer at the compare-and-swap has seen the
turn it wants in its slot, so it wins only while the window still has room.
-/

namespace OtlpC.Queue

variable {P α : Type*} [DecidableEq P] {cap : ℕ}

/-! ### The invariant -/

/-- The turns below are released: the consumer has marked their slots for the next round. -/
def Shared.released (s : Shared P α) : ℕ :=
  match s.cons with
  | .storeTail t _ => t + 1
  | _ => s.q.tail

/-- The push call a producer has not won a turn for yet. -/
def unclaimed (p : P) : PushPc α → List (P × α)
  | .loadHead item => [(p, item)]
  | .loadSeq item _ => [(p, item)]
  | .cas item _ => [(p, item)]
  | _ => []

def ProdOk (cap : ℕ) (s : Shared P α) (p : P) : PushPc α → Prop
  | .loadSeq _ h => h ≤ s.q.head
  | .cas _ h => h ≤ s.q.head ∧ (h = s.q.head → s.q.head < s.released + cap)
  | .writeData item h =>
    s.released ≤ h ∧ s.claims[h]? = some (p, item) ∧ (s.q.slots (h % cap)).seq = h
  | .storeSeq item h =>
    s.released ≤ h ∧ s.claims[h]? = some (p, item) ∧ s.q.slots (h % cap) = ⟨h, some item⟩
  | _ => True

def ConsOk (cap : ℕ) (s : Shared P α) : PopPc α → Prop
  | .loadSeq t => t = s.q.tail
  | .readData t =>
    t = s.q.tail ∧ ∃ c, s.claims[t]? = some c ∧ s.q.slots (t % cap) = ⟨t + 1, some c.2⟩
  | .storeSeq t data =>
    t = s.q.tail ∧ ∃ c, s.claims[t]? = some c ∧ s.q.slots (t % cap) = ⟨t + 1, some c.2⟩ ∧
      data = some c.2
  | .storeTail t data => t = s.q.tail ∧ ∃ c, s.claims[t]? = some c ∧ data = some c.2
  | _ => True

structure Inv (cap : ℕ) (s : Shared P α) : Prop where
  mask : s.q.mask = cap - 1
  head : s.q.head = s.claims.length
  window : s.released ≤ s.q.head ∧ s.q.head ≤ s.released + cap
  free : ∀ i, s.q.head ≤ i → i < s.released + cap → (s.q.slots (i % cap)).seq = i
  claimed : ∀ i c, s.claims[i]? = some c → s.released ≤ i →
    s.q.slots (i % cap) = ⟨i + 1, some c.2⟩ ∨
      s.prod c.1 = .writeData c.2 i ∨ s.prod c.1 = .storeSeq c.2 i
  prod : ∀ p, ProdOk cap s p (s.prod p)
  cons : ConsOk cap s s.cons
  order : ∀ p, (s.claims.filter (·.1 = p) ++ unclaimed p (s.prod p)).Sublist
    (s.calls.filter (·.1 = p))
  returned : s.returned.filterMap id = (s.claims.map Prod.snd).take s.q.tail

theorem inv_init (cap : ℕ) :
    Inv cap (Shared.init (freshRing cap) : Shared P α) where
  mask := rfl
  head := rfl
  window := ⟨le_rfl, Nat.zero_le _⟩
  free := fun i _ hi => Nat.mod_eq_of_lt (by simpa [Shared.init, Shared.released, freshRing] using hi)
  claimed := fun i c h => by simp [Shared.init] at h
  prod := fun _ => trivial
  cons := trivial
  order := fun p => by simp [Shared.init, unclaimed]
  returned := rfl

theorem length_le_of_filter_sublist {l m : List (P × α)}
    (h : ∀ p, (l.filter (·.1 = p)).Sublist (m.filter (·.1 = p))) : l.length ≤ m.length := by
  classical
  refine List.Subperm.length_le (List.subperm_ext_iff.2 fun x _ => ?_)
  have hx := (h x.1).count_le x
  rwa [List.count_filter (by simp), List.count_filter (by simp)] at hx

theorem Inv.claims_le {s : Shared P α} (h : Inv cap s) : s.claims.length ≤ s.calls.length :=
  length_le_of_filter_sublist fun p => (List.sublist_append_left _ _).trans (h.order p)

theorem Inv.tail_le {s : Shared P α} (h : Inv cap s) : s.q.tail ≤ s.released := by
  have hc := h.cons
  unfold Shared.released
  cases hcons : s.cons with
  | storeTail t data =>
    rw [hcons] at hc
    simp only [hc.1]
    exact Nat.le_succ _
  | _ => exact le_rfl

omit [DecidableEq P] in
theorem slot_ne {s : Shared P α} {i j : ℕ} (hi : s.released ≤ i)
    (hi' : i < s.released + cap) (hj : s.released ≤ j) (hj' : j < s.released + cap) (hne : i ≠ j) :
    i % cap ≠ j % cap := fun he => hne (mod_inj_of_window hi hi' hj hj' he)

theorem claims_lt {s : Shared P α} (h : Inv cap s) {i : ℕ} {c : P × α} (hi : s.claims[i]? = some c) :
    i < s.q.head := by
  rw [h.head]
  exact (List.getElem?_eq_some_iff.1 hi).1

/-! ### Steps of the producers -/

theorem Inv.setProd {s : Shared P α} (h : Inv cap s) {p : P} {pc : PushPc α}
    (hold : ∀ item i, s.prod p ≠ .writeData item i ∧ s.prod p ≠ .storeSeq item i)
    (hok : ProdOk cap s p pc) (hcall : (unclaimed p pc).Sublist (unclaimed p (s.prod p))) :
    Inv cap (s.setProd p pc) where
  mask := h.mask
  head := h.head
  window := h.window
  free := h.free
  claimed := by
    intro i c hi hr
    rcases eq_or_ne c.1 p with rfl | hne
    · have hc := hold c.2 i
      exact (h.claimed i c hi hr).imp_right fun hw => (hw.elim hc.1 hc.2).elim
    · simp only [setProd_prod, Function.update_of_ne hne]
      exact h.claimed i c hi hr
  prod := by
    intro p'
    rcases eq_or_ne p' p with rfl | hne
    · simp only [setProd_prod, Function.update_self]
      exact hok
    · simp only [setProd_prod, Function.update_of_ne hne]
      exact h.prod p'
  cons := h.cons
  order := by
    intro p'
    rcases eq_or_ne p' p with rfl | hne
    · simp only [setProd_prod, Function.update_self]
      exact (hcall.append_left _).trans (h.order p')
    · simp only [setProd_prod, Function.update_of_ne hne]
      exact h.order p'
  returned := h.returned

theorem inv_push {s t : Shared P α} {p : P} {item : α} (h : Inv cap s)
    (hstep : step s (.push p item) = some t) : Inv cap t := by
  simp only [step] at hstep
  split at hstep
  · next hpc =>
    rw [Option.some.injEq] at hstep
    subst hstep
    refine { h with claimed := ?_, prod := ?_, order := ?_ }
    · intro i c hi hr
      rcases eq_or_ne c.1 p with rfl | hne
      · exact (h.claimed i c hi hr).imp_right (by simp [hpc])
      · simp only [setProd_prod, Function.update_of_ne hne]
        exact h.claimed i c hi hr
    · intro p'
      rcases eq_or_ne p' p with rfl | hne
      · simp only [setProd_prod, Function.update_self, ProdOk]
      · simp only [setProd_prod, Function.update_of_ne hne]
        exact h.prod p'
    · intro p'
      have ho := h.order p'
      rcases eq_or_ne p' p with rfl | hne
      · rw [hpc] at ho
        simp only [setProd_prod, Function.update_self, setProd_claims, setProd_calls, unclaimed,
          List.filter_append, List.append_nil] at ho ⊢
        simpa using ho.append_right [(p', item)]
      · simp only [setProd_prod, Function.update_of_ne hne, setProd_claims, setProd_calls,
          List.filter_append]
        exact ho.trans (List.sublist_append_left _ _)
  · contradiction

theorem exists_window_turn (hcap : 0 < cap) (r i : ℕ) :
    ∃ j, r ≤ j ∧ j < r + cap ∧ j % cap = i % cap := by
  refine ⟨r + (i + r * (cap - 1)) % cap, Nat.le_add_right _ _,
    Nat.add_lt_add_left (Nat.mod_lt _ hcap) r, ?_⟩
  rw [Nat.add_mod_mod, show r + (i + r * (cap - 1)) = i + r * cap by
    obtain ⟨n, rfl⟩ : ∃ n, cap = n + 1 := ⟨cap - 1, by omega⟩
    rw [Nat.add_sub_cancel, Nat.mul_succ]; omega, Nat.add_mul_mod_self_right]

theorem Inv.claimed_seq {s : Shared P α} (h : Inv cap s) {i : ℕ} (hr : s.released ≤ i)
    (hi : i < s.q.head) :
    (s.q.slots (i % cap)).seq = i ∨ (s.q.slots (i % cap)).seq = i + 1 := by
  have hlen := h.head
  have hc : s.claims[i]? = some s.claims[i] := List.getElem?_eq_getElem (by omega)
  have hprod := h.prod s.claims[i].1
  rcases h.claimed i _ hc hr with hpub | hw | hw
  · exact Or.inr (by rw [hpub])
  · rw [hw] at hprod
    exact Or.inl hprod.2.2
  · rw [hw] at hprod
    exact Or.inl (by rw [hprod.2.2])

theorem Inv.seq_le {s : Shared P α} (h : Inv cap s) (hcap : 0 < cap) (i : ℕ) :
    (s.q.slots (i % cap)).seq ≤ s.q.head + cap := by
  obtain ⟨j, hlo, hhi, hj⟩ := exists_window_turn hcap s.released i
  have hwin := h.window
  rw [← hj]
  rcases Nat.lt_or_ge j s.q.head with hlt | hge
  · rcases h.claimed_seq hlo hlt with he | he <;> omega
  · rw [h.free j hge hhi]
    omega

/-- A slot that shows the turn `head` has room for it: a full window shows the turn before or its
published mark, and these differ from `head` because the ring has two slots. -/
theorem Inv.room {s : Shared P α} (h : Inv cap s) (htwo : 2 ≤ cap)
    (hseq : (s.q.slots (s.q.head % cap)).seq = s.q.head) : s.q.head < s.released + cap := by
  by_contra hfull
  have heq : s.q.head = s.released + cap := le_antisymm h.window.2 (not_lt.1 hfull)
  rw [heq, Nat.add_mod_right] at hseq
  rcases h.claimed_seq le_rfl (show s.released < s.q.head by omega) with he | he <;> omega

theorem getElem?_concat_of_some {β : Type*} {l : List β} {x c : β} {i : ℕ} (h : l[i]? = some c) :
    (l ++ [x])[i]? = some c := by
  rw [List.getElem?_append_left (List.getElem?_eq_some_iff.1 h).1, h]

section produce
variable (hpow : ∃ k, cap = 2 ^ k) (hsize : cap < 2 ^ 60) (htwo : 2 ≤ cap)

include hpow htwo hsize in
theorem inv_loadSeq {s t : Shared P α} {p : P} {b : Bool} {item : α} {i : ℕ} (h : Inv cap s)
    (hhead : s.q.head < 2 ^ 63) (hpc : s.prod p = .loadSeq item i)
    (hstep : produceStep s p b = some t) : Inv cap t := by
  have hprod := h.prod p
  have hseq := h.seq_le (by omega) i
  have hold : ∀ item i, s.prod p ≠ .writeData item i ∧ s.prod p ≠ .storeSeq item i := by simp [hpc]
  rw [hpc] at hprod
  have hle : i ≤ s.q.head := hprod
  simp only [produceStep, hpc, and_mask hpow h.mask] at hstep
  split at hstep
  · next hdiff =>
    rw [Option.some.injEq] at hstep
    subst hstep
    refine h.setProd hold ⟨hprod, ?_⟩ (by simp [hpc, unclaimed])
    rintro rfl
    exact h.room htwo ((diff64_eq_zero (by omega) (by omega)).1 hdiff)
  · split at hstep
    · rw [Option.some.injEq] at hstep
      subst hstep
      exact h.setProd hold trivial (by simp [hpc, unclaimed])
    · rw [Option.some.injEq] at hstep
      subst hstep
      exact h.setProd hold trivial (by simp [hpc, unclaimed])

theorem inv_claim {s : Shared P α} {p : P} {item : α} (h : Inv cap s)
    (hpc : s.prod p = .cas item s.q.head) :
    Inv cap (({ s with
      q := { s.q with head := s.q.head + 1 }, claims := s.claims ++ [(p, item)] } :
        Shared P α).setProd p (.writeData item s.q.head)) := by
  have hprod := h.prod p
  rw [hpc] at hprod
  have hroom : s.q.head < s.released + cap := hprod.2 rfl
  have hlen := h.head
  have hlast : (s.claims ++ [(p, item)])[s.q.head]? = some (p, item) := by
    rw [hlen, List.getElem?_concat_length]
  refine
    { mask := h.mask, head := by simp [hlen], window := ?_, free := ?_, claimed := ?_, prod := ?_,
      cons := ?_, order := ?_, returned := ?_ }
  · exact ⟨Nat.le_succ_of_le h.window.1, hroom⟩
  · intro i hlo hhi
    exact h.free i (Nat.le_of_succ_le hlo) hhi
  · intro i c hi hr
    simp only [setProd_claims] at hi
    rcases Nat.lt_or_ge i s.claims.length with hlt | hge
    · rw [List.getElem?_append_left hlt] at hi
      have hcl := h.claimed i c hi hr
      rcases eq_or_ne c.1 p with rfl | hne
      · exact hcl.imp_right (by simp [hpc])
      · simp only [setProd_prod, Function.update_of_ne hne]
        exact hcl
    · obtain rfl : i = s.q.head := by
        have := (List.getElem?_eq_some_iff.1 hi).1
        simp only [List.length_append, List.length_singleton] at this
        omega
      rw [hlast, Option.some.injEq] at hi
      subst hi
      exact Or.inr (Or.inl (by simp))
  · intro p'
    rcases eq_or_ne p' p with rfl | hne
    · simp only [setProd_prod, Function.update_self]
      exact ⟨h.window.1, hlast, h.free _ le_rfl hroom⟩
    · simp only [setProd_prod, Function.update_of_ne hne]
      have hp' := h.prod p'
      cases hpc' : s.prod p' with
      | loadSeq item' i => rw [hpc'] at hp'; exact Nat.le_succ_of_le hp'
      | cas item' i =>
        rw [hpc'] at hp'
        exact ⟨Nat.le_succ_of_le hp'.1, fun he => by have := hp'.1; simp only [setProd_q] at he; omega⟩
      | writeData item' i =>
        rw [hpc'] at hp'
        exact ⟨hp'.1, getElem?_concat_of_some hp'.2.1, hp'.2.2⟩
      | storeSeq item' i =>
        rw [hpc'] at hp'
        exact ⟨hp'.1, getElem?_concat_of_some hp'.2.1, hp'.2.2⟩
      | _ => trivial
  · have hcons := h.cons
    cases hc : s.cons with
    | loadSeq t => rw [hc] at hcons; simpa [ConsOk, hc] using hcons
    | readData t =>
      rw [hc] at hcons
      obtain ⟨ht, c, hget, hslot⟩ := hcons
      simpa [hc, ConsOk] using ⟨ht, c.1, c.2, getElem?_concat_of_some hget, hslot⟩
    | storeSeq t data =>
      rw [hc] at hcons
      obtain ⟨ht, c, hget, hslot⟩ := hcons
      simpa [hc, ConsOk] using ⟨ht, c.1, c.2, getElem?_concat_of_some hget, hslot⟩
    | storeTail t data =>
      rw [hc] at hcons
      obtain ⟨ht, c, hget, hdata⟩ := hcons
      simpa [hc, ConsOk] using ⟨ht, c.1, c.2, getElem?_concat_of_some hget, hdata⟩
    | _ => simp [ConsOk]
  · intro p'
    have ho := h.order p'
    rcases eq_or_ne p' p with rfl | hne
    · rw [hpc] at ho
      simpa [unclaimed] using ho
    · simpa [Function.update_of_ne hne, hne.symm] using ho
  · have htail := h.tail_le
    have hwin := h.window
    simp only [setProd_returned, setProd_claims, setProd_q, List.map_append, h.returned]
    rw [List.take_append_of_le_length (by rw [List.length_map]; omega)]

/-- A producer at one of its stores writes to the slot of its own turn only: every other turn of the
window keeps its slot. -/
theorem inv_ownSlot {s : Shared P α} {p : P} {pc : PushPc α} {item : α} {i : ℕ} {slot : MpscSlot α}
    (h : Inv cap s) (htwo : 2 ≤ cap)
    (hpc : s.prod p = .writeData item i ∨ s.prod p = .storeSeq item i)
    (hslot : slot = ⟨i + 1, some item⟩ ∧ pc = .idle ∨ slot = ⟨i, some item⟩ ∧ pc = .storeSeq item i) :
    Inv cap (({ s with q := { s.q with slots := Function.update s.q.slots (i % cap) slot } } :
      Shared P α).setProd p pc) := by
  have hprod := h.prod p
  have hwin := h.window
  obtain ⟨hr, hclaim, hseq⟩ : s.released ≤ i ∧ s.claims[i]? = some (p, item) ∧
      (s.q.slots (i % cap)).seq = i := by
    rcases hpc with hpc | hpc
    · rw [hpc] at hprod; exact hprod
    · rw [hpc] at hprod; exact ⟨hprod.1, hprod.2.1, by rw [hprod.2.2]⟩
  have hlt := claims_lt h hclaim
  have hother : ∀ j, s.released ≤ j → j < s.released + cap → j ≠ i →
      Function.update s.q.slots (i % cap) slot (j % cap) = s.q.slots (j % cap) := by
    intro j hlo hhi hne
    rw [Function.update_of_ne (slot_ne hlo hhi hr (by omega) hne)]
  -- the consumer is never at this turn: the slot it reads is published, this one is not yet
  have htail : ∀ c : P × α, s.q.slots (s.q.tail % cap) = ⟨s.q.tail + 1, some c.2⟩ → s.q.tail ≠ i := by
    rintro c hpub rfl
    rw [hpub] at hseq
    simp at hseq
  refine
    { mask := h.mask, head := h.head, window := h.window, free := ?_, claimed := ?_, prod := ?_,
      cons := ?_, order := ?_, returned := h.returned }
  · intro j hlo hhi
    have hhead : s.q.head ≤ j := hlo
    have hfree := h.free j hlo hhi
    simp only [setProd_q, hother j (by omega) hhi (by omega), hfree]
  · intro j c hj hjr
    have hjlt := claims_lt h hj
    have hcl := h.claimed j c hj hjr
    rcases eq_or_ne j i with rfl | hne
    · obtain rfl : (p, item) = c := by
        rw [setProd_claims] at hj
        exact Option.some.inj (hclaim.symm.trans hj)
      rcases hslot with ⟨rfl, rfl⟩ | ⟨rfl, rfl⟩ <;> simp
    · simp only [setProd_q, setProd_prod, hother j hjr (by omega) hne]
      rcases eq_or_ne c.1 p with rfl | hcp
      · refine Or.inl (hcl.resolve_right ?_)
        rcases hpc with hpc | hpc <;> simp [hpc, hne.symm]
      · rw [Function.update_of_ne hcp]
        exact hcl
  · intro p'
    rcases eq_or_ne p' p with rfl | hne
    · simp only [setProd_prod, Function.update_self]
      rcases hslot with ⟨rfl, rfl⟩ | ⟨rfl, rfl⟩
      · trivial
      · exact ⟨hr, hclaim, by simp⟩
    · simp only [setProd_prod, Function.update_of_ne hne]
      have hp' := h.prod p'
      have hturn : ∀ item' j, s.claims[j]? = some (p', item') → j ≠ i := by
        rintro item' j hj rfl
        rw [hclaim, Option.some.injEq, Prod.mk.injEq] at hj
        exact hne hj.1.symm
      cases hpc' : s.prod p' with
      | writeData item' j =>
        rw [hpc'] at hp'
        have hjlt := claims_lt h hp'.2.1
        refine ⟨hp'.1, hp'.2.1, ?_⟩
        simpa only [setProd_q, hother j hp'.1 (by omega) (hturn item' j hp'.2.1)] using hp'.2.2
      | storeSeq item' j =>
        rw [hpc'] at hp'
        have hjlt := claims_lt h hp'.2.1
        refine ⟨hp'.1, hp'.2.1, ?_⟩
        simpa only [setProd_q, hother j hp'.1 (by omega) (hturn item' j hp'.2.1)] using hp'.2.2
      | loadSeq item' j => rw [hpc'] at hp'; exact hp'
      | cas item' j => rw [hpc'] at hp'; exact hp'
      | _ => trivial
  · have hcons := h.cons
    simp only [setProd_cons]
    cases hc : s.cons with
    | loadSeq t => rw [hc] at hcons; exact hcons
    | readData t =>
      rw [hc] at hcons
      obtain ⟨rfl, c, hget, hpub⟩ := hcons
      have hrel : s.released = s.q.tail := by simp only [Shared.released, hc]
      refine ⟨rfl, c, hget, ?_⟩
      simpa only [setProd_q, hother s.q.tail hrel.le (by omega) (htail c hpub)] using hpub
    | storeSeq t data =>
      rw [hc] at hcons
      obtain ⟨rfl, c, hget, hpub, hdata⟩ := hcons
      have hrel : s.released = s.q.tail := by simp only [Shared.released, hc]
      refine ⟨rfl, c, hget, ?_, hdata⟩
      simpa only [setProd_q, hother s.q.tail hrel.le (by omega) (htail c hpub)] using hpub
    | storeTail t data => rw [hc] at hcons; exact hcons
    | _ => trivial
  · intro p'
    have ho := h.order p'
    rcases eq_or_ne p' p with rfl | hne
    · have hnone : unclaimed p' (s.prod p') = unclaimed p' pc := by
        rcases hpc with hpc | hpc <;> rcases hslot with ⟨_, rfl⟩ | ⟨_, rfl⟩ <;> simp [hpc, unclaimed]
      rw [hnone] at ho
      simp only [setProd_prod, Function.update_self]
      exact ho
    · simp only [setProd_prod, Function.update_of_ne hne]
      exact ho

include hpow hsize htwo in
/-- **Every access of a producer keeps the invariant.** -/
theorem inv_produce {s t : Shared P α} {p : P} {b : Bool} (h : Inv cap s) (hhead : s.q.head < 2 ^ 63)
    (hstep : produceStep s p b = some t) : Inv cap t := by
  have hprod := h.prod p
  cases hpc : s.prod p with
  | idle => simp [produceStep, hpc] at hstep
  | loadHead item =>
    simp only [produceStep, hpc, Option.some.injEq] at hstep
    subst hstep
    exact h.setProd (by simp [hpc]) (le_refl s.q.head) (by simp [hpc, unclaimed])
  | loadSeq item i => exact inv_loadSeq hpow hsize htwo h hhead hpc hstep
  | cas item i =>
    simp only [produceStep, hpc] at hstep
    split at hstep
    · next hwin =>
      simp only [Bool.and_eq_true, beq_iff_eq] at hwin
      obtain ⟨_, rfl⟩ := hwin
      rw [u64_of_lt (by omega), Option.some.injEq] at hstep
      subst hstep
      exact inv_claim h hpc
    · rw [Option.some.injEq] at hstep
      subst hstep
      exact h.setProd (by simp [hpc]) (le_refl s.q.head) (by simp [hpc, unclaimed])
  | writeData item i =>
    rw [hpc] at hprod
    simp only [produceStep, hpc, and_mask hpow h.mask, Option.some.injEq] at hstep
    subst hstep
    have hseq : (s.q.slots (i % cap)).seq = i := hprod.2.2
    exact inv_ownSlot h htwo (Or.inl hpc) (Or.inr ⟨by simp only [hseq], rfl⟩)
  | storeSeq item i =>
    rw [hpc] at hprod
    have hlt := claims_lt h hprod.2.1
    simp only [produceStep, hpc, and_mask hpow h.mask, Option.some.injEq,
      u64_of_lt (show i + 1 < 2 ^ 64 by omega)] at hstep
    subst hstep
    have hslot : s.q.slots (i % cap) = ⟨i, some item⟩ := hprod.2.2
    exact inv_ownSlot h htwo (Or.inr hpc) (Or.inl ⟨by simp only [hslot], rfl⟩)

end produce

/-! ### Steps of the consumer -/

theorem Inv.setCons {s : Shared P α} (h : Inv cap s) {pc : PopPc α} {r : List (Option α)}
    (hrel : ({ s with cons := pc } : Shared P α).released = s.released) (hok : ConsOk cap s pc)
    (hret : r.filterMap id = s.returned.filterMap id) :
    Inv cap { s with cons := pc, returned := r } where
  mask := h.mask
  head := h.head
  window := by
    have hw := h.window
    rw [← hrel] at hw
    exact hw
  free := by
    have hf := h.free
    rw [← hrel] at hf
    exact hf
  claimed := by
    have hc := h.claimed
    rw [← hrel] at hc
    exact hc
  prod := by
    intro p
    have hp := h.prod p
    cases hpc : s.prod p <;> simp only [hpc, ProdOk, ← hrel] at hp ⊢ <;> exact hp
  cons := by cases pc <;> exact hok
  order := h.order
  returned := hret.trans h.returned

theorem inv_release {s : Shared P α} {data : Option α} (h : Inv cap s) (htwo : 2 ≤ cap)
    (hpc : s.cons = .storeSeq s.q.tail data) :
    Inv cap { s with q := s.q.storeSeq (s.q.tail % cap) (s.q.tail + cap),
                     cons := .storeTail s.q.tail data } := by
  have hcons := h.cons
  have hrel : s.released = s.q.tail := by simp only [Shared.released, hpc]
  have hwin := h.window
  rw [hpc] at hcons
  obtain ⟨_, c, hget, hpub, hdata⟩ := hcons
  have hlt := claims_lt h hget
  have hother : ∀ j, s.released ≤ j → j < s.released + cap → j ≠ s.q.tail →
      Function.update s.q.slots (s.q.tail % cap) { s.q.slots (s.q.tail % cap) with
        seq := s.q.tail + cap } (j % cap) = s.q.slots (j % cap) := by
    intro j hlo hhi hne
    rw [Function.update_of_ne (slot_ne hlo hhi hrel.le (by omega) hne)]
  refine
    { mask := h.mask, head := h.head, window := ⟨hlt, ?_⟩, free := ?_, claimed := ?_, prod := ?_,
      cons := ⟨rfl, c, hget, hdata⟩, order := h.order, returned := h.returned }
  · simp only [Shared.released, storeSeq_head]
    omega
  · intro j hlo hhi
    simp only [Shared.released, storeSeq_head, storeSeq_slots] at hlo hhi ⊢
    rcases eq_or_ne j (s.q.tail + cap) with rfl | hne
    · rw [Nat.add_mod_right, Function.update_self]
    · rw [hother j (by omega) (by omega) (by omega)]
      exact h.free j hlo (by omega)
  · intro j d hj hr
    simp only [Shared.released, storeSeq_slots] at hr ⊢
    have hjlt := claims_lt h hj
    rw [hother j (by omega) (by omega) (by omega)]
    exact h.claimed j d hj (by omega)
  · intro p
    have hp := h.prod p
    -- a producer at its stores is past the released turn, whose slot is published
    have hpast : ∀ j, s.released ≤ j → (s.q.slots (j % cap)).seq = j → s.q.tail + 1 ≤ j := by
      intro j hj hseq
      rcases eq_or_ne j s.q.tail with rfl | hne
      · rw [hpub] at hseq
        simp at hseq
      · omega
    cases hpc' : s.prod p with
    | loadSeq item j => rw [hpc'] at hp; exact hp
    | cas item j =>
      rw [hpc'] at hp
      refine ⟨hp.1, fun he => ?_⟩
      have := hp.2 he
      simp only [Shared.released, storeSeq_head]
      omega
    | writeData item j =>
      rw [hpc'] at hp
      obtain ⟨hj, hclaim, hseq⟩ := hp
      have hjlt := claims_lt h hclaim
      have hle := hpast j hj hseq
      refine ⟨hle, hclaim, ?_⟩
      simp only [storeSeq_slots]
      rw [hother j hj (by omega) (by omega), hseq]
    | storeSeq item j =>
      rw [hpc'] at hp
      obtain ⟨hj, hclaim, hslot⟩ := hp
      have hjlt := claims_lt h hclaim
      have hle := hpast j hj (by rw [hslot])
      refine ⟨hle, hclaim, ?_⟩
      simp only [storeSeq_slots]
      rw [hother j hj (by omega) (by omega), hslot]
    | _ => trivial

theorem inv_return {s : Shared P α} {data : Option α} (h : Inv cap s)
    (hpc : s.cons = .storeTail s.q.tail data) :
    Inv cap { s with q := { s.q with tail := s.q.tail + 1 }, cons := .idle,
                     returned := s.returned ++ [data] } := by
  have hcons := h.cons
  have hrel : s.released = s.q.tail + 1 := by simp only [Shared.released, hpc]
  rw [hpc] at hcons
  obtain ⟨_, c, hget, rfl⟩ := hcons
  refine
    { mask := h.mask, head := h.head, window := ?_, free := ?_, claimed := ?_, prod := ?_,
      cons := trivial, order := h.order, returned := ?_ }
  · have hw := h.window
    rw [hrel] at hw
    exact hw
  · have hf := h.free
    rw [hrel] at hf
    exact hf
  · have hc := h.claimed
    rw [hrel] at hc
    exact hc
  · intro p
    have hp := h.prod p
    cases hpc' : s.prod p <;> simp only [hpc', ProdOk, hrel] at hp ⊢ <;> exact hp
  · have hc : (s.claims.map Prod.snd)[s.q.tail]? = some c.2 := by simp [hget]
    rw [List.filterMap_append, h.returned, List.take_add_one, hc]
    rfl

section consume
variable (hpow : ∃ k, cap = 2 ^ k) (hsize : cap < 2 ^ 60) (htwo : 2 ≤ cap)
include hpow hsize htwo

/-- **Every access of the consumer keeps the invariant.** -/
theorem inv_consume {s t : Shared P α} (h : Inv cap s) (hhead : s.q.head < 2 ^ 63)
    (hstep : consumeStep s = some t) : Inv cap t := by
  have hcons := h.cons
  have htail := h.tail_le
  have hwin := h.window
  cases hpc : s.cons with
  | idle => simp [consumeStep, hpc] at hstep
  | loadTail =>
    simp only [consumeStep, hpc, Option.some.injEq] at hstep
    subst hstep
    exact h.setCons (by simp only [Shared.released, hpc]) rfl rfl
  | loadSeq i =>
    rw [hpc] at hcons
    obtain rfl : i = s.q.tail := hcons
    have hrel : s.released = s.q.tail := by simp only [Shared.released, hpc]
    have hseq := h.seq_le (by omega) s.q.tail
    simp only [consumeStep, hpc, and_mask hpow h.mask, u64_of_lt (show s.q.tail + 1 < 2 ^ 64 by omega)]
      at hstep
    split at hstep
    · rw [Option.some.injEq] at hstep
      subst hstep
      exact h.setCons (by simp only [Shared.released, hpc]) trivial (by simp)
    · next hdiff =>
      rw [not_not, diff64_eq_zero (by omega) (by omega)] at hdiff
      rw [Option.some.injEq] at hstep
      subst hstep
      -- the mark is the published one, so the turn is claimed and none of its stores is pending
      have hlt : s.q.tail < s.q.head := by
        by_contra hge
        have := h.free s.q.tail (not_lt.1 hge) (by omega)
        omega
      have hlen := h.head
      have hget : s.claims[s.q.tail]? = some s.claims[s.q.tail] := List.getElem?_eq_getElem (by omega)
      refine h.setCons (by simp only [Shared.released, hpc]) ⟨rfl, _, hget, ?_⟩ rfl
      have hprod := h.prod s.claims[s.q.tail].1
      rcases h.claimed _ _ hget hrel.le with hpub | hw | hw
      · exact hpub
      · rw [hw] at hprod
        have := hprod.2.2
        omega
      · rw [hw] at hprod
        have := congrArg MpscSlot.seq hprod.2.2
        simp only at this
        omega
  | readData i =>
    rw [hpc] at hcons
    obtain ⟨rfl, c, hget, hpub⟩ := hcons
    simp only [consumeStep, hpc, and_mask hpow h.mask, Option.some.injEq] at hstep
    subst hstep
    exact h.setCons (by simp only [Shared.released, hpc]) ⟨rfl, c, hget, hpub, by rw [hpub]⟩ rfl
  | storeSeq i data =>
    rw [hpc] at hcons
    obtain rfl : i = s.q.tail := hcons.1
    have hmask := h.mask
    simp only [consumeStep, hpc, and_mask hpow h.mask, Option.some.injEq,
      u64_of_lt (show s.q.tail + s.q.mask + 1 < 2 ^ 64 by omega)] at hstep
    subst hstep
    rw [show s.q.tail + s.q.mask + 1 = s.q.tail + cap by omega]
    exact inv_release h htwo hpc
  | storeTail i data =>
    rw [hpc] at hcons
    obtain rfl : i = s.q.tail := hcons.1
    simp only [consumeStep, hpc, u64_of_lt (show s.q.tail + 1 < 2 ^ 64 by omega),
      Option.some.injEq] at hstep
    subst hstep
    exact inv_return h hpc

/-- **Every step of every thread keeps the invariant.** -/
theorem inv_step {s t : Shared P α} {a : Act P α} (h : Inv cap s) (hcalls : s.calls.length < 2 ^ 63)
    (hstep : step s a = some t) : Inv cap t := by
  have hhead : s.q.head < 2 ^ 63 := by
    have := h.claims_le
    have := h.head
    omega
  cases a with
  | push p item => exact inv_push h hstep
  | produce p b => exact inv_produce hpow hsize htwo h hhead hstep
  | pop =>
    simp only [step] at hstep
    split at hstep
    · next hpc =>
      rw [Option.some.injEq] at hstep
      subst hstep
      exact h.setCons (by simp only [Shared.released, hpc]) trivial rfl
    · contradiction
  | consume => exact inv_consume hpow hsize htwo h hhead hstep

omit hpow hsize htwo in
theorem calls_le_of_step {s t : Shared P α} {a : Act P α} (hstep : step s a = some t) :
    s.calls.length ≤ t.calls.length := by
  cases a with
  | push p item =>
    simp only [step] at hstep
    split at hstep
    · rw [Option.some.injEq] at hstep
      simp [← hstep]
    · contradiction
  | produce p b =>
    simp only [step, produceStep] at hstep
    repeat' split at hstep
    all_goals first
      | contradiction
      | rw [Option.some.injEq] at hstep; simp [← hstep]
  | pop =>
    simp only [step] at hstep
    split at hstep
    · rw [Option.some.injEq] at hstep
      simp [← hstep]
    · contradiction
  | consume =>
    simp only [step, consumeStep] at hstep
    repeat' split at hstep
    all_goals first
      | contradiction
      | rw [Option.some.injEq] at hstep; simp [← hstep]

theorem inv_run {s t : Shared P α} {acts : List (Act P α)} (h : Inv cap s)
    (hrun : Steps.run step s acts = some t) (hcalls : t.calls.length < 2 ^ 63) : Inv cap t := by
  have hall : t.calls.length < 2 ^ 63 → Inv cap t :=
    Steps.run_invariant (P := fun u : Shared P α => u.calls.length < 2 ^ 63 → Inv cap u)
      (fun u a v hu hstep hv =>
        have hlt := lt_of_le_of_lt (calls_le_of_step hstep) hv
        inv_step hpow hsize htwo (hu hlt) hlt hstep)
      (fun _ => h) hrun
  exact hall hcalls

end consume

/-! ### Popping while no push is under way -/

/-- The consumer can end the pop it is in, which returns the claimed item of the turn `tail`, or
`NULL` when there is none. -/
def Finishes (s : Shared P α) : Prop :=
  ∃ acts t, (∀ a ∈ acts, a = Act.consume) ∧ Steps.run step s acts = some t ∧ t.cons = .idle ∧
    t.prod = s.prod ∧ t.calls = s.calls ∧ t.claims = s.claims ∧
    t.returned = s.returned ++ [(s.claims.map Prod.snd)[s.q.tail]?] ∧
    ((s.claims.map Prod.snd)[s.q.tail]?.isSome → t.q.tail = s.q.tail + 1)

theorem Finishes.of_step {s u : Shared P α} (hstep : consumeStep s = some u) (h : Finishes u)
    (hprod : u.prod = s.prod) (hcalls : u.calls = s.calls) (hclaims : u.claims = s.claims)
    (hreturned : u.returned = s.returned) (htail : u.q.tail = s.q.tail) : Finishes s := by
  obtain ⟨acts, t, hacts, hrun, hidle, h1, h2, h3, h4, h5⟩ := h
  refine ⟨.consume :: acts, t, by simpa using hacts, ?_, hidle, h1.trans hprod, h2.trans hcalls,
    h3.trans hclaims, ?_, ?_⟩
  · rw [Steps.run_cons_eq_some]
    exact ⟨u, hstep, hrun⟩
  · rw [h4, hreturned, hclaims, htail]
  · rw [← htail, ← hclaims]
    exact h5

theorem Inv.published {s : Shared P α} (h : Inv cap s) (hquiet : ∀ p, s.prod p = .idle) {i : ℕ}
    {c : P × α} (hi : s.claims[i]? = some c) (hr : s.released ≤ i) :
    s.q.slots (i % cap) = ⟨i + 1, some c.2⟩ := by
  rcases h.claimed i c hi hr with hpub | hw | hw
  · exact hpub
  · simp [hquiet] at hw
  · simp [hquiet] at hw

def PopPc.left : PopPc α → ℕ
  | .idle => 0
  | .loadTail => 5
  | .loadSeq _ => 4
  | .readData _ => 3
  | .storeSeq _ _ => 2
  | .storeTail _ _ => 1

section drain
variable (hpow : ∃ k, cap = 2 ^ k) (hsize : cap < 2 ^ 60) (htwo : 2 ≤ cap)
include hpow hsize htwo

theorem finishes_of_inv (n : ℕ) {s : Shared P α} (h : Inv cap s) (hcalls : s.calls.length < 2 ^ 63)
    (hquiet : ∀ p, s.prod p = .idle) (hleft : s.cons.left = n + 1) : Finishes s := by
  have hlen := h.head
  have hle := h.claims_le
  have htl := h.tail_le
  have hwin := h.window
  have hcons := h.cons
  have hnext : ∀ u, consumeStep s = some u → Inv cap u :=
    fun u hu => inv_consume hpow hsize htwo h (by omega) hu
  induction n generalizing s with
  | zero =>
    cases hpc : s.cons with
    | storeTail t d =>
      rw [hpc] at hcons
      obtain ⟨rfl, c, hget, rfl⟩ := hcons
      have hlt := claims_lt h hget
      refine ⟨[.consume],
        { s with
          q := { s.q with tail := s.q.tail + 1 }, cons := .idle,
          returned := s.returned ++ [some c.2] },
        by simp, ?_, rfl, rfl, rfl, rfl, by simp [hget], fun _ => rfl⟩
      rw [Steps.run_cons_eq_some]
      refine ⟨_, ?_, rfl⟩
      simp only [step, consumeStep, hpc, u64_of_lt (show s.q.tail + 1 < 2 ^ 64 by omega)]
    | _ => simp [hpc, PopPc.left] at hleft
  | succ n ih =>
    -- one more access, and then the rest of the pop from the state after it
    have hcont : ∀ u, consumeStep s = some u → u.cons.left = n + 1 → u.prod = s.prod →
        u.calls = s.calls → u.claims = s.claims → u.returned = s.returned → u.q.tail = s.q.tail →
        Finishes s := by
      intro u hu hn hprod hcalls' hclaims hreturned htail
      have hinv := hnext u hu
      refine Finishes.of_step hu (ih hinv (by rw [hcalls']; exact hcalls) (by rw [hprod]; exact hquiet)
        hn hinv.head hinv.claims_le hinv.tail_le hinv.window hinv.cons fun v hv => ?_) hprod hcalls'
        hclaims hreturned htail
      exact inv_consume hpow hsize htwo hinv
        (by have := hinv.head; rw [hclaims] at this; omega) hv
    cases hpc : s.cons with
    | idle => simp [hpc, PopPc.left] at hleft
    | storeTail t d => simp [hpc, PopPc.left] at hleft
    | loadTail =>
      simp only [hpc, PopPc.left] at hleft
      exact hcont { s with cons := .loadSeq s.q.tail } (by simp only [consumeStep, hpc])
        (by simp only [PopPc.left]; omega) rfl rfl rfl rfl rfl
    | readData t =>
      simp only [hpc, PopPc.left] at hleft
      exact hcont { s with cons := .storeSeq t (s.q.slots (t &&& s.q.mask)).data }
        (by simp only [consumeStep, hpc]) (by simp only [PopPc.left]; omega) rfl rfl rfl rfl rfl
    | storeSeq t d =>
      simp only [hpc, PopPc.left] at hleft
      exact hcont { s with q := s.q.storeSeq (t &&& s.q.mask) (u64 (t + s.q.mask + 1)),
                           cons := .storeTail t d }
        (by simp only [consumeStep, hpc]) (by simp only [PopPc.left]; omega) rfl rfl rfl rfl rfl
    | loadSeq t =>
      simp only [hpc, PopPc.left] at hleft
      rw [hpc] at hcons
      obtain rfl : t = s.q.tail := hcons
      have hrel : s.released = s.q.tail := by simp only [Shared.released, hpc]
      have hu : u64 (s.q.tail + 1) = s.q.tail + 1 := u64_of_lt (by omega)
      cases hget : s.claims[s.q.tail]? with
      | some c =>
        have hpub := h.published hquiet hget hrel.le
        refine hcont { s with cons := .readData s.q.tail } ?_ (by simp only [PopPc.left]; omega) rfl rfl
          rfl rfl rfl
        simp only [consumeStep, hpc, and_mask hpow h.mask, hpub, hu, ne_eq,
          (diff64_eq_zero (show s.q.tail + 1 < 2 ^ 64 by omega)
            (show s.q.tail + 1 < 2 ^ 64 by omega)).2 rfl, not_true_eq_false, if_false]
      | none =>
        have hend : s.q.head = s.q.tail := by
          have := List.getElem?_eq_none_iff.1 hget
          omega
        have hfree := h.free s.q.tail hend.le (by omega)
        refine ⟨[.consume], { s with cons := .idle, returned := s.returned ++ [none] }, by simp, ?_, rfl,
          rfl, rfl, rfl, by simp [hget], by simp [hget]⟩
        rw [Steps.run_cons_eq_some]
        refine ⟨_, ?_, rfl⟩
        simp only [step, consumeStep, hpc, and_mask hpow h.mask, hfree, hu, ne_eq,
          diff64_eq_zero (show s.q.tail < 2 ^ 64 by omega) (show s.q.tail + 1 < 2 ^ 64 by omega),
          Nat.left_eq_add, one_ne_zero, not_false_eq_true, if_true]

theorem one_pop {s : Shared P α} (h : Inv cap s) (hcalls : s.calls.length < 2 ^ 63)
    (hquiet : ∀ p, s.prod p = .idle) :
    ∃ acts t, (∀ a ∈ acts, a = Act.pop ∨ a = .consume) ∧ Steps.run step s acts = some t ∧
      t.cons = .idle ∧ t.prod = s.prod ∧ t.calls = s.calls ∧ t.claims = s.claims ∧
      t.returned = s.returned ++ [(s.claims.map Prod.snd)[s.q.tail]?] ∧
      ((s.claims.map Prod.snd)[s.q.tail]?.isSome → t.q.tail = s.q.tail + 1) := by
  by_cases hidle : s.cons = .idle
  · have hstep : step s .pop = some { s with cons := .loadTail } := by simp only [step, hidle]
    obtain ⟨acts, t, hacts, hrun, hrest⟩ := finishes_of_inv hpow hsize htwo 4
      (inv_step hpow hsize htwo h hcalls hstep) hcalls hquiet rfl
    refine ⟨.pop :: acts, t, ?_, Steps.run_cons_eq_some.2 ⟨_, hstep, hrun⟩, hrest⟩
    simpa using fun a ha => Or.inr (hacts a ha)
  · obtain ⟨n, hn⟩ : ∃ n, s.cons.left = n + 1 := by
      cases hpc : s.cons with
      | idle => exact absurd hpc hidle
      | _ => exact ⟨_, rfl⟩
    obtain ⟨acts, t, hacts, hrun, hrest⟩ := finishes_of_inv hpow hsize htwo n h hcalls hquiet hn
    exact ⟨acts, t, fun a ha => Or.inr (hacts a ha), hrun, hrest⟩

/-- With no push under way the consumer alone can pop until `NULL`, and that returns exactly the
claimed items not returned yet, in the order of their claims. -/
theorem drains_of_inv (n : ℕ) {s : Shared P α} (h : Inv cap s) (hcalls : s.calls.length < 2 ^ 63)
    (hquiet : ∀ p, s.prod p = .idle) (hleft : s.claims.length - s.q.tail = n) :
    ∃ acts t, (∀ a ∈ acts, a = Act.pop ∨ a = .consume) ∧ Steps.run step s acts = some t ∧
      t.cons = .idle ∧
      t.returned = s.returned ++ ((s.claims.map Prod.snd).drop s.q.tail).map some ++ [none] := by
  induction n generalizing s with
  | zero =>
    obtain ⟨acts, t, hacts, hrun, hidle, _, _, _, hret, _⟩ := one_pop hpow hsize htwo h hcalls hquiet
    have hle : (s.claims.map Prod.snd).length ≤ s.q.tail := by simp; omega
    refine ⟨acts, t, hacts, hrun, hidle, ?_⟩
    rw [hret, List.getElem?_eq_none hle, List.drop_eq_nil_of_le hle, List.map_nil, List.append_nil]
  | succ n ih =>
    obtain ⟨acts, t, hacts, hrun, _, hprod, hc, hclaims, hret, htail⟩ :=
      one_pop hpow hsize htwo h hcalls hquiet
    have hlt : s.q.tail < (s.claims.map Prod.snd).length := by simp; omega
    have htail := htail (by rw [List.getElem?_eq_getElem hlt]; rfl)
    have hinv := inv_run hpow hsize htwo h hrun (by rw [hc]; exact hcalls)
    obtain ⟨acts', u, hacts', hrun', hidle, hret'⟩ := ih hinv (by rw [hc]; exact hcalls)
      (by rw [hprod]; exact hquiet) (by rw [hclaims, htail]; omega)
    refine ⟨acts ++ acts', u, ?_, ?_, hidle, ?_⟩
    · intro a ha
      exact (List.mem_append.1 ha).elim (hacts a) (hacts' a)
    · rw [Steps.run_append, hrun]
      exact hrun'
    · rw [hret', hret, hclaims, htail, List.getElem?_eq_getElem hlt, List.drop_eq_getElem_cons hlt]
      simp

end drain

/-! ### Safety of every interleaving -/

/-- The push that won turn `i` with `c` has published it, and the consumer has not released it. -/
structure Shared.Holding (s : Shared P α) (i : ℕ) (c : P × α) : Prop where
  claim : s.claims[i]? = some c
  done : ∀ item, s.prod c.1 ≠ .writeData item i ∧ s.prod c.1 ≠ .storeSeq item i
  kept : s.released ≤ i

/-- What holds in every state of every interleaving of a ring of `cap` slots. -/
structure RingSafe (cap : ℕ) (s : Shared P α) : Prop where
  /-- A published item is in its slot until its pop releases it, and no store to that slot is
  pending. -/
  intact : ∀ i c, s.Holding i c → (s.q.slots (i % cap)).data = some c.2 ∧
    ∀ p item h, s.prod p = .writeData item h → h % cap ≠ i % cap
  /-- A pop returns `NULL` or the item of a push that claimed a slot. -/
  fromPush : ∀ item, some item ∈ s.returned → ∃ p, (p, item) ∈ s.claims
  /-- The `n`-th item returned is the item of the `n`-th claim: none twice, none out of order. -/
  inOrder : s.returned.filterMap id <+: s.claims.map Prod.snd
  /-- Pushes of different items are returned as different items. -/
  atMostOnce : (s.claims.map Prod.snd).Nodup → (s.returned.filterMap id).Nodup
  /-- A producer's claims are in the order of its calls. -/
  perProducer : ∀ p, (s.claims.filter (·.1 = p)).Sublist (s.calls.filter (·.1 = p))
  /-- While no push is under way, popping until `NULL` returns the pushed items not yet returned. -/
  drains : (∀ p, s.prod p = .idle) → ∃ acts t, (∀ a ∈ acts, a = Act.pop ∨ a = .consume) ∧
    Steps.run step s acts = some t ∧ t.cons = .idle ∧
    t.returned = s.returned ++
      ((s.claims.map Prod.snd).drop (s.returned.filterMap id).length).map some ++ [none]

section safe
variable (hpow : ∃ k, cap = 2 ^ k) (hsize : cap < 2 ^ 60) (htwo : 2 ≤ cap)

theorem intact_of_inv {s : Shared P α} (h : Inv cap s) {i : ℕ} {c : P × α} (hi : s.Holding i c) :
    (s.q.slots (i % cap)).data = some c.2 ∧
      ∀ p item j, s.prod p = .writeData item j → j % cap ≠ i % cap := by
  have hlt := claims_lt h hi.claim
  have hwin := h.window
  have hpub : s.q.slots (i % cap) = ⟨i + 1, some c.2⟩ :=
    (h.claimed i c hi.claim hi.kept).resolve_right fun hw => hw.elim (hi.done c.2).1 (hi.done c.2).2
  refine ⟨by rw [hpub], fun p item j hpc => ?_⟩
  have hp := h.prod p
  rw [hpc] at hp
  obtain ⟨hr, hclaim, hseq⟩ := hp
  have hjlt := claims_lt h hclaim
  refine slot_ne hr (by omega) hi.kept (by omega) ?_
  rintro rfl
  rw [hpub] at hseq
  simp at hseq

include hpow hsize htwo in
theorem ringSafe_of_inv {s : Shared P α} (h : Inv cap s) (hcalls : s.calls.length < 2 ^ 63) :
    RingSafe cap s where
  intact := fun _ _ hi => intact_of_inv h hi
  fromPush := by
    intro item hitem
    have hmem : item ∈ s.returned.filterMap id := List.mem_filterMap.2 ⟨some item, hitem, rfl⟩
    rw [h.returned] at hmem
    obtain ⟨c, hc, rfl⟩ := List.mem_map.1 (List.mem_of_mem_take hmem)
    exact ⟨c.1, hc⟩
  inOrder := by
    rw [h.returned]
    exact List.take_prefix _ _
  atMostOnce := by
    intro hnodup
    rw [h.returned]
    exact hnodup.sublist (List.take_sublist _ _)
  perProducer := fun p => (List.sublist_append_left _ _).trans (h.order p)
  drains := by
    intro hquiet
    have htail := h.tail_le
    have hwin := h.window
    have hlen : (s.returned.filterMap id).length = s.q.tail := by
      rw [h.returned, List.length_take, List.length_map, ← h.head]
      omega
    rw [hlen]
    exact drains_of_inv hpow hsize htwo _ h hcalls hquiet rfl

end safe

/-- **MPSC ring safety.** For every capacity of two or more slots that `mpsc_queue_init` accepts, every
state reached by any interleaving of any producers and the consumer, with fewer than `2 ^ 63` push
calls, is safe. -/
theorem ringSafe_of_run {capacity : ℕ} {callocOk : Bool} {q : MpscQueue α}
    (hinit : mpscQueueInit capacity callocOk = .ok q) (htwo : 2 ≤ capacity) {acts : List (Act P α)}
    {s : Shared P α} (hrun : Steps.run step (Shared.init q) acts = some s)
    (hcalls : s.calls.length < 2 ^ 63) : RingSafe capacity s := by
  obtain ⟨hpow, hsize, rfl⟩ := mpscQueueInit_eq_ok hinit
  have hinv : Inv capacity s := inv_run hpow hsize htwo (inv_init capacity) hrun hcalls
  exact ringSafe_of_inv hpow hsize htwo hinv hcalls

/-- A witness: two producers on a ring of two slots; the first publishes while the second is between
its compare-and-swap and its first store, and the consumer reads the first one's item. -/
theorem ringSafe_of_run_two : ∃ s : Shared Bool ℕ, Steps.run step (Shared.init (freshRing 2))
    [.push true 7, .push false 8, .produce true true, .produce false true, .produce true true,
      .produce true true, .produce false false, .produce true true, .produce true true,
      .produce false true, .produce false true, .produce false true, .pop, .consume, .consume,
      .consume] = some s ∧ s.calls.length = 2 ∧ RingSafe 2 s := by
  have hrun : ((Steps.run step (Shared.init (freshRing 2))
      [.push true 7, .push false 8, .produce true true, .produce false true, .produce true true,
        .produce true true, .produce false false, .produce true true, .produce true true,
        .produce false true, .produce false true, .produce false true, .pop, .consume, .consume,
        .consume]).map fun s : Shared Bool ℕ => s.calls.length) = some 2 := by rfl
  obtain ⟨s, hs, hlen⟩ := Option.map_eq_some_iff.1 hrun
  have hinit : (mpscQueueInit 2 true : Except _ (MpscQueue ℕ)) = .ok (freshRing 2) := rfl
  exact ⟨s, hs, hlen, ringSafe_of_run hinit le_rfl hs (by rw [hlen]; decide)⟩

end OtlpC.Queue
