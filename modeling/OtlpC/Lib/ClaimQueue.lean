import OtlpC.Lib.BoundedFifo
import OtlpC.Lib.Simulation

/-!
# Queues whose places are claimed before they are filled

A producer takes a place at the end of the queue and publishes its item there later; the consumer takes the item
at the front once it is published. A place that is claimed and not yet published holds back every place behind
it, and counts as taken. With no such place the queue is a bounded FIFO (`fifo`).
-/

namespace OtlpC

/-- A place in the queue: who claimed it, for which item, and whether the item can be taken. -/
structure Place (P α : Type*) where
  owner : P
  item : α
  published : Bool

/-- At most `cap` places, the one claimed first in front. -/
structure ClaimQueue (P α : Type*) (cap : ℕ) where
  places : List (Place P α)
  bounded : places.length ≤ cap

namespace ClaimQueue

variable {P α : Type*} {cap : ℕ}

/-- What producers and the consumer do to the queue, or learn from it. -/
inductive Op (P α : Type*) where
  | claim (p : P) (item : α)
  | publish (p : P)
  /-- A producer finds no place left. -/
  | refuse (p : P) (item : α)
  | take (item : α)
  /-- The consumer finds nothing to take. -/
  | nothing

def empty : ClaimQueue P α cap := ⟨[], Nat.zero_le _⟩

def Settled (q : ClaimQueue P α cap) (p : P) : Prop := ∀ c ∈ q.places, c.owner = p → c.published = true

def claim (q : ClaimQueue P α cap) (p : P) (item : α) (hroom : q.places.length < cap) : ClaimQueue P α cap :=
  ⟨q.places ++ [⟨p, item, false⟩], by rw [List.length_append]; exact hroom⟩

def publishPlace [DecidableEq P] (p : P) (c : Place P α) : Place P α :=
  if c.owner = p then { c with published := true } else c

def publish [DecidableEq P] (q : ClaimQueue P α cap) (p : P) : ClaimQueue P α cap :=
  ⟨q.places.map (publishPlace p), by rw [List.length_map]; exact q.bounded⟩

def drop (q : ClaimQueue P α cap) : ClaimQueue P α cap :=
  ⟨q.places.tail, by rw [List.length_tail]; exact Nat.le_trans (Nat.sub_le _ _) q.bounded⟩

/-- What each operation needs, and what it does. -/
inductive Step [DecidableEq P] : ClaimQueue P α cap → Op P α → ClaimQueue P α cap → Prop
  | claim (q : ClaimQueue P α cap) (p : P) (item : α) (hroom : q.places.length < cap) (hsettled : q.Settled p) :
      Step q (.claim p item) (q.claim p item hroom)
  | publish (q : ClaimQueue P α cap) (p : P) (hclaimed : ¬ q.Settled p) : Step q (.publish p) (q.publish p)
  | refuse (q : ClaimQueue P α cap) (p : P) (item : α) (hfull : q.places.length = cap) :
      Step q (.refuse p item) q
  | take (q : ClaimQueue P α cap) (p : P) (item : α) (hfront : q.places.head? = some ⟨p, item, true⟩) :
      Step q (.take item) q.drop
  | nothing (q : ClaimQueue P α cap) (hfront : ∀ c, q.places.head? = some c → c.published = false) :
      Step q .nothing q

/-! ### First in, first out -/

/-- The items that the operations claim a place for. -/
def claimed (ops : List (Op P α)) : List α :=
  ops.filterMap fun
    | .claim _ item => some item
    | _ => none

def taken (ops : List (Op P α)) : List α :=
  ops.filterMap fun
    | .take item => some item
    | _ => none

def items (q : ClaimQueue P α cap) : List α := q.places.map Place.item

theorem items_claim (q : ClaimQueue P α cap) (p : P) (item : α) (hroom : q.places.length < cap) :
    (q.claim p item hroom).items = q.items ++ [item] := by
  simp [items, claim]

theorem items_drop (q : ClaimQueue P α cap) : q.drop.items = q.items.tail := by
  simp [items, drop]

variable [DecidableEq P]

theorem items_publish (q : ClaimQueue P α cap) (p : P) : (q.publish p).items = q.items := by
  simp only [items, publish, List.map_map]
  refine List.map_congr_left fun c _ => ?_
  simp only [Function.comp_apply, publishPlace]
  split <;> rfl

/-- One operation: what was in the queue and is claimed comes out or stays, in its order. -/
theorem Step.items_append {q q' : ClaimQueue P α cap} {op : Op P α} (h : Step q op q') :
    q.items ++ claimed [op] = taken [op] ++ q'.items := by
  cases h with
  | claim p item hroom => simp [items_claim, claimed, taken]
  | publish p => simp [items_publish, claimed, taken]
  | refuse => simp [claimed, taken]
  | take p item hfront =>
    obtain ⟨rest, hplaces⟩ := List.head?_eq_some_iff.1 hfront
    have hitems : q.items = item :: rest.map Place.item := by simp [items, hplaces]
    simp [items_drop, hitems, claimed, taken]
  | nothing => simp [claimed, taken]

/-- **First in, first out.** The items come out in the order in which their places were claimed. -/
theorem items_of_path {q q' : ClaimQueue P α cap} {ops : List (Op P α)} (h : Steps.Path Step q ops q') :
    q.items ++ claimed ops = taken ops ++ q'.items := by
  induction h with
  | nil => simp [claimed, taken]
  | @cons q q' q'' op ops hstep _ ih =>
    have hclaimed : claimed (op :: ops) = claimed [op] ++ claimed ops := by
      rw [← List.singleton_append, claimed, List.filterMap_append]; rfl
    have htaken : taken (op :: ops) = taken [op] ++ taken ops := by
      rw [← List.singleton_append, taken, List.filterMap_append]; rfl
    rw [hclaimed, htaken, ← List.append_assoc, hstep.items_append, List.append_assoc, ih, List.append_assoc]

/-! ### Without a place held back -/

def fifo (q : ClaimQueue P α cap) : BoundedFifo α cap := ⟨q.items, by rw [items, List.length_map]; exact q.bounded⟩

omit [DecidableEq P] in
theorem push_fifo_eq_none {q : ClaimQueue P α cap} {item : α} :
    q.fifo.push item = none ↔ q.places.length = cap := by
  rw [BoundedFifo.push_eq_none]
  simp [fifo, items]

omit [DecidableEq P] in
theorem pop_fifo {q : ClaimQueue P α cap} (hall : ∀ c ∈ q.places, c.published = true) :
    (∀ c, q.places.head? = some c → c.published = false) ↔ q.fifo.pop = none := by
  have hnil : q.fifo.pop = none ↔ q.places = [] := by
    rw [BoundedFifo.pop_eq_none]
    simp [fifo, items]
  rw [hnil]
  constructor
  · intro hfront
    cases hplaces : q.places with
    | nil => rfl
    | cons c rest =>
      have hno : c.published = false := hfront c (by rw [hplaces]; rfl)
      rw [hall c (hplaces ▸ List.mem_cons_self)] at hno
      cases hno
  · rintro hnil c hc
    rw [hnil] at hc
    cases hc

end ClaimQueue

end OtlpC
