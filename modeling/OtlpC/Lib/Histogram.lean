import Mathlib.Algebra.BigOperators.Group.List.Basic
import Mathlib.Algebra.GroupWithZero.Nat
import Mathlib.Data.List.Count
import Mathlib.Data.List.Induction
import Mathlib.Data.Nat.Basic

/-!
# Histograms over ordered values

Values are put into the first slot whose bound they do not exceed, and the least and the greatest are kept. With
ascending bounds the slots are the intervals between them, so that a tally of the slots counts the values of each
interval. The order is a pair of comparison functions that is a total preorder on the values that occur.
-/

namespace OtlpC.Histogram

variable {α : Type*}

/-- On the values with `S`, `le` is a total preorder and `lt` its strict part. -/
structure Ordered (le lt : α → α → Bool) (S : α → Prop) : Prop where
  total : ∀ x y, S x → S y → le x y = true ∨ le y x = true
  trans : ∀ x y z, S x → S y → S z → le x y = true → le y z = true → le x z = true
  lt_iff : ∀ x y, S x → S y → (lt x y = true ↔ ¬le y x = true)

/-! ### Slots -/

section Slots

variable (le lt : α → α → Bool)

/-- The slot of a value; the last one has no bound. -/
def slot (bounds : List α) (v : α) : ℕ := bounds.findIdx (le v)

def tally (bounds vs : List α) : List ℕ :=
  (List.range (bounds.length + 1)).map fun i => vs.countP fun v => slot le bounds v == i

/-- The value is above the bound before slot `i`, if there is one. -/
def above (bounds : List α) : ℕ → α → Bool
  | 0, _ => true
  | i + 1, v => bounds[i]?.all fun b => lt b v

/-- The value is greater than the bound before interval `i` and at most the one at its end. -/
def inInterval (bounds : List α) (i : ℕ) (v : α) : Bool := above lt bounds i v && bounds[i]?.all (le v)

variable {le lt} {bounds vs : List α}

theorem slot_lt (bounds : List α) (v : α) : slot le bounds v < bounds.length + 1 :=
  Nat.lt_succ_of_le List.findIdx_le_length

@[simp] theorem length_tally : (tally le bounds vs).length = bounds.length + 1 := by
  rw [tally, List.length_map, List.length_range]

theorem getElem_tally {i : ℕ} (hi : i < (tally le bounds vs).length) :
    (tally le bounds vs)[i] = vs.countP fun v => slot le bounds v == i := by
  simp only [tally, List.getElem_map, List.getElem_range]

theorem tally_nil : tally le bounds [] = .replicate (bounds.length + 1) 0 := by
  apply List.ext_getElem
  · rw [length_tally, List.length_replicate]
  · intro i hi _
    rw [getElem_tally hi, List.getElem_replicate, List.countP_nil]

theorem tally_concat (v : α) : tally le bounds (vs ++ [v]) = (tally le bounds vs).modify (slot le bounds v) (· + 1) := by
  apply List.ext_getElem
  · rw [List.length_modify, length_tally, length_tally]
  · intro i hi hi'
    rw [List.length_modify] at hi'
    rw [getElem_tally hi, List.getElem_modify, getElem_tally hi', List.countP_append, List.countP_singleton]
    by_cases hslot : slot le bounds v = i
    · rw [if_pos hslot, if_pos (beq_iff_eq.2 hslot)]
    · rw [if_neg hslot, if_neg (mt beq_iff_eq.1 hslot)]
      rfl

theorem sum_modify_succ {l : List ℕ} {i : ℕ} (hi : i < l.length) : (l.modify i (· + 1)).sum = l.sum + 1 := by
  induction l generalizing i with
  | nil => exact absurd hi (Nat.not_lt_zero i)
  | cons a l ih =>
    cases i with
    | zero =>
      rw [List.modify_zero_cons, List.sum_cons, List.sum_cons]
      omega
    | succ i =>
      rw [List.modify_succ_cons, List.sum_cons, List.sum_cons, ih (Nat.lt_of_succ_lt_succ hi)]
      omega

theorem sum_tally (bounds vs : List α) : (tally le bounds vs).sum = vs.length := by
  induction vs using List.reverseRecOn with
  | nil => rw [tally_nil, List.sum_replicate_nat, Nat.mul_zero, List.length_nil]
  | append_singleton vs v ih =>
    rw [tally_concat, sum_modify_succ (length_tally.symm ▸ slot_lt bounds v), ih, List.length_append]
    rfl

theorem slot_eq_iff_first {v : α} {i : ℕ} (hi : i ≤ bounds.length) :
    slot le bounds v = i ↔ (∀ b ∈ bounds.take i, le v b = false) ∧ bounds[i]?.all (le v) = true := by
  rcases Nat.lt_or_eq_of_le hi with hlt | rfl
  · rw [slot, List.findIdx_eq hlt, List.getElem?_eq_getElem hlt, Option.all_some, and_comm]
    refine and_congr_left' ⟨fun hnone b hb => ?_, fun hnone j hj => ?_⟩
    · obtain ⟨j, hj, rfl⟩ := List.mem_take_iff_getElem.1 hb
      exact hnone j (hj.trans_le (Nat.min_le_left _ _))
    · exact hnone _ (List.mem_take_iff_getElem.2 ⟨j, Nat.lt_min.2 ⟨hj, hj.trans hlt⟩, rfl⟩)
  · rw [slot, List.findIdx_eq_length, List.getElem?_eq_none le_rfl, Option.all_none, List.take_length]
    exact (and_iff_left rfl).symm

section Ordered

variable {S : α → Prop} (ord : Ordered le lt S) (hbounds : ∀ b ∈ bounds, S b)
  (hascending : bounds.Pairwise fun a b => le a b = true)
include ord hbounds hascending

theorem above_iff {v : α} (hv : S v) {i : ℕ} (hi : i ≤ bounds.length) :
    above lt bounds i v = true ↔ ∀ b ∈ bounds.take i, le v b = false := by
  cases i with
  | zero => exact iff_of_true rfl fun b hb => absurd hb List.not_mem_nil
  | succ k =>
    have hsplit : bounds.take k ++ [bounds[k]] = bounds.take (k + 1) := List.take_append_getElem hi
    have hmem : ∀ b ∈ bounds.take (k + 1), S b := fun b hb => hbounds b (List.mem_of_mem_take hb)
    have hsorted := hascending.sublist (List.take_sublist (k + 1) bounds)
    rw [← hsplit] at hmem hsorted ⊢
    obtain ⟨hmem, hlast⟩ := List.forall_mem_append.1 hmem
    have hlast := hlast _ (List.mem_singleton_self _)
    rw [above, List.getElem?_eq_getElem hi, Option.all_some, ord.lt_iff _ _ hlast hv, Bool.not_eq_true]
    constructor
    · intro hgt
      refine List.forall_mem_append.2 ⟨fun b hb => ?_, fun b hb => List.mem_singleton.1 hb ▸ hgt⟩
      by_contra hle
      rw [Bool.not_eq_false] at hle
      have hbk : le b bounds[k] = true := (List.pairwise_append.1 hsorted).2.2 b hb _ (List.mem_singleton_self _)
      have hle := ord.trans _ _ _ hv (hmem b hb) hlast hle hbk
      rw [hgt] at hle
      cases hle
    · intro hnone
      exact hnone _ (List.mem_append_right _ (List.mem_singleton_self _))

theorem slot_eq_iff {v : α} (hv : S v) {i : ℕ} (hi : i ≤ bounds.length) :
    slot le bounds v = i ↔ inInterval le lt bounds i v = true := by
  rw [slot_eq_iff_first hi, inInterval, Bool.and_eq_true, above_iff ord hbounds hascending hv hi]

/-- **A tally of the slots counts the values of each interval.** -/
theorem getElem?_tally (hvs : ∀ v ∈ vs, S v) {i : ℕ} (hi : i ≤ bounds.length) :
    (tally le bounds vs)[i]? = some (vs.countP (inInterval le lt bounds i)) := by
  have hlen : i < (tally le bounds vs).length := by
    rw [length_tally]
    exact Nat.lt_succ_of_le hi
  rw [List.getElem?_eq_getElem hlen, getElem_tally hlen]
  refine congrArg some (List.countP_congr fun v hv => ?_)
  rw [beq_iff_eq]
  exact slot_eq_iff ord hbounds hascending (hvs v hv) hi

end Ordered

end Slots

/-! ### Extremes -/

section Extremes

variable (lt : α → α → Bool)

/-- The least and the greatest value so far, with one more. -/
def widen (mm : Option (α × α)) (v : α) : Option (α × α) :=
  match mm with
  | none => some (v, v)
  | some (lo, hi) => some (if lt v lo then v else lo, if lt hi v then v else hi)

def extremes (vs : List α) : Option (α × α) := vs.foldl (widen lt) none

variable {lt} {vs : List α}

theorem extremes_concat (v : α) : extremes lt (vs ++ [v]) = widen lt (extremes lt vs) v := by
  rw [extremes, List.foldl_append]
  rfl

theorem extremes_eq_none : extremes lt vs = none ↔ vs = [] := by
  induction vs using List.reverseRecOn with
  | nil => exact iff_of_true rfl rfl
  | append_singleton vs v ih =>
    rw [extremes_concat]
    refine iff_of_false ?_ (List.append_ne_nil_of_right_ne_nil vs (List.cons_ne_nil v []))
    unfold widen
    split <;> exact Option.some_ne_none _

section Ordered

variable {le : α → α → Bool} {S : α → Prop} (ord : Ordered le lt S)
include ord

theorem Ordered.refl {v : α} (hv : S v) : le v v = true := (ord.total v v hv hv).elim id id

theorem Ordered.le_of_lt {a v : α} (ha : S a) (hv : S v) (hlt : lt v a = true) : le v a = true :=
  (ord.total v a hv ha).resolve_right ((ord.lt_iff v a hv ha).1 hlt)

theorem Ordered.le_of_not_lt {a v : α} (ha : S a) (hv : S v) (hlt : ¬lt v a = true) : le a v = true :=
  not_not.1 (mt (ord.lt_iff v a hv ha).2 hlt)

theorem Ordered.lower_le {a v : α} (ha : S a) (hv : S v) :
    le (if lt v a then v else a) a = true ∧ le (if lt v a then v else a) v = true := by
  by_cases hlt : lt v a = true
  · rw [if_pos hlt]
    exact ⟨ord.le_of_lt ha hv hlt, ord.refl hv⟩
  · rw [if_neg hlt]
    exact ⟨ord.refl ha, ord.le_of_not_lt ha hv hlt⟩

theorem Ordered.le_upper {a v : α} (ha : S a) (hv : S v) :
    le a (if lt a v then v else a) = true ∧ le v (if lt a v then v else a) = true := by
  by_cases hlt : lt a v = true
  · rw [if_pos hlt]
    exact ⟨ord.le_of_lt hv ha hlt, ord.refl hv⟩
  · rw [if_neg hlt]
    exact ⟨ord.refl ha, ord.le_of_not_lt hv ha hlt⟩

omit ord in
theorem ite_mem_concat {c : Prop} [Decidable c] {x v : α} (hx : x ∈ vs) : (if c then v else x) ∈ vs ++ [v] := by
  split
  · exact List.mem_append_right vs (List.mem_singleton_self v)
  · exact List.mem_append_left [v] hx

/-- **The extremes** are values, and none is beyond them. -/
theorem extremes_some (hvs : ∀ v ∈ vs, S v) {lo hi : α} (hextremes : extremes lt vs = some (lo, hi)) :
    lo ∈ vs ∧ hi ∈ vs ∧ ∀ v ∈ vs, le lo v = true ∧ le v hi = true := by
  induction vs using List.reverseRecOn generalizing lo hi with
  | nil => cases hextremes
  | append_singleton vs v ih =>
    have hall := hvs
    obtain ⟨hvs, hv⟩ := List.forall_mem_append.1 hvs
    have hv : S v := hv v (List.mem_singleton_self v)
    rw [extremes_concat] at hextremes
    rcases hold : extremes lt vs with - | ⟨lo', hi'⟩
    · rw [hold] at hextremes
      cases hextremes
      rw [extremes_eq_none.1 hold]
      refine ⟨List.mem_singleton_self v, List.mem_singleton_self v, fun w hw => ?_⟩
      rw [List.mem_singleton.1 hw]
      exact ⟨ord.refl hv, ord.refl hv⟩
    · rw [hold] at hextremes
      cases hextremes
      obtain ⟨hlo, hhi, hbetween⟩ := ih hvs hold
      have hlower := ord.lower_le (hvs _ hlo) hv
      have hupper := ord.le_upper (hvs _ hhi) hv
      refine ⟨ite_mem_concat hlo, ite_mem_concat hhi, List.forall_mem_append.2 ⟨fun w hw => ⟨?_, ?_⟩, fun w hw => ?_⟩⟩
      · exact ord.trans _ _ _ (hall _ (ite_mem_concat hlo)) (hvs _ hlo) (hvs w hw) hlower.1 (hbetween w hw).1
      · exact ord.trans _ _ _ (hvs w hw) (hvs _ hhi) (hall _ (ite_mem_concat hhi)) (hbetween w hw).2 hupper.1
      · rw [List.mem_singleton.1 hw]
        exact ⟨hlower.2, hupper.2⟩

end Ordered

end Extremes

end OtlpC.Histogram
