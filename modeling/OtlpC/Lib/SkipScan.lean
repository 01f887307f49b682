import Mathlib.Data.List.Basic
import Mathlib.Data.List.TakeWhile

/-!
# Scanning with a skip

A scan that looks for the next `x` and goes on two entries behind it, whatever the entry between is. Where it
goes on is decided by how many `x` stand directly before: an `x` is found, rather than skipped, exactly when
their number is even (`mem_starts`).
-/

namespace OtlpC.SkipScan

variable {α : Type*} [DecidableEq α] {x : α}

def endRun (x : α) (l : List α) : ℕ := (l.reverse.takeWhile (· == x)).length

/-- Where the scan goes on, when it begins at `p` with `l` ahead: `p`, and two entries behind each `x` it
finds, as long as there is another `x` ahead. -/
def starts (x : α) : ℕ → ℕ → List α → List ℕ
  | 0, _, _ => []
  | rounds + 1, p, l =>
    let k := (l.takeWhile (· != x)).length
    if k = l.length then [] else p :: starts x rounds (p + k + 2) (l.drop (k + 2))

theorem le_of_mem_starts {rounds p q : ℕ} {l : List α} (h : q ∈ starts x rounds p l) : p ≤ q := by
  induction rounds generalizing p l with
  | zero => cases h
  | succ rounds ih =>
    rw [starts] at h
    split at h
    · cases h
    · rcases List.mem_cons.1 h with rfl | h
      · exact le_rfl
      · exact (by omega : p ≤ _).trans (ih h)

theorem pairwise_starts (rounds p : ℕ) (l : List α) : (starts x rounds p l).Pairwise (· < ·) := by
  induction rounds generalizing p l with
  | zero => exact .nil
  | succ rounds ih =>
    rw [starts]
    split
    · exact .nil
    · refine .cons (fun q hq => ?_) (ih _ _)
      have hle := le_of_mem_starts hq
      omega

theorem endRun_append (a b : List α) :
    endRun x (a ++ b) = if ∀ z ∈ b, z = x then b.length + endRun x a else endRun x b := by
  unfold endRun
  rw [List.reverse_append, List.takeWhile_append]
  split
  next hfull =>
    rw [List.length_reverse] at hfull
    have hall : ∀ z ∈ b, z = x := by
      have htake : b.reverse.takeWhile (· == x) = b.reverse :=
        (List.takeWhile_prefix _).eq_of_length (by rw [hfull, List.length_reverse])
      intro z hz
      have hmem := List.takeWhile_eq_self_iff.1 htake z (List.mem_reverse.2 hz)
      simpa using hmem
    rw [if_pos hall, List.length_append, List.length_reverse]
  next hpart =>
    have hnot : ¬∀ z ∈ b, z = x := by
      intro hall
      have htake : b.reverse.takeWhile (· == x) = b.reverse :=
        List.takeWhile_eq_self_iff.2 fun z hz => by simpa using hall z (List.mem_reverse.1 hz)
      exact hpart (by rw [htake])
    rw [if_neg hnot]

theorem endRun_of_forall {b : List α} (h : ∀ z ∈ b, z = x) : endRun x b = b.length := by
  have happend := endRun_append (x := x) [] b
  rw [if_pos h] at happend
  exact happend

theorem endRun_append_of_ne {a : List α} {z : α} (hz : z ≠ x) (b : List α) :
    endRun x (a ++ z :: b) = endRun x b := by
  rw [endRun_append, if_neg fun hall => hz (hall z List.mem_cons_self)]
  have hcons := endRun_append (x := x) [z] b
  split at hcons
  next hall =>
    rw [List.singleton_append] at hcons
    rw [hcons, endRun_of_forall hall]
    simp [endRun, hz]
  next hnot => exact hcons

/-- A part that ends with an even number of `x` does not change the parity of what follows. -/
theorem endRun_append_even {a : List α} (ha : endRun x a % 2 = 0) (b : List α) :
    endRun x (a ++ b) % 2 = endRun x b % 2 := by
  rw [endRun_append]
  split
  next hall =>
    rw [endRun_of_forall hall]
    omega
  · rfl

theorem takeWhile_of_notMem {a : List α} (ha : x ∉ a) (b : List α) :
    (a ++ x :: b).takeWhile (· != x) = a := by
  have hall : ∀ z ∈ a, (z != x) = true := fun z hz => bne_iff_ne.2 fun h => ha (h ▸ hz)
  rw [List.takeWhile_append, List.takeWhile_eq_self_iff.2 hall, if_pos rfl, List.takeWhile_cons]
  simp

theorem endRun_of_notMem {a : List α} (ha : x ∉ a) : endRun x a = 0 := by
  rw [endRun, List.length_eq_zero_iff]
  cases hrev : a.reverse with
  | nil => rfl
  | cons z rest =>
    have hz : z ∈ a := List.mem_reverse.1 (hrev ▸ List.mem_cons_self)
    have hne : ¬z = x := fun h => ha (h ▸ hz)
    rw [List.takeWhile_cons, if_neg (by simpa using hne)]

theorem endRun_snoc {a : List α} (ha : x ∉ a) : endRun x (a ++ [x]) = 1 := by
  rw [endRun_append, if_pos (by simp), endRun_of_notMem ha]
  rfl

/-- The entries the scan has passed when it goes on end with none of the `x` or with two. -/
theorem endRun_passed {a : List α} (ha : x ∉ a) (y : α) : endRun x (a ++ [x, y]) % 2 = 0 := by
  rw [show a ++ [x, y] = a ++ [x] ++ [y] by simp, endRun_append]
  split
  · rw [endRun_snoc ha, List.length_singleton]
  next hnot =>
    have hy : ¬y = x := fun h => hnot (by simp [h])
    rw [endRun_of_notMem (by simpa using fun h => hy h.symm)]

/-- What the scan finds: the first `x`, and what it finds in the list that is left two entries behind it. -/
theorem found_iff {a : List α} (ha : x ∉ a) (b : List α) (e : ℕ) :
    (a ++ x :: b)[e]? = some x ∧ endRun x ((a ++ x :: b).take e) % 2 = 0 ↔
      e = a.length ∨ ∃ e', e = a.length + 2 + e' ∧ (b.drop 1)[e']? = some x ∧
        endRun x ((b.drop 1).take e') % 2 = 0 := by
  have hentry : ∀ j, (a ++ x :: b)[a.length + 1 + j]? = b[j]? ∧
      (a ++ x :: b).take (a.length + 1 + j) = a ++ [x] ++ b.take j := by
    intro j
    rw [Nat.add_assoc, Nat.add_comm 1 j, List.getElem?_append_right (by omega), List.take_length_add_append,
      Nat.add_sub_cancel_left, List.getElem?_cons_succ, List.take_succ_cons, List.append_assoc]
    exact ⟨rfl, rfl⟩
  rcases Nat.lt_trichotomy e a.length with hlt | rfl | hgt
  · refine iff_of_false (fun h => ?_) (by omega)
    rw [List.getElem?_append_left hlt] at h
    exact ha (List.mem_of_getElem? h.1)
  · rw [List.take_left, endRun_of_notMem ha]
    simp
  · obtain ⟨j, rfl⟩ : ∃ j, e = a.length + 1 + j := ⟨e - (a.length + 1), by omega⟩
    rw [(hentry j).1, (hentry j).2]
    cases j with
    | zero =>
      -- the entry behind an `x` that was found is skipped
      refine iff_of_false (fun h => ?_) (by omega)
      rw [List.take_zero, List.append_nil, endRun_snoc ha] at h
      omega
    | succ e =>
      have hshift : ∀ e', a.length + 1 + (e + 1) = a.length + 2 + e' ↔ e' = e := fun e' => by omega
      have hnot : ¬a.length + 1 + (e + 1) = a.length := by omega
      simp only [hshift, exists_eq_left, hnot, false_or]
      cases b with
      | nil => simp
      | cons y b =>
        rw [List.getElem?_cons_succ, List.drop_one, List.tail_cons, List.take_succ_cons,
          show a ++ [x] ++ y :: b.take e = a ++ [x, y] ++ b.take e by simp,
          endRun_append_even (endRun_passed ha y)]

/-- **Where the scan goes on.** At its first entry, and two entries behind every `x` with an even number of `x`
directly before it, as long as there is another `x` ahead. -/
theorem mem_starts {rounds p q : ℕ} {l : List α} (h : l.length ≤ rounds) :
    q ∈ starts x rounds p l ↔
      (q = p ∨ ∃ e, q = p + e + 2 ∧ l[e]? = some x ∧ endRun x (l.take e) % 2 = 0) ∧ x ∈ l.drop (q - p) := by
  induction rounds generalizing p l with
  | zero =>
    have hnil : l = [] := List.length_eq_zero_iff.1 (Nat.le_zero.1 h)
    simp [hnil, starts]
  | succ rounds ih =>
    by_cases hmem : x ∈ l
    · obtain ⟨a, b, rfl, ha⟩ := List.eq_append_cons_of_mem hmem
      have hlen : (a ++ x :: b).length = a.length + b.length + 1 := by
        rw [List.length_append, List.length_cons]
        omega
      have hdrop : (a ++ x :: b).drop (a.length + 2) = b.drop 1 := by
        rw [← List.drop_drop, List.drop_left]
        rfl
      rw [starts, takeWhile_of_notMem ha]
      rw [if_neg (by omega), hdrop, List.mem_cons, ih (by rw [List.length_drop]; omega)]
      simp only [found_iff ha]
      have hahead : ∀ n, (a ++ x :: b).drop (a.length + 2 + n) = (b.drop 1).drop n := fun n => by
        rw [← List.drop_drop, hdrop]
      constructor
      · rintro (rfl | ⟨rfl | ⟨e, rfl, hfound⟩, hnext⟩)
        · rw [Nat.sub_self]
          exact ⟨.inl rfl, hmem⟩
        · refine ⟨.inr ⟨a.length, by omega, .inl rfl⟩, ?_⟩
          rw [Nat.sub_self] at hnext
          rw [show p + a.length + 2 - p = a.length + 2 + 0 by omega, hahead]
          exact hnext
        · refine ⟨.inr ⟨a.length + 2 + e, by omega, .inr ⟨e, rfl, hfound⟩⟩, ?_⟩
          rw [show p + a.length + 2 + e + 2 - (p + a.length + 2) = e + 2 by omega] at hnext
          rw [show p + a.length + 2 + e + 2 - p = a.length + 2 + (e + 2) by omega, hahead]
          exact hnext
      · rintro ⟨rfl | ⟨e, rfl, rfl | ⟨e', rfl, hfound⟩⟩, hnext⟩
        · exact .inl rfl
        · refine .inr ⟨.inl (by omega), ?_⟩
          rw [show p + a.length + 2 - p = a.length + 2 + 0 by omega, hahead] at hnext
          rw [show p + a.length + 2 - (p + a.length + 2) = 0 by omega]
          exact hnext
        · refine .inr ⟨.inr ⟨e', by omega, hfound⟩, ?_⟩
          rw [show p + (a.length + 2 + e') + 2 - p = a.length + 2 + (e' + 2) by omega, hahead] at hnext
          rw [show p + (a.length + 2 + e') + 2 - (p + a.length + 2) = e' + 2 by omega]
          exact hnext
    · have htake : l.takeWhile (· != x) = l :=
        List.takeWhile_eq_self_iff.2 fun z hz => bne_iff_ne.2 fun heq => hmem (heq ▸ hz)
      rw [starts, htake]
      rw [if_pos rfl]
      exact iff_of_false List.not_mem_nil fun hq => hmem (List.mem_of_mem_drop hq.2)

end OtlpC.SkipScan
