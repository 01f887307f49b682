import Mathlib.Data.List.Basic

/-!
# Numerals

A numeral system is given by tables that list its digits in the order of their values; a system that writes a
digit in more than one way has a table for each. Numerals are read from the highest digit on.
-/

namespace OtlpC.Numerals

variable {α : Type*} [DecidableEq α] {tables : List (List α)}

/-- The value of a digit: its place in the first table that lists it. -/
def valueOf (tables : List (List α)) (c : α) : Option ℕ := tables.findSome? (·.idxOf? c)

/-- The number that `digits` denote behind others that denote `n`. -/
def numeral (tables : List (List α)) (base n : ℕ) : List α → Option ℕ
  | [] => some n
  | c :: digits => (valueOf tables c).bind fun d => numeral tables base (n * base + d) digits

theorem exists_of_valueOf {c : α} {d : ℕ} (h : valueOf tables c = some d) :
    ∃ table ∈ tables, table[d]? = some c := by
  obtain ⟨table, hmem, hidx⟩ := List.exists_of_findSome?_eq_some h
  rw [List.idxOf?, List.findIdx?_eq_some_iff_getElem] at hidx
  obtain ⟨hlt, heq, -⟩ := hidx
  refine ⟨table, hmem, ?_⟩
  rw [List.getElem?_eq_getElem hlt, beq_iff_eq.1 heq]

theorem numeral_cons_eq_some {base n m : ℕ} {c : α} {digits : List α} :
    numeral tables base n (c :: digits) = some m ↔
      ∃ d, valueOf tables c = some d ∧ numeral tables base (n * base + d) digits = some m := by
  rw [numeral, Option.bind_eq_some_iff]

theorem le_of_numeral {base n m : ℕ} (hbase : 0 < base) {digits : List α}
    (h : numeral tables base n digits = some m) : n ≤ m := by
  induction digits generalizing n with
  | nil => exact Nat.le_of_eq (Option.some.inj h)
  | cons c digits ih =>
    obtain ⟨d, -, hrest⟩ := numeral_cons_eq_some.1 h
    have hmul := Nat.le_mul_of_pos_right n hbase
    have hle := ih hrest
    omega

theorem forall_of_numeral {base n m : ℕ} {digits : List α} (h : numeral tables base n digits = some m) :
    ∀ c ∈ digits, ∃ d, valueOf tables c = some d := by
  induction digits generalizing n with
  | nil => simp
  | cons c digits ih =>
    obtain ⟨d, hd, hrest⟩ := numeral_cons_eq_some.1 h
    rw [List.forall_mem_cons]
    exact ⟨⟨d, hd⟩, ih hrest⟩

/-- What a reader with its own test and its own values finds, when these are those of the tables. -/
theorem numeral_eq_some {isDigit : α → Bool} {digitValue : α → ℕ}
    (htable : ∀ c, valueOf tables c = if isDigit c then some (digitValue c) else none) {base n m : ℕ}
    {digits : List α} : numeral tables base n digits = some m ↔
      (∀ c ∈ digits, isDigit c = true) ∧ digits.foldl (fun n c => n * base + digitValue c) n = m := by
  induction digits generalizing n with
  | nil => simp [numeral]
  | cons c digits ih =>
    rw [numeral_cons_eq_some, List.forall_mem_cons, List.foldl_cons, htable]
    by_cases hc : isDigit c = true
    · simp [hc, ih]
    · simp [hc]

end OtlpC.Numerals
