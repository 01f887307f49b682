import Mathlib.Data.List.Basic
import Mathlib.Data.List.Infix
import Mathlib.Order.Basic

/-!
# The first occurrence of a word

`FirstAt needle hay i` says that `needle` stands in `hay` at position `i` and nowhere before it. It is
settled by the first `i + needle.length` entries of `hay` (`FirstAt.append`, `FirstAt.of_append`), so that
what follows them does not matter. `splitPair a b` cuts a list at every `a` followed by `b`, and undoes the joining of
words without `a` (`splitPair_join`).
-/

namespace OtlpC.Occurrence

variable {α : Type*} {needle hay a s : List α} {i j : ℕ}

def OccursAt (needle hay : List α) (i : ℕ) : Prop := needle <+: hay.drop i

instance [DecidableEq α] : Decidable (OccursAt needle hay i) := inferInstanceAs (Decidable (_ <+: _))

/-- `needle` stands in `hay` at position `i` and nowhere before it. -/
structure FirstAt (needle hay : List α) (i : ℕ) : Prop where
  occurs : OccursAt needle hay i
  first : ∀ j < i, ¬OccursAt needle hay j

theorem occursAt_iff : OccursAt needle hay i ↔ (hay.drop i).take needle.length = needle := by
  rw [OccursAt, List.prefix_iff_eq_take, eq_comm]

theorem OccursAt.le (h : OccursAt needle hay i) (hne : needle ≠ []) : i + needle.length ≤ hay.length := by
  have hlen := h.length_le
  have hpos := List.length_pos_iff.2 hne
  rw [List.length_drop] at hlen
  omega

theorem OccursAt.append (h : OccursAt needle a i) (s : List α) : OccursAt needle (a ++ s) i := by
  rw [OccursAt, List.drop_append]
  exact h.trans (List.prefix_append _ _)

theorem OccursAt.of_append (h : OccursAt needle (a ++ s) i) (hle : i + needle.length ≤ a.length) :
    OccursAt needle a i := by
  rw [OccursAt, List.drop_append_of_le_length (by omega)] at h
  refine List.prefix_of_prefix_length_le h (List.prefix_append _ _) ?_
  rw [List.length_drop]
  omega

theorem FirstAt.append (h : FirstAt needle a i) (hne : needle ≠ []) (s : List α) :
    FirstAt needle (a ++ s) i where
  occurs := h.occurs.append s
  first j hj hocc := by
    have hle := h.occurs.le hne
    exact h.first j hj (hocc.of_append (by omega))

theorem FirstAt.of_append (h : FirstAt needle (a ++ s) i) (hle : i + needle.length ≤ a.length) :
    FirstAt needle a i where
  occurs := h.occurs.of_append hle
  first j hj hocc := h.first j hj (hocc.append s)

theorem FirstAt.cons {x : α} (h : FirstAt needle hay i) (hnot : ¬needle <+: x :: hay) :
    FirstAt needle (x :: hay) (i + 1) where
  occurs := h.occurs
  first j hj hocc := by
    cases j with
    | zero => exact hnot hocc
    | succ j => exact h.first j (by omega) hocc

/-- A word without the first entry of `needle` only moves its first occurrence. -/
theorem FirstAt.append_left {x : α} {l : List α} (h : FirstAt (x :: needle) hay i) (hl : x ∉ l) :
    FirstAt (x :: needle) (l ++ hay) (l.length + i) := by
  induction l with
  | nil => simpa using h
  | cons z l ih =>
    rw [List.mem_cons, not_or] at hl
    rw [List.cons_append, List.length_cons, Nat.add_right_comm]
    refine (ih hl.2).cons fun hpre => ?_
    exact hl.1 (List.cons_prefix_cons.1 hpre).1

theorem head?_append_ne {x : α} {l : List α} (hl : x ∉ l) (hne : l ≠ []) (s : List α) :
    (l ++ s).head? ≠ some x := by
  obtain ⟨z, l, rfl⟩ := List.exists_cons_of_ne_nil hne
  rw [List.cons_append, List.head?_cons, ne_eq, Option.some.injEq]
  rintro rfl
  exact hl List.mem_cons_self

/-- **No blank line before the end.** Words that are not empty and lack `x`, each ended by `x y`: the first
`x y x y` is the one that the last of them ends with. -/
theorem firstAt_join {x y : α} (hxy : x ≠ y) {ls : List (List α)} (hls : ∀ w ∈ ls, x ∉ w ∧ w ≠ [])
    {l : List α} (hl : x ∉ l) (hne : l ≠ []) (s : List α) :
    FirstAt [x, y, x, y] ((ls.flatMap fun w => w ++ [x, y]) ++ (l ++ ([x, y, x, y] ++ s)))
      ((ls.flatMap fun w => w ++ [x, y]) ++ l).length := by
  have hhead : ∀ ls : List (List α), (∀ w ∈ ls, x ∉ w ∧ w ≠ []) →
      ((ls.flatMap fun w => w ++ [x, y]) ++ (l ++ ([x, y, x, y] ++ s))).head? ≠ some x := by
    intro ls hls
    cases ls with
    | nil => exact head?_append_ne hl hne _
    | cons w ls =>
      rw [List.flatMap_cons, List.append_assoc, List.append_assoc]
      exact head?_append_ne (hls w List.mem_cons_self).1 (hls w List.mem_cons_self).2 _
  induction ls with
  | nil =>
    have hstart : FirstAt [x, y, x, y] ([x, y, x, y] ++ s) 0 :=
      ⟨List.prefix_append _ _, fun j hj => absurd hj (Nat.not_lt_zero j)⟩
    exact hstart.append_left hl
  | cons w ls ih =>
    rw [List.forall_mem_cons] at hls
    have hrest := ih hls.2
    have hstart := hhead ls hls.2
    simp only [List.flatMap_cons, List.append_assoc, List.length_append] at hrest hstart ⊢
    generalize (ls.flatMap fun w => w ++ [x, y]) ++ (l ++ ([x, y, x, y] ++ s)) = hay at hrest hstart ⊢
    -- neither of the two entries that end `w` begins an occurrence
    have hy : FirstAt [x, y, x, y] (y :: hay) _ :=
      hrest.cons fun hpre => hxy (List.cons_prefix_cons.1 hpre).1
    have hx : FirstAt [x, y, x, y] (x :: y :: hay) _ := hy.cons fun hpre => by
      obtain ⟨rest, hpre⟩ := hpre
      simp only [List.cons_append, List.cons.injEq, true_and] at hpre
      exact hstart (by rw [← hpre, List.head?_cons])
    have hw := hx.append_left hls.1.1
    simp only [List.cons_append, List.nil_append, List.length_cons, List.length_nil]
    convert hw using 1
    omega

/-! ### Cutting at a pair -/

/-- Cut a list at every `a` followed by `b`. -/
def splitPair [DecidableEq α] (a b : α) : List α → List (List α)
  | [] => [[]]
  | [x] => [[x]]
  | x :: y :: l =>
    if x = a ∧ y = b then [] :: splitPair a b l else (splitPair a b (y :: l)).modifyHead (x :: ·)

section SplitPair

variable [DecidableEq α] {x y : α} {l l' : List α}

theorem splitPair_of_notMem (h : x ∉ l) : splitPair x y l = [l] := by
  induction l with
  | nil => rfl
  | cons z l ih =>
    rw [List.mem_cons, not_or] at h
    cases l with
    | nil => rfl
    | cons w l =>
      rw [splitPair, if_neg (fun hzw => h.1 hzw.1.symm), ih h.2]
      rfl

theorem splitPair_append (h : x ∉ l) : splitPair x y (l ++ x :: y :: l') = l :: splitPair x y l' := by
  induction l with
  | nil => rw [List.nil_append, splitPair, if_pos ⟨rfl, rfl⟩]
  | cons z l ih =>
    rw [List.mem_cons, not_or] at h
    obtain ⟨w, rest, hrest⟩ : ∃ w rest, l ++ x :: y :: l' = w :: rest := by
      cases l with
      | nil => exact ⟨_, _, rfl⟩
      | cons w l => exact ⟨_, _, rfl⟩
    have hsplit := ih h.2
    rw [hrest] at hsplit
    rw [List.cons_append, hrest, splitPair, if_neg (fun hzw => h.1 hzw.1.symm), hsplit]
    rfl

/-- **Splitting undoes joining**, for words without the first entry of the separator. -/
theorem splitPair_join {ls : List (List α)} (hls : ∀ w ∈ ls, x ∉ w) (hlast : x ∉ l) :
    splitPair x y ((ls.flatMap fun w => w ++ [x, y]) ++ l) = ls ++ [l] := by
  induction ls with
  | nil => exact splitPair_of_notMem hlast
  | cons w ls ih =>
    rw [List.flatMap_cons, List.append_assoc, List.append_assoc]
    rw [List.forall_mem_cons] at hls
    exact (splitPair_append hls.1).trans (congrArg _ (ih hls.2))

theorem splitPair_ne_nil (x y : α) (l : List α) : splitPair x y l ≠ [] := by
  induction l using splitPair.induct x y with
  | case1 => simp [splitPair]
  | case2 z => simp [splitPair]
  | case3 z w l heq ih => rw [splitPair, if_pos heq]; simp
  | case4 z w l hne ih =>
    rw [splitPair, if_neg hne]
    obtain ⟨v, vs, hv⟩ := List.exists_cons_of_ne_nil ih
    rw [hv]
    simp

theorem splitPair_head {w : List α} (h : (splitPair x y l).head? = some w) :
    w = l ∨ ∃ s, l = w ++ x :: y :: s := by
  induction l using splitPair.induct x y generalizing w with
  | case1 => simpa [splitPair, eq_comm] using h
  | case2 z =>
    rw [splitPair, List.head?_cons, Option.some.injEq] at h
    exact .inl h.symm
  | case3 z v l heq ih =>
    rw [splitPair, if_pos heq, List.head?_cons, Option.some.injEq] at h
    exact .inr ⟨l, by rw [← h, heq.1, heq.2]; rfl⟩
  | case4 z v l hne ih =>
    rw [splitPair, if_neg hne, List.head?_modifyHead, Option.map_eq_some_iff] at h
    obtain ⟨u, hu, rfl⟩ := h
    obtain rfl | ⟨s, hs⟩ := ih hu
    · exact .inl rfl
    · exact .inr ⟨s, by rw [hs]; rfl⟩

/-- A word behind the first, with the words that follow it, is what the list behind a separator is cut into. -/
theorem exists_of_tail_splitPair {w : List α} {before after : List (List α)}
    (h : (splitPair x y l).tail = before ++ w :: after) :
    ∃ e, OccursAt [x, y] l e ∧ splitPair x y (l.drop (e + 2)) = w :: after := by
  induction l using splitPair.induct x y generalizing before with
  | case1 | case2 z => exact absurd (congrArg List.length h) (by simp [splitPair])
  | case3 z u l heq ih =>
    obtain ⟨rfl, rfl⟩ := heq
    rw [splitPair, if_pos ⟨rfl, rfl⟩, List.tail_cons] at h
    cases before with
    | nil => exact ⟨0, ⟨l, rfl⟩, h⟩
    | cons v before =>
      obtain ⟨e, hocc, hrest⟩ := @ih before (by rw [h]; rfl)
      exact ⟨e + 2, hocc, hrest⟩
  | case4 z v l hne ih =>
    have htail : (splitPair x y (z :: v :: l)).tail = (splitPair x y (v :: l)).tail := by
      rw [splitPair, if_neg hne]
      cases splitPair x y (v :: l) <;> rfl
    obtain ⟨e, hocc, hrest⟩ := @ih before (htail.symm.trans h)
    exact ⟨e + 1, hocc, hrest⟩

/-- **The words behind the first** stand behind the separators. -/
theorem mem_tail_splitPair {w : List α} (hxy : x ≠ y) :
    w ∈ (splitPair x y l).tail ↔
      ∃ e, OccursAt [x, y] l e ∧ (splitPair x y (l.drop (e + 2))).head? = some w := by
  induction l using splitPair.induct x y with
  | case1 => simp [splitPair, OccursAt]
  | case2 z =>
    refine iff_of_false (by simp [splitPair]) ?_
    rintro ⟨e, hocc, -⟩
    have hle := hocc.le (by simp)
    simp at hle
  | case3 z u l heq ih =>
    obtain ⟨rfl, rfl⟩ := heq
    rw [splitPair, if_pos ⟨rfl, rfl⟩, List.tail_cons]
    obtain ⟨v, vs, hv⟩ := List.exists_cons_of_ne_nil (splitPair_ne_nil _ _ l)
    rw [hv, List.tail_cons] at ih
    rw [hv, List.mem_cons, ih]
    constructor
    · rintro (rfl | ⟨e, hocc, hhead⟩)
      · exact ⟨0, ⟨l, rfl⟩, by rw [Nat.zero_add, List.drop_succ_cons, List.drop_succ_cons, List.drop_zero, hv]; rfl⟩
      · exact ⟨e + 2, hocc, hhead⟩
    · rintro ⟨e, hocc, hhead⟩
      match e with
      | 0 =>
        rw [Nat.zero_add, List.drop_succ_cons, List.drop_succ_cons, List.drop_zero, hv, List.head?_cons,
          Option.some.injEq] at hhead
        exact .inl hhead.symm
      | 1 =>
        -- the second entry of the separator does not begin another
        exact absurd (List.cons_prefix_cons.1 hocc).1 hxy
      | e + 2 => exact .inr ⟨e, hocc, hhead⟩
  | case4 z v l hne ih =>
    have htail : (splitPair x y (z :: v :: l)).tail = (splitPair x y (v :: l)).tail := by
      rw [splitPair, if_neg hne]
      cases splitPair x y (v :: l) <;> rfl
    rw [htail, ih]
    constructor
    · rintro ⟨e, hocc, hhead⟩
      exact ⟨e + 1, hocc, hhead⟩
    · rintro ⟨e, hocc, hhead⟩
      cases e with
      | zero =>
        obtain ⟨hz, hrest⟩ := List.cons_prefix_cons.1 hocc
        exact absurd ⟨hz.symm, (List.cons_prefix_cons.1 hrest).1.symm⟩ hne
      | succ e => exact ⟨e, hocc, hhead⟩

/-- **A block of lines reads back.** Lines that are not empty and lack `x`, each ended by `x y`, and one
more `x y` after the last: what stands before the first `x y x y` splits into the lines, and what was
appended follows. -/
theorem exists_firstAt_lines (hxy : x ≠ y) {ls : List (List α)} (hls : ∀ w ∈ ls, x ∉ w ∧ w ≠ [])
    (hne : ls ≠ []) (s : List α) :
    ∃ i, FirstAt [x, y, x, y] ((ls.flatMap fun w => w ++ [x, y]) ++ ([x, y] ++ s)) i ∧
      splitPair x y (((ls.flatMap fun w => w ++ [x, y]) ++ ([x, y] ++ s)).take i) = ls ∧
      ((ls.flatMap fun w => w ++ [x, y]) ++ ([x, y] ++ s)).drop (i + 4) = s := by
  obtain ⟨ls, l, rfl⟩ := (List.eq_nil_or_concat' ls).resolve_left hne
  have hlast := hls l (by simp)
  have hinit : ∀ w ∈ ls, x ∉ w ∧ w ≠ [] := fun w hw => hls w (List.mem_append_left _ hw)
  have hsplit := splitPair_join (y := y) (fun w hw => (hinit w hw).1) hlast.1
  have hbytes : ((ls ++ [l]).flatMap fun w => w ++ [x, y]) ++ ([x, y] ++ s) =
      (ls.flatMap fun w => w ++ [x, y]) ++ (l ++ ([x, y, x, y] ++ s)) := by simp
  have hassoc : (ls.flatMap fun w => w ++ [x, y]) ++ (l ++ ([x, y, x, y] ++ s)) =
      (ls.flatMap fun w => w ++ [x, y]) ++ l ++ ([x, y, x, y] ++ s) := (List.append_assoc _ _ _).symm
  refine ⟨((ls.flatMap fun w => w ++ [x, y]) ++ l).length, ?_, ?_, ?_⟩
  · rw [hbytes]
    exact firstAt_join hxy hinit hlast.1 hlast.2 s
  · rw [hbytes, hassoc, List.take_left, hsplit]
  · rw [hbytes, hassoc, ← List.drop_drop, List.drop_left]
    rfl

end SplitPair

end OtlpC.Occurrence
