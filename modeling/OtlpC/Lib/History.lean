import Mathlib.Data.List.Basic

/-!
# Histories

A history is a list of observations, oldest first. `Preceded R h` says that every observation of `h`
stands in the relation `R` to what comes before it: that a use is preceded by what allows it, or by
nothing that forbids it.
-/

namespace OtlpC.History

variable {α : Type*}

/-- Every observation is `R`-related to what comes before it. -/
def Preceded (R : List α → α → Prop) (h : List α) : Prop := ∀ pre a post, h = pre ++ a :: post → R pre a

variable {R : List α → α → Prop}

theorem preceded_nil : Preceded R [] := by
  intro pre a post heq
  simp at heq

theorem preceded_concat {h : List α} {a : α} : Preceded R (h ++ [a]) ↔ Preceded R h ∧ R h a := by
  constructor
  · intro hp
    refine ⟨fun pre b post heq => hp pre b (post ++ [a]) (by rw [heq]; simp), hp h a [] rfl⟩
  · rintro ⟨hp, ha⟩ pre b post heq
    rcases List.eq_nil_or_concat post with rfl | ⟨post', c, rfl⟩
    · -- `b` is the last observation
      obtain ⟨rfl, hab⟩ := List.append_inj' heq rfl
      obtain rfl : a = b := by simpa using hab
      exact ha
    · have heq' : h ++ [a] = (pre ++ b :: post') ++ [c] := by simpa using heq
      exact hp pre b post' (List.append_inj' heq' rfl).1

theorem Preceded.append_free {h obs : List α} (hp : Preceded R h) (hobs : ∀ a ∈ obs, ∀ pre, R pre a) :
    Preceded R (h ++ obs) := by
  induction obs generalizing h with
  | nil => rwa [List.append_nil]
  | cons a obs ih =>
    rw [List.append_cons]
    refine ih (preceded_concat.2 ⟨hp, hobs a List.mem_cons_self h⟩) ?_
    exact fun b hb => hobs b (List.mem_cons_of_mem a hb)

theorem Preceded.append_mono {h obs : List α} (hR : ∀ pre more a, R pre a → R (pre ++ more) a)
    (hp : Preceded R h) (hobs : ∀ a ∈ obs, R h a) : Preceded R (h ++ obs) := by
  induction obs generalizing h with
  | nil => rwa [List.append_nil]
  | cons a obs ih =>
    rw [List.append_cons]
    refine ih (preceded_concat.2 ⟨hp, hobs a List.mem_cons_self⟩) ?_
    exact fun b hb => hR h [a] b (hobs b (List.mem_cons_of_mem a hb))

/-- Observations that a reading of the history, folded over it, ignores. -/
theorem foldl_ignored {β : Type*} {f : β → α → β} {b : β} {obs : List α} (h : ∀ a ∈ obs, f b a = b) :
    obs.foldl f b = b := by
  induction obs with
  | nil => rfl
  | cons a obs ih =>
    rw [List.foldl_cons, h a List.mem_cons_self]
    exact ih fun c hc => h c (List.mem_cons_of_mem a hc)

end OtlpC.History
