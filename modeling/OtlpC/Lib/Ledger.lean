import Mathlib.Data.List.Perm.Basic
import Mathlib.Data.List.Perm.Subperm

/-!
# Ledgers of owned resources

A ledger lists what has been acquired, what has been released and what is held. It is exact when each
resource acquired is released or held once, and sound when nothing is released or held more often than
it was acquired. A `Move` acquires and releases without losing anything: it keeps a ledger exact or
not, and keeps it sound. A resource that is held no longer without a release is lost for good: the
ledger stays sound and is never exact again.
-/

namespace OtlpC

structure Ledger (α : Type*) where
  acquired : List α
  released : List α
  held : List α

namespace Ledger

variable {α : Type*}

def empty : Ledger α := ⟨[], [], []⟩

/-- Each resource acquired has been released or is held, once for each time it was acquired. -/
def Exact (L : Ledger α) : Prop := (L.released ++ L.held).Perm L.acquired

/-- No resource has been released or is held more often than it was acquired. -/
def Sound (L : Ledger α) : Prop := (L.released ++ L.held).Subperm L.acquired

/-- What is acquired on the way from `L` to `L'` is what is released or held there besides. -/
def Move (L L' : Ledger α) : Prop :=
  ∃ xs, L'.acquired = L.acquired ++ xs ∧ (L'.released ++ L'.held).Perm (L.released ++ L.held ++ xs)

theorem exact_empty : (empty : Ledger α).Exact := List.Perm.refl _

theorem Exact.sound {L : Ledger α} (h : L.Exact) : L.Sound := h.subperm

theorem Move.exact_iff {L L' : Ledger α} (h : Move L L') : L'.Exact ↔ L.Exact := by
  obtain ⟨xs, hacquired, hperm⟩ := h
  unfold Exact
  rw [hacquired]
  constructor
  · intro h
    exact (List.perm_append_right_iff xs).1 (hperm.symm.trans h)
  · intro h
    exact hperm.trans (h.append_right xs)

theorem Move.sound {L L' : Ledger α} (h : Move L L') (hs : L.Sound) : L'.Sound := by
  obtain ⟨xs, hacquired, hperm⟩ := h
  unfold Sound
  rw [hacquired, hperm.subperm_right]
  exact (List.subperm_append_right xs).2 hs

theorem Move.keep {a r h h' : List α} (hperm : h'.Perm h) : Move ⟨a, r, h⟩ ⟨a, r, h'⟩ :=
  ⟨[], by simp, by simpa using hperm.append_left r⟩

theorem Move.acquire {a r h h' : List α} {x : α} (hperm : h'.Perm (h ++ [x])) :
    Move ⟨a, r, h⟩ ⟨a ++ [x], r, h'⟩ :=
  ⟨[x], rfl, by simpa using hperm.append_left r⟩

theorem Move.release {a r h h' xs : List α} (hperm : h.Perm (xs ++ h')) :
    Move ⟨a, r, h⟩ ⟨a, r ++ xs, h'⟩ :=
  ⟨[], by simp, by simpa using hperm.symm.append_left r⟩

theorem Move.pass {a r h : List α} (xs : List α) : Move ⟨a, r, h⟩ ⟨a ++ xs, r ++ xs, h⟩ :=
  ⟨xs, rfl, by simpa using List.perm_append_comm.append_left r⟩

theorem Move.trans {L L' L'' : Ledger α} (h : Move L L') (h' : Move L' L'') : Move L L'' := by
  obtain ⟨xs, hacquired, hperm⟩ := h
  obtain ⟨ys, hacquired', hperm'⟩ := h'
  refine ⟨xs ++ ys, by rw [hacquired', hacquired, List.append_assoc], ?_⟩
  rw [← List.append_assoc]
  exact hperm'.trans (hperm.append_right ys)

theorem sound_of_lose {a r h : List α} {x : α} (hs : Sound ⟨a, r, x :: h⟩) : Sound ⟨a, r, h⟩ :=
  ((List.sublist_cons_self x h).append_left r).subperm.trans hs

theorem not_exact_of_lose {a r h : List α} {x : α} (hs : Sound ⟨a, r, x :: h⟩) : ¬Exact ⟨a, r, h⟩ := by
  intro hexact
  have hle := hs.length_le
  have heq := hexact.length_eq
  simp only [List.length_append, List.length_cons] at hle heq
  omega

theorem Exact.released_perm {a r : List α} (h : Exact ⟨a, r, []⟩) : r.Perm a := by
  unfold Exact at h
  rwa [List.append_nil] at h

/-- What several holders hold when one of them has got more. -/
theorem flatMap_grow {κ β : Type*} [DecidableEq κ] {l : List κ} (hnodup : l.Nodup) {a : κ} (ha : a ∈ l)
    {f g : κ → List β} {xs : List β} (hsame : ∀ b, b ≠ a → g b = f b) (hgrow : (g a).Perm (f a ++ xs)) :
    (l.flatMap g).Perm (l.flatMap f ++ xs) := by
  have hrest : (l.erase a).flatMap g = (l.erase a).flatMap f :=
    List.flatMap_congr fun b hb => hsame b fun hab => hnodup.not_mem_erase (hab ▸ hb)
  calc (l.flatMap g).Perm ((a :: l.erase a).flatMap g) := (List.perm_cons_erase ha).flatMap_right g
    _ = g a ++ (l.erase a).flatMap f := by rw [List.flatMap_cons, hrest]
    List.Perm _ ((f a ++ xs) ++ (l.erase a).flatMap f) := hgrow.append_right _
    List.Perm _ (f a ++ (l.erase a).flatMap f ++ xs) := by
      rw [List.append_assoc, List.append_assoc]
      exact List.perm_append_comm.append_left _
    _ = (a :: l.erase a).flatMap f ++ xs := by rw [List.flatMap_cons]
    List.Perm _ (l.flatMap f ++ xs) := ((List.perm_cons_erase ha).flatMap_right f).symm.append_right xs

end Ledger

end OtlpC
