import Mathlib.Data.List.Induction
import Mathlib.Data.List.Nodup

/-!
# Maps that keep the order of insertion

An association list without two entries of one key. A write to a key that is there replaces its value in place, and
one to a new key appends an entry.
-/

namespace OtlpC.OrderedMap

variable {κ ν : Type*}

def keys (m : List (κ × ν)) : List κ := m.map Prod.fst

@[simp] theorem keys_cons (e : κ × ν) (m : List (κ × ν)) : keys (e :: m) = e.1 :: keys m := rfl

variable [DecidableEq κ]

/-- A write. -/
def put (k : κ) (v : ν) : List (κ × ν) → List (κ × ν)
  | [] => [(k, v)]
  | e :: m => if e.1 = k then (e.1, v) :: m else e :: put k v m

/-- The value of a key. -/
def get? (k : κ) : List (κ × ν) → Option ν
  | [] => none
  | e :: m => if e.1 = k then some e.2 else get? k m

def ofWrites (ws : List (κ × ν)) : List (κ × ν) := ws.foldl (fun m w => put w.1 w.2 m) []

theorem ofWrites_append_singleton (ws : List (κ × ν)) (w : κ × ν) :
    ofWrites (ws ++ [w]) = put w.1 w.2 (ofWrites ws) := by
  rw [ofWrites, List.foldl_append]
  rfl

theorem ofWrites_induction {P : List (κ × ν) → Prop} (hnil : P []) (hput : ∀ k v m, P m → P (put k v m))
    (ws : List (κ × ν)) : P (ofWrites ws) := by
  induction ws using List.reverseRecOn with
  | nil => exact hnil
  | append_singleton ws w ih =>
    rw [ofWrites_append_singleton]
    exact hput w.1 w.2 _ ih

theorem keys_put (k : κ) (v : ν) (m : List (κ × ν)) :
    keys (put k v m) = if k ∈ keys m then keys m else keys m ++ [k] := by
  induction m with
  | nil => rfl
  | cons e m ih =>
    rw [put]
    by_cases he : e.1 = k
    · rw [if_pos he, keys_cons, keys_cons, if_pos (he ▸ List.mem_cons_self)]
    · have hmem : k ∈ e.1 :: keys m ↔ k ∈ keys m := by simp [Ne.symm he]
      rw [if_neg he, keys_cons, keys_cons, ih]
      simp only [hmem]
      split <;> rfl

theorem nodup_keys_put {k : κ} {v : ν} {m : List (κ × ν)} (h : (keys m).Nodup) : (keys (put k v m)).Nodup := by
  rw [keys_put]
  split
  · exact h
  · next hk =>
    rw [← List.concat_eq_append]
    exact .concat hk h

theorem nodup_keys_ofWrites (ws : List (κ × ν)) : (keys (ofWrites ws)).Nodup :=
  ofWrites_induction (P := fun m => (keys m).Nodup) List.nodup_nil (fun _ _ _ h => nodup_keys_put h) ws

theorem get?_put_self (k : κ) (v : ν) (m : List (κ × ν)) : get? k (put k v m) = some v := by
  induction m with
  | nil => simp [put, get?]
  | cons e m ih =>
    rw [put]
    by_cases he : e.1 = k
    · rw [if_pos he, get?, if_pos he]
    · rw [if_neg he, get?, if_neg he, ih]

theorem get?_put_of_ne {k k' : κ} (h : k' ≠ k) (v : ν) (m : List (κ × ν)) : get? k' (put k v m) = get? k' m := by
  induction m with
  | nil => simp [put, get?, Ne.symm h]
  | cons e m ih =>
    rw [put]
    by_cases he : e.1 = k
    · have hne : e.1 ≠ k' := fun heq => h (heq.symm.trans he)
      rw [if_pos he, get?, get?, if_neg hne, if_neg hne]
    · rw [if_neg he, get?, get?, ih]

/-- The last write of a key wins. -/
theorem get?_ofWrites (k : κ) (ws : List (κ × ν)) : get? k (ofWrites ws) = get? k ws.reverse := by
  induction ws using List.reverseRecOn with
  | nil => rfl
  | append_singleton ws w ih =>
    rw [ofWrites_append_singleton, List.reverse_append, List.reverse_singleton, List.singleton_append, get?]
    by_cases hk : w.1 = k
    · rw [if_pos hk, ← hk, get?_put_self]
    · rw [if_neg hk, get?_put_of_ne (Ne.symm hk), ih]

theorem mem_keys_ofWrites {k : κ} {ws : List (κ × ν)} : k ∈ keys (ofWrites ws) ↔ k ∈ keys ws := by
  induction ws using List.reverseRecOn with
  | nil => rfl
  | append_singleton ws w ih =>
    rw [ofWrites_append_singleton, keys_put]
    have happend : keys (ws ++ [w]) = keys ws ++ [w.1] := List.map_append
    rw [happend, List.mem_append, List.mem_singleton, ← ih]
    split
    · next hw => exact ⟨.inl, fun h => h.elim id fun heq => heq ▸ hw⟩
    · rw [List.mem_append, List.mem_singleton]

end OtlpC.OrderedMap
