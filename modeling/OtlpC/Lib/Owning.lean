import Mathlib.Data.Multiset.AddSub
import Mathlib.Algebra.BigOperators.Group.Multiset.Basic
import Mathlib.Tactic.Abel

/-!
# Programs that own resources

A program over a state that holds resources is said by what it takes over from its caller and what it hands back:
`Owning pre f post`. The rest of what is held stays as it is, so that a call of a program fits into any larger
one (`Owning.step`). The rules follow the program: one for a value that is returned, one for a call and what comes
after it, one for a loop that gives everything back, one for a loop that stops at the first failure and undoes
what it did.
-/

namespace OtlpC

section

variable {σ α β : Type} {ρ : Type*}

/-- Out of `pre` the program makes what `post` says of its result, and it leaves alone what else is held. -/
def Owning (held : σ → Multiset ρ) (Sound : σ → Prop) (pre : Multiset ρ) (f : StateM σ α) (post : α → Multiset ρ) :
    Prop :=
  ∀ s rest, Sound s → held s = pre + rest → Sound (f s).2 ∧ held (f s).2 = post (f s).1 + rest

namespace Owning

variable {held : σ → Multiset ρ} {Sound : σ → Prop} {pre : Multiset ρ} {post : α → Multiset ρ}

theorem pure {a : α} (h : pre = post a) : Owning held Sound pre (Pure.pure a) post :=
  fun _ _ hs hheld => ⟨hs, h ▸ hheld⟩

/-- A call, framed by what it does not touch, and what comes after it. -/
theorem step {f : StateM σ α} {g : α → StateM σ β} {p r : Multiset ρ} {q : α → Multiset ρ} {post : β → Multiset ρ}
    (hf : Owning held Sound p f q) (hpre : pre = p + r) (hg : ∀ a, Owning held Sound (q a + r) (g a) post) :
    Owning held Sound pre (f >>= g) post := by
  intro s rest hs hheld
  obtain ⟨hs, hheld⟩ := hf s (r + rest) hs (by rw [hheld, hpre, add_assoc])
  exact hg (f s).1 (f s).2 rest hs (by rw [hheld, add_assoc])

/-- A call that takes over all there is, or nothing of it. -/
theorem bind {f : StateM σ α} {g : α → StateM σ β} {q : α → Multiset ρ} {post : β → Multiset ρ}
    (hf : Owning held Sound pre f q) (hg : ∀ a, Owning held Sound (q a) (g a) post) :
    Owning held Sound pre (f >>= g) post :=
  hf.step (r := 0) (add_zero pre).symm fun a => (add_zero (q a)).symm ▸ hg a

theorem conseq {f : StateM σ α} {p : Multiset ρ} {q : α → Multiset ρ} (hf : Owning held Sound p f q) (hpre : pre = p)
    (hpost : ∀ a, q a = post a) : Owning held Sound pre f post := by
  intro s rest hs hheld
  rw [← hpost]
  exact hf s rest hs (hpre ▸ hheld)

theorem last {f : StateM σ α} {p r : Multiset ρ} {q : α → Multiset ρ} (hf : Owning held Sound p f q)
    (hpre : pre = p + r) (hpost : ∀ a, q a + r = post a) : Owning held Sound pre f post := by
  intro s rest hs hheld
  rw [← hpost, add_assoc]
  exact hf s (r + rest) hs (by rw [hheld, hpre, add_assoc])

theorem map {f : StateM σ α} {g : α → β} {q : α → Multiset ρ} {post : β → Multiset ρ}
    (hf : Owning held Sound pre f q) (hpost : ∀ a, q a = post (g a)) : Owning held Sound pre (g <$> f) post := by
  intro s rest hs hheld
  obtain ⟨hs, hheld⟩ := hf s rest hs hheld
  exact ⟨hs, hpost (f s).1 ▸ hheld⟩

end Owning

/-- What the result is, whatever the state. -/
def Returns (f : StateM σ α) (P : α → Prop) : Prop := ∀ s, P (f s).1

namespace Returns

variable {P : α → Prop}

theorem pure {a : α} (h : P a) : Returns (σ := σ) (Pure.pure a) P := fun _ => h

theorem conseq {f : StateM σ α} {Q : α → Prop} (hf : Returns f P) (h : ∀ a, P a → Q a) : Returns f Q :=
  fun s => h _ (hf s)

theorem bind {f : StateM σ β} {g : β → StateM σ α} (hg : ∀ b, Returns (g b) P) : Returns (f >>= g) P :=
  fun s => hg (f s).1 (f s).2

end Returns

/-- A call whose result is known to be of some kind. -/
theorem Owning.step_of {held : σ → Multiset ρ} {Sound : σ → Prop} {pre : Multiset ρ} {f : StateM σ α}
    {g : α → StateM σ β} {p r : Multiset ρ} {q : α → Multiset ρ} {post : β → Multiset ρ} {P : α → Prop}
    (hf : Owning held Sound p f q) (hP : Returns f P) (hpre : pre = p + r)
    (hg : ∀ a, P a → Owning held Sound (q a + r) (g a) post) : Owning held Sound pre (f >>= g) post := by
  intro s rest hs hheld
  obtain ⟨hs, hheld⟩ := hf s (r + rest) hs (by rw [hheld, hpre, add_assoc])
  exact hg (f s).1 (hP s) (f s).2 rest hs (by rw [hheld, add_assoc])

/-! ### Loops -/

/-- A loop that gives up one element after the other. -/
def releaseAll (release : α → StateM σ Unit) : List α → StateM σ Unit
  | [] => pure ()
  | x :: xs => do
    release x
    releaseAll release xs

theorem length_built_nil : ([] : List β).length = ([] : List α).length := rfl

theorem length_built_cons (x : α) {xs : List α} (y : β) (ys : { ys : List β // ys.length = xs.length }) :
    (y :: ys.1).length = (x :: xs).length := by
  rw [List.length_cons, List.length_cons, ys.2]

/-- A loop that makes one element after the other. When it cannot make one, it gives up those it has made, the last
one first. -/
def buildAll {ε : Type} (build : α → StateM σ (Except ε β)) (release : β → StateM σ Unit) :
    (xs : List α) → StateM σ (Except ε { ys : List β // ys.length = xs.length })
  | [] => pure (.ok ⟨[], length_built_nil⟩)
  | x :: xs => do
    match ← build x with
    | .error e => return .error e
    | .ok y =>
      match ← buildAll build release xs with
      | .error e =>
        release y
        return .error e
      | .ok ys => return .ok ⟨y :: ys.1, length_built_cons x y ys⟩

/-- What a result owns: nothing when there is none. -/
def okOwned {ε : Type} (owned : β → Multiset ρ) : Except ε β → Multiset ρ
  | .error _ => 0
  | .ok y => owned y

@[simp] theorem okOwned_ok {ε : Type} (owned : β → Multiset ρ) (y : β) : okOwned (ε := ε) owned (.ok y) = owned y := rfl

@[simp] theorem okOwned_error {ε : Type} (owned : β → Multiset ρ) (e : ε) : okOwned owned (.error e) = 0 := rfl

variable {held : σ → Multiset ρ} {Sound : σ → Prop}

theorem owning_releaseAll {owned : α → Multiset ρ} {release : α → StateM σ Unit}
    (hrelease : ∀ x, Owning held Sound (owned x) (release x) fun _ => 0) (xs : List α) :
    Owning held Sound (xs.map owned).sum (releaseAll release xs) fun _ => 0 := by
  induction xs with
  | nil => exact .pure rfl
  | cons x xs ih =>
    rw [List.map_cons, List.sum_cons]
    exact (hrelease x).step rfl fun _ => ih.last (r := 0) (by simp) fun _ => rfl

/-- **All or nothing**: the loop ends with every element made, or with none of them left. -/
theorem owning_buildAll {ε : Type} {owned : β → Multiset ρ} {build : α → StateM σ (Except ε β)}
    {release : β → StateM σ Unit} (hbuild : ∀ x, Owning held Sound 0 (build x) (okOwned owned))
    (hrelease : ∀ y, Owning held Sound (owned y) (release y) fun _ => 0) (xs : List α) :
    Owning held Sound 0 (buildAll build release xs) (okOwned fun ys => (ys.1.map owned).sum) := by
  induction xs with
  | nil => exact .pure rfl
  | cons x xs ih =>
    rw [buildAll]
    refine (hbuild x).bind fun y => ?_
    cases y with
    | error e => exact .pure rfl
    | ok y =>
      refine ih.step (r := owned y) (zero_add _).symm fun ys => ?_
      cases ys with
      | error e => exact (hrelease y).step (r := 0) (by simp) fun _ => .pure rfl
      | ok ys => exact .pure (by simp [add_comm])

end

/-! ### One element of many -/

/-- A sum over a list, apart from the summand at one place, which an update of that place changes alone. -/
theorem sum_map_modify {α M : Type*} [AddCommMonoid M] (m : α → M) {xs : List α} {i : ℕ} {x : α}
    (hx : xs[i]? = some x) :
    ∃ r, (xs.map m).sum = m x + r ∧ ∀ f, ((xs.modify i f).map m).sum = m (f x) + r := by
  induction xs generalizing i with
  | nil => cases hx
  | cons y xs ih =>
    cases i with
    | zero =>
      obtain rfl : y = x := by simpa using hx
      exact ⟨(xs.map m).sum, by simp, fun f => by simp⟩
    | succ i =>
      obtain ⟨r, hsum, hmodify⟩ := ih (by simpa using hx)
      refine ⟨m y + r, ?_, fun f => ?_⟩
      · rw [List.map_cons, List.sum_cons, hsum, add_left_comm]
      · rw [List.modify_succ_cons, List.map_cons, List.sum_cons, hmodify, add_left_comm]

end OtlpC
