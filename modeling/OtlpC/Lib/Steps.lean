import Mathlib.Data.List.Basic
import Mathlib.Logic.Basic

/-!
# Runs of a labelled step function

A system is a partial step function `step : σ → ι → Option σ`: the label carries everything the
environment decides (an input, a clock reading, the result of a call into the outside world), and
`none` says that the label is not enabled. `run` folds it over a list of labels.

`Along step C s ls` says that every step of the run meets the condition `C` on the state before it
and its label; `Visits step P s ls` that every state of the run satisfies `P`; `Later step R s ls` that every
step of the run stands in `R` to every later one. The rules `run_invariant`, `along_invariant` and
`later_invariant` carry one step's preservation to whole runs.
-/

namespace OtlpC.Steps

variable {σ ι : Type*} (step : σ → ι → Option σ)

/-- The state after the labels `ls`, or `none` when one of them is not enabled. -/
def run (s : σ) : List ι → Option σ
  | [] => some s
  | l :: ls => (step s l).bind fun t => run t ls

/-- Every step of the run meets `C` on the state before it and its label. -/
def Along (C : σ → ι → Prop) (s : σ) : List ι → Prop
  | [] => True
  | l :: ls => C s l ∧ ∀ t ∈ step s l, Along C t ls

/-- Every state of the run satisfies `P`, the first one included. -/
def Visits (P : σ → Prop) (s : σ) : List ι → Prop
  | [] => P s
  | l :: ls => P s ∧ ∀ t ∈ step s l, Visits P t ls

/-- Every step of the run stands in the relation `R` to every later one. -/
def Later (R : σ → ι → σ → ι → Prop) (s : σ) : List ι → Prop
  | [] => True
  | l :: ls => ∀ t ∈ step s l, Along step (R s l) t ls ∧ Later R t ls

variable {step}

@[simp] theorem run_nil (s : σ) : run step s [] = some s := rfl

theorem run_cons (s : σ) (l : ι) (ls : List ι) :
    run step s (l :: ls) = (step s l).bind fun t => run step t ls := rfl

theorem run_cons_eq_some {s t : σ} {l : ι} {ls : List ι} :
    run step s (l :: ls) = some t ↔ ∃ u, step s l = some u ∧ run step u ls = some t := by
  rw [run_cons, Option.bind_eq_some_iff]

theorem run_append (s : σ) (ls ks : List ι) :
    run step s (ls ++ ks) = (run step s ls).bind fun t => run step t ks := by
  induction ls generalizing s with
  | nil => rfl
  | cons l ls ih =>
    rw [List.cons_append, run_cons, run_cons]
    cases step s l with
    | none => rfl
    | some u => exact ih u

theorem along_cons {C : σ → ι → Prop} {s u : σ} {l : ι} {ls : List ι} (hstep : step s l = some u)
    (h : Along step C s (l :: ls)) : C s l ∧ Along step C u ls :=
  ⟨h.1, h.2 u hstep⟩

theorem Along.cons {C : σ → ι → Prop} {s u : σ} {l : ι} {ls : List ι} (hstep : step s l = some u)
    (hC : C s l) (h : Along step C u ls) : Along step C s (l :: ls) := by
  refine ⟨hC, fun t ht => ?_⟩
  rw [hstep, Option.mem_def, Option.some.injEq] at ht
  exact ht ▸ h

instance decidableAlong {C : σ → ι → Prop} [∀ s l, Decidable (C s l)] :
    ∀ (s : σ) (ls : List ι), Decidable (Along step C s ls)
  | _, [] => isTrue trivial
  | s, l :: ls =>
    match h : step s l with
    | none => decidable_of_iff (C s l) (by simp [Along, h])
    | some t =>
      have := decidableAlong (C := C) t ls
      decidable_of_iff (C s l ∧ Along step C t ls) (by simp [Along, h])

theorem visits_start {P : σ → Prop} {s : σ} {ls : List ι} (h : Visits step P s ls) : P s := by
  cases ls with
  | nil => exact h
  | cons l ls => exact h.1

theorem along_append {C : σ → ι → Prop} {s t : σ} {ls ks : List ι} (hrun : run step s ls = some t) :
    Along step C s (ls ++ ks) ↔ Along step C s ls ∧ Along step C t ks := by
  induction ls generalizing s with
  | nil =>
    rw [run_nil, Option.some.injEq] at hrun
    subst hrun
    simp [Along]
  | cons l ls ih =>
    obtain ⟨u, hu, hrun⟩ := run_cons_eq_some.1 hrun
    simp only [List.cons_append, Along, hu, Option.mem_def, Option.some.injEq, forall_eq', ih hrun,
      and_assoc]

/-- **The invariant rule.** What every step preserves holds after every run. -/
theorem run_invariant {P : σ → Prop} (hstep : ∀ s l t, P s → step s l = some t → P t) {s t : σ}
    {ls : List ι} (hs : P s) (hrun : run step s ls = some t) : P t := by
  induction ls generalizing s with
  | nil =>
    rw [run_nil, Option.some.injEq] at hrun
    exact hrun ▸ hs
  | cons l ls ih =>
    obtain ⟨u, hu, hrun⟩ := run_cons_eq_some.1 hrun
    exact ih (hstep s l u hs hu) hrun

/-- **The conditional invariant rule.** What every step meeting `C` preserves holds after every run
whose steps all meet `C`. -/
theorem along_invariant {C : σ → ι → Prop} {P : σ → Prop}
    (hstep : ∀ s l t, P s → C s l → step s l = some t → P t) {s t : σ} {ls : List ι} (hs : P s)
    (hC : Along step C s ls) (hrun : run step s ls = some t) : P t := by
  induction ls generalizing s with
  | nil =>
    rw [run_nil, Option.some.injEq] at hrun
    exact hrun ▸ hs
  | cons l ls ih =>
    obtain ⟨u, hu, hrun⟩ := run_cons_eq_some.1 hrun
    obtain ⟨hl, hls⟩ := along_cons hu hC
    exact ih (hstep s l u hs hl hu) hls hrun

/-- **The exact condition of a run.** When each step (with a label of `L`) leads to a state with `P`
exactly when it starts in one and meets `C`, a run ends with `P` exactly when all its steps meet `C`. -/
theorem along_iff {C : σ → ι → Prop} {P I : σ → Prop} {L : ι → Prop}
    (hI : ∀ s l t, I s → step s l = some t → I t)
    (hP : ∀ s l t, I s → L l → step s l = some t → (P t ↔ P s ∧ C s l)) {s t : σ} {ls : List ι}
    (hs : I s) (hstart : P s) (hL : ∀ l ∈ ls, L l) (hrun : run step s ls = some t) :
    P t ↔ Along step C s ls := by
  -- from a state without `P` no run leads back to one with it
  suffices hiff : P t ↔ P s ∧ Along step C s ls by simpa [hstart] using hiff
  clear hstart
  induction ls generalizing s with
  | nil =>
    rw [run_nil, Option.some.injEq] at hrun
    simp [Along, hrun]
  | cons l ls ih =>
    obtain ⟨u, hu, hrun⟩ := run_cons_eq_some.1 hrun
    have hlast := ih (hI s l u hs hu) (fun k hk => hL k (List.mem_cons_of_mem l hk)) hrun
    rw [hlast, hP s l u hs (hL l List.mem_cons_self) hu, and_assoc]
    simp [Along, hu]

/-- **The exact condition of the states of a run.** When each step from a state with `P` leads to one
exactly when it meets `C`, all states of a run have `P` exactly when all its steps meet `C`. -/
theorem visits_iff {C : σ → ι → Prop} {P I : σ → Prop} (hI : ∀ s l t, I s → step s l = some t → I t)
    (hP : ∀ s l t, I s → P s → step s l = some t → (P t ↔ C s l)) {s t : σ} {ls : List ι}
    (hs : I s) (hstart : P s) (hrun : run step s ls = some t) :
    Visits step P s ls ↔ Along step C s ls := by
  induction ls generalizing s with
  | nil => exact iff_of_true hstart trivial
  | cons l ls ih =>
    obtain ⟨u, hu, hrun⟩ := run_cons_eq_some.1 hrun
    simp only [Visits, Along, hu, hstart, Option.mem_def, Option.some.injEq, forall_eq', true_and]
    constructor
    · intro hvisits
      have hPu : P u := visits_start hvisits
      exact ⟨(hP s l u hs hstart hu).1 hPu, (ih (hI s l u hs hu) hPu hrun).1 hvisits⟩
    · rintro ⟨hC, halong⟩
      exact (ih (hI s l u hs hu) ((hP s l u hs hstart hu).2 hC) hrun).2 halong

theorem along_forall {κ : Sort*} {C : κ → σ → ι → Prop} {s : σ} {ls : List ι}
    (h : ∀ a, Along step (C a) s ls) : Along step (fun t l => ∀ a, C a t l) s ls := by
  induction ls generalizing s with
  | nil => trivial
  | cons l ls ih => exact ⟨fun a => (h a).1, fun t ht => ih fun a => (h a).2 t ht⟩

theorem Along.and {C D : σ → ι → Prop} {s : σ} {ls : List ι} (hC : Along step C s ls) (hD : Along step D s ls) :
    Along step (fun t l => C t l ∧ D t l) s ls := by
  induction ls generalizing s with
  | nil => trivial
  | cons l ls ih => exact ⟨⟨hC.1, hD.1⟩, fun t ht => ih (hC.2 t ht) (hD.2 t ht)⟩

/-- What every step meeting `C` from a state with the invariant satisfies. -/
theorem along_of_along {C D : σ → ι → Prop} {P : σ → Prop}
    (hstep : ∀ s l t, P s → C s l → step s l = some t → P t) (hD : ∀ s l, P s → C s l → D s l) {s : σ}
    {ls : List ι} (hs : P s) (hC : Along step C s ls) : Along step D s ls := by
  induction ls generalizing s with
  | nil => trivial
  | cons l ls ih =>
    exact ⟨hD s l hs hC.1, fun t ht => ih (hstep s l t hs hC.1 ht) (hC.2 t ht)⟩

/-- What holds at every step of a run whose labels, read one after the other, satisfy `L`: `P c` holds of
the states once `c` has been read last. -/
theorem along_reading {γ : Type*} {C : σ → ι → Prop} {P : γ → σ → Prop} {L : γ → List ι → Prop}
    {read : γ → ι → γ} (hL : ∀ c l ls, L c (l :: ls) → L (read c l) ls)
    (hstep : ∀ c s l ls t, P c s → L c (l :: ls) → step s l = some t → P (read c l) t)
    (hC : ∀ c s l ls, P c s → L c (l :: ls) → C s l) {c : γ} {s : σ} {ls : List ι} (hs : P c s)
    (hls : L c ls) : Along step C s ls := by
  induction ls generalizing c s with
  | nil => trivial
  | cons l ls ih =>
    exact ⟨hC c s l ls hs hls, fun t ht => ih (hstep c s l ls t hs hls ht) (hL c l ls hls)⟩

/-- **The rule for pairs of steps.** What every step establishes for the run that follows it holds of every
step and every later one. -/
theorem later_invariant {R : σ → ι → σ → ι → Prop} {I : σ → Prop} {L : List ι → Prop}
    (hL : ∀ l ls, L (l :: ls) → L ls) (hI : ∀ s l t, I s → step s l = some t → I t)
    (hR : ∀ s l ls t, I s → L (l :: ls) → step s l = some t → Along step (R s l) t ls) {s : σ}
    {ls : List ι} (hs : I s) (hls : L ls) : Later step R s ls := by
  induction ls generalizing s with
  | nil => trivial
  | cons l ls ih =>
    exact fun t ht => ⟨hR s l ls t hs hls ht, ih (hI s l t hs ht) (hL l ls hls)⟩

/-- A property of the steps taken is a condition that may use an invariant of the states. -/
theorem along_of_invariant {C : σ → ι → Prop} {P : σ → Prop}
    (hstep : ∀ s l t, P s → step s l = some t → P t) (hC : ∀ s l, P s → C s l) {s : σ}
    (ls : List ι) (hs : P s) : Along step C s ls := by
  induction ls generalizing s with
  | nil => trivial
  | cons l ls ih => exact ⟨hC s l hs, fun t ht => ih (hstep s l t hs ht)⟩

theorem along_of_forall_mem {C : ι → Prop} {s : σ} {ls : List ι} (h : ∀ l ∈ ls, C l) :
    Along step (fun _ => C) s ls := by
  induction ls generalizing s with
  | nil => trivial
  | cons l ls ih =>
    exact ⟨h l List.mem_cons_self, fun t _ => ih fun k hk => h k (List.mem_cons_of_mem l hk)⟩

/-- **The measure rule.** When the measure falls with every step whose label has `p` and rises with none, a run has
no more steps with `p` than its first state measures. -/
theorem countP_le_measure {C : σ → ι → Prop} {I : σ → Prop} {μ : σ → ℕ} {p : ι → Bool}
    (hI : ∀ s l t, I s → C s l → step s l = some t → I t)
    (hμ : ∀ s l t, I s → C s l → step s l = some t → μ t + (if p l then 1 else 0) ≤ μ s) {s t : σ} {ls : List ι}
    (hs : I s) (hC : Along step C s ls) (hrun : run step s ls = some t) : μ t + ls.countP p ≤ μ s := by
  induction ls generalizing s with
  | nil =>
    rw [run_nil, Option.some.injEq] at hrun
    simp [hrun]
  | cons l ls ih =>
    obtain ⟨u, hu, hrun⟩ := run_cons_eq_some.1 hrun
    obtain ⟨hl, hls⟩ := along_cons hu hC
    have hfirst := hμ s l u hs hl hu
    have hrest := ih (hI s l u hs hl hu) hls hrun
    rw [List.countP_cons]
    omega

end OtlpC.Steps
