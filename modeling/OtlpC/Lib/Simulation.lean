import OtlpC.Lib.Steps

/-!
# Forward simulation

A run of a step function carries out operations of a more abstract system, whose steps are a relation. `Path R`
is a run of that relation, `performed` lists what the steps of a run carry out, and `path_of_run` is the rule: a
step that leads related states to related states along what it performs lifts to whole runs.
-/

namespace OtlpC.Steps

variable {σ ι τ κ : Type*}

/-- A run of a relation: the operations lead from one state to the other. -/
inductive Path (R : τ → κ → τ → Prop) : τ → List κ → τ → Prop
  | nil (a : τ) : Path R a [] a
  | cons {a b c : τ} {k : κ} {ks : List κ} (hstep : R a k b) (hpath : Path R b ks c) : Path R a (k :: ks) c

/-- What the steps of a run carry out, in order. -/
def performed (step : σ → ι → Option σ) (op : σ → ι → Option κ) (s : σ) : List ι → List κ
  | [] => []
  | l :: ls => (op s l).toList ++ (step s l).elim [] fun t => performed step op t ls

theorem performed_cons {step : σ → ι → Option σ} {op : σ → ι → Option κ} {s t : σ} {l : ι} (ls : List ι)
    (hstep : step s l = some t) : performed step op s (l :: ls) = (op s l).toList ++ performed step op t ls := by
  rw [performed, hstep, Option.elim_some]

variable {R : τ → κ → τ → Prop}

theorem Path.single {a b : τ} {k : κ} (hstep : R a k b) : Path R a [k] b := .cons hstep (.nil b)

theorem Path.append {a b c : τ} {ks ls : List κ} (hks : Path R a ks b) (hls : Path R b ls c) :
    Path R a (ks ++ ls) c := by
  induction hks with
  | nil => exact hls
  | cons hstep _ ih => exact .cons hstep (ih hls)

/-- **The simulation rule.** Every run whose steps meet `C` carries out a run of the abstract system. -/
theorem path_of_run {step : σ → ι → Option σ} {op : σ → ι → Option κ} {C : σ → ι → Prop} {I : σ → Prop}
    {Sim : σ → τ → Prop} (hI : ∀ s l t, I s → C s l → step s l = some t → I t)
    (hsim : ∀ s l t a, I s → C s l → Sim s a → step s l = some t → ∃ b, Path R a (op s l).toList b ∧ Sim t b)
    {s t : σ} {a : τ} {ls : List ι} (hs : I s) (ha : Sim s a) (hC : Along step C s ls)
    (hrun : run step s ls = some t) : ∃ b, Path R a (performed step op s ls) b ∧ Sim t b := by
  induction ls generalizing s a with
  | nil =>
    rw [run_nil, Option.some.injEq] at hrun
    exact ⟨a, .nil a, hrun ▸ ha⟩
  | cons l ls ih =>
    obtain ⟨u, hu, hrun⟩ := run_cons_eq_some.1 hrun
    obtain ⟨hl, hls⟩ := along_cons hu hC
    obtain ⟨b, hpath, hb⟩ := hsim s l u a hs hl ha hu
    obtain ⟨c, hrest, hc⟩ := ih (hI s l u hs hl hu) hb hls hrun
    exact ⟨c, performed_cons ls hu ▸ hpath.append hrest, hc⟩

end OtlpC.Steps
