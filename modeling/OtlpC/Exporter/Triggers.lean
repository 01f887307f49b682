import OtlpC.Exporter.Invariants

/-!
# Triggers

Every signal with pending items has a trigger for its next POST, until a retry whose request cannot be
built: the backoff is disarmed before the request is known to have started, and `first_set` was cleared
when the first POST started.
-/

namespace OtlpC.Exporter

variable {ι : Type*} {cap : ℕ}

/-- Something stands that will send the signal's pending items. -/
def Triggered (e : OtlpExporter ι cap) (s : Signal) : Prop :=
  (e.inFlightSignal = s ∧ e.inFlight.isSome) ∨ (e.inFlightSignal = s ∧ e.backoffArmed = true) ∨
    (e.sig s).firstSet = true ∨ e.batchSize ≤ (e.sig s).pending.length

def NoneStranded (e : OtlpExporter ι cap) : Prop := ∀ s, (e.sig s).pending ≠ [] → Triggered e s

instance (e : OtlpExporter ι cap) (s : Signal) : Decidable (Triggered e s) :=
  inferInstanceAs (Decidable (_ ∨ _))

/-- A retry whose request cannot be built leaves its signal `first_set`, or a full batch. -/
def RetryKeepsTrigger (x : State ι cap) (l : Label ι) : Prop :=
  ∀ a ∈ startAttempt x l, buildFails x.world a.1 a.2 = true → x.world.exp.backoffArmed = true →
    (x.world.exp.sig a.1).firstSet = true ∨
      x.world.exp.batchSize ≤ (x.world.exp.sig a.1).pending.length

instance (x : State ι cap) (l : Label ι) : Decidable (RetryKeepsTrigger x l) :=
  inferInstanceAs (Decidable (∀ a ∈ startAttempt x l, _))

/-! ### One step -/

theorem NoCall.retryKeepsTrigger {x : State ι cap} {l : Label ι} (h : NoCall x l) :
    RetryKeepsTrigger x l := by
  intro a ha
  rw [h.startAttempt_eq] at ha
  contradiction

theorem retryKeepsTrigger_of_requestEnds {x : State ι cap} {l : Label ι} {o : HttpOutcome}
    (h : requestEnds x l = some o) : RetryKeepsTrigger x l := by
  intro a ha
  rw [startAttempt_of_requestEnds h] at ha
  contradiction

theorem triggered_congr {e e' : OtlpExporter ι cap} {s : Signal}
    (hsignal : e'.inFlightSignal = e.inFlightSignal) (hflight : e'.inFlight = e.inFlight)
    (harmed : e'.backoffArmed = e.backoffArmed) (hsize : e'.batchSize = e.batchSize)
    (hfirst : (e'.sig s).firstSet = (e.sig s).firstSet) (hpending : (e'.sig s).pending = (e.sig s).pending) :
    Triggered e' s ↔ Triggered e s := by
  unfold Triggered
  rw [hsignal, hflight, harmed, hsize, hfirst, hpending]

theorem NoneStranded.of_update {e e' : OtlpExporter ι cap} (h : NoneStranded e) {t : Signal}
    {sg : SignalState ι cap} (hsig : e'.sig = Function.update e.sig t sg)
    (hpending : sg.pending = (e.sig t).pending) (hfirst : sg.firstSet = (e.sig t).firstSet)
    (hsignal : e'.inFlightSignal = e.inFlightSignal) (hflight : e'.inFlight = e.inFlight)
    (harmed : e'.backoffArmed = e.backoffArmed) (hsize : e'.batchSize = e.batchSize) :
    NoneStranded e' := by
  intro s hs
  have hpending' : (e'.sig s).pending = (e.sig s).pending := by
    rw [hsig]
    exact proj_update_same (·.pending) _ _ _ hpending
  have hfirst' : (e'.sig s).firstSet = (e.sig s).firstSet := by
    rw [hsig]
    exact proj_update_same (·.firstSet) _ _ _ hfirst
  rw [hpending'] at hs
  exact (triggered_congr hsignal hflight harmed hsize hfirst' hpending').2 (h s hs)

/-- A signal that has a trigger of its own, whatever is in flight or armed. -/
theorem Triggered.own {e : OtlpExporter ι cap} {s : Signal} (h : Triggered e s)
    (hother : e.inFlightSignal = s → e.inFlight = none ∧ e.backoffArmed = false) :
    (e.sig s).firstSet = true ∨ e.batchSize ≤ (e.sig s).pending.length := by
  rcases h with ⟨hs, hflight⟩ | ⟨hs, harmed⟩ | hown
  · rw [(hother hs).1] at hflight
    contradiction
  · rw [(hother hs).2] at harmed
    contradiction
  · exact hown

theorem NoneStranded.drained {e e' : OtlpExporter ι cap} (h : NoneStranded e) {t : Signal}
    {sg : SignalState ι cap} (hsig : e'.sig = Function.update e.sig t sg) (hfirst : sg.firstSet = true)
    (hsignal : e'.inFlightSignal = e.inFlightSignal) (hflight : e'.inFlight = e.inFlight)
    (harmed : e'.backoffArmed = e.backoffArmed) (hsize : e'.batchSize = e.batchSize) :
    NoneStranded e' := by
  intro s hs
  by_cases hst : s = t
  · refine .inr (.inr (.inl ?_))
    rw [hsig, hst, Function.update_self, hfirst]
  · have hsame : e'.sig s = e.sig s := by rw [hsig, Function.update_of_ne hst]
    rw [hsame] at hs
    exact (triggered_congr hsignal hflight harmed hsize (by rw [hsame]) (by rw [hsame])).2 (h s hs)

theorem NoneStranded.started {e : OtlpExporter ι cap} (h : NoneStranded e) {s : Signal}
    {r : Http.OtlpHttpRequest} (hidle : e.inFlight = none)
    (harmed : e.backoffArmed = true → s = e.inFlightSignal) : NoneStranded (e.started s r) := by
  intro t ht
  by_cases hts : t = s
  · exact .inl ⟨hts.symm, rfl⟩
  · have hsame : (e.started s r).sig t = e.sig t := Function.update_of_ne hts _ _
    have hown := (h t (hsame ▸ ht)).own fun hsignal => by
      refine ⟨hidle, ?_⟩
      rw [← Bool.not_eq_true]
      exact fun harmed' => hts (hsignal.symm.trans (harmed harmed').symm)
    rcases hown with hfirst | hfull
    · exact .inr (.inr (.inl (by rw [hsame]; exact hfirst)))
    · exact .inr (.inr (.inr (by rw [hsame]; exact hfull)))

theorem NoneStranded.ended {e e' : OtlpExporter ι cap} (h : NoneStranded e) {status : ℤ} {rejected : ℕ}
    (hsig : e'.sig = (e.ended status rejected).sig) (hsize : e'.batchSize = e.batchSize) :
    NoneStranded e' := by
  intro t ht
  by_cases hts : t = e.inFlightSignal
  · rw [hsig, hts, ended_pending] at ht
    contradiction
  · have hsame : e'.sig t = e.sig t := by rw [hsig, ended_sig_of_ne _ _ _ hts]
    have hown := (h t (hsame ▸ ht)).own fun hsignal => absurd hsignal.symm hts
    rcases hown with hfirst | hfull
    · exact .inr (.inr (.inl (by rw [hsame]; exact hfirst)))
    · exact .inr (.inr (.inr (by rw [hsame, hsize]; exact hfull)))

theorem noneStranded_idle {e : OtlpExporter ι cap} (hidle : e.inFlight = none)
    (harmed : e.backoffArmed = false) : NoneStranded e ↔
      ∀ s, (e.sig s).pending ≠ [] → (e.sig s).firstSet = true ∨ e.batchSize ≤ (e.sig s).pending.length := by
  refine forall_congr' fun s => forall_congr' fun _ => ?_
  exact ⟨fun h => h.own fun _ => ⟨hidle, harmed⟩, fun h => .inr (.inr h)⟩

/-- A build that fails strands its signal exactly when it is a retry that leaves no trigger. -/
theorem NoneStranded.startFailed {x : State ι cap} {l : Label ι} (h : NoneStranded x.world.exp)
    {e' : OtlpExporter ι cap} {s : Signal} {env : BuildEnv} (hattempt : startAttempt x l = some (s, env))
    (hfails : buildFails x.world s env = true) (hidle : x.world.exp.inFlight = none)
    (hflight : e'.inFlight = none) (harmed : e'.backoffArmed = false) (hsig : e'.sig = x.world.exp.sig)
    (hsize : e'.batchSize = x.world.exp.batchSize) : NoneStranded e' ↔ RetryKeepsTrigger x l := by
  obtain ⟨hpending, hsignal⟩ := startAttempt_cases hattempt
  rw [noneStranded_idle hflight harmed, hsig, hsize]
  constructor
  · intro hall a ha _ _
    rw [hattempt, Option.mem_some_iff] at ha
    subst ha
    exact hall s hpending
  · intro hkeeps t ht
    by_cases hretry : x.world.exp.inFlightSignal = t ∧ x.world.exp.backoffArmed = true
    · obtain rfl : s = t := (hsignal hretry.2).trans hretry.1
      exact hkeeps (s, env) hattempt hfails hretry.2
    · refine (h t ht).own fun hst => ⟨hidle, ?_⟩
      rw [← Bool.not_eq_true]
      exact fun harmed' => hretry ⟨hst, harmed'⟩

theorem Effect.noneStranded {x : State ι cap} {l : Label ι} {w : World ι cap} (h : Effect x l w)
    (hreal : x.world.exp.nullTransport = false) (hx : NoneStranded x.world.exp) :
    NoneStranded w.exp ↔ RetryKeepsTrigger x l := by
  cases h with
  | quiet hcall | shutdown hcall => exact iff_of_true hx hcall.retryKeepsTrigger
  | refused hcall | accepted hcall | flushed hcall =>
    exact iff_of_true (hx.of_update rfl (by rfl) (by rfl) rfl rfl rfl rfl) hcall.retryKeepsTrigger
  | drained hcall =>
    exact iff_of_true (hx.drained rfl (by rfl) rfl rfl rfl rfl) hcall.retryKeepsTrigger
  | disarmed hcall h =>
    refine iff_of_true (fun s hs => ?_) hcall.retryKeepsTrigger
    have hnone := h.resolve_right (by simp [hreal])
    rcases hx s hs with hflight | ⟨rfl, -⟩ | hown
    · exact .inl hflight
    · exact absurd hnone hs
    · exact .inr (.inr hown)
  | startFailed s env net obs hattempt hfails hidle =>
    exact hx.startFailed hattempt hfails hidle hidle rfl rfl rfl
  | started s env net r k hattempt hstarts hidle =>
    refine iff_of_true (hx.started hidle (startAttempt_cases hattempt).2) fun a ha hfails => ?_
    rw [hattempt, Option.mem_some_iff] at ha
    rw [← ha, hstarts] at hfails
    contradiction
  | progressed hcall r r' hflight =>
    refine iff_of_true (fun s hs => ?_) hcall.retryKeepsTrigger
    rcases hx s hs with ⟨hs', -⟩ | hown
    · exact .inl ⟨hs', rfl⟩
    · exact .inr hown
  | answeredRetry r o net kept t ev hflight hends =>
    refine iff_of_true (fun s hs => ?_) (retryKeepsTrigger_of_requestEnds hends)
    rcases hx s hs with ⟨hs', -⟩ | ⟨hs', -⟩ | hown
    · exact .inr (.inl ⟨hs', rfl⟩)
    · exact .inr (.inl ⟨hs', rfl⟩)
    · exact .inr (.inr hown)
  | answeredFinal r o net kept t rejected more hflight hends =>
    exact iff_of_true (hx.ended rfl rfl) (retryKeepsTrigger_of_requestEnds hends)
  | nullOutcome hcall s status now hnull =>
    rw [hreal] at hnull
    contradiction
  | freed hcall =>
    refine iff_of_true (fun s hs => ?_) hcall.retryKeepsTrigger
    rw [otlpExporterFree_sig] at hs
    contradiction

/-! ### Runs -/

/-- **No batch is stranded.** On the real transport, every signal with pending items has a trigger in every
state of a run, those between ticks among them, exactly when no retry whose request could not be built left
its signal without one. -/
theorem noneStranded_iff {opts : OtlpExporterOpts} {env : CreateEnv} {fn : Bool}
    {e : OtlpExporter ι (normalizeOpts opts).queueCapacity}
    (hcreate : otlpExporterCreate ι opts env = some e) {ls : List (Label ι)} {y : State ι _}
    (hrun : Steps.run step (State.init e false fn) ls = some y) :
    Steps.Visits step (fun x => NoneStranded x.world.exp) (State.init e false fn) ls ↔
      Steps.Along step RetryKeepsTrigger (State.init e false fn) ls := by
  have hfresh := fresh_of_create hcreate
  refine Steps.visits_iff (I := fun x => x.world.exp.nullTransport = false)
    (fun x l y hreal h => (step_config h).nullTransport_eq.trans hreal)
    (fun x l y hreal hx h => (step_effect h).noneStranded hreal hx) rfl ?_ hrun
  intro s hs
  exact absurd (hfresh.pending_eq s) hs

/-- A span waits for the batch timer and is answered with a 503, and its retry is built. -/
def retryRun (bufInitOk : ℕ → Bool) : List (Label ℕ) :=
  [.emitMove .span (some 1)] ++ tickRound 12 0 (.fine 0 []) ++ tickRound 10 200 (.fine 0 []) ++
    tickRound 8 200 (.fine 0 (emptyResponse 503)) ++
    tickRound 8 100000 { TickEnv.fine 0 [] with build := { BuildEnv.fine with bufInitOk } }

theorem noneStranded_iff_retry :
    ∃ e, ∃ y : State ℕ _, otlpExporterCreate ℕ (plainOpts 2 1) .fine = some e ∧
      Steps.run step (State.init e false false) (retryRun fun _ => true) = some y ∧ y.phase = .idle ∧
      Steps.Visits step (fun x => NoneStranded x.world.exp) (State.init e false false)
        (retryRun fun _ => true) := by
  have hphase : (runFrom (plainOpts 2 1) (retryRun fun _ => true)).map (·.phase) = some .idle := by
    decide +kernel
  obtain ⟨y, hy, hidle⟩ := Option.map_eq_some_iff.1 hphase
  obtain ⟨e, hcreate, hrun⟩ := runFrom_eq_some hy
  have hkeeps : ∀ e ∈ otlpExporterCreate ℕ (plainOpts 2 1) .fine,
      Steps.Along step RetryKeepsTrigger (State.init e false false) (retryRun fun _ => true) := by
    decide +kernel
  exact ⟨e, y, hcreate, hrun, hidle, (noneStranded_iff hcreate hrun).2 (hkeeps e hcreate)⟩

/-- The buffer for the retry cannot be had: between ticks nothing will send the span any more. -/
theorem retry_not_built_stranded :
    ∃ y : State ℕ _, runFrom (plainOpts 2 1) (retryRun fun _ => false) = some y ∧ y.phase = .idle ∧
      y.world.exp.shutdownRequested = false ∧ ¬NoneStranded y.world.exp := by
  have hrun : (runFrom (plainOpts 2 1) (retryRun fun _ => false)).map (fun y =>
      (y.phase, y.world.exp.shutdownRequested, (y.world.exp.sig .span).pending,
        decide (Triggered y.world.exp .span))) = some (.idle, false, [1], false) := by decide +kernel
  obtain ⟨y, hy, heq⟩ := Option.map_eq_some_iff.1 hrun
  simp only [Prod.mk.injEq, decide_eq_false_iff_not] at heq
  obtain ⟨hidle, hshutdown, hpending, hnone⟩ := heq
  exact ⟨y, hy, hidle, hshutdown, fun hall => hnone (hall .span (by rw [hpending]; simp))⟩

end OtlpC.Exporter
