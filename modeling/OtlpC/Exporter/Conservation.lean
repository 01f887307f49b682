import OtlpC.Exporter.Invariants
import OtlpC.Lib.History

/-!
# Item conservation

What a signal has emitted is sent, dropped, queued or pending, as long as every POST that ends for good
ends with the pending items it was started with. An item drained into `pending` while the POST is in
flight is freed with the batch when it ends and counted nowhere.
-/

namespace OtlpC.Exporter

variable {ι : Type*} {cap : ℕ}

/-- The items a signal has emitted that it holds no longer and has not counted. -/
def SignalState.unaccounted (sg : SignalState ι cap) : ℤ :=
  sg.emitted - (sg.sent + sg.droppedErr + sg.queue.items.length + sg.pending.length)

/-- Everything emitted is sent, dropped, queued or pending. -/
def Conserved (w : World ι cap) (s : Signal) : Prop :=
  (w.exp.sig s).emitted =
    (w.exp.sig s).sent + (w.exp.sig s).droppedErr + (w.exp.sig s).queue.items.length +
      (w.exp.sig s).pending.length

theorem conserved_iff_unaccounted (w : World ι cap) (s : Signal) :
    Conserved w s ↔ (w.exp.sig s).unaccounted = 0 := by
  unfold Conserved SignalState.unaccounted
  omega

/-- When the step ends the POST of signal `s` for good, nothing was drained since it started. -/
def EndsWhole (s : Signal) (x : State ι cap) (l : Label ι) : Prop :=
  ∀ o ∈ requestEnds x l, retries x.world.exp o.status = false → x.world.exp.inFlightSignal = s →
    (x.world.exp.sig s).pending.length = x.world.exp.inFlightCount

instance (s : Signal) (x : State ι cap) (l : Label ι) : Decidable (EndsWhole s x l) :=
  inferInstanceAs (Decidable (∀ o ∈ requestEnds x l, _))

/-! ### One step -/

/-- The items of signal `s` that the step frees without counting them. -/
def uncounted (x : State ι cap) (l : Label ι) (s : Signal) : ℕ :=
  match requestEnds x l with
  | none => 0
  | some o =>
    if retries x.world.exp o.status = false ∧ x.world.exp.inFlightSignal = s then
      (x.world.exp.sig s).pending.length - x.world.exp.inFlightCount
    else 0

theorem uncounted_of_noEnd {x : State ι cap} {l : Label ι} (h : requestEnds x l = none) (s : Signal) :
    uncounted x l s = 0 := by
  simp [uncounted, h]

theorem inFlightCount_le {w : World ι cap} (h : FlightOk w) :
    w.exp.inFlightCount ≤ (w.exp.sig w.exp.inFlightSignal).pending.length := by
  rw [h.count_eq]
  exact h.items_isPrefix.length_le

theorem endsWhole_iff {x : State ι cap} {l : Label ι} {s : Signal} (hok : RealOk x.world) :
    EndsWhole s x l ↔ uncounted x l s = 0 := by
  unfold EndsWhole uncounted
  cases hends : requestEnds x l with
  | none => simp
  | some o =>
    simp only [Option.mem_def, Option.some.injEq, forall_eq']
    split
    · next h =>
      obtain ⟨hfinal, rfl⟩ := h
      have hle := inFlightCount_le (hok.flight (inFlight_of_requestEnds hends))
      simp only [hfinal, forall_const]
      omega
    · next h => exact iff_of_true (fun hfinal hs => absurd ⟨hfinal, hs⟩ h) rfl

theorem unaccounted_ended (e : OtlpExporter ι cap) (status : ℤ) (rejected : ℕ)
    (hle : e.inFlightCount ≤ (e.sig e.inFlightSignal).pending.length) (s : Signal) :
    ((e.ended status rejected).sig s).unaccounted = (e.sig s).unaccounted +
      (if e.inFlightSignal = s then (e.sig s).pending.length - e.inFlightCount else 0 : ℕ) := by
  unfold OtlpExporter.ended
  dsimp only
  rw [Function.update_apply]
  by_cases hs : s = e.inFlightSignal
  · subst hs
    simp only [if_true, SignalState.unaccounted, List.length_nil]
    cases successStatus status <;> simp <;> omega
  · simp [hs, Ne.symm hs]

/-- **A step leaves unaccounted exactly what it frees uncounted.** -/
theorem Effect.unaccounted {x : State ι cap} {l : Label ι} {w : World ι cap} (h : Effect x l w)
    (hok : RealOk x.world) (hfree : l ≠ .free) (s : Signal) :
    (w.exp.sig s).unaccounted = (x.world.exp.sig s).unaccounted + uncounted x l s := by
  cases h with
  | quiet hcall | shutdown hcall | disarmed hcall | progressed hcall =>
    rw [uncounted_of_noEnd hcall.requestEnds_eq]
    exact (add_zero _).symm
  | startFailed t env net obs hattempt =>
    rw [uncounted_of_noEnd (requestEnds_of_startAttempt hattempt)]
    exact (add_zero _).symm
  | started t env net r k hattempt =>
    rw [uncounted_of_noEnd (requestEnds_of_startAttempt hattempt), Nat.cast_zero, add_zero]
    exact proj_update_same SignalState.unaccounted _ _ _ rfl
  | refused hcall =>
    rw [uncounted_of_noEnd hcall.requestEnds_eq, Nat.cast_zero, add_zero]
    exact proj_update_same SignalState.unaccounted _ _ _ rfl
  | accepted hcall t item queue hpush =>
    rw [uncounted_of_noEnd hcall.requestEnds_eq, Nat.cast_zero, add_zero]
    refine proj_update_same SignalState.unaccounted _ _ _ ?_
    obtain ⟨-, hitems⟩ := BoundedFifo.push_eq_some hpush
    simp only [SignalState.unaccounted, hitems, List.length_append, List.length_singleton, observe_exp]
    omega
  | drained hcall t item queue firstMono hpop =>
    rw [uncounted_of_noEnd hcall.requestEnds_eq, Nat.cast_zero, add_zero]
    refine proj_update_same SignalState.unaccounted _ _ _ ?_
    have hitems := BoundedFifo.pop_eq_some hpop
    simp only [SignalState.unaccounted, hitems, List.length_append, List.length_cons, List.length_nil]
    omega
  | flushed hcall t net prng evs ok =>
    rw [uncounted_of_noEnd hcall.requestEnds_eq, Nat.cast_zero, add_zero]
    refine proj_update_same SignalState.unaccounted _ _ _ ?_
    cases ok <;> simp [SignalState.unaccounted, World.flushed] <;> omega
  | answeredRetry r o net kept t ev hflight hends hretry =>
    have hzero : uncounted x l s = 0 := by simp [uncounted, hends, hretry]
    rw [hzero]
    exact (add_zero _).symm
  | answeredFinal r o net kept t rejected more hflight hends hfinal =>
    have hle := inFlightCount_le (hok.flight (inFlight_of_requestEnds hends))
    rw [show uncounted x l s = if x.world.exp.inFlightSignal = s then
      (x.world.exp.sig s).pending.length - x.world.exp.inFlightCount else 0 by
        simp [uncounted, hends, hfinal]]
    exact unaccounted_ended x.world.exp o.status rejected hle s
  | nullOutcome hcall t status now hnull =>
    rw [hok.nullTransport_eq] at hnull
    contradiction
  | freed hcall h => exact absurd h hfree

theorem step_unaccounted {x y : State ι cap} {l : Label ι} (h : step x l = some y) (hok : RealOk x.world)
    (hfree : l ≠ .free) (s : Signal) :
    (y.world.exp.sig s).unaccounted = (x.world.exp.sig s).unaccounted + uncounted x l s :=
  (step_effect h).unaccounted hok hfree s

/-! ### What was encoded -/

/-- Every item of signal `s` that `clear_in_flight_batch` frees was encoded before. -/
def FreedEncoded (s : Signal) (history : List (Obs ι)) : Prop :=
  History.Preceded (fun pre ob => ∀ item, ob = .freed s item .clearInFlightBatch →
    ∃ items, .encoded s items ∈ pre ∧ item ∈ items) history

theorem FreedEncoded.append {s : Signal} {history obs : List (Obs ι)} (h : FreedEncoded s history)
    (hobs : ∀ item, .freed s item .clearInFlightBatch ∈ obs →
      ∃ items, .encoded s items ∈ history ∧ item ∈ items) :
    FreedEncoded s (history ++ obs) := by
  refine History.Preceded.append_mono (fun pre more ob hob item heq => ?_) h
    (fun ob hmem item heq => hobs item (heq ▸ hmem))
  obtain ⟨items, hmem, hitem⟩ := hob item heq
  exact ⟨items, List.mem_append_left _ hmem, hitem⟩

theorem FreedEncoded.append_nofree {s : Signal} {history obs : List (Obs ι)} (h : FreedEncoded s history)
    (hobs : ∀ item, .freed s item .clearInFlightBatch ∉ obs) : FreedEncoded s (history ++ obs) :=
  h.append fun item hmem => absurd hmem (hobs item)

theorem Effect.freedEncoded {x : State ι cap} {l : Label ι} {w : World ι cap} (h : Effect x l w)
    (hok : RealOk x.world) {s : Signal} (hwhole : EndsWhole s x l)
    (henc : FreedEncoded s x.world.history) : FreedEncoded s w.history := by
  cases h with
  | quiet | shutdown | drained | disarmed | progressed => exact henc
  | refused hcall t item droppedFull evs =>
    exact henc.append_nofree (by simp)
  | accepted => exact henc.append_nofree (by simp)
  | startFailed t env net obs hattempt hfails hidle hnet hobs =>
    rcases hobs with rfl | rfl
    · exact henc.append_nofree (by simp)
    · exact henc.append_nofree (by simp)
  | started => exact henc.append_nofree (by simp)
  | answeredRetry => exact henc.append_nofree (by simp)
  | answeredFinal r o net kept t rejected more hflight hends hfinal =>
    refine henc.append fun item hmem => ?_
    have hflightOk := hok.flight (inFlight_of_requestEnds hends)
    simp only [endedObs, List.mem_cons, List.mem_append, List.mem_map, reduceCtorEq, false_or, or_false,
      and_false, exists_false, Obs.freed.injEq, and_true] at hmem
    obtain ⟨item', hpending, rfl, rfl⟩ := hmem
    refine ⟨x.world.inFlightItems, hflightOk.encoded_mem, ?_⟩
    have hlen := hwhole o hends hfinal rfl
    rw [hflightOk.count_eq] at hlen
    rw [hflightOk.items_isPrefix.eq_of_length hlen.symm]
    exact hpending
  | nullOutcome hcall t status now hnull =>
    rw [hok.nullTransport_eq] at hnull
    contradiction
  | flushed => exact henc.append_nofree (by simp)
  | freed =>
    rw [otlpExporterFree_history]
    exact henc.append_nofree (by simp [heldObs])

/-! ### Runs -/

theorem Fresh.unaccounted_eq {e : OtlpExporter ι cap} (h : Fresh e) (s : Signal) :
    (e.sig s).unaccounted = 0 := by
  rw [h.sig_eq]
  rfl

def Accounted (s : Signal) (x : State ι cap) : Prop :=
  RealOk x.world ∧ 0 ≤ (x.world.exp.sig s).unaccounted

theorem accounted_step {s : Signal} {x y : State ι cap} {l : Label ι} (hok : Accounted s x)
    (h : step x l = some y) : Accounted s y := by
  refine ⟨step_realOk h hok.1, ?_⟩
  have hnonneg := hok.2
  by_cases hfree : l = .free
  · subst hfree
    -- what is freed with the exporter is no longer queued or pending
    rw [step_free h, otlpExporterFree_sig]
    simp only [SignalState.unaccounted, BoundedFifo.items_empty, List.length_nil] at hnonneg ⊢
    omega
  · have hstep := step_unaccounted h hok.1 hfree s
    omega

theorem freedEncoded_step {s : Signal} {x y : State ι cap} {l : Label ι}
    (hx : RealOk x.world ∧ FreedEncoded s x.world.history) (hwhole : EndsWhole s x l)
    (h : step x l = some y) : RealOk y.world ∧ FreedEncoded s y.world.history :=
  ⟨step_realOk h hx.1, (step_effect h).freedEncoded hx.1 hwhole hx.2⟩

/-- **Item conservation.** In a run on the real transport, everything a signal has emitted is sent,
dropped, queued or pending, and what was freed with a batch was encoded before, exactly when every POST of
the signal that ended for good ended with the pending items it was started with. -/
theorem conserved_iff_endsWhole {opts : OtlpExporterOpts} {env : CreateEnv} {fn : Bool}
    {e : OtlpExporter ι (normalizeOpts opts).queueCapacity}
    (hcreate : otlpExporterCreate ι opts env = some e) {ls : List (Label ι)} {y : State ι _}
    (hfree : ∀ l ∈ ls, l ≠ .free) (hrun : Steps.run step (State.init e false fn) ls = some y) (s : Signal) :
    Conserved y.world s ∧ FreedEncoded s y.world.history ↔
      Steps.Along step (EndsWhole s) (State.init e false fn) ls := by
  have hfresh := fresh_of_create hcreate
  have hinit : Accounted s (State.init e false fn) :=
    ⟨hfresh.realOk fn, (hfresh.unaccounted_eq s).ge⟩
  have hconserved : Conserved y.world s ↔ Steps.Along step (EndsWhole s) (State.init e false fn) ls := by
    rw [conserved_iff_unaccounted]
    refine Steps.along_iff (P := fun x => (x.world.exp.sig s).unaccounted = 0) (I := Accounted s)
      (fun x l y hok h => accounted_step hok h) (fun x l y hok hl h => ?_) hinit
      (hfresh.unaccounted_eq s) hfree hrun
    rw [step_unaccounted h hok.1 hl, endsWhole_iff hok.1]
    have hnonneg := hok.2
    omega
  refine ⟨fun h => hconserved.1 h.1, fun h => ⟨hconserved.2 h, ?_⟩⟩
  have hnone : FreedEncoded s (State.init e false fn).world.history := History.preceded_nil
  have hencoded := Steps.along_invariant (P := fun x => RealOk x.world ∧ FreedEncoded s x.world.history)
    (fun x l y hx hwhole h => freedEncoded_step hx hwhole h) ⟨hfresh.realOk fn, hnone⟩ h hrun
  exact hencoded.2

/-- An item is sent and answered, and then a second one emitted. -/
def sentRun : List (Label ℕ) :=
  [.emitMove .span (some 1)] ++ tickRound 11 0 (.fine 0 []) ++
    tickRound 8 0 (.fine 0 (emptyResponse 200)) ++ [.emitMove .span (some 2)]

/-- The second item is emitted before the answer. -/
def lateItemRun : List (Label ℕ) :=
  [.emitMove .span (some 1)] ++ tickRound 11 0 (.fine 0 []) ++ [.emitMove .span (some 2)] ++
    tickRound 9 0 (.fine 0 (emptyResponse 200))

theorem conserved_iff_endsWhole_sent :
    ∃ y : State ℕ _, runFrom (plainOpts 1 1) sentRun = some y ∧ Conserved y.world .span := by
  have hsome : (runFrom (plainOpts 1 1) sentRun).isSome := by decide +kernel
  obtain ⟨y, hy⟩ := Option.isSome_iff_exists.1 hsome
  obtain ⟨e, hcreate, hrun⟩ := runFrom_eq_some hy
  have hwhole : ∀ e ∈ otlpExporterCreate ℕ (plainOpts 1 1) .fine,
      Steps.Along step (EndsWhole .span) (State.init e false false) sentRun := by decide +kernel
  have hconserved := (conserved_iff_endsWhole hcreate (by simp [sentRun, tickRound]) hrun .span).2
    (hwhole e hcreate)
  exact ⟨y, hy, hconserved.1⟩

/-- The second item is drained while the POST of the first is in flight, and freed with it uncounted. -/
theorem late_item_not_conserved :
    ∃ y : State ℕ _, runFrom (plainOpts 1 1) lateItemRun = some y ∧ y.phase = .idle ∧
      ¬Conserved y.world .span := by
  have hrun : (runFrom (plainOpts 1 1) lateItemRun).map (fun y =>
      (y.phase, (y.world.exp.sig .span).unaccounted)) = some (.idle, 1) := by decide +kernel
  obtain ⟨y, hy, hlost⟩ := Option.map_eq_some_iff.1 hrun
  simp only [Prod.mk.injEq] at hlost
  refine ⟨y, hy, hlost.1, ?_⟩
  rw [conserved_iff_unaccounted, hlost.2]
  decide

end OtlpC.Exporter
