import OtlpC.Exporter.Invariants
import Mathlib.Data.List.Count

/-!
# Delivery

What a signal's queue has accepted is, in order, what has been cleared with a batch, what is pending and
what is queued. The collector acknowledges a POST only when its batch is cleared, and the POST carries the
first items of that batch, so the items acknowledged come in the order of acceptance and none twice.
-/

namespace OtlpC.Exporter

variable {ι : Type*} {cap : ℕ}

/-! ### What the history says of a signal -/

/-- The items the signal's queue accepted, in order. -/
def acceptedItems (s : Signal) (history : List (Obs ι)) : List ι :=
  history.filterMap fun
    | .accepted t item => if t = s then some item else none
    | _ => none

/-- The items freed by `clear_in_flight_batch`, in order. -/
def clearedItems (s : Signal) (history : List (Obs ι)) : List ι :=
  history.filterMap fun
    | .freed t item .clearInFlightBatch => if t = s then some item else none
    | _ => none

/-- The bodies of the POSTs that were answered with a 2xx, in the order of the answers. -/
def ackedBodies (s : Signal) (history : List (Obs ι)) : List (List ι) :=
  history.filterMap fun
    | .answered t items status => if t = s ∧ successStatus status = true then some items else none
    | _ => none

theorem acceptedItems_append (s : Signal) (history obs : List (Obs ι)) :
    acceptedItems s (history ++ obs) = acceptedItems s history ++ acceptedItems s obs :=
  List.filterMap_append

theorem clearedItems_append (s : Signal) (history obs : List (Obs ι)) :
    clearedItems s (history ++ obs) = clearedItems s history ++ clearedItems s obs :=
  List.filterMap_append

theorem ackedBodies_append (s : Signal) (history obs : List (Obs ι)) :
    ackedBodies s (history ++ obs) = ackedBodies s history ++ ackedBodies s obs :=
  List.filterMap_append

/-- What is observed when nothing is accepted, cleared or acknowledged. -/
structure Silent (s : Signal) (obs : List (Obs ι)) : Prop where
  accepted_eq : acceptedItems s obs = []
  cleared_eq : clearedItems s obs = []
  acked_eq : ackedBodies s obs = []

/-! ### The invariant -/

/-- Where the accepted items of a signal are, and which ones were acknowledged. -/
structure DeliveryOk (s : Signal) (w : World ι cap) : Prop where
  order : acceptedItems s w.history =
    clearedItems s w.history ++ (w.exp.sig s).pending ++ (w.exp.sig s).queue.items
  acked : (ackedBodies s w.history).flatten.Sublist (clearedItems s w.history)

theorem DeliveryOk.silent {s : Signal} {w w' : World ι cap} (hok : DeliveryOk s w) {obs : List (Obs ι)}
    (hhistory : w'.history = w.history ++ obs) (hsilent : Silent s obs)
    (hheld : (w'.exp.sig s).pending ++ (w'.exp.sig s).queue.items =
      (w.exp.sig s).pending ++ (w.exp.sig s).queue.items) : DeliveryOk s w' := by
  constructor
  · rw [hhistory, acceptedItems_append, clearedItems_append, hsilent.accepted_eq, hsilent.cleared_eq,
      List.append_nil, List.append_nil, List.append_assoc, hheld, hok.order, List.append_assoc]
  · rw [hhistory, ackedBodies_append, clearedItems_append, hsilent.acked_eq, hsilent.cleared_eq,
      List.append_nil, List.append_nil]
    exact hok.acked

theorem DeliveryOk.accept {s t : Signal} {w w' : World ι cap} (hok : DeliveryOk s w) {item : ι}
    (hhistory : w'.history = w.history ++ [.handed t item, .accepted t item])
    (hpending : (w'.exp.sig s).pending = (w.exp.sig s).pending)
    (hqueue : (w'.exp.sig s).queue.items = (w.exp.sig s).queue.items ++ if t = s then [item] else []) :
    DeliveryOk s w' := by
  have haccepted : acceptedItems s [Obs.handed t item, .accepted t item] =
      if t = s then [item] else [] := by
    by_cases hts : t = s <;> simp [acceptedItems, hts]
  constructor
  · rw [hhistory, acceptedItems_append, clearedItems_append, haccepted, hpending, hqueue, hok.order]
    simp [clearedItems]
  · rw [hhistory, ackedBodies_append, clearedItems_append]
    simpa [ackedBodies, clearedItems] using hok.acked

theorem acceptedItems_ended (e : OtlpExporter ι cap) (status : ℤ) (more : List OtlpEvent) (s : Signal) :
    acceptedItems s (endedObs e status more) = [] := by
  simp [acceptedItems, endedObs, List.filterMap_map]

theorem ackedBodies_ended (e : OtlpExporter ι cap) (status : ℤ) (more : List OtlpEvent) (s : Signal) :
    ackedBodies s (endedObs e status more) = [] := by
  simp [ackedBodies, endedObs, List.filterMap_map]

theorem clearedItems_ended (e : OtlpExporter ι cap) (status : ℤ) (more : List OtlpEvent) (s : Signal) :
    clearedItems s (endedObs e status more) =
      if e.inFlightSignal = s then (e.sig s).pending else [] := by
  by_cases hs : e.inFlightSignal = s
  · subst hs
    simp [clearedItems, endedObs, List.filterMap_map]
  · simp [clearedItems, endedObs, List.filterMap_map, hs]

theorem DeliveryOk.ended {s : Signal} {w w' : World ι cap} (hok : DeliveryOk s w) (hflight : FlightOk w)
    {status : ℤ} {more : List OtlpEvent}
    (hhistory : w'.history = w.history ++ .answered w.exp.inFlightSignal w.inFlightItems status ::
      endedObs w.exp status more)
    (hpending : (w'.exp.sig s).pending = if w.exp.inFlightSignal = s then [] else (w.exp.sig s).pending)
    (hqueue : (w'.exp.sig s).queue = (w.exp.sig s).queue) : DeliveryOk s w' := by
  have haccepted : acceptedItems s w'.history = acceptedItems s w.history := by
    rw [hhistory, acceptedItems_append]
    simpa [acceptedItems] using acceptedItems_ended w.exp status more s
  have hcleared : clearedItems s w'.history = clearedItems s w.history ++
      if w.exp.inFlightSignal = s then (w.exp.sig s).pending else [] := by
    rw [hhistory, clearedItems_append, ← clearedItems_ended w.exp status more s]
    simp [clearedItems]
  have hacked : ackedBodies s w'.history = ackedBodies s w.history ++
      if w.exp.inFlightSignal = s ∧ successStatus status = true then [w.inFlightItems] else [] := by
    have hended := ackedBodies_ended w.exp status more s
    unfold ackedBodies at hended
    rw [hhistory, ackedBodies_append]
    split
    · next h => simp [ackedBodies, h, hended]
    · next h => simp [ackedBodies, h, hended]
  by_cases hs : w.exp.inFlightSignal = s
  · subst hs
    simp only [if_true] at hpending hcleared
    constructor
    · rw [haccepted, hcleared, hpending, hqueue, hok.order, List.append_nil]
    · rw [hacked, hcleared, List.flatten_append]
      refine hok.acked.append ?_
      split
      · rw [List.flatten_singleton]
        exact hflight.items_isPrefix.sublist
      · exact List.nil_sublist _
  · simp only [hs, if_false, false_and, List.append_nil] at hpending hcleared hacked
    constructor
    · rw [haccepted, hcleared, hpending, hqueue, hok.order]
    · rw [hacked, hcleared]
      exact hok.acked

theorem Effect.deliveryOk {x : State ι cap} {l : Label ι} {w : World ι cap} (h : Effect x l w)
    (hreal : RealOk x.world) (hfree : l ≠ .free) {s : Signal} (hok : DeliveryOk s x.world) :
    DeliveryOk s w := by
  cases h with
  | quiet => exact hok
  | shutdown | disarmed | progressed => exact ⟨hok.order, hok.acked⟩
  | refused hcall t item droppedFull evs =>
    refine hok.silent rfl ⟨?_, ?_, ?_⟩
      (proj_update_same (fun sg => sg.pending ++ sg.queue.items) _ _ _ rfl)
    all_goals simp [acceptedItems, clearedItems, ackedBodies]
  | accepted hcall t item queue hpush =>
    obtain ⟨-, hitems⟩ := BoundedFifo.push_eq_some hpush
    refine hok.accept rfl (proj_update_same (·.pending) _ _ _ rfl)
      ((proj_update (·.queue.items) _ _ _ _).trans ?_)
    by_cases hs : s = t
    · simp [hs, hitems]
    · simp [hs, Ne.symm hs]
  | drained hcall t item queue firstMono hpop =>
    have hitems := BoundedFifo.pop_eq_some hpop
    have hhistory : x.world.history = x.world.history ++ [] := (List.append_nil _).symm
    refine hok.silent hhistory ⟨rfl, rfl, rfl⟩
      (proj_update_same (fun sg => sg.pending ++ sg.queue.items) _ _ _ ?_)
    simp [hitems]
  | startFailed t env net obs hattempt hfails hidle hnet hobs =>
    refine hok.silent rfl ?_ rfl
    rcases hobs with rfl | rfl
    · exact ⟨rfl, rfl, rfl⟩
    · exact ⟨rfl, rfl, rfl⟩
  | started t env net r k hattempt =>
    exact hok.silent rfl ⟨rfl, rfl, rfl⟩
      (proj_update_same (fun sg => sg.pending ++ sg.queue.items) _ _ _ rfl)
  | answeredRetry r o net kept t ev hflight hends hretry hnet hev =>
    refine hok.silent rfl ⟨rfl, rfl, ?_⟩ rfl
    -- a status that is retried is no 2xx
    simp only [retries, Bool.and_eq_true] at hretry
    simp [ackedBodies, successStatus_of_transient hretry.1]
  | answeredFinal r o net kept t rejected more hflight hends hfinal hnet =>
    refine hok.ended (hreal.flight (by rw [hflight]; rfl)) rfl
      ((proj_update (·.pending) _ _ _ _).trans ?_) (proj_update_same (·.queue) _ _ _ rfl)
    by_cases hs : s = x.world.exp.inFlightSignal
    · simp [hs]
    · simp [hs, Ne.symm hs]
  | nullOutcome hcall t status now hnull =>
    rw [hreal.nullTransport_eq] at hnull
    contradiction
  | flushed hcall t net prng evs ok =>
    refine hok.silent rfl ⟨?_, ?_, ?_⟩
      (proj_update_same (fun sg => sg.pending ++ sg.queue.items) _ _ _ rfl)
    all_goals simp [acceptedItems, clearedItems, ackedBodies]
  | freed hcall h => exact absurd h hfree

/-! ### Runs -/

theorem DeliveryOk.acked_sublist {s : Signal} {w : World ι cap} (h : DeliveryOk s w) :
    (ackedBodies s w.history).flatten.Sublist (acceptedItems s w.history) := by
  rw [h.order, List.append_assoc]
  exact h.acked.trans (List.sublist_append_left _ _)

/-- A state of a run on the real transport. Freeing the exporter scatters what it holds, and ends the
run. -/
structure Delivered (s : Signal) (x : State ι cap) : Prop where
  realOk : RealOk x.world
  live : x.phase ≠ .freed → DeliveryOk s x.world
  acked : (ackedBodies s x.world.history).flatten.Sublist (acceptedItems s x.world.history)

theorem delivered_step {s : Signal} {x y : State ι cap} {l : Label ι} (hx : Delivered s x)
    (h : step x l = some y) : Delivered s y := by
  have hlive := hx.live (step_phase h).1
  by_cases hfree : l = .free
  · subst hfree
    refine ⟨step_realOk h hx.realOk, fun hphase => ?_, ?_⟩
    · rw [step_free h] at hphase
      contradiction
    · rw [step_free h, otlpExporterFree_history, ackedBodies_append, acceptedItems_append,
        show ackedBodies s (heldObs x.world) = [] by simp [ackedBodies, heldObs, Signal.all],
        List.append_nil]
      exact hx.acked.trans (List.sublist_append_left _ _)
  · have hok := (step_effect h).deliveryOk hx.realOk hfree hlive
    exact ⟨step_realOk h hx.realOk, fun _ => hok, hok.acked_sublist⟩

theorem Fresh.delivered {e : OtlpExporter ι cap} (h : Fresh e) (fn : Bool) (s : Signal) :
    Delivered s (State.init e false fn) := by
  have hok : DeliveryOk s (State.init e false fn).world := by
    refine ⟨?_, by simp [State.init, ackedBodies]⟩
    simp [State.init, acceptedItems, clearedItems, h.pending_eq, h.queue_eq]
  exact ⟨h.realOk fn, fun _ => hok, hok.acked_sublist⟩

/-- An item is in no more bodies than it has occurrences in all of them. -/
theorem countP_mem_le_count_flatten [DecidableEq ι] (item : ι) (bodies : List (List ι)) :
    bodies.countP (item ∈ ·) ≤ bodies.flatten.count item := by
  induction bodies with
  | nil => simp
  | cons body bodies ih =>
    rw [List.flatten_cons, List.count_append, List.countP_cons]
    split
    · next hmem =>
      have hpos : 0 < body.count item := List.count_pos_iff.2 (of_decide_eq_true hmem)
      omega
    · omega

/-- **At-most-once acknowledged, order-preserving delivery.** On the real transport, the items of a
signal's POSTs that were answered with a 2xx, in the order of the answers, are a subsequence of the items
its queue accepted, and no item is in more such POSTs than it was accepted times. -/
theorem acked_of_run [DecidableEq ι] {opts : OtlpExporterOpts} {env : CreateEnv} {fn : Bool}
    {e : OtlpExporter ι (normalizeOpts opts).queueCapacity}
    (hcreate : otlpExporterCreate ι opts env = some e) {ls : List (Label ι)} {y : State ι _}
    (hrun : Steps.run step (State.init e false fn) ls = some y) (s : Signal) :
    (ackedBodies s y.world.history).flatten.Sublist (acceptedItems s y.world.history) ∧
      ∀ item, (ackedBodies s y.world.history).countP (item ∈ ·) ≤
        (acceptedItems s y.world.history).count item := by
  have hdelivered : Delivered s y := Steps.run_invariant (fun x l y hx h => delivered_step hx h)
    ((fresh_of_create hcreate).delivered fn s) hrun
  refine ⟨hdelivered.acked, fun item => ?_⟩
  exact (countP_mem_le_count_flatten item _).trans (hdelivered.acked.count_le item)

/-- Two spans sent one after the other, the first one again after a 503. -/
def resentRun : List (Label ℕ) :=
  [.emitMove .span (some 1)] ++ tickRound 11 0 (.fine 0 []) ++
    tickRound 8 0 (.fine 0 (emptyResponse 503)) ++ tickRound 8 100000 (.fine 0 []) ++
    tickRound 8 100000 (.fine 0 []) ++ tickRound 8 100000 (.fine 0 (emptyResponse 200)) ++
    [.emitMove .span (some 2)] ++ tickRound 11 100000 (.fine 0 []) ++
    tickRound 8 100000 (.fine 0 (emptyResponse 200))

theorem acked_of_run_resent :
    ∃ y : State ℕ _, runFrom (plainOpts 1 1) resentRun = some y ∧
      ackedBodies .span y.world.history = [[1], [2]] ∧
      (ackedBodies .span y.world.history).flatten.Sublist (acceptedItems .span y.world.history) ∧
      ∀ item, (ackedBodies .span y.world.history).countP (item ∈ ·) ≤
        (acceptedItems .span y.world.history).count item := by
  have hacked : (runFrom (plainOpts 1 1) resentRun).map (fun y => ackedBodies .span y.world.history) =
      some [[1], [2]] := by decide +kernel
  obtain ⟨y, hy, hbodies⟩ := Option.map_eq_some_iff.1 hacked
  obtain ⟨e, hcreate, hrun⟩ := runFrom_eq_some hy
  exact ⟨y, hy, hbodies, acked_of_run hcreate hrun .span⟩

end OtlpC.Exporter
