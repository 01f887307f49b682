import OtlpC.Exporter.Invariants
import OtlpC.Lib.History
import OtlpC.Lib.Ledger

/-!
# Ownership of items

The items of the exporter are a ledger: each item handed over acquires one, each `free_item` releases one,
and the queues and pending arrays hold the rest. Every step balances it, and every encode reads items that
are held.
-/

namespace OtlpC.Exporter

variable {ι : Type*} {cap : ℕ}

/-! ### Handed, freed and held -/

def handedItems (history : List (Obs ι)) : List (Signal × ι) :=
  history.filterMap fun
    | .handed s item => some (s, item)
    | _ => none

def freedItems (history : List (Obs ι)) : List (Signal × ι) :=
  history.filterMap fun
    | .freed s item _ => some (s, item)
    | _ => none

/-- What a signal holds, in the order `drain_signal` frees it. -/
def OtlpExporter.held (e : OtlpExporter ι cap) (s : Signal) : List (Signal × ι) :=
  ((e.sig s).queue.items ++ (e.sig s).pending).map (Prod.mk s)

def World.itemLedger (w : World ι cap) : Ledger (Signal × ι) :=
  ⟨handedItems w.history, freedItems w.history, Signal.all.flatMap w.exp.held⟩

/-- The items of an encode are held at that time: handed over, and not yet freed. -/
def EncodesHeld (pre : List (Obs ι)) (ob : Obs ι) : Prop :=
  ∀ s items, ob = .encoded s items → (freedItems pre ++ items.map (Prod.mk s)).Subperm (handedItems pre)

theorem handedItems_append (history obs : List (Obs ι)) :
    handedItems (history ++ obs) = handedItems history ++ handedItems obs := List.filterMap_append

theorem freedItems_append (history obs : List (Obs ι)) :
    freedItems (history ++ obs) = freedItems history ++ freedItems obs := List.filterMap_append

/-! ### One step -/

theorem itemMove_idle {w w' : World ι cap} {obs : List (Obs ι)} (hhistory : w'.history = w.history ++ obs)
    (hhanded : handedItems obs = []) (hfreed : freedItems obs = [])
    (hheld : ∀ s, (w'.exp.held s).Perm (w.exp.held s)) : Ledger.Move w.itemLedger w'.itemLedger := by
  unfold World.itemLedger
  rw [hhistory, handedItems_append, freedItems_append, hhanded, hfreed, List.append_nil, List.append_nil]
  exact .keep (List.Perm.flatMap_left _ fun s _ => hheld s)

theorem itemMove_accept {w w' : World ι cap} {s : Signal} {item : ι}
    (hhistory : w'.history = w.history ++ [.handed s item, .accepted s item])
    (hother : ∀ t, t ≠ s → w'.exp.held t = w.exp.held t)
    (hheld : (w'.exp.held s).Perm (w.exp.held s ++ [(s, item)])) :
    Ledger.Move w.itemLedger w'.itemLedger := by
  unfold World.itemLedger
  rw [hhistory, handedItems_append, freedItems_append]
  rw [show freedItems [Obs.handed s item, .accepted s item] = [] from rfl, List.append_nil]
  exact .acquire (Ledger.flatMap_grow (by decide) s.mem_all hother hheld)

theorem itemMove_release {w w' : World ι cap} {obs : List (Obs ι)} {s : Signal} {xs : List (Signal × ι)}
    (hhistory : w'.history = w.history ++ obs) (hhanded : handedItems obs = []) (hfreed : freedItems obs = xs)
    (hother : ∀ t, t ≠ s → w.exp.held t = w'.exp.held t)
    (hheld : (w.exp.held s).Perm (w'.exp.held s ++ xs)) : Ledger.Move w.itemLedger w'.itemLedger := by
  unfold World.itemLedger
  rw [hhistory, handedItems_append, freedItems_append, hhanded, hfreed, List.append_nil]
  exact .release ((Ledger.flatMap_grow (by decide) s.mem_all hother hheld).trans List.perm_append_comm)

theorem held_of_update {e e' : OtlpExporter ι cap} {t : Signal} {sg : SignalState ι cap}
    (hsig : e'.sig = Function.update e.sig t sg) (hqueue : sg.queue = (e.sig t).queue)
    (hpending : sg.pending = (e.sig t).pending) (s : Signal) : e'.held s = e.held s := by
  unfold OtlpExporter.held
  rw [hsig, proj_update_same (·.queue) _ _ _ hqueue, proj_update_same (·.pending) _ _ _ hpending]

theorem held_of_ne {e e' : OtlpExporter ι cap} {s t : Signal} {sg : SignalState ι cap}
    (hsig : e'.sig = Function.update e.sig t sg) (h : s ≠ t) : e'.held s = e.held s := by
  unfold OtlpExporter.held
  rw [hsig, Function.update_of_ne h]

theorem handedItems_ended (e : OtlpExporter ι cap) (status : ℤ) (more : List OtlpEvent) :
    handedItems (endedObs e status more) = [] := by
  simp [handedItems, endedObs, List.filterMap_map]

theorem freedItems_ended (e : OtlpExporter ι cap) (status : ℤ) (more : List OtlpEvent) :
    freedItems (endedObs e status more) = (e.sig e.inFlightSignal).pending.map (Prod.mk e.inFlightSignal) := by
  simp [freedItems, endedObs, List.filterMap_map]

theorem itemMove_ended {w w' : World ι cap} (pre : List (Obs ι)) {status : ℤ} {more : List OtlpEvent}
    {rejected : ℕ} (hhistory : w'.history = w.history ++ (pre ++ endedObs w.exp status more))
    (hpre : handedItems pre = [] ∧ freedItems pre = [])
    (hsig : w'.exp.sig = (w.exp.ended status rejected).sig) :
    Ledger.Move w.itemLedger w'.itemLedger := by
  refine itemMove_release (s := w.exp.inFlightSignal) hhistory ?_ rfl (fun t ht => ?_) ?_
  · rw [handedItems_append, handedItems_ended, hpre.1, List.append_nil]
  · rw [OtlpExporter.held, OtlpExporter.held, hsig, ended_sig_of_ne _ _ _ ht]
  · rw [freedItems_append, freedItems_ended, hpre.2, List.nil_append]
    simp [OtlpExporter.held, hsig]

theorem recordOutcome_itemMove (w : World ι cap) (o : HttpOutcome) (now : ℕ) :
    Ledger.Move w.itemLedger (recordOutcome w o now).itemLedger := by
  cases hretry : retries w.exp o.status with
  | true =>
    obtain ⟨t, ev, heq, -⟩ := recordOutcome_retry now hretry
    rw [heq]
    exact itemMove_idle rfl rfl rfl fun _ => List.Perm.refl _
  | false =>
    obtain ⟨t, rejected, more, -, heq⟩ := recordOutcome_final now hretry
    rw [heq]
    exact itemMove_ended [] rfl ⟨rfl, rfl⟩ rfl

theorem handedItems_heldObs (w : World ι cap) : handedItems (heldObs w) = [] := by
  simp [handedItems, heldObs, Signal.all, List.filterMap_map]

theorem freedItems_heldObs (w : World ι cap) : freedItems (heldObs w) = Signal.all.flatMap w.exp.held := by
  simp [freedItems, heldObs, Signal.all, OtlpExporter.held, List.filterMap_map]

theorem otlpExporterFree_held (w : World ι cap) (s : Signal) : (otlpExporterFree w).exp.held s = [] := by
  rw [OtlpExporter.held, otlpExporterFree_sig]
  rfl

theorem Effect.itemMove {x : State ι cap} {l : Label ι} {w : World ι cap} (h : Effect x l w) :
    Ledger.Move x.world.itemLedger w.itemLedger := by
  cases h with
  | quiet | shutdown | disarmed | progressed =>
    exact itemMove_idle (List.append_nil _).symm rfl rfl fun _ => List.Perm.refl _
  | refused hcall t item droppedFull evs =>
    have hheld : ∀ s, ((x.world.observe (.handed t item :: .freed t item .emitMoveCommon ::
        evs.map .event)).modSig t fun sg => { sg with droppedFull }).exp.held s = x.world.exp.held s :=
      held_of_update rfl rfl rfl
    unfold World.itemLedger
    rw [funext hheld]
    simp only [modSig_history, observe_history, handedItems_append, freedItems_append]
    have hpass := Ledger.Move.pass (a := handedItems x.world.history) (r := freedItems x.world.history)
      (h := Signal.all.flatMap x.world.exp.held) [(t, item)]
    simpa [handedItems, freedItems, List.filterMap_map] using hpass
  | accepted hcall t item queue hpush =>
    obtain ⟨-, hitems⟩ := BoundedFifo.push_eq_some hpush
    refine itemMove_accept rfl (fun u hu => held_of_ne rfl hu) ?_
    · have hperm : (x.world.exp.held t ++ [(t, item)]).Perm
          (((x.world.exp.sig t).queue.items.map (Prod.mk t) ++ [(t, item)]) ++
            (x.world.exp.sig t).pending.map (Prod.mk t)) := by
        unfold OtlpExporter.held
        rw [List.map_append, List.append_assoc, List.append_assoc]
        exact List.perm_append_comm.append_left _
      refine List.Perm.trans ?_ hperm.symm
      simp [OtlpExporter.held, hitems]
  | drained hcall t item queue firstMono hpop =>
    have hitems := BoundedFifo.pop_eq_some hpop
    refine itemMove_idle (List.append_nil _).symm rfl rfl fun s => ?_
    by_cases hs : s = t
    · subst hs
      simp only [OtlpExporter.held, modSig_exp, Function.update_self, hitems]
      refine List.Perm.map _ ?_
      -- the item at the head of the queue is now last in the pending array
      calc (queue.items ++ ((x.world.exp.sig s).pending ++ [item])).Perm
            ((queue.items ++ (x.world.exp.sig s).pending) ++ [item]) := by rw [List.append_assoc]
        List.Perm _ (item :: (queue.items ++ (x.world.exp.sig s).pending)) :=
          List.perm_append_singleton _ _
    · exact .of_eq (held_of_ne rfl hs)
  | startFailed t env net obs hattempt hfails hidle hnet hobs =>
    refine itemMove_idle rfl ?_ ?_ fun _ => List.Perm.refl _
    · rcases hobs with rfl | rfl <;> rfl
    · rcases hobs with rfl | rfl <;> rfl
  | started t env net r k hattempt =>
    exact itemMove_idle rfl rfl rfl fun s => .of_eq (held_of_update rfl (by rfl) (by rfl) s)
  | answeredRetry => exact itemMove_idle rfl rfl rfl fun _ => List.Perm.refl _
  | answeredFinal r o net kept t rejected more =>
    exact itemMove_ended [.answered x.world.exp.inFlightSignal x.world.inFlightItems o.status] rfl
      ⟨rfl, rfl⟩ rfl
  | nullOutcome hcall t status now =>
    exact recordOutcome_itemMove (nullPosted x.world t) ⟨status, 0, none⟩ now
  | flushed hcall t net prng evs ok =>
    refine itemMove_idle rfl ?_ ?_ fun s => .of_eq (held_of_update rfl (by rfl) (by rfl) s)
    · simp [handedItems, List.filterMap_map]
    · simp [freedItems, List.filterMap_map]
  | freed =>
    unfold World.itemLedger
    rw [otlpExporterFree_history, handedItems_append, freedItems_append, handedItems_heldObs,
      freedItems_heldObs, List.append_nil, funext (otlpExporterFree_held x.world)]
    refine .release ?_
    rw [show (Signal.all.flatMap fun _ => ([] : List (Signal × ι))) = [] from rfl, List.append_nil]

/-! ### What is encoded -/

theorem held_sublist (e : OtlpExporter ι cap) (s : Signal) : (e.held s).Sublist (Signal.all.flatMap e.held) := by
  rw [List.flatMap_def]
  exact List.sublist_flatten_of_mem (List.mem_map_of_mem s.mem_all)

theorem encodesHeld_pending {w : World ι cap} (h : w.itemLedger.Exact) (s : Signal) :
    EncodesHeld w.history (.encoded s (w.exp.sig s).pending) := by
  intro t items heq
  obtain ⟨rfl, rfl⟩ : s = t ∧ (w.exp.sig s).pending = items := by simpa using heq
  have hpending : ((w.exp.sig s).pending.map (Prod.mk s)).Sublist (w.exp.held s) := by
    rw [OtlpExporter.held, List.map_append]
    exact List.sublist_append_right _ _
  exact ((hpending.trans (held_sublist w.exp s)).append_left _).subperm.trans h.subperm

theorem encodesHeld_append {history obs : List (Obs ι)} (h : History.Preceded EncodesHeld history)
    (hobs : ∀ s items, .encoded s items ∉ obs) : History.Preceded EncodesHeld (history ++ obs) :=
  h.append_free fun _ hmem _ s items heq => absurd (heq ▸ hmem) (hobs s items)

theorem recordOutcome_encodesHeld {w : World ι cap} (h : History.Preceded EncodesHeld w.history)
    (o : HttpOutcome) (now : ℕ) : History.Preceded EncodesHeld (recordOutcome w o now).history := by
  cases hretry : retries w.exp o.status with
  | true =>
    obtain ⟨t, ev, heq, -⟩ := recordOutcome_retry now hretry
    rw [heq]
    exact encodesHeld_append h (by simp)
  | false =>
    obtain ⟨t, rejected, more, -, heq⟩ := recordOutcome_final now hretry
    rw [heq]
    exact encodesHeld_append h (by simp [endedObs])

theorem Effect.encodesHeld {x : State ι cap} {l : Label ι} {w : World ι cap} (h : Effect x l w)
    (hexact : x.world.itemLedger.Exact) (henc : History.Preceded EncodesHeld x.world.history) :
    History.Preceded EncodesHeld w.history := by
  cases h with
  | quiet | shutdown | drained | disarmed | progressed => exact henc
  | refused | accepted | flushed | answeredRetry => exact encodesHeld_append henc (by simp)
  | answeredFinal => exact encodesHeld_append henc (by simp [endedObs])
  | startFailed s env net obs hattempt hfails hidle hnet hobs =>
    rcases hobs with rfl | rfl
    · rwa [List.append_nil]
    · exact History.preceded_concat.2 ⟨henc, encodesHeld_pending hexact s⟩
  | started s env net r k =>
    have hstart := History.preceded_concat.2 ⟨henc, encodesHeld_pending hexact s⟩
    have hposted : History.Preceded EncodesHeld
        (_ ++ [.posted s (x.world.exp.sig s).pending (some k)]) := encodesHeld_append hstart (by simp)
    rwa [List.append_assoc] at hposted
  | nullOutcome hcall s => exact recordOutcome_encodesHeld (w := nullPosted x.world s) henc _ _
  | freed =>
    rw [otlpExporterFree_history]
    exact encodesHeld_append henc (by simp [heldObs])

/-! ### Runs -/

/-- Every item handed over is held or freed, once, and only held items were encoded. -/
structure OwnOk (w : World ι cap) : Prop where
  exact : w.itemLedger.Exact
  encodesHeld : History.Preceded EncodesHeld w.history

theorem step_ownOk {x y : State ι cap} {l : Label ι} (hok : OwnOk x.world) (h : step x l = some y) :
    OwnOk y.world :=
  ⟨(step_effect h).itemMove.exact_iff.2 hok.exact, (step_effect h).encodesHeld hok.exact hok.encodesHeld⟩

theorem Fresh.ownOk {e : OtlpExporter ι cap} (h : Fresh e) (nullTransport fn : Bool) :
    OwnOk (State.init e nullTransport fn).world := by
  refine ⟨?_, History.preceded_nil⟩
  have hheld : ∀ s, (State.init e nullTransport fn).world.exp.held s = [] := by
    intro s
    simp [OtlpExporter.held, State.init, h.queue_eq, h.pending_eq]
  unfold World.itemLedger
  rw [funext hheld]
  exact Ledger.exact_empty

theorem step_freedHeld {x y : State ι cap} {l : Label ι} (h : step x l = some y)
    (hfreed : y.phase = .freed) (s : Signal) : y.world.exp.held s = [] := by
  obtain ⟨-, hworld⟩ := (step_phase h).2 hfreed
  rw [hworld, otlpExporterFree_held]

theorem EncodesHeld.not_freed {pre : List (Obs ι)} {s : Signal} {items : List ι}
    (h : EncodesHeld pre (.encoded s items)) (hnodup : (handedItems pre).Nodup) {item : ι}
    (hmem : item ∈ items) : (s, item) ∉ freedItems pre := by
  obtain ⟨l, hperm, hsub⟩ := h s items rfl
  have hnodup' := hperm.nodup_iff.1 (hnodup.sublist hsub)
  intro hfreed
  exact (List.nodup_append.1 hnodup').2.2 _ hfreed _ (List.mem_map_of_mem hmem) rfl

/-- **Ownership of moved items.** After a run that ends in `otlp_exporter_free`, on either transport, the
items passed to their signal's `free_item` are those handed over, each as often. Each item that was
encoded had at that time been handed over more often than freed; when none is handed over twice, none was
encoded after its free. -/
theorem freed_perm_handed {opts : OtlpExporterOpts} {env : CreateEnv} {nullTransport fn : Bool}
    {e : OtlpExporter ι (normalizeOpts opts).queueCapacity}
    (hcreate : otlpExporterCreate ι opts env = some e) {ls : List (Label ι)} {y : State ι _}
    (hrun : Steps.run step (State.init e nullTransport fn) ls = some y) (hfreed : y.phase = .freed) :
    (freedItems y.world.history).Perm (handedItems y.world.history) ∧
      History.Preceded EncodesHeld y.world.history ∧
      ∀ pre s items post, y.world.history = pre ++ .encoded s items :: post →
        (handedItems pre).Nodup → ∀ item ∈ items, (s, item) ∉ freedItems pre := by
  have hfresh := fresh_of_create hcreate
  have hok : OwnOk y.world := Steps.run_invariant (P := fun x => OwnOk x.world)
    (fun x l y hok h => step_ownOk hok h) (hfresh.ownOk _ _) hrun
  have hheld : y.phase = .freed → ∀ s, y.world.exp.held s = [] :=
    Steps.run_invariant (P := fun x => x.phase = .freed → ∀ s, x.world.exp.held s = [])
      (fun x l y _ h => step_freedHeld h) (by simp [State.init]) hrun
  refine ⟨?_, hok.encodesHeld, fun pre s items post heq hnodup item hmem => ?_⟩
  · have hexact := hok.exact
    unfold World.itemLedger at hexact
    rw [funext (hheld hfreed)] at hexact
    exact hexact.released_perm
  · exact (hok.encodesHeld pre _ post heq).not_freed hnodup hmem

/-- A span is sent; a log record is queued, and a metric refused, when the exporter is freed. -/
def movedRun : List (Label ℕ) :=
  [.emitMove .span (some 1)] ++ tickRound 11 0 (.fine 0 []) ++
    tickRound 8 0 (.fine 0 (emptyResponse 200)) ++
    [.emitMove .log (some 2), .shutdown, .emitMove .metric (some 3), .free]

theorem freed_perm_handed_three :
    ∃ y : State ℕ _, runFrom (plainOpts 1 1) movedRun = some y ∧
      handedItems y.world.history = [(.span, 1), (.log, 2), (.metric, 3)] ∧
      (freedItems y.world.history).Perm (handedItems y.world.history) := by
  have hrun : (runFrom (plainOpts 1 1) movedRun).map (fun y => (y.phase, handedItems y.world.history)) =
      some (.freed, [(.span, 1), (.log, 2), (.metric, 3)]) := by decide +kernel
  obtain ⟨y, hy, heq⟩ := Option.map_eq_some_iff.1 hrun
  simp only [Prod.mk.injEq] at heq
  obtain ⟨e, hcreate, hrun⟩ := runFrom_eq_some hy
  exact ⟨y, hy, heq.2, (freed_perm_handed hcreate hrun heq.1).1⟩

end OtlpC.Exporter
