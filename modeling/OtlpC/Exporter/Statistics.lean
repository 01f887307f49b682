import OtlpC.Exporter.Outcomes

/-!
# Statistics, events and exchanges

The counters of `otlp_exporter_get_stats` against the events delivered and the HTTP exchanges completed.
The counters of items always follow the events; the counters of statuses follow the exchanges as long as
every response has a status of the classes they are named after.
-/

namespace OtlpC.Exporter

open Http

variable {ι : Type*} {cap : ℕ}

/-! ### Events -/

def Obs.event? : Obs ι → Option OtlpEvent
  | .event ev => some ev
  | _ => none

def eventsOf (h : List (Obs ι)) : List OtlpEvent := h.filterMap Obs.event?

/-- The sum of a number carried by the events with `code` delivered for the signal `s`. -/
def told (f : OtlpEvent → ℕ) (code : EventCode) (s : Signal) (h : List (Obs ι)) : ℕ :=
  (((eventsOf h).filter fun ev => ev.code == code && ev.signal == s).map f).sum

theorem told_append (f : OtlpEvent → ℕ) (code : EventCode) (s : Signal) (h obs : List (Obs ι)) :
    told f code s (h ++ obs) = told f code s h + told f code s obs := by
  simp [told, eventsOf]

theorem told_of_no_events {f : OtlpEvent → ℕ} {code : EventCode} {s : Signal} {obs : List (Obs ι)}
    (h : eventsOf obs = []) : told f code s obs = 0 := by
  rw [told, h]
  rfl

/-! ### Exchanges -/

/-- A completed HTTP exchange: its signal and the response, or `none` when none was accepted. -/
structure Exchange where
  signal : Signal
  response : Option HttpOutcome
deriving DecidableEq

/-- The exchange that the step completes. -/
def exchangeEnds (x : State ι cap) : Label ι → Option Exchange
  | .tickStep env =>
    match x.phase with
    | .tick f =>
      match f.pc with
      | .stepInFlight =>
        x.world.exp.inFlight.bind fun r =>
          let r' := (otlpHttpRequestStep r env.io).1
          (requestEnded x.world.exp.keepaliveSock r').map fun e =>
            { signal := x.world.exp.inFlightSignal,
              response := if r'.state = .done then some e.1 else none }
      | _ => none
    | _ => none
  | _ => none

/-- The exchanges completed in a run. -/
def exchanges (x : State ι cap) : List (Label ι) → List Exchange
  | [] => []
  | l :: ls => (exchangeEnds x l).toList ++
    match step x l with
    | none => []
    | some y => exchanges y ls

/-- The exchange was answered with a status from `100 * c` to `100 * c + 99`. -/
def Exchange.hasClass (c : ℤ) (ex : Exchange) : Bool :=
  match ex.response with
  | none => false
  | some o => 100 * c ≤ o.status && o.status ≤ 100 * c + 99

def HttpOutcome.rejected (o : HttpOutcome) : ℕ :=
  if successStatus o.status then ((partialReport o.body).map Prod.fst).getD 0 else 0

def Exchange.rejected (ex : Exchange) : ℕ :=
  match ex.response with
  | none => 0
  | some o => o.rejected

def rejectedFor (s : Signal) (exs : List Exchange) : ℕ :=
  ((exs.filter fun ex => ex.signal == s).map Exchange.rejected).sum

/-- **The same story.** The counters agree with the events and with the exchanges. -/
structure SameStory (e : OtlpExporter ι cap) (h : List (Obs ι)) (exs : List Exchange) : Prop where
  sent_eq : ∀ s, (e.sig s).sent = told (·.count) .batchSent s h
  droppedErr_eq : ∀ s, (e.sig s).droppedErr = told (·.count) .itemsDropped s h
  droppedFull_eq : ∀ s, (e.sig s).droppedFull = told (·.count) .queueFull s h
  rejected_eq : ∀ s, (e.sig s).rejected = told (·.rejected) .partialSuccess s h
  networkErr_eq : e.networkErr = exs.countP (·.response.isNone)
  http2xx_eq : e.http2xx = exs.countP (·.hasClass 2)
  http4xx_eq : e.http4xx = exs.countP (·.hasClass 4)
  http5xx_eq : e.http5xx = exs.countP (·.hasClass 5)

/-- The response, if there is one, has a status of a class that is counted. -/
def Exchange.Classified (ex : Exchange) : Prop :=
  ex.response.isSome → ex.hasClass 2 ∨ ex.hasClass 4 ∨ ex.hasClass 5

/-! ### What the counters count -/

def Exchange.status (ex : Exchange) : ℤ := (ex.response.map HttpOutcome.status).getD 0

/-- The HTTP counters in terms of the exchanges, whatever their statuses. -/
structure Tallied (t : Tally) (exs : List Exchange) : Prop where
  networkErr_eq : t.networkErr = exs.countP fun ex => ex.status == 0
  http2xx_eq : t.http2xx = exs.countP fun ex => successStatus ex.status
  http5xx_eq : t.http5xx = exs.countP fun ex => 500 ≤ ex.status && ex.status < 600
  http4xx_eq : t.http4xx = exs.countP fun ex =>
    !(ex.status == 0 || successStatus ex.status || (500 ≤ ex.status && ex.status < 600))

/-- The counters of items in terms of the events, and `rejected`, which wraps, of the exchanges too. -/
structure Ledgered (w : World ι cap) (exs : List Exchange) : Prop where
  sent_eq : ∀ s, (w.exp.sig s).sent = told (·.count) .batchSent s w.history
  droppedErr_eq : ∀ s, (w.exp.sig s).droppedErr = told (·.count) .itemsDropped s w.history
  droppedFull_eq : ∀ s, (w.exp.sig s).droppedFull = told (·.count) .queueFull s w.history
  rejected_eq : ∀ s, (w.exp.sig s).rejected = Queue.u64 (told (·.rejected) .partialSuccess s w.history)
  reported_eq : ∀ s, told (·.rejected) .partialSuccess s w.history = rejectedFor s exs
  tallied : Tallied w.exp.tallyOf exs

theorem Tallied.arm {t : Tally} {exs : List Exchange} (h : Tallied t exs) (e : OtlpExporter ι cap) (floorMs now : ℕ) :
    Tallied (t.arm e floorMs now) exs :=
  ⟨h.networkErr_eq, h.http2xx_eq, h.http5xx_eq, h.http4xx_eq⟩

theorem Tallied.count {t : Tally} {exs : List Exchange} (h : Tallied t exs) (ex : Exchange) :
    Tallied (t.count ex.status) (exs ++ [ex]) := by
  obtain ⟨hnet, h2, h5, h4⟩ := h
  unfold Tally.count
  split
  · next hzero =>
    constructor <;> simp [List.countP_append, hnet, h2, h5, h4, hzero, successStatus]
  next hzero =>
  split
  · next hsuccess =>
    have hserver : ¬500 ≤ ex.status := by
      simp only [successStatus, Bool.and_eq_true, decide_eq_true_eq] at hsuccess
      omega
    constructor <;> simp [List.countP_append, hnet, h2, h5, h4, hzero, hsuccess, hserver]
  next hsuccess =>
  split
  · next hserver =>
    constructor <;> simp [List.countP_append, hnet, h2, h5, h4, hzero, hsuccess, hserver]
  · next hserver =>
    constructor <;> simp [List.countP_append, hnet, h2, h5, h4, hzero, hsuccess] <;> omega

/-! ### Steps that tell nothing -/

def SignalState.counts (sg : SignalState ι cap) : ℕ × ℕ × ℕ × ℕ :=
  (sg.sent, sg.droppedErr, sg.droppedFull, sg.rejected)

/-- A world with the same counters, and no more events. -/
structure Untold (w w' : World ι cap) : Prop where
  counts_eq : ∀ s, (w'.exp.sig s).counts = (w.exp.sig s).counts
  http2xx_eq : w'.exp.http2xx = w.exp.http2xx
  http4xx_eq : w'.exp.http4xx = w.exp.http4xx
  http5xx_eq : w'.exp.http5xx = w.exp.http5xx
  networkErr_eq : w'.exp.networkErr = w.exp.networkErr
  history : ∃ obs, w'.history = w.history ++ obs ∧ eventsOf obs = []

theorem Untold.refl (w : World ι cap) : Untold w w :=
  ⟨fun _ => rfl, rfl, rfl, rfl, rfl, [], by simp, rfl⟩

theorem Untold.of_sig {w w' : World ι cap} {s : Signal} {sg : SignalState ι cap} (obs : List (Obs ι))
    (hsig : w'.exp.sig = Function.update w.exp.sig s sg) (hcounts : sg.counts = (w.exp.sig s).counts)
    (htally : w'.exp.tallyOf = w.exp.tallyOf) (hhistory : w'.history = w.history ++ obs)
    (hevents : eventsOf obs = []) : Untold w w' where
  counts_eq t := by
    rw [hsig]
    exact proj_update_same (·.counts) _ _ _ hcounts
  http2xx_eq := congrArg Tally.http2xx htally
  http4xx_eq := congrArg Tally.http4xx htally
  http5xx_eq := congrArg Tally.http5xx htally
  networkErr_eq := congrArg Tally.networkErr htally
  history := ⟨obs, hhistory, hevents⟩

theorem Ledgered.untold {w w' : World ι cap} {exs : List Exchange} (h : Ledgered w exs)
    (hw : Untold w w') : Ledgered w' exs := by
  obtain ⟨hsent, herr, hfull, hrejected, hreported, hnet, h2, h5, h4⟩ := h
  obtain ⟨obs, hhistory, hevents⟩ := hw.history
  have hcounts := hw.counts_eq
  simp only [SignalState.counts, Prod.mk.injEq] at hcounts
  have htold (f : OtlpEvent → ℕ) (code : EventCode) (s : Signal) :
      told f code s w'.history = told f code s w.history := by
    rw [hhistory, told_append, told_of_no_events hevents, Nat.add_zero]
  refine ⟨fun s => ?_, fun s => ?_, fun s => ?_, fun s => ?_, fun s => ?_, ?_, ?_, ?_, ?_⟩
  · rw [htold, (hcounts s).1, hsent s]
  · rw [htold, (hcounts s).2.1, herr s]
  · rw [htold, (hcounts s).2.2.1, hfull s]
  · rw [htold, (hcounts s).2.2.2, hrejected s]
  · rw [htold, hreported s]
  · exact hw.networkErr_eq.trans hnet
  · exact hw.http2xx_eq.trans h2
  · exact hw.http5xx_eq.trans h5
  · exact hw.http4xx_eq.trans h4

theorem tryStartPost_untold (w : World ι cap) (s : Signal) (env : BuildEnv) :
    Untold w (tryStartPost w s env).1 := by
  unfold tryStartPost
  split
  · exact .refl w
  split
  · next w' st hspec =>
    obtain ⟨net, obs, rfl, -, hobs⟩ := specBuildRequest_error hspec
    refine ⟨fun _ => rfl, rfl, rfl, rfl, rfl, obs, rfl, ?_⟩
    rcases hobs with rfl | rfl <;> rfl
  · next w' r hspec =>
    obtain ⟨net, k, rfl, -, -⟩ := specBuildRequest_ok hspec
    refine @Untold.of_sig _ _ _ _ s { w.exp.sig s with firstSet := false }
      [.encoded s (w.exp.sig s).pending, .posted s (w.exp.sig s).pending r.sock] rfl rfl rfl ?_ rfl
    simp [startedPost, World.observe, World.modSig]

theorem drainOne_untold {w w' : World ι cap} {s : Signal} {now : ℕ} (h : drainOne w s now = some w') :
    Untold w w' := by
  unfold drainOne at h
  split at h
  · split at h
    · contradiction
    · cases h
      exact .of_sig [] rfl rfl rfl (List.append_nil _).symm rfl
  · contradiction

theorem backoffRetry_untold (w : World ι cap) (env : BuildEnv) (now : ℕ) :
    Untold w (backoffRetry w env now) := by
  have hdisarm : Untold w w.disarm := ⟨fun _ => rfl, rfl, rfl, rfl, rfl, [], (List.append_nil _).symm, rfl⟩
  unfold backoffRetry
  split
  · change Untold w (if w.disarm.exp.nullTransport then w.disarm
      else (tryStartPost w.disarm w.exp.inFlightSignal env).1)
    split
    · exact hdisarm
    · have huntold := tryStartPost_untold w.disarm w.exp.inFlightSignal env
      exact ⟨huntold.1, huntold.2, huntold.3, huntold.4, huntold.5, huntold.6⟩
  · exact .refl w

theorem tickStep_untold {w : World ι cap} {f : Frame} {env : TickEnv}
    (hreal : w.exp.nullTransport = false)
    (hnone : exchangeEnds ⟨w, .tick f⟩ (.tickStep env) = none) :
    Untold w (tickStep w f env).world := by
  cases hpc : f.pc with
  | drain s =>
    simp only [tickStep, hpc]
    split
    · next w' hdrain => exact drainOne_untold hdrain
    · exact .refl w
  | nullTransport =>
    simp only [tickStep, hpc, hreal]
    exact .refl w
  | beginStart =>
    simp only [tickStep, hpc]
    split <;> exact .refl w
  | start s shutdown nowMs =>
    simp only [tickStep, hpc]
    split
    · exact .refl w
    split
    · exact tryStartPost_untold w s env.build
    · exact .refl w
  | stepInFlight =>
    simp only [tickStep, hpc, stepInFlight]
    split
    · exact .refl w
    next r hflight =>
    simp only [exchangeEnds, hpc, hflight, Option.bind_some, Option.map_eq_none_iff] at hnone
    simp only [hnone]
    exact ⟨fun _ => rfl, rfl, rfl, rfl, rfl, [], (List.append_nil _).symm, rfl⟩
  | backoffRetry =>
    simp only [tickStep, hpc]
    exact backoffRetry_untold w env.build env.now
  | loop =>
    simp only [tickStep, hpc]
    split <;> exact .refl w

theorem otlpExporterFree_untold (w : World ι cap) : Untold w (otlpExporterFree w) where
  counts_eq s := by
    rw [otlpExporterFree_sig]
    rfl
  http2xx_eq := by rw [otlpExporterFree_exp]
  http4xx_eq := by rw [otlpExporterFree_exp]
  http5xx_eq := by rw [otlpExporterFree_exp]
  networkErr_eq := by rw [otlpExporterFree_exp]
  history := by
    refine ⟨heldObs w, otlpExporterFree_history w, ?_⟩
    rw [eventsOf, List.filterMap_eq_nil_iff]
    intro ob hmem
    obtain ⟨s, -, hmem⟩ := List.mem_flatMap.1 hmem
    obtain ⟨item, -, rfl⟩ := List.mem_map.1 hmem
    rfl

/-! ### Steps that count -/

theorem u64_add (a b : ℕ) : Queue.u64 (Queue.u64 a + b) = Queue.u64 (a + b) := Nat.mod_add_mod a _ b

theorem u64_u64 (a : ℕ) : Queue.u64 (Queue.u64 a) = Queue.u64 a := Nat.mod_mod a _

theorem Ledgered.append {w w' : World ι cap} {exs more : List Exchange} (h : Ledgered w exs)
    (obs : List (Obs ι)) (hhistory : w'.history = w.history ++ obs)
    (hsent : ∀ s, (w'.exp.sig s).sent = (w.exp.sig s).sent + told (·.count) .batchSent s obs)
    (herr : ∀ s, (w'.exp.sig s).droppedErr = (w.exp.sig s).droppedErr + told (·.count) .itemsDropped s obs)
    (hfull : ∀ s, (w'.exp.sig s).droppedFull = (w.exp.sig s).droppedFull + told (·.count) .queueFull s obs)
    (hrejected : ∀ s, (w'.exp.sig s).rejected =
      Queue.u64 ((w.exp.sig s).rejected + told (·.rejected) .partialSuccess s obs))
    (hreported : ∀ s, told (·.rejected) .partialSuccess s obs = rejectedFor s more)
    (htallied : Tallied w'.exp.tallyOf (exs ++ more)) : Ledgered w' (exs ++ more) := by
  refine ⟨fun s => ?_, fun s => ?_, fun s => ?_, fun s => ?_, fun s => ?_, htallied⟩
  · rw [hsent, h.sent_eq, hhistory, told_append]
  · rw [herr, h.droppedErr_eq, hhistory, told_append]
  · rw [hfull, h.droppedFull_eq, hhistory, told_append]
  · rw [hrejected, h.rejected_eq, hhistory, told_append, u64_add]
  · rw [hhistory, told_append, h.reported_eq, hreported]
    simp [rejectedFor]

theorem told_cons_silent (f : OtlpEvent → ℕ) (code : EventCode) (s : Signal) {ob : Obs ι}
    (h : ob.event? = none) (obs : List (Obs ι)) : told f code s (ob :: obs) = told f code s obs := by
  rw [told, eventsOf, List.filterMap_cons_none h]
  rfl

theorem told_cons_event (f : OtlpEvent → ℕ) (code : EventCode) (s : Signal) (ev : OtlpEvent)
    (obs : List (Obs ι)) : told f code s (.event ev :: obs) =
      (if ev.code = code ∧ ev.signal = s then f ev else 0) + told f code s obs := by
  simp only [told, eventsOf, List.filterMap_cons, Obs.event?, List.filter_cons]
  split_ifs <;> simp_all

@[simp] theorem told_nil (f : OtlpEvent → ℕ) (code : EventCode) (s : Signal) :
    told f code s ([] : List (Obs ι)) = 0 := rfl

/-! ### Emits -/

def queueFullEvent (s : Signal) : OtlpEvent :=
  { code := .queueFull, level := .warn, signal := s, count := 1, dropReason := .queueFull }

theorem emitHanded_ledgered {w : World ι cap} {exs : List Exchange} (h : Ledgered w exs) (s : Signal)
    (item : ι) : Ledgered (emitHanded w s item).1 exs := by
  unfold emitHanded
  split
  · exact h.untold ⟨fun _ => rfl, rfl, rfl, rfl, rfl, _, rfl, rfl⟩
  split
  · -- the queue is full: one item, one event
    have hself : exs = exs ++ [] := (List.append_nil exs).symm
    rw [hself]
    refine h.append [.freed s item .emitMoveCommon, .event (queueFullEvent s)] ?_
      (fun t => ?_) (fun t => ?_) (fun t => ?_) (fun t => ?_) (fun t => ?_) (hself ▸ h.tallied)
    · simp [World.event, World.observe, World.modSig, queueFullEvent]
    · rw [told_cons_silent _ _ _ rfl, told_cons_event, if_neg (by simp [queueFullEvent])]
      exact proj_update_same (·.sent) _ _ _ rfl
    · rw [told_cons_silent _ _ _ rfl, told_cons_event, if_neg (by simp [queueFullEvent])]
      exact proj_update_same (·.droppedErr) _ _ _ rfl
    · rw [told_cons_silent _ _ _ rfl, told_cons_event]
      by_cases hts : t = s
      · simp [World.event, queueFullEvent, hts]
      · simp [World.event, queueFullEvent, hts, Ne.symm hts]
    · rw [told_cons_silent _ _ _ rfl, told_cons_event, if_neg (by simp [queueFullEvent]), told_nil,
        Nat.add_zero, h.rejected_eq, u64_u64]
      rw [← h.rejected_eq t]
      exact proj_update_same (·.rejected) _ _ _ rfl
    · rw [told_cons_silent _ _ _ rfl, told_cons_event, if_neg (by simp [queueFullEvent])]
      rfl
  · next queue hpush =>
    exact h.untold (.of_sig [.accepted s item] rfl rfl rfl rfl rfl)

theorem emitMoveCommon_ledgered {w : World ι cap} {exs : List Exchange} (h : Ledgered w exs) (s : Signal)
    (item : Option ι) : Ledgered (emitMoveCommon w s item).1 exs := by
  cases item with
  | none => exact h
  | some item =>
    have hhanded : Ledgered (w.observe [.handed s item]) exs :=
      h.untold ⟨fun _ => rfl, rfl, rfl, rfl, rfl, [.handed s item], rfl, rfl⟩
    exact emitHanded_ledgered hhanded s item

theorem emitCloneCommon_ledgered {w : World ι cap} {exs : List Exchange} (h : Ledgered w exs) (s : Signal)
    (isNull : Bool) (clone : Option ι) : Ledgered (emitCloneCommon w s isNull clone).1 exs := by
  unfold emitCloneCommon
  split
  · exact h
  split
  · exact h
  split
  · exact h
  · exact emitMoveCommon_ledgered h s _

/-! ### Steps that complete an exchange -/

theorem requestEnded_failed {keepalive keepalive' : Option Sock} {r r' : OtlpHttpRequest} {o : HttpOutcome}
    (h : requestEnded keepalive r = some (o, r', keepalive')) (hstate : r.state ≠ .done) : o.status = 0 := by
  unfold requestEnded at h
  split at h
  · next hdone => exact absurd hdone hstate
  · cases h
    rfl
  · contradiction

theorem requestEnds_of_exchangeEnds {x : State ι cap} {l : Label ι} {ex : Exchange}
    (h : exchangeEnds x l = some ex) :
    ∃ o, requestEnds x l = some o ∧ ex.signal = x.world.exp.inFlightSignal ∧ ex.status = o.status ∧
      (ex.response = some o ∨ (ex.response = none ∧ o.status = 0)) := by
  unfold exchangeEnds at h
  unfold requestEnds
  split at h
  · next env =>
    split at h
    · next f hphase =>
      split at h
      · next hpc =>
        obtain ⟨r, hflight, hmap⟩ := Option.bind_eq_some_iff.1 h
        obtain ⟨⟨o, r', keepalive⟩, hended, rfl⟩ := Option.map_eq_some_iff.1 hmap
        refine ⟨o, by simp [hphase, hpc, hflight, hended], rfl, ?_⟩
        by_cases hdone : (otlpHttpRequestStep r env.io).1.state = .done
        · simp [Exchange.status, hdone]
        · simp [Exchange.status, hdone, requestEnded_failed hended hdone]
      · contradiction
    · contradiction
  · contradiction

theorem Exchange.rejected_of_status {ex : Exchange} {o : HttpOutcome}
    (h : ex.response = some o ∨ (ex.response = none ∧ o.status = 0)) : ex.rejected = o.rejected := by
  rcases h with h | ⟨h, hzero⟩
  · rw [Exchange.rejected, h]
  · rw [Exchange.rejected, h, HttpOutcome.rejected, hzero]
    rfl

theorem rejectedFor_singleton (s : Signal) (ex : Exchange) :
    rejectedFor s [ex] = if ex.signal = s then ex.rejected else 0 := by
  simp only [rejectedFor, List.filter_cons, List.filter_nil, beq_iff_eq]
  split <;> simp

theorem retry_ledgered {x y : State ι cap} {l : Label ι} {exs : List Exchange} {ex : Exchange}
    {o : HttpOutcome} (hledger : Ledgered x.world exs) (h : step x l = some y)
    (hends : requestEnds x l = some o) (hstatus : ex.status = o.status)
    (hresponse : ex.response = some o ∨ (ex.response = none ∧ o.status = 0))
    (hretry : retries x.world.exp o.status = true) : Ledgered y.world (exs ++ [ex]) := by
  obtain ⟨env, net, kept, -, hy⟩ := step_answeredRetry h hends hretry
  have hsuccess : successStatus o.status = false := by
    simp only [retries, Bool.and_eq_true] at hretry
    exact successStatus_of_transient hretry.1
  have hsilent (f : OtlpEvent → ℕ) {code : EventCode} (hcode : code ≠ .retryArmed) (s : Signal) :
      told f code s ([.answered x.world.exp.inFlightSignal x.world.inFlightItems o.status,
        .event (armedEvent x.world.exp o.status o.floorMs)] : List (Obs ι)) = 0 := by
    rw [told_cons_silent _ _ _ rfl, told_cons_event, if_neg (fun hev => hcode hev.1.symm)]
    rfl
  rw [hy]
  refine hledger.append _ rfl (fun s => ?_) (fun s => ?_) (fun s => ?_) (fun s => ?_) (fun s => ?_) ?_
  · rw [hsilent _ (by decide)]
    rfl
  · rw [hsilent _ (by decide)]
    rfl
  · rw [hsilent _ (by decide)]
    rfl
  · rw [hsilent _ (by decide), Nat.add_zero, hledger.rejected_eq, u64_u64]
    exact hledger.rejected_eq s
  · rw [hsilent _ (by decide), rejectedFor_singleton, Exchange.rejected_of_status hresponse,
      HttpOutcome.rejected, hsuccess]
    simp
  · have hcount := hledger.tallied.count ex
    rw [hstatus] at hcount
    dsimp only
    rw [tallyOf_released, tallyOf_tally]
    exact hcount.arm _ _ _

theorem endedObs_told (f : OtlpEvent → ℕ) (code : EventCode) (s : Signal) (e : OtlpExporter ι cap)
    (status : ℤ) (more : List OtlpEvent) : told f code s (endedObs e status more) =
      (if (finalEvent e status).code = code ∧ (finalEvent e status).signal = s then
        f (finalEvent e status) else 0) + told f code s (more.map (.event : OtlpEvent → Obs ι)) := by
  have hfreed : eventsOf ((e.sig e.inFlightSignal).pending.map fun item =>
      .freed e.inFlightSignal item .clearInFlightBatch) = [] := by
    simp [eventsOf, Obs.event?]
  rw [endedObs, told_append, told_of_no_events hfreed, told_cons_event, Nat.add_zero]

theorem finalEvent_count (e : OtlpExporter ι cap) (status : ℤ) :
    (finalEvent e status).count = e.inFlightCount ∧ (finalEvent e status).signal = e.inFlightSignal ∧
      (finalEvent e status).code = if successStatus status then .batchSent else .itemsDropped := by
  unfold finalEvent
  dsimp only
  split_ifs <;> exact ⟨rfl, rfl, rfl⟩

theorem reports_told (f : OtlpEvent → ℕ) (code : EventCode) (s : Signal) (e : OtlpExporter ι cap)
    (o : HttpOutcome) (hcode : code ≠ .partialSuccess) :
    told f code s ((reports e o).map (.event : OtlpEvent → Obs ι)) = 0 := by
  unfold reports
  split
  · cases partialReport o.body with
    | none => rfl
    | some report =>
      simp only [Option.toList_some, List.map_cons, List.map_nil, told_cons_event, partialEvent]
      rw [if_neg (fun hev => hcode hev.1.symm)]
      rfl
  · rfl

theorem reports_rejected (s : Signal) (e : OtlpExporter ι cap) (o : HttpOutcome) :
    told (·.rejected) .partialSuccess s ((reports e o).map (.event : OtlpEvent → Obs ι)) =
      if e.inFlightSignal = s then o.rejected else 0 := by
  unfold reports HttpOutcome.rejected
  split
  · cases partialReport o.body with
    | none => simp
    | some report => simp [told_cons_event, partialEvent]
  · simp

theorem rejectedBy_eq {e : OtlpExporter ι cap} {o : HttpOutcome} {n : ℕ}
    (h : (e.sig e.inFlightSignal).rejected = Queue.u64 n) :
    e.rejectedBy o = Queue.u64 ((e.sig e.inFlightSignal).rejected + o.rejected) := by
  unfold OtlpExporter.rejectedBy HttpOutcome.rejected rejectedAfter
  split
  · cases partialReport o.body with
    | none => simp [h, u64_u64]
    | some report => rfl
  · rw [Nat.add_zero, h, u64_u64]

theorem final_ledgered {x y : State ι cap} {l : Label ι} {exs : List Exchange} {ex : Exchange}
    {o : HttpOutcome} (hledger : Ledgered x.world exs) (h : step x l = some y)
    (hends : requestEnds x l = some o) (hsignal : ex.signal = x.world.exp.inFlightSignal)
    (hstatus : ex.status = o.status)
    (hresponse : ex.response = some o ∨ (ex.response = none ∧ o.status = 0))
    (hfinal : retries x.world.exp o.status = false) : Ledgered y.world (exs ++ [ex]) := by
  obtain ⟨net, kept, hy⟩ := step_answeredFinal h hends hfinal
  obtain ⟨hcount, hsig, hcode⟩ := finalEvent_count x.world.exp o.status
  rw [hy]
  refine hledger.append _ rfl (fun s => ?_) (fun s => ?_) (fun s => ?_) (fun s => ?_) (fun s => ?_) ?_
  all_goals try rw [told_cons_silent _ _ _ rfl, endedObs_told, hcode, hsig]
  · rw [reports_told _ _ _ _ _ (by decide), hcount, Nat.add_zero]
    by_cases hs : s = x.world.exp.inFlightSignal
    · subst hs
      cases hsuccess : successStatus o.status <;>
        simp [OtlpExporter.ended, OtlpExporter.tally, OtlpExporter.released, hsuccess]
    · simp [OtlpExporter.ended, OtlpExporter.tally, OtlpExporter.released, hs, Ne.symm hs]
  · rw [reports_told _ _ _ _ _ (by decide), hcount, Nat.add_zero]
    by_cases hs : s = x.world.exp.inFlightSignal
    · subst hs
      cases hsuccess : successStatus o.status <;>
        simp [OtlpExporter.ended, OtlpExporter.tally, OtlpExporter.released, hsuccess]
    · simp [OtlpExporter.ended, OtlpExporter.tally, OtlpExporter.released, hs, Ne.symm hs]
  · rw [reports_told _ _ _ _ _ (by decide), Nat.add_zero, if_neg (by cases successStatus o.status <;> simp)]
    exact proj_update_same (·.droppedFull) _ _ _ rfl
  · rw [if_neg (by cases successStatus o.status <;> simp), Nat.zero_add, reports_rejected]
    by_cases hs : s = x.world.exp.inFlightSignal
    · subst hs
      rw [if_pos rfl, ← rejectedBy_eq (hledger.rejected_eq _)]
      simp [OtlpExporter.ended, OtlpExporter.tally, OtlpExporter.released]
    · rw [if_neg (Ne.symm hs), Nat.add_zero, hledger.rejected_eq, u64_u64, ← hledger.rejected_eq]
      simp [OtlpExporter.ended, OtlpExporter.tally, OtlpExporter.released, hs]
  · rw [if_neg (by cases successStatus o.status <;> simp), Nat.zero_add, reports_rejected,
      rejectedFor_singleton, Exchange.rejected_of_status hresponse, hsignal]
  · have hcount := hledger.tallied.count ex
    rw [hstatus] at hcount
    exact ⟨hcount.1, hcount.2, hcount.3, hcount.4⟩

/-! ### Runs -/

/-- The label is not a synchronous flush. -/
def Label.async : Label ι → Bool
  | .flushMetric .. | .flushLog .. => false
  | _ => true

theorem ledgered_step {x y : State ι cap} {l : Label ι} {exs : List Exchange}
    (hreal : x.world.exp.nullTransport = false) (hledger : Ledgered x.world exs) (hasync : l.async = true)
    (h : step x l = some y) : Ledgered y.world (exs ++ (exchangeEnds x l).toList) := by
  cases hends : exchangeEnds x l with
  | some ex =>
    obtain ⟨o, hrequest, hsignal, hstatus, hresponse⟩ := requestEnds_of_exchangeEnds hends
    cases hretry : retries x.world.exp o.status with
    | true => exact retry_ledgered hledger h hrequest hstatus hresponse hretry
    | false => exact final_ledgered hledger h hrequest hsignal hstatus hresponse hretry
  | none =>
    rw [Option.toList_none, List.append_nil]
    cases stepped h with
    | emitMove s item hlive => exact emitMoveCommon_ledgered hledger s item
    | emit s isNull clone hlive => exact emitCloneCommon_ledgered hledger s isNull clone
    | shutdown hlive => exact hledger.untold ⟨fun _ => rfl, rfl, rfl, rfl, rfl, [], (List.append_nil _).symm, rfl⟩
    | tick maxWaitMs now hidle => exact hledger
    | tickStep f env hphase =>
      obtain ⟨w, phase⟩ := x
      subst hphase
      exact hledger.untold (tickStep_untold hreal hends)
    | flushMetric | flushLog => contradiction
    | free hidle => exact hledger.untold (otlpExporterFree_untold x.world)

theorem ledgered_run {x y : State ι cap} {ls : List (Label ι)} {exs : List Exchange}
    (hreal : x.world.exp.nullTransport = false) (hledger : Ledgered x.world exs)
    (hasync : ∀ l ∈ ls, l.async = true) (hrun : Steps.run step x ls = some y) :
    Ledgered y.world (exs ++ exchanges x ls) := by
  induction ls generalizing x exs with
  | nil =>
    rw [Steps.run_nil, Option.some.injEq] at hrun
    subst hrun
    simpa [exchanges] using hledger
  | cons l ls ih =>
    obtain ⟨z, hz, hrun⟩ := Steps.run_cons_eq_some.1 hrun
    have hstep := ledgered_step hreal hledger (hasync l List.mem_cons_self) hz
    have hrest := ih ((step_config hz).nullTransport_eq.trans hreal) hstep
      (fun k hk => hasync k (List.mem_cons_of_mem l hk)) hrun
    simpa [exchanges, hz] using hrest

/-! ### When the counters tell the same story -/

theorem countP_eq_iff {α : Type*} {p q : α → Bool} (xs : List α) (hsub : ∀ a ∈ xs, p a = true → q a = true) :
    xs.countP q = xs.countP p ↔ ∀ a ∈ xs, q a = true → p a = true := by
  induction xs with
  | nil => simp
  | cons a xs ih =>
    have hle : xs.countP p ≤ xs.countP q :=
      List.countP_mono_left fun b hb => hsub b (List.mem_cons_of_mem a hb)
    have ih := ih fun b hb => hsub b (List.mem_cons_of_mem a hb)
    have hhead := hsub a List.mem_cons_self
    rw [List.countP_cons, List.countP_cons, List.forall_mem_cons, ← ih]
    cases hp : p a with
    | true => simp [hhead hp]
    | false => cases q a <;> simp; omega

theorem hasClass_success (ex : Exchange) : ex.hasClass 2 = successStatus ex.status := by
  cases hresponse : ex.response with
  | none => simp [Exchange.hasClass, Exchange.status, hresponse, successStatus]
  | some o =>
    rw [Bool.eq_iff_iff]
    simp only [Exchange.hasClass, Exchange.status, hresponse, successStatus, Option.map_some,
      Option.getD_some, Bool.and_eq_true, decide_eq_true_eq]
    omega

theorem hasClass_server (ex : Exchange) : ex.hasClass 5 = (500 ≤ ex.status && ex.status < 600) := by
  cases hresponse : ex.response with
  | none => simp [Exchange.hasClass, Exchange.status, hresponse]
  | some o =>
    rw [Bool.eq_iff_iff]
    simp only [Exchange.hasClass, Exchange.status, hresponse, Option.map_some, Option.getD_some,
      Bool.and_eq_true, decide_eq_true_eq]
    omega

/-- The statuses that `record_outcome` counts as 4xx: those that it counts nowhere else. -/
def Exchange.other (ex : Exchange) : Bool :=
  !(ex.status == 0 || successStatus ex.status || (500 ≤ ex.status && ex.status < 600))

theorem hasClass_client {ex : Exchange} (h : ex.hasClass 4 = true) : ex.other = true := by
  cases hresponse : ex.response with
  | none => simp [Exchange.hasClass, hresponse] at h
  | some o =>
    simp only [Exchange.hasClass, hresponse, Bool.and_eq_true, decide_eq_true_eq] at h
    simp only [Exchange.other, Exchange.status, hresponse, successStatus, Option.map_some, Option.getD_some,
      Bool.not_eq_true', Bool.or_eq_false_iff, beq_eq_false_iff_ne, Bool.and_eq_false_iff,
      decide_eq_false_iff_not]
    omega

theorem status_of_isNone {ex : Exchange} (h : ex.response.isNone = true) : (ex.status == 0) = true := by
  rw [Option.isNone_iff_eq_none] at h
  rw [Exchange.status, h]
  rfl

/-- A response has a counted class unless its status is 0 or is counted as 4xx without being one. -/
theorem classified_iff (ex : Exchange) : ex.Classified ↔
    ((ex.status == 0) = true → ex.response.isNone = true) ∧ (ex.other = true → ex.hasClass 4 = true) := by
  rw [Exchange.Classified, hasClass_success, hasClass_server]
  cases hresponse : ex.response with
  | none => simp [Exchange.other, Exchange.status, hresponse]
  | some o =>
    simp only [Exchange.hasClass, Exchange.other, Exchange.status, hresponse, successStatus, Option.map_some,
      Option.getD_some, Option.isSome_some, Option.isNone_some, Bool.not_eq_true', Bool.or_eq_false_iff,
      beq_eq_false_iff_ne, beq_iff_eq, Bool.and_eq_false_iff, Bool.and_eq_true, decide_eq_true_eq,
      decide_eq_false_iff_not, Bool.false_eq_true, imp_false, forall_const]
    omega

theorem Ledgered.same_iff {w : World ι cap} {exs : List Exchange} (h : Ledgered w exs) :
    SameStory w.exp w.history exs ↔
      (∀ ex ∈ exs, ex.Classified) ∧ ∀ s, rejectedFor s exs < 2 ^ 64 := by
  obtain ⟨hsent, herr, hfull, hrejected, hreported, hnet, h2, h5, h4⟩ := h
  have hnet' := countP_eq_iff (p := fun ex : Exchange => ex.response.isNone) (q := fun ex => ex.status == 0)
    exs fun ex _ => status_of_isNone
  have h4' := countP_eq_iff (p := fun ex : Exchange => ex.hasClass 4) (q := Exchange.other) exs
    fun ex _ => hasClass_client
  have hclassified : (∀ ex ∈ exs, ex.Classified) ↔
      exs.countP (fun ex => ex.status == 0) = exs.countP (·.response.isNone) ∧
        exs.countP Exchange.other = exs.countP (·.hasClass 4) := by
    rw [hnet', h4', ← forall₂_and]
    exact forall₂_congr fun ex _ => classified_iff ex
  rw [hclassified]
  constructor
  · intro hsame
    refine ⟨⟨hnet.symm.trans hsame.networkErr_eq, h4.symm.trans hsame.http4xx_eq⟩, fun s => ?_⟩
    have hs := hsame.rejected_eq s
    rw [hrejected, hreported] at hs
    rw [← hs]
    exact Nat.mod_lt _ (by decide)
  · rintro ⟨⟨hnone, hother⟩, hlt⟩
    refine ⟨hsent, herr, hfull, fun s => ?_, hnet.trans hnone, ?_, h4.trans hother, ?_⟩
    · rw [hrejected, hreported, Queue.u64_of_lt (hlt s)]
    · exact h2.trans (congrArg (exs.countP ·) (funext fun ex => (hasClass_success ex).symm))
    · exact h5.trans (congrArg (exs.countP ·) (funext fun ex => (hasClass_server ex).symm))

theorem Fresh.ledgered {e : OtlpExporter ι cap} (h : Fresh e)
    (htally : e.http2xx = 0 ∧ e.http4xx = 0 ∧ e.http5xx = 0 ∧ e.networkErr = 0) (fn : Bool) :
    Ledgered (State.init e false fn).world [] := by
  obtain ⟨h2, h4, h5, hnet⟩ := htally
  refine ⟨fun s => ?_, fun s => ?_, fun s => ?_, fun s => ?_, fun s => rfl, hnet, h2, h5, h4⟩
  all_goals
    have hsig : (State.init e false fn).world.exp.sig s = freshSignal ι cap e.batchSize (e.sig s).url :=
      h.sig_eq s
    rw [hsig]
    rfl

/-- **Statistics, events and HTTP outcomes tell the same story** exactly when every accepted response had a
status of the classes that are counted, and no signal's collector reported more than `UINT64_MAX` rejected
items. -/
theorem sameStory_iff {opts : OtlpExporterOpts} {env : CreateEnv} {fn : Bool}
    {e : OtlpExporter ι (normalizeOpts opts).queueCapacity}
    (hcreate : otlpExporterCreate ι opts env = some e) {ls : List (Label ι)}
    (hasync : ∀ l ∈ ls, l.async = true) {y : State ι _}
    (hrun : Steps.run step (State.init e false fn) ls = some y) :
    SameStory y.world.exp y.world.history (exchanges (State.init e false fn) ls) ↔
      (∀ ex ∈ exchanges (State.init e false fn) ls, ex.Classified) ∧
        ∀ s, rejectedFor s (exchanges (State.init e false fn) ls) < 2 ^ 64 :=
  (ledgered_run rfl ((fresh_of_create hcreate).ledgered (created_of_create hcreate).counters_eq fn) hasync
    hrun).same_iff

def answeredRun (status : ℕ) : List (Label ℕ) :=
  [.emitMove .span (some 1)] ++ tickRound 11 0 (.fine 0 []) ++ tickRound 8 0 (.fine 0 (emptyResponse status))

theorem sameStory_iff_ok : ∃ e y, otlpExporterCreate ℕ (plainOpts 1 1) .fine = some e ∧
    Steps.run step (State.init e false false) (answeredRun 200) = some y ∧ y.world.exp.http2xx = 1 ∧
      SameStory y.world.exp y.world.history (exchanges (State.init e false false) (answeredRun 200)) := by
  have hone : (runFrom (plainOpts 1 1) (answeredRun 200)).map (fun y => y.world.exp.http2xx) = some 1 := by
    decide +kernel
  obtain ⟨y, hy, h2⟩ := Option.map_eq_some_iff.1 hone
  obtain ⟨e, hcreate, hrun⟩ := runFrom_eq_some hy
  have hexs : ∀ e ∈ otlpExporterCreate ℕ (plainOpts 1 1) .fine,
      exchanges (State.init e false false) (answeredRun 200) =
        [⟨.span, some { status := 200, retryAfterMs := 0, body := some [] }⟩] := by decide +kernel
  have hexs := hexs e hcreate
  refine ⟨e, y, hcreate, hrun, h2, (sameStory_iff hcreate (by decide +kernel) hrun).2 ?_⟩
  rw [hexs]
  refine ⟨fun ex hmem => ?_, fun s => ?_⟩
  · rw [List.mem_singleton.1 hmem]
    exact fun _ => .inl rfl
  · rw [rejectedFor_singleton]
    cases s <;> decide

/-- A redirect is counted as 4xx. -/
theorem redirect_counted_4xx : ∃ e y, otlpExporterCreate ℕ (plainOpts 1 1) .fine = some e ∧
    Steps.run step (State.init e false false) (answeredRun 302) = some y ∧
      ¬SameStory y.world.exp y.world.history (exchanges (State.init e false false) (answeredRun 302)) := by
  have hone : (runFrom (plainOpts 1 1) (answeredRun 302)).map (fun y => y.world.exp.http4xx) = some 1 := by
    decide +kernel
  obtain ⟨y, hy, h4⟩ := Option.map_eq_some_iff.1 hone
  obtain ⟨e, hcreate, hrun⟩ := runFrom_eq_some hy
  have hexs : ∀ e ∈ otlpExporterCreate ℕ (plainOpts 1 1) .fine,
      (exchanges (State.init e false false) (answeredRun 302)).countP (·.hasClass 4) = 0 := by decide +kernel
  refine ⟨e, y, hcreate, hrun, fun hsame => ?_⟩
  have hcount := hsame.http4xx_eq
  rw [h4, hexs e hcreate] at hcount
  exact absurd hcount Nat.one_ne_zero

end OtlpC.Exporter
