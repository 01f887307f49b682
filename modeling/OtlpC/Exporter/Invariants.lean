import OtlpC.Exporter.Effects

/-!
# What every run keeps

The options and URLs of `otlp_exporter_create` never change, and on the real transport the items of the
request in flight are a prefix of its signal's pending array, which only grows while it is in flight.
-/

namespace OtlpC.Exporter

open Http

variable {ι : Type*} {cap : ℕ}

theorem proj_update {β : Type*} (g : SignalState ι cap → β) (sig : Signal → SignalState ι cap)
    (s t : Signal) (sg : SignalState ι cap) :
    g (Function.update sig s sg t) = if t = s then g sg else g (sig t) := by
  rw [Function.update_apply]
  split <;> rfl

theorem proj_update_same {β : Type*} (g : SignalState ι cap → β) (sig : Signal → SignalState ι cap)
    (s t : Signal) {sg : SignalState ι cap} (h : g sg = g (sig s)) :
    g (Function.update sig s sg t) = g (sig t) := by
  rw [Function.update_apply]
  split
  · next hts => rw [h, hts]
  · rfl

/-! ### What `otlp_exporter_free` leaves -/

theorem drainSignal_sig (w : World ι cap) (s t : Signal) :
    (drainSignal w s).exp.sig t =
      if t = s then { w.exp.sig t with queue := .empty, pending := [] } else w.exp.sig t := by
  unfold drainSignal
  simp only [modSig_exp, observe_exp, Function.update_apply]
  split
  · next hts => rw [hts]
  · rfl

theorem otlpExporterFree_sig (w : World ι cap) (s : Signal) :
    (otlpExporterFree w).exp.sig s = { w.exp.sig s with queue := .empty, pending := [] } := by
  unfold otlpExporterFree
  dsimp only
  cases s <;> simp [drainSignal_sig]

theorem drainSignal_exp (w : World ι cap) (s : Signal) :
    (drainSignal w s).exp = { w.exp with sig := (drainSignal w s).exp.sig } := by
  rw [drainSignal, modSig_exp, observe_exp]

theorem otlpExporterFree_exp (w : World ι cap) : (otlpExporterFree w).exp =
    { w.exp with sig := (otlpExporterFree w).exp.sig, inFlight := none, keepaliveSock := none } := by
  rw [otlpExporterFree]
  dsimp only
  rw [drainSignal_exp, drainSignal_exp (drainSignal w .span), drainSignal_exp w]

/-- What `otlp_exporter_free` frees: the queue and the pending array of every signal. -/
def heldObs (w : World ι cap) : List (Obs ι) :=
  Signal.all.flatMap fun s => ((w.exp.sig s).queue.items ++ (w.exp.sig s).pending).map fun item =>
    .freed s item .drainSignal

theorem otlpExporterFree_history (w : World ι cap) :
    (otlpExporterFree w).history = w.history ++ heldObs w := by
  simp [otlpExporterFree, drainSignal, heldObs, Signal.all, World.observe, World.modSig]

/-! ### What an outcome leaves -/

theorem recordOutcome_sockets (w : World ι cap) (o : HttpOutcome) (now : ℕ) :
    (recordOutcome w o now).net = w.net ∧ (recordOutcome w o now).exp.inFlight = w.exp.inFlight ∧
      (recordOutcome w o now).exp.keepaliveSock = w.exp.keepaliveSock := by
  cases hretry : retries w.exp o.status with
  | true =>
    obtain ⟨t, ev, heq, -⟩ := recordOutcome_retry now hretry
    rw [heq]
    exact ⟨rfl, rfl, rfl⟩
  | false =>
    obtain ⟨t, rejected, more, -, heq⟩ := recordOutcome_final now hretry
    rw [heq]
    exact ⟨rfl, rfl, rfl⟩

/-! ### The configuration -/

/-- What `otlp_exporter_create` and the choice of the transport have fixed. -/
structure SameConfig (e e' : OtlpExporter ι cap) : Prop where
  nullTransport_eq : e'.nullTransport = e.nullTransport
  batchSize_eq : e'.batchSize = e.batchSize
  maxRetries_eq : e'.maxRetries = e.maxRetries
  url_eq : ∀ s, (e'.sig s).url = (e.sig s).url

theorem SameConfig.refl (e : OtlpExporter ι cap) : SameConfig e e := ⟨rfl, rfl, rfl, fun _ => rfl⟩

theorem SameConfig.trans {e e' e'' : OtlpExporter ι cap} (h : SameConfig e e') (h' : SameConfig e' e'') :
    SameConfig e e'' :=
  ⟨h'.1.trans h.1, h'.2.trans h.2, h'.3.trans h.3, fun s => (h'.4 s).trans (h.4 s)⟩

theorem recordOutcome_config (w : World ι cap) (o : HttpOutcome) (now : ℕ) :
    SameConfig w.exp (recordOutcome w o now).exp := by
  cases hretry : retries w.exp o.status with
  | true =>
    obtain ⟨t, ev, heq, -⟩ := recordOutcome_retry now hretry
    rw [heq]
    exact ⟨rfl, rfl, rfl, fun _ => rfl⟩
  | false =>
    obtain ⟨t, rejected, more, -, heq⟩ := recordOutcome_final now hretry
    rw [heq]
    exact ⟨rfl, rfl, rfl, fun s => proj_update_same (·.url) _ _ _ rfl⟩

theorem otlpExporterFree_config (w : World ι cap) : SameConfig w.exp (otlpExporterFree w).exp :=
  ⟨by rw [otlpExporterFree_exp], by rw [otlpExporterFree_exp], by rw [otlpExporterFree_exp],
    fun s => by rw [otlpExporterFree_sig]⟩

theorem Effect.config {x : State ι cap} {l : Label ι} {w : World ι cap} (h : Effect x l w) :
    SameConfig x.world.exp w.exp := by
  cases h with
  | quiet | disarmed | startFailed | progressed | answeredRetry | shutdown => exact ⟨rfl, rfl, rfl, fun _ => rfl⟩
  | refused | accepted | drained | started | answeredFinal | flushed =>
    exact ⟨rfl, rfl, rfl, fun s => proj_update_same (·.url) _ _ _ rfl⟩
  | nullOutcome hcall s status now hnull =>
    have hrec := recordOutcome_config (nullPosted x.world s) ⟨status, 0, none⟩ now
    exact ⟨hrec.1, hrec.2, hrec.3, hrec.4⟩
  | freed => exact otlpExporterFree_config _

theorem step_config {x y : State ι cap} {l : Label ι} (h : step x l = some y) :
    SameConfig x.world.exp y.world.exp := (step_effect h).config

/-! ### The history -/

theorem recordOutcome_history (w : World ι cap) (o : HttpOutcome) (now : ℕ) :
    w.history <+: (recordOutcome w o now).history := by
  cases hretry : retries w.exp o.status with
  | true =>
    obtain ⟨t, ev, heq, -⟩ := recordOutcome_retry now hretry
    rw [heq]
    exact List.prefix_append _ _
  | false =>
    obtain ⟨t, rejected, more, -, heq⟩ := recordOutcome_final now hretry
    rw [heq]
    exact List.prefix_append _ _

theorem Effect.history_isPrefix {x : State ι cap} {l : Label ι} {w : World ι cap} (h : Effect x l w) :
    x.world.history <+: w.history := by
  cases h with
  | quiet | shutdown | drained | disarmed | progressed => exact List.prefix_rfl
  | refused | accepted | startFailed | started | answeredRetry | answeredFinal | flushed =>
    exact List.prefix_append _ _
  | nullOutcome hcall s => exact recordOutcome_history (nullPosted x.world s) _ _
  | freed =>
    rw [otlpExporterFree_history]
    exact List.prefix_append _ _

theorem posted_append {history obs : List (Obs ι)} (hobs : ∀ s items sock, .posted s items sock ∉ obs)
    (s : Signal) (items : List ι) (sock : Option Sock) (h : .posted s items sock ∈ history ++ obs) :
    .posted s items sock ∈ history :=
  (List.mem_append.1 h).resolve_right (hobs s items sock)

/-! ### The request in flight -/

/-- A request in flight: its items are the first ones pending, and were encoded. -/
structure FlightOk (w : World ι cap) : Prop where
  count_eq : w.exp.inFlightCount = w.inFlightItems.length
  items_isPrefix : w.inFlightItems <+: (w.exp.sig w.exp.inFlightSignal).pending
  encoded_mem : .encoded w.exp.inFlightSignal w.inFlightItems ∈ w.history

/-- What holds in every state on the real transport. -/
structure RealOk (w : World ι cap) : Prop where
  nullTransport_eq : w.exp.nullTransport = false
  flight : w.exp.inFlight.isSome → FlightOk w

theorem pending_prefix_update (sig : Signal → SignalState ι cap) (s t : Signal) {sg : SignalState ι cap}
    (h : (sig s).pending <+: sg.pending) :
    (sig t).pending <+: (Function.update sig s sg t).pending := by
  rw [Function.update_apply]
  split
  · next hts => rw [hts]; exact h
  · exact List.prefix_rfl

/-- A world with the same request in flight, in which pending items may have been added. -/
structure Grown (w w' : World ι cap) : Prop where
  inFlight_eq : w'.exp.inFlight = w.exp.inFlight
  signal_eq : w'.exp.inFlightSignal = w.exp.inFlightSignal
  count_eq : w'.exp.inFlightCount = w.exp.inFlightCount
  items_eq : w'.inFlightItems = w.inFlightItems
  pending_isPrefix : ∀ t, (w.exp.sig t).pending <+: (w'.exp.sig t).pending
  history_subset : w.history ⊆ w'.history

theorem FlightOk.grow {w w' : World ι cap} (hok : FlightOk w) (h : Grown w w') : FlightOk w' where
  count_eq := by rw [h.count_eq, h.items_eq, hok.count_eq]
  items_isPrefix := by
    rw [h.items_eq, h.signal_eq]
    exact hok.items_isPrefix.trans (h.pending_isPrefix _)
  encoded_mem := by
    rw [h.items_eq, h.signal_eq]
    exact h.history_subset hok.encoded_mem

theorem RealOk.grow {w w' : World ι cap} (hok : RealOk w) (hreal : w'.exp.nullTransport = false)
    (h : Grown w w') : RealOk w' :=
  ⟨hreal, fun hflight => (hok.flight (h.inFlight_eq ▸ hflight)).grow h⟩

theorem Effect.realOk {x : State ι cap} {l : Label ι} {w : World ι cap} (h : Effect x l w)
    (hok : RealOk x.world) : RealOk w := by
  have hreal : w.exp.nullTransport = false := h.config.nullTransport_eq.trans hok.nullTransport_eq
  cases h with
  | quiet => exact hok
  | shutdown | disarmed =>
    exact hok.grow hreal ⟨rfl, rfl, rfl, rfl, fun _ => List.prefix_rfl, List.Subset.refl _⟩
  | refused | accepted | flushed =>
    exact hok.grow hreal ⟨rfl, rfl, rfl, rfl, fun t => pending_prefix_update _ _ t List.prefix_rfl,
      List.subset_append_left _ _⟩
  | drained =>
    exact hok.grow hreal
      ⟨rfl, rfl, rfl, rfl, fun t => pending_prefix_update _ _ t (List.prefix_append _ _),
        List.Subset.refl _⟩
  | startFailed s env net obs hattempt hfails hidle =>
    exact ⟨hreal, fun hflight => absurd hflight (by simp [hidle])⟩
  | started s env net r k hattempt hstarts hidle hnet hsock =>
    exact ⟨hreal, fun _ => ⟨rfl, pending_prefix_update _ s s List.prefix_rfl,
      List.mem_append_right _ List.mem_cons_self⟩⟩
  | progressed hcall r r' hflight hsock =>
    refine ⟨hreal, fun _ => ?_⟩
    have hold := hok.flight (by rw [hflight]; rfl)
    exact ⟨hold.count_eq, hold.items_isPrefix, hold.encoded_mem⟩
  | answeredRetry | answeredFinal | freed => exact ⟨hreal, nofun⟩
  | nullOutcome hcall s status now hnull =>
    rw [hok.nullTransport_eq] at hnull
    contradiction

theorem step_realOk {x y : State ι cap} {l : Label ι} (h : step x l = some y) (hok : RealOk x.world) :
    RealOk y.world := (step_effect h).realOk hok

/-! ### The first state -/

/-- What `otlp_exporter_create` returns holds no item, no socket and no retry. -/
structure Fresh (e : OtlpExporter ι cap) : Prop where
  inFlight_eq : e.inFlight = none
  keepaliveSock_eq : e.keepaliveSock = none
  backoffArmed_eq : e.backoffArmed = false
  attempt_eq : e.attempt = 0
  sig_eq : ∀ s, e.sig s = freshSignal ι cap e.batchSize (e.sig s).url

theorem Fresh.pending_eq {e : OtlpExporter ι cap} (h : Fresh e) (s : Signal) : (e.sig s).pending = [] := by
  rw [h.sig_eq]
  rfl

theorem Fresh.queue_eq {e : OtlpExporter ι cap} (h : Fresh e) (s : Signal) :
    (e.sig s).queue = .empty := by
  rw [h.sig_eq]
  rfl

/-- What `otlp_exporter_create` has checked of its normalised options and taken from them. -/
structure Created (o : OtlpExporterOpts) (e : OtlpExporter ι cap) : Prop where
  fresh : Fresh e
  userAgent_eq : e.userAgent = o.userAgent.getD []
  serviceName_eq : e.serviceName = o.serviceName.getD []
  serviceName_utf8 : otlpStrIsUtf8 e.serviceName = true
  schemaUrl_eq : e.schemaUrl = o.schemaUrl
  schemaUrl_utf8 : otlpStrIsUtf8 (e.schemaUrl.getD []) = true
  httpHeaders_eq : e.httpHeaders = o.httpHeaders.map fun h => { h with value := some (h.value.getD []) }
  headersAllowed : o.httpHeaders.all headerAllowed = true
  backoffInitialMs_eq : e.backoffInitialMs = o.backoffInitialMs
  backoffMaxMs_eq : e.backoffMaxMs = o.backoffMaxMs
  counters_eq : e.http2xx = 0 ∧ e.http4xx = 0 ∧ e.http5xx = 0 ∧ e.networkErr = 0

theorem createNormalized_created {o : OtlpExporterOpts} {env : CreateEnv}
    {e : OtlpExporter ι o.queueCapacity} (h : createNormalized ι o env = some e) : Created o e := by
  unfold createNormalized at h
  split at h
  · contradiction
  split at h
  · split at h
    · contradiction
    next hutf8 =>
    split at h
    · contradiction
    next hheaders =>
    split at h
    · contradiction
    split at h
    · contradiction
    · rw [Option.some.injEq] at h
      subst h
      simp only [Bool.or_eq_true, Bool.not_eq_true', not_or, Bool.not_eq_false] at hutf8 hheaders
      exact ⟨⟨rfl, rfl, rfl, rfl, fun _ => rfl⟩, rfl, rfl, hutf8.1, rfl, hutf8.2, rfl, hheaders, rfl, rfl,
        rfl, rfl, rfl, rfl⟩
  · contradiction

theorem created_of_create {opts : OtlpExporterOpts} {env : CreateEnv}
    {e : OtlpExporter ι (normalizeOpts opts).queueCapacity} (h : otlpExporterCreate ι opts env = some e) :
    Created (normalizeOpts opts) e := createNormalized_created h

theorem fresh_of_create {opts : OtlpExporterOpts} {env : CreateEnv}
    {e : OtlpExporter ι (normalizeOpts opts).queueCapacity} (h : otlpExporterCreate ι opts env = some e) :
    Fresh e := (created_of_create h).fresh

theorem Fresh.realOk {e : OtlpExporter ι cap} (h : Fresh e) (fn : Bool) :
    RealOk (State.init e false fn).world := by
  refine ⟨rfl, fun hflight => ?_⟩
  have hnone : (State.init e false fn).world.exp.inFlight = none := h.inFlight_eq
  rw [hnone] at hflight
  contradiction

end OtlpC.Exporter
