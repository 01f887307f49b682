import OtlpC.Exporter.Sockets

/-!
# Where a POST goes

A socket leads to the host and port it was connected to. The exporter does not remember which: a kept
socket leads to the collector of the signal that used it last, and the next POST is written to it
whatever its own signal's URL is.
-/

namespace OtlpC.Exporter

open Http

variable {ι : Type*} {cap : ℕ}

def LeadsTo (w : World ι cap) (k : Sock) (s : Signal) : Prop :=
  w.net.peer k = some ((w.exp.sig s).url.host, (w.exp.sig s).url.port)

def Routed (w : World ι cap) : Prop :=
  ∀ s items sock, .posted s items sock ∈ w.history → ∃ k, sock = some k ∧ LeadsTo w k s

/-- A request that the step starts on a kept socket is for the host and port of the signal whose request
left it. -/
def ReusesOwn (x : State ι cap) (l : Label ι) : Prop :=
  ∀ a ∈ startAttempt x l, buildFails x.world a.1 a.2 = false → x.world.exp.keepaliveSock.isSome →
    (x.world.exp.sig a.1).url.host = (x.world.exp.sig x.world.exp.inFlightSignal).url.host ∧
      (x.world.exp.sig a.1).url.port = (x.world.exp.sig x.world.exp.inFlightSignal).url.port

instance (x : State ι cap) (l : Label ι) : Decidable (ReusesOwn x l) :=
  inferInstanceAs (Decidable (∀ a ∈ startAttempt x l, _))

/-! ### Peers -/

theorem Churn.connects_isPrefix {net net' : Net} (h : Churn net net') : net.connects <+: net'.connects := by
  induction h with
  | refl => exact List.prefix_rfl
  | reopened host port _ ih => exact ih.trans (List.prefix_append _ _)

theorem BuildFailed.connects_isPrefix {w : World ι cap} {s : Signal} {env : BuildEnv} {net : Net}
    (h : BuildFailed w s env net) : w.net.connects <+: net.connects := by
  cases h with
  | unopened | lost | closed => exact List.prefix_rfl
  | reclosed => exact List.prefix_append _ _

theorem BuildStarted.connects_isPrefix {w : World ι cap} {s : Signal} {net : Net} {k : Sock}
    (h : BuildStarted w s net k) : w.net.connects <+: net.connects := by
  cases h with
  | donated => exact List.prefix_rfl
  | connected => exact List.prefix_append _ _

theorem BuildStarted.open_of_sockets {w : World ι cap} {s : Signal} {net : Net} {k : Sock}
    (h : BuildStarted w s net k) (hopen : ∀ k ∈ w.sockets, k < w.net.connects.length) :
    k < net.connects.length := by
  cases h with
  | donated _ hsome => exact hopen k (by simp [World.sockets, hsome])
  | connected =>
    rw [connects_length]
    exact Nat.lt_succ_self _

theorem AnsweredSockets.connects_eq {w : World ι cap} {sock : Option Sock} {net : Net}
    {kept : Option Sock} (h : AnsweredSockets w sock net kept) : net.connects = w.net.connects := by
  cases h with
  | kept => rfl
  | closed => exact connects_closeOpt _ _

/-- An open socket leads where it always led. -/
theorem leadsTo_iff {w w' : World ι cap} {k : Sock} {s : Signal} (hconfig : SameConfig w.exp w'.exp)
    (hconnects : w.net.connects <+: w'.net.connects) (hlt : k < w.net.connects.length) :
    LeadsTo w' k s ↔ LeadsTo w k s := by
  obtain ⟨more, hmore⟩ := hconnects
  unfold LeadsTo Net.peer
  rw [← hmore, List.getElem?_append_left hlt, hconfig.url_eq]

/-! ### One step -/

/-- What a step does to the POSTs and their sockets. -/
inductive RouteStep (x : State ι cap) (l : Label ι) (w : World ι cap) : Prop where
  | same (hsignal : w.exp.inFlightSignal = x.world.exp.inFlightSignal)
      (hposted : ∀ s items sock, .posted s items sock ∈ w.history → .posted s items sock ∈ x.world.history)
      (hconnects : x.world.net.connects <+: w.net.connects) (hsockets : w.sockets ⊆ x.world.sockets)
      (hreuse : ReusesOwn x l)
  | started (s : Signal) (env : BuildEnv) (k : Sock) (hattempt : startAttempt x l = some (s, env))
      (hstarts : buildFails x.world s env = false) (hnet : BuildStarted x.world s w.net k)
      (hposted : w.history = x.world.history ++
        [.encoded s (x.world.exp.sig s).pending, .posted s (x.world.exp.sig s).pending (some k)])
      (hsignal : w.exp.inFlightSignal = s) (hsockets : w.sockets = [k])

theorem NoCall.reusesOwn {x : State ι cap} {l : Label ι} (h : NoCall x l) : ReusesOwn x l := by
  intro a ha
  rw [h.startAttempt_eq] at ha
  contradiction

theorem reusesOwn_of_requestEnds {x : State ι cap} {l : Label ι} {o : HttpOutcome}
    (h : requestEnds x l = some o) : ReusesOwn x l := by
  intro a ha
  rw [startAttempt_of_requestEnds h] at ha
  contradiction

theorem AnsweredSockets.subset {w : World ι cap} {r : OtlpHttpRequest} {net : Net} {kept : Option Sock}
    (h : AnsweredSockets w r.sock net kept) (hflight : w.exp.inFlight = some r) :
    kept.toList ⊆ w.sockets := by
  unfold World.sockets
  cases h with
  | kept => simp [hflight]
  | closed _ hkept => rcases hkept with rfl | rfl <;> simp

theorem Effect.routeStep {x : State ι cap} {l : Label ι} {w : World ι cap} (h : Effect x l w)
    (hreal : x.world.exp.nullTransport = false) : RouteStep x l w := by
  cases h with
  | quiet hcall | shutdown hcall | drained hcall | disarmed hcall =>
    exact .same rfl (fun _ _ _ h => h) List.prefix_rfl (List.Subset.refl _) hcall.reusesOwn
  | refused hcall | accepted hcall =>
    exact .same rfl (posted_append (by simp)) List.prefix_rfl (List.Subset.refl _) hcall.reusesOwn
  | flushed hcall s net prng evs ok hnet =>
    exact .same rfl (posted_append (by simp)) hnet.connects_isPrefix (List.Subset.refl _) hcall.reusesOwn
  | progressed hcall r r' hflight hsock =>
    refine .same rfl (fun _ _ _ h => h) List.prefix_rfl ?_ hcall.reusesOwn
    simp [World.sockets, hflight, hsock]
  | startFailed s env net obs hattempt hfails hidle hnet hobs =>
    refine .same rfl (posted_append ?_) hnet.connects_isPrefix ?_ ?_
    · rcases hobs with rfl | rfl <;> simp
    · simp [World.sockets, hidle]
    · intro a ha hstarts
      rw [hattempt, Option.mem_some_iff] at ha
      rw [← ha, hfails] at hstarts
      contradiction
  | started s env net r k hattempt hstarts hidle hnet hsock =>
    exact .started s env k hattempt hstarts hnet rfl rfl (by simp [World.sockets, OtlpExporter.started, hsock])
  | answeredRetry r o net kept t ev hflight hends hretry hnet =>
    exact .same rfl (posted_append (by simp)) (hnet.connects_eq ▸ List.prefix_rfl) (hnet.subset hflight)
      (reusesOwn_of_requestEnds hends)
  | answeredFinal r o net kept t rejected more hflight hends hfinal hnet =>
    exact .same rfl (posted_append (by simp [endedObs])) (hnet.connects_eq ▸ List.prefix_rfl)
      (hnet.subset hflight) (reusesOwn_of_requestEnds hends)
  | nullOutcome hcall s status now hnull =>
    rw [hreal] at hnull
    contradiction
  | freed hcall =>
    refine .same (by rw [otlpExporterFree_exp]) ?_ ?_
      (by rw [otlpExporterFree_sockets]; exact List.nil_subset _) hcall.reusesOwn
    · rw [otlpExporterFree_history]
      exact posted_append (by simp [heldObs])
    · exact (otlpExporterFree_net x.world).1 ▸ List.prefix_rfl

/-- What every run keeps: the sockets are open, and lead to the last signal as long as no POST went
astray. -/
structure RouteOk (w : World ι cap) : Prop where
  nullTransport_eq : w.exp.nullTransport = false
  posted_open : ∀ s items sock, .posted s items sock ∈ w.history →
    ∃ k, sock = some k ∧ k < w.net.connects.length
  sockets_open : ∀ k ∈ w.sockets, k < w.net.connects.length
  leadsTo : Routed w → ∀ k ∈ w.sockets, LeadsTo w k w.exp.inFlightSignal

theorem routed_iff_of_same {w w' : World ι cap} (hok : RouteOk w) (hconfig : SameConfig w.exp w'.exp)
    (hhistory : w.history <+: w'.history)
    (hposted : ∀ s items sock, .posted s items sock ∈ w'.history → .posted s items sock ∈ w.history)
    (hconnects : w.net.connects <+: w'.net.connects) : Routed w' ↔ Routed w := by
  constructor
  · intro hrouted s items sock hmem
    obtain ⟨k, rfl, hlt⟩ := hok.posted_open s items sock hmem
    obtain ⟨k', heq, hleads⟩ := hrouted s items _ (hhistory.subset hmem)
    obtain rfl := Option.some.inj heq
    exact ⟨k, rfl, (leadsTo_iff hconfig hconnects hlt).1 hleads⟩
  · intro hrouted s items sock hmem
    obtain ⟨k, hsock, hlt⟩ := hok.posted_open s items sock (hposted s items sock hmem)
    obtain ⟨k', hsock', hleads⟩ := hrouted s items sock (hposted s items sock hmem)
    obtain rfl := Option.some.inj (hsock.symm.trans hsock')
    exact ⟨k, hsock, (leadsTo_iff hconfig hconnects hlt).2 hleads⟩

theorem routed_iff_of_started {w w' : World ι cap} (hok : RouteOk w) (hconfig : SameConfig w.exp w'.exp)
    {s : Signal} {items : List ι} {k : Sock}
    (hhistory : w'.history = w.history ++ [.encoded s items, .posted s items (some k)])
    (hconnects : w.net.connects <+: w'.net.connects) : Routed w' ↔ Routed w ∧ LeadsTo w' k s := by
  constructor
  · intro hrouted
    refine ⟨fun t is sock hmem => ?_, ?_⟩
    · obtain ⟨k', rfl, hlt⟩ := hok.posted_open t is sock hmem
      obtain ⟨k'', heq, hleads⟩ := hrouted t is _ (by rw [hhistory]; exact List.mem_append_left _ hmem)
      obtain rfl := Option.some.inj heq
      exact ⟨k', rfl, (leadsTo_iff hconfig hconnects hlt).1 hleads⟩
    · obtain ⟨k', heq, hleads⟩ := hrouted s items (some k) (by rw [hhistory]; simp)
      obtain rfl := Option.some.inj heq
      exact hleads
  · rintro ⟨hrouted, hleads⟩ t is sock hmem
    rw [hhistory] at hmem
    simp only [List.mem_append, List.mem_cons, reduceCtorEq, false_or, List.not_mem_nil, or_false,
      Obs.posted.injEq] at hmem
    rcases hmem with hmem | ⟨rfl, rfl, rfl⟩
    · obtain ⟨k', hsock, hlt⟩ := hok.posted_open t is sock hmem
      obtain ⟨k'', hsock', hleads'⟩ := hrouted t is sock hmem
      obtain rfl := Option.some.inj (hsock.symm.trans hsock')
      exact ⟨k', hsock, (leadsTo_iff hconfig hconnects hlt).2 hleads'⟩
    · exact ⟨k, rfl, hleads⟩

theorem BuildStarted.leadsTo_iff_reusesOwn {x : State ι cap} {l : Label ι} {w : World ι cap} {s : Signal}
    {env : BuildEnv} {k : Sock} (h : BuildStarted x.world s w.net k)
    (hattempt : startAttempt x l = some (s, env)) (hstarts : buildFails x.world s env = false)
    (hconfig : SameConfig x.world.exp w.exp)
    (hopen : ∀ k ∈ x.world.sockets, k < x.world.net.connects.length)
    (hleads : ∀ k ∈ x.world.sockets, LeadsTo x.world k x.world.exp.inFlightSignal) :
    LeadsTo w k s ↔ ReusesOwn x l := by
  have hreuse : ReusesOwn x l ↔ (x.world.exp.keepaliveSock.isSome →
      (x.world.exp.sig s).url.host = (x.world.exp.sig x.world.exp.inFlightSignal).url.host ∧
        (x.world.exp.sig s).url.port = (x.world.exp.sig x.world.exp.inFlightSignal).url.port) := by
    simp [ReusesOwn, hattempt, hstarts]
  have hconnects := h.connects_isPrefix
  rw [hreuse]
  generalize hnet : w.net = net at h
  cases h with
  | donated _ hsome =>
    have hmem : k ∈ x.world.sockets := by simp [World.sockets, hsome]
    rw [leadsTo_iff hconfig hconnects (hopen k hmem)]
    have hlast := hleads k hmem
    unfold LeadsTo at hlast ⊢
    rw [hlast]
    simp [hsome, eq_comm]
  | connected hnone =>
    refine iff_of_true ?_ (by simp [hnone])
    unfold LeadsTo Net.peer
    rw [hnet, hconfig.url_eq]
    simp [Net.connect]

theorem step_routed {x y : State ι cap} {l : Label ι} (hok : RouteOk x.world)
    (h : step x l = some y) : Routed y.world ↔ Routed x.world ∧ ReusesOwn x l := by
  have hconfig := step_config h
  cases (step_effect h).routeStep hok.nullTransport_eq with
  | same hsignal hposted hconnects hsockets hreuse =>
    rw [routed_iff_of_same hok hconfig (step_effect h).history_isPrefix hposted hconnects]
    exact (and_iff_left hreuse).symm
  | started s env k hattempt hstarts hnet hposted hsignal hsockets =>
    rw [routed_iff_of_started hok hconfig hposted hnet.connects_isPrefix]
    exact and_congr_right fun hrouted =>
      hnet.leadsTo_iff_reusesOwn hattempt hstarts hconfig hok.sockets_open (hok.leadsTo hrouted)

theorem step_routeOk {x y : State ι cap} {l : Label ι} (hok : RouteOk x.world)
    (h : step x l = some y) : RouteOk y.world := by
  have hconfig := step_config h
  have hrouted := step_routed hok h
  have hreal : y.world.exp.nullTransport = false :=
    hconfig.nullTransport_eq.trans hok.nullTransport_eq
  cases (step_effect h).routeStep hok.nullTransport_eq with
  | same hsignal hposted hconnects hsockets hreuse =>
    have hle := hconnects.length_le
    refine ⟨hreal, fun s items sock hmem => ?_, fun k hmem => ?_, fun hrouted' k hmem => ?_⟩
    · obtain ⟨k, hsock, hlt⟩ := hok.posted_open s items sock (hposted s items sock hmem)
      exact ⟨k, hsock, hlt.trans_le hle⟩
    · exact (hok.sockets_open k (hsockets hmem)).trans_le hle
    · rw [hsignal, leadsTo_iff hconfig hconnects (hok.sockets_open k (hsockets hmem))]
      exact hok.leadsTo (hrouted.1 hrouted').1 k (hsockets hmem)
  | started s env k hattempt hstarts hnet hposted hsignal hsockets =>
    have hle := hnet.connects_isPrefix.length_le
    have hlt := hnet.open_of_sockets hok.sockets_open
    refine ⟨hreal, fun t items sock hmem => ?_, fun k' hmem => ?_, fun hrouted' k' hmem => ?_⟩
    · rw [hposted] at hmem
      simp only [List.mem_append, List.mem_cons, reduceCtorEq, false_or, List.not_mem_nil, or_false,
        Obs.posted.injEq] at hmem
      rcases hmem with hmem | ⟨rfl, rfl, rfl⟩
      · obtain ⟨k', hsock, hlt⟩ := hok.posted_open t items sock hmem
        exact ⟨k', hsock, hlt.trans_le hle⟩
      · exact ⟨k, rfl, hlt⟩
    · rw [hsockets, List.mem_singleton] at hmem
      rwa [hmem]
    · rw [hsockets, List.mem_singleton] at hmem
      obtain ⟨k'', heq, hleads⟩ := hrouted' s (x.world.exp.sig s).pending (some k)
        (by rw [hposted]; simp)
      obtain rfl := Option.some.inj heq
      rwa [hmem, hsignal]

/-! ### Runs -/

theorem Fresh.routeOk {e : OtlpExporter ι cap} (h : Fresh e) (fn : Bool) :
    RouteOk (State.init e false fn).world := by
  have hsockets : (State.init e false fn).world.sockets = [] := by
    simp [World.sockets, State.init, h.inFlight_eq, h.keepaliveSock_eq]
  exact ⟨rfl, by simp [State.init], by simp [hsockets], by simp [hsockets]⟩

/-- **Every POST goes to its own signal's collector** in a run on the real transport exactly when each
request that was started on a kept socket is for the host and port of the signal whose request left it. -/
theorem routed_iff_reusesOwn {opts : OtlpExporterOpts} {env : CreateEnv} {fn : Bool}
    {e : OtlpExporter ι (normalizeOpts opts).queueCapacity}
    (hcreate : otlpExporterCreate ι opts env = some e) {ls : List (Label ι)} {y : State ι _}
    (hrun : Steps.run step (State.init e false fn) ls = some y) :
    Routed y.world ↔ Steps.Along step ReusesOwn (State.init e false fn) ls := by
  have hfresh := fresh_of_create hcreate
  exact Steps.along_iff (P := fun x => Routed x.world) (I := fun x => RouteOk x.world)
    (L := fun _ => True) (fun x l y hok h => step_routeOk hok h) (fun x l y hok _ h => step_routed hok h)
    (hfresh.routeOk fn) (by simp [Routed, State.init]) (fun _ _ => trivial) hrun

def twoCollectors (logs : Bytes) : OtlpExporterOpts :=
  { plainOpts 1 1 with logsEndpoint := some (ascii "http://" ++ logs ++ ascii "/v1/logs") }

/-- A span is sent and its connection kept, and a log record is sent. -/
def spanThenLogRun : List (Label ℕ) :=
  [.emitMove .span (some 1)] ++ tickRound 11 0 (.fine 0 []) ++
    tickRound 8 0 (.fine 0 (emptyResponse 200)) ++ [.emitMove .log (some 2)] ++
    tickRound 12 0 (.fine 0 [])

def postedCount (history : List (Obs ι)) : ℕ :=
  history.countP fun ob => match ob with | .posted _ _ _ => true | _ => false

theorem routed_iff_reusesOwn_one_collector :
    ∃ y : State ℕ _, runFrom (twoCollectors (ascii "localhost:4318")) spanThenLogRun = some y ∧
      postedCount y.world.history = 2 ∧ Routed y.world := by
  have hcount : (runFrom (twoCollectors (ascii "localhost:4318")) spanThenLogRun).map
      (fun y => postedCount y.world.history) = some 2 := by decide +kernel
  obtain ⟨y, hy, htwo⟩ := Option.map_eq_some_iff.1 hcount
  obtain ⟨e, hcreate, hrun⟩ := runFrom_eq_some hy
  have hreuse : ∀ e ∈ otlpExporterCreate ℕ (twoCollectors (ascii "localhost:4318")) .fine,
      Steps.Along step ReusesOwn (State.init e false false) spanThenLogRun := by decide +kernel
  exact ⟨y, hy, htwo, (routed_iff_reusesOwn hcreate hrun).2 (hreuse e hcreate)⟩

/-- The logs' request is written to the connection that the spans' request left. -/
theorem log_posted_to_traces_collector :
    ∃ y : State ℕ _, runFrom (twoCollectors (ascii "logs:4318")) spanThenLogRun = some y ∧
      .posted .log [2] (some 0) ∈ y.world.history ∧
      y.world.net.peer 0 = some (ascii "localhost", 4318) ∧
      (y.world.exp.sig .log).url.host = ascii "logs" ∧ ¬Routed y.world := by
  have hrun : (runFrom (twoCollectors (ascii "logs:4318")) spanThenLogRun).map (fun y =>
      (decide (.posted .log [2] (some 0) ∈ y.world.history), y.world.net.peer 0,
        (y.world.exp.sig .log).url.host)) = some (true, some (ascii "localhost", 4318), ascii "logs") := by
    decide +kernel
  obtain ⟨y, hy, hposted⟩ := Option.map_eq_some_iff.1 hrun
  simp only [Prod.mk.injEq, decide_eq_true_eq] at hposted
  obtain ⟨hmem, hpeer, hhost⟩ := hposted
  refine ⟨y, hy, hmem, hpeer, hhost, fun hrouted => ?_⟩
  obtain ⟨k, hsock, hleads⟩ := hrouted .log [2] (some 0) hmem
  obtain rfl := Option.some.inj hsock
  rw [LeadsTo, hpeer, hhost, Option.some.injEq, Prod.mk.injEq] at hleads
  exact absurd hleads.1 (by decide)

end OtlpC.Exporter
