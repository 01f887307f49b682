import OtlpC.Exporter.Invariants
import OtlpC.Lib.Ledger

/-!
# Sockets

The sockets of the exporter are a ledger: each connect acquires one, each close releases one, and the
request in flight and `keepalive_sock` hold what is open. Every step balances it but one: a build that
fails before the start of its request has got its memory leaves the donated socket open, and
`try_start_post` then forgets it.
-/

namespace OtlpC.Exporter

open Http

variable {ι : Type*} {cap : ℕ}

def World.sockets (w : World ι cap) : List Sock :=
  (w.exp.inFlight.bind (·.sock)).toList ++ w.exp.keepaliveSock.toList

def World.socketLedger (w : World ι cap) : Ledger Sock :=
  ⟨List.range w.net.connects.length, w.net.closes, w.sockets⟩

def OneSocket (w : World ι cap) : Prop := w.exp.inFlight.isSome → w.exp.keepaliveSock = none

/-- The step does not give a kept socket to a build that ends before a request could own it. -/
def TakesSocket (x : State ι cap) (l : Label ι) : Prop :=
  ∀ a ∈ startAttempt x l, buildEndsEarly x.world a.1 a.2 = true → x.world.exp.keepaliveSock = none

instance (x : State ι cap) (l : Label ι) : Decidable (TakesSocket x l) :=
  inferInstanceAs (Decidable (∀ a ∈ startAttempt x l, _))

/-! ### What the calls do to the ledger -/

theorem connects_length (net : Net) (host : Bytes) (port : ℕ) :
    (net.connect host port).1.connects.length = net.connects.length + 1 := by
  simp [Net.connect]

theorem closes_closeOpt (net : Net) (sock : Option Sock) :
    (net.closeOpt sock).closes = net.closes ++ sock.toList := by
  cases sock <;> simp [Net.closeOpt, Net.close]

theorem connects_closeOpt (net : Net) (sock : Option Sock) :
    (net.closeOpt sock).connects = net.connects := by
  cases sock <;> rfl

theorem move_reopened (net : Net) (host : Bytes) (port : ℕ) (held : List Sock) :
    Ledger.Move ⟨List.range net.connects.length, net.closes, held⟩
      ⟨List.range ((net.connect host port).1.close net.connects.length).connects.length,
        ((net.connect host port).1.close net.connects.length).closes, held⟩ := by
  have hconnects : ((net.connect host port).1.close net.connects.length).connects.length =
      net.connects.length + 1 := connects_length net host port
  rw [hconnects, List.range_succ]
  exact .pass [net.connects.length]

theorem Churn.move {net net' : Net} (h : Churn net net') (held : List Sock) :
    Ledger.Move ⟨List.range net.connects.length, net.closes, held⟩
      ⟨List.range net'.connects.length, net'.closes, held⟩ := by
  induction h with
  | refl => exact .keep (List.Perm.refl _)
  | reopened host port _ ih => exact ih.trans (move_reopened _ host port held)

theorem BuildStarted.move {w : World ι cap} {s : Signal} {net : Net} {k : Sock}
    (h : BuildStarted w s net k) (hidle : w.exp.inFlight = none) :
    Ledger.Move w.socketLedger ⟨List.range net.connects.length, net.closes, [k]⟩ := by
  unfold World.socketLedger World.sockets
  cases h with
  | donated _ hsome =>
    refine .keep ?_
    simp [hidle, hsome]
  | connected hnone =>
    rw [connects_length, List.range_succ]
    refine .acquire ?_
    simp [hidle, hnone]

theorem BuildFailed.move {w : World ι cap} {s : Signal} {env : BuildEnv} {net : Net}
    (h : BuildFailed w s env net) (hidle : w.exp.inFlight = none)
    (hkept : buildEndsEarly w s env = true → w.exp.keepaliveSock = none) :
    Ledger.Move w.socketLedger ⟨List.range net.connects.length, net.closes, []⟩ := by
  unfold World.socketLedger World.sockets
  cases h with
  | unopened hnone => exact .keep (by simp [hidle, hnone])
  | reclosed hnone =>
    have hmove := move_reopened w.net (w.exp.sig s).url.host (w.exp.sig s).url.port []
    simpa [hidle, hnone] using hmove
  | lost k hsome hearly =>
    rw [hkept hearly] at hsome
    contradiction
  | closed k hsome hearly =>
    refine .release ?_
    simp [hidle, hsome]

theorem AnsweredSockets.move {w : World ι cap} {r : OtlpHttpRequest} {net : Net} {kept : Option Sock}
    (h : AnsweredSockets w r.sock net kept) (hflight : w.exp.inFlight = some r) (hone : OneSocket w) :
    Ledger.Move w.socketLedger ⟨List.range net.connects.length, net.closes, kept.toList⟩ := by
  have hnone : w.exp.keepaliveSock = none := hone (by rw [hflight]; rfl)
  unfold World.socketLedger World.sockets
  cases h with
  | kept => exact .keep (by simp [hflight, hnone])
  | closed _ hkept =>
    obtain rfl : kept = none := by rcases hkept with rfl | rfl; exacts [rfl, hnone]
    rw [connects_closeOpt, closes_closeOpt]
    refine .release ?_
    simp [hflight, hnone]

theorem otlpExporterFree_net (w : World ι cap) :
    (otlpExporterFree w).net.connects = w.net.connects ∧
      (otlpExporterFree w).net.closes = w.net.closes ++ w.sockets := by
  unfold otlpExporterFree World.sockets
  cases hflight : w.exp.inFlight with
  | none => simp [drainSignal, hflight, connects_closeOpt, closes_closeOpt]
  | some r =>
    simp [drainSignal, hflight, otlpHttpRequestFree, connects_closeOpt, closes_closeOpt]

theorem otlpExporterFree_sockets (w : World ι cap) : (otlpExporterFree w).sockets = [] := rfl

/-! ### One step -/

theorem socketMove_of_eq {w w' : World ι cap} (hnet : w'.net = w.net)
    (hsockets : w'.sockets = w.sockets) : Ledger.Move w.socketLedger w'.socketLedger := by
  unfold World.socketLedger
  rw [hnet, hsockets]
  exact .keep (List.Perm.refl _)

theorem Effect.socketMove {x : State ι cap} {l : Label ι} {w : World ι cap} (h : Effect x l w)
    (hone : OneSocket x.world) (htakes : TakesSocket x l) :
    Ledger.Move x.world.socketLedger w.socketLedger := by
  cases h with
  | quiet | shutdown | refused | accepted | drained | disarmed => exact socketMove_of_eq rfl rfl
  | progressed hcall r r' hflight hsock =>
    refine socketMove_of_eq rfl ?_
    simp [World.sockets, hflight, hsock]
  | startFailed s env net obs hattempt hfails hidle hnet =>
    have hmove := hnet.move hidle (htakes _ hattempt)
    simpa [World.socketLedger, World.sockets, hidle] using hmove
  | started s env net r k hattempt hstarts hidle hnet hsock =>
    have hmove := hnet.move hidle
    simpa [World.socketLedger, World.sockets, OtlpExporter.started, hsock] using hmove
  | answeredRetry r o net kept t ev hflight hends hretry hnet =>
    have hmove := hnet.move hflight hone
    simpa [World.socketLedger, World.sockets, OtlpExporter.released] using hmove
  | answeredFinal r o net kept t rejected more hflight hends hfinal hnet =>
    have hmove := hnet.move hflight hone
    simpa [World.socketLedger, World.sockets, OtlpExporter.released] using hmove
  | nullOutcome hcall s status now =>
    obtain ⟨hnet, hflight, hkept⟩ :=
      recordOutcome_sockets (nullPosted x.world s) ⟨status, 0, none⟩ now
    refine socketMove_of_eq hnet ?_
    rw [World.sockets, hflight, hkept]
    rfl
  | flushed hcall s net prng evs ok hnet => exact hnet.move x.world.sockets
  | freed =>
    obtain ⟨hconnects, hcloses⟩ := otlpExporterFree_net x.world
    unfold World.socketLedger
    rw [hconnects, hcloses, otlpExporterFree_sockets]
    exact .release (by simp)

theorem buildFails_of_early {w : World ι cap} {s : Signal} {env : BuildEnv}
    (h : buildEndsEarly w s env = true) : buildFails w s env = true := by
  unfold buildFails
  rw [specBuildRequest_snd]
  cases hbuf : env.bufInitOk (encodeBufSize s (w.exp.sig s).pending.length) with
  | false => simp
  | true =>
    cases hencoded : env.encoded with
    | error st => simp
    | ok body =>
      have hcalloc : env.start.callocOk = false := by
        simpa [buildEndsEarly, hbuf, hencoded] using h
      cases w.exp.keepaliveSock with
      | none => simp [startPostCommon, otlpHttpRequestStart, hcalloc]
      | some k => simp [startPostCommon, otlpHttpRequestStartWithSocket, hcalloc]

/-- A build that ends early loses the socket it was given. -/
theorem Effect.socketLost {x : State ι cap} {l : Label ι} {w : World ι cap} (h : Effect x l w)
    (htakes : ¬TakesSocket x l) : ∃ k, x.world.sockets = [k] ∧
      w.socketLedger = ⟨List.range x.world.net.connects.length, x.world.net.closes, []⟩ := by
  simp only [TakesSocket, not_forall, Option.mem_def] at htakes
  obtain ⟨⟨s, env⟩, hattempt, hearly, hkept⟩ := htakes
  cases h with
  | startFailed s' env' net obs hattempt' hfails hidle hnet =>
    rw [hattempt', Option.some.injEq, Prod.mk.injEq] at hattempt
    obtain ⟨rfl, rfl⟩ := hattempt
    cases hnet with
    | unopened hnone | reclosed hnone => exact absurd hnone hkept
    | lost k hsome =>
      exact ⟨k, by simp [World.sockets, hidle, hsome],
        by simp [World.socketLedger, World.sockets, hidle]⟩
    | closed k hsome hlate =>
      rw [hlate] at hearly
      contradiction
  | started s' env' net r k hattempt' hstarts =>
    rw [hattempt', Option.some.injEq, Prod.mk.injEq] at hattempt
    obtain ⟨rfl, rfl⟩ := hattempt
    rw [buildFails_of_early hearly] at hstarts
    contradiction
  | quiet hcall | shutdown hcall | refused hcall | accepted hcall | drained hcall | disarmed hcall
  | progressed hcall | nullOutcome hcall | flushed hcall | freed hcall =>
    rw [hcall.startAttempt_eq] at hattempt
    contradiction
  | answeredRetry _ _ _ _ _ _ _ hends | answeredFinal _ _ _ _ _ _ _ _ hends =>
    rw [startAttempt_of_requestEnds hends] at hattempt
    contradiction

theorem step_oneSocket {x y : State ι cap} {l : Label ι} (h : step x l = some y)
    (hone : OneSocket x.world) : OneSocket y.world := by
  have heffect := step_effect h
  generalize y.world = w at heffect
  cases heffect with
  | quiet | shutdown | refused | accepted | drained | disarmed | flushed => exact hone
  | startFailed s env net obs hattempt hfails hidle => exact fun _ => rfl
  | started => exact fun _ => rfl
  | progressed hcall r r' hflight => exact fun _ => hone (by rw [hflight]; rfl)
  | answeredRetry | answeredFinal | freed => exact nofun
  | nullOutcome hcall s status now =>
    obtain ⟨-, hflight, hkept⟩ := recordOutcome_sockets (nullPosted x.world s) ⟨status, 0, none⟩ now
    rw [OneSocket, hflight, hkept]
    exact hone

/-- What every run keeps: no socket is closed twice, and none is referred to twice or once closed. -/
def SocketsSound (x : State ι cap) : Prop := OneSocket x.world ∧ x.world.socketLedger.Sound

theorem step_socketsExact {x y : State ι cap} {l : Label ι} (hx : SocketsSound x)
    (h : step x l = some y) :
    y.world.socketLedger.Exact ↔ x.world.socketLedger.Exact ∧ TakesSocket x l := by
  by_cases htakes : TakesSocket x l
  · rw [((step_effect h).socketMove hx.1 htakes).exact_iff]
    exact (and_iff_left htakes).symm
  · obtain ⟨k, hsockets, hledger⟩ := (step_effect h).socketLost htakes
    have hsound := hx.2
    rw [World.socketLedger, hsockets] at hsound
    rw [hledger]
    exact iff_of_false (Ledger.not_exact_of_lose hsound) (fun hexact => htakes hexact.2)

theorem step_socketsSound {x y : State ι cap} {l : Label ι} (hx : SocketsSound x)
    (h : step x l = some y) : SocketsSound y := by
  refine ⟨step_oneSocket h hx.1, ?_⟩
  by_cases htakes : TakesSocket x l
  · exact ((step_effect h).socketMove hx.1 htakes).sound hx.2
  · obtain ⟨k, hsockets, hledger⟩ := (step_effect h).socketLost htakes
    have hsound := hx.2
    rw [World.socketLedger, hsockets] at hsound
    rw [hledger]
    exact Ledger.sound_of_lose hsound

/-! ### Runs -/

/-- Every open socket has exactly one reference, and every closed one none and was closed once. -/
def SocketsOwned (w : World ι cap) : Prop :=
  (w.net.closes ++ ((w.exp.inFlight.bind (·.sock)).toList ++ w.exp.keepaliveSock.toList)).Perm
    (List.range w.net.connects.length)

theorem Fresh.socketLedger_eq {e : OtlpExporter ι cap} (h : Fresh e) (nullTransport fn : Bool) :
    (State.init e nullTransport fn).world.socketLedger = Ledger.empty := by
  simp [World.socketLedger, World.sockets, State.init, Net.empty, Ledger.empty, h.inFlight_eq,
    h.keepaliveSock_eq]

theorem Fresh.socketsSound {e : OtlpExporter ι cap} (h : Fresh e) (nullTransport fn : Bool) :
    SocketsSound (State.init e nullTransport fn) := by
  refine ⟨fun _ => h.keepaliveSock_eq, ?_⟩
  rw [h.socketLedger_eq]
  exact Ledger.exact_empty.sound

theorem step_freedSockets {x y : State ι cap} {l : Label ι} (h : step x l = some y)
    (hfreed : y.phase = .freed) : y.world.sockets = [] := by
  obtain ⟨-, hworld⟩ := (step_phase h).2 hfreed
  rw [hworld, otlpExporterFree_sockets]

/-- **Sockets are closed once.** After a run, each socket that was connected has been closed once or is
referred to once, and after `otlp_exporter_free` each has been closed once, exactly when no kept socket was
given to a build that ended before a request could own it. -/
theorem socketsOwned_iff {opts : OtlpExporterOpts} {env : CreateEnv} {nullTransport fn : Bool}
    {e : OtlpExporter ι (normalizeOpts opts).queueCapacity}
    (hcreate : otlpExporterCreate ι opts env = some e) {ls : List (Label ι)} {y : State ι _}
    (hrun : Steps.run step (State.init e nullTransport fn) ls = some y) :
    SocketsOwned y.world ∧
        (y.phase = .freed → y.world.net.closes.Perm (List.range y.world.net.connects.length)) ↔
      Steps.Along step TakesSocket (State.init e nullTransport fn) ls := by
  have hfresh := fresh_of_create hcreate
  have howned : SocketsOwned y.world ↔ Steps.Along step TakesSocket (State.init e nullTransport fn) ls := by
    refine Steps.along_iff (P := fun x => x.world.socketLedger.Exact) (I := SocketsSound)
      (L := fun _ => True) (fun x l y hx h => step_socketsSound hx h)
      (fun x l y hx _ h => step_socketsExact hx h) (hfresh.socketsSound _ _) ?_ (fun _ _ => trivial) hrun
    rw [hfresh.socketLedger_eq]
    exact Ledger.exact_empty
  have hfreed : y.phase = .freed → y.world.sockets = [] :=
    Steps.run_invariant (P := fun x => x.phase = .freed → x.world.sockets = [])
      (fun x l y _ h => step_freedSockets h) (by simp [State.init]) hrun
  refine ⟨fun h => howned.1 h.1, fun h => ⟨howned.2 h, fun hphase => ?_⟩⟩
  have hexact : y.world.socketLedger.Exact := howned.2 h
  rw [World.socketLedger, hfreed hphase] at hexact
  exact hexact.released_perm

/-- An item is sent and its connection kept, and a request for a second item is built. -/
def secondPostRun (steps : ℕ) (bufInitOk : ℕ → Bool) : List (Label ℕ) :=
  [.emitMove .span (some 1)] ++ tickRound 11 0 (.fine 0 []) ++
    tickRound 8 0 (.fine 0 (emptyResponse 200)) ++ [.emitMove .span (some 2)] ++
    tickRound steps 0 { TickEnv.fine 0 [] with build := { BuildEnv.fine with bufInitOk } } ++ [.free]

theorem socketsOwned_iff_second_post :
    ∃ y : State ℕ _, runFrom (plainOpts 1 1) (secondPostRun 11 fun _ => true) = some y ∧
      y.phase = .freed ∧ y.world.net.closes.Perm (List.range y.world.net.connects.length) := by
  have hphase : (runFrom (plainOpts 1 1) (secondPostRun 11 fun _ => true)).map (·.phase) =
      some .freed := by decide +kernel
  obtain ⟨y, hy, hfreed⟩ := Option.map_eq_some_iff.1 hphase
  obtain ⟨e, hcreate, hrun⟩ := runFrom_eq_some hy
  have htakes : ∀ e ∈ otlpExporterCreate ℕ (plainOpts 1 1) .fine,
      Steps.Along step TakesSocket (State.init e false false) (secondPostRun 11 fun _ => true) := by
    decide +kernel
  exact ⟨y, hy, hfreed, ((socketsOwned_iff hcreate hrun).2 (htakes e hcreate)).2 hfreed⟩

/-- The buffer for the second request cannot be had: the kept socket is never closed. -/
theorem kept_socket_lost :
    ∃ y : State ℕ _, runFrom (plainOpts 1 1) (secondPostRun 12 fun _ => false) = some y ∧
      y.phase = .freed ∧ y.world.net.connects.length = 1 ∧ y.world.net.closes = [] := by
  have hrun : (runFrom (plainOpts 1 1) (secondPostRun 12 fun _ => false)).map (fun y =>
      (y.phase, y.world.net.connects.length, y.world.net.closes)) = some (.freed, 1, []) := by
    decide +kernel
  obtain ⟨y, hy, hlost⟩ := Option.map_eq_some_iff.1 hrun
  simp only [Prod.mk.injEq] at hlost
  exact ⟨y, hy, hlost⟩

end OtlpC.Exporter
