import OtlpC.Exporter.Outcomes

/-!
# The backoff is honoured

While the backoff is armed nothing changes it but the clock that reaches its deadline, and no request is
started before. With the bounds of `otlp_retry_delay_ms` this says that the exporter never retries earlier
than the server asked, up to its cap.
-/

namespace OtlpC.Exporter

open Http

variable {ι : Type*} {cap : ℕ}

/-! ### The clock -/

def otlpPlatformNowMonoMs : Option UInt64 → ℕ
  | none => 0
  | some nano => nano.toNat / 1000000

/-- The clock reading of a step. -/
def Label.clock : Label ι → Option ℕ
  | .tick _ now => some now
  | .tickStep env => some env.now
  | _ => none

structure MonotoneClock (ls : List (Label ι)) : Prop where
  le : (ls.filterMap Label.clock).Pairwise (· ≤ ·)
  platform : ∀ now ∈ ls.filterMap Label.clock, ∃ nano, now = otlpPlatformNowMonoMs nano

theorem MonotoneClock.tail {l : Label ι} {ls : List (Label ι)} (h : MonotoneClock (l :: ls)) :
    MonotoneClock ls := by
  obtain ⟨hle, hplatform⟩ := h
  cases hclock : l.clock with
  | none =>
    rw [List.filterMap_cons_none hclock] at hle hplatform
    exact ⟨hle, hplatform⟩
  | some now =>
    rw [List.filterMap_cons_some hclock] at hle hplatform
    exact ⟨(List.pairwise_cons.1 hle).2, fun now' hmem => hplatform now' (List.mem_cons_of_mem _ hmem)⟩

theorem otlpPlatformNowMonoMs_lt (nano : Option UInt64) : otlpPlatformNowMonoMs nano < 2 ^ 44 + 2 ^ 42 := by
  cases nano with
  | none => decide
  | some nano =>
    have hlt := nano.toNat_lt
    rw [otlpPlatformNowMonoMs]
    omega

/-! ### What a step observes -/

def observed (x y : State ι cap) : List (Obs ι) := y.world.history.drop x.world.history.length

/-- The step is one of `otlp_exporter_tick` that arms a backoff of `d` milliseconds when the clock reads
`t`. -/
def ArmsBackoff (x : State ι cap) (l : Label ι) (t d : ℕ) : Prop :=
  ∃ env y ev, l = .tickStep env ∧ env.now = t ∧ step x l = some y ∧ x.world.exp.backoffArmed = false ∧
    y.world.exp.backoffArmed = true ∧ .event ev ∈ observed x y ∧ ev.code = .retryArmed ∧ ev.delayMs = d

/-- The step is one of `otlp_exporter_tick` that starts a POST when the clock reads `now`. -/
def StartsPost (x : State ι cap) (l : Label ι) (now : ℕ) : Prop :=
  ∃ env y s items sock, l = .tickStep env ∧ env.now = now ∧ step x l = some y ∧
    .posted s items sock ∈ observed x y

theorem observed_append {x y : State ι cap} {obs : List (Obs ι)}
    (h : y.world.history = x.world.history ++ obs) : observed x y = obs := by
  rw [observed, h, List.drop_left]

theorem startAttempt_of_posted {x y : State ι cap} {l : Label ι} (h : step x l = some y)
    (hreal : x.world.exp.nullTransport = false) {s : Signal} {items : List ι} {sock : Option Sock}
    (hposted : .posted s items sock ∈ observed x y) : ∃ a, startAttempt x l = some a := by
  have heffect := step_effect h
  obtain ⟨w, phase⟩ := y
  have hnew {obs : List (Obs ι)} (hobs : w.history = x.world.history ++ obs) :
      .posted s items sock ∈ obs := by rwa [observed_append hobs] at hposted
  cases heffect with
  | quiet | shutdown | drained | disarmed | progressed => simpa using hnew (List.append_nil _).symm
  | refused | accepted | answeredRetry | flushed => simpa using hnew rfl
  | startFailed t env net obs hattempt => exact ⟨_, hattempt⟩
  | started t env net r k hattempt => exact ⟨_, hattempt⟩
  | answeredFinal => simpa [endedObs] using hnew rfl
  | nullOutcome hcall t status now hnull => exact absurd hnull (by simp [hreal])
  | freed => simpa [heldObs] using hnew (otlpExporterFree_history x.world)

theorem startAttempt_due {x : State ι cap} {env : TickEnv} {a : Signal × BuildEnv}
    (h : startAttempt x (.tickStep env) = some a) (harmed : x.world.exp.backoffArmed = true) :
    x.world.exp.backoffDeadlineMono ≤ env.now := by
  unfold startAttempt at h
  split at h
  · next heq =>
    cases heq
    split at h
    · split at h
      · simp [harmed] at h
      · split at h
        · next hgo =>
          simp only [Bool.and_eq_true, decide_eq_true_eq] at hgo
          exact hgo.1.1.2
        · contradiction
      · contradiction
    · contradiction
  · next hne => exact absurd rfl (hne env)

/-! ### What keeps the backoff -/

structure SameBackoff (w w' : World ι cap) : Prop where
  armed_eq : w'.exp.backoffArmed = w.exp.backoffArmed
  deadline_eq : w'.exp.backoffDeadlineMono = w.exp.backoffDeadlineMono

theorem SameBackoff.refl (w : World ι cap) : SameBackoff w w := ⟨rfl, rfl⟩

theorem emitHanded_backoff (w : World ι cap) (s : Signal) (item : ι) :
    SameBackoff w (emitHanded w s item).1 := by
  unfold emitHanded
  split
  · exact ⟨rfl, rfl⟩
  split <;> exact ⟨rfl, rfl⟩

theorem emitMoveCommon_backoff (w : World ι cap) (s : Signal) (item : Option ι) :
    SameBackoff w (emitMoveCommon w s item).1 := by
  cases item with
  | none => exact .refl w
  | some item =>
    have hsame := emitHanded_backoff (w.observe [.handed s item]) s item
    exact ⟨hsame.armed_eq, hsame.deadline_eq⟩

theorem emitCloneCommon_backoff (w : World ι cap) (s : Signal) (isNull : Bool) (clone : Option ι) :
    SameBackoff w (emitCloneCommon w s isNull clone).1 := by
  unfold emitCloneCommon
  split
  · exact .refl w
  split
  · exact .refl w
  split
  · exact .refl w
  · exact emitMoveCommon_backoff w s _

theorem flushItem_backoff {w w' : World ι cap} {s : Signal} {isNull : Bool} {env : FlushEnv}
    {st : OtlpStatus} (h : flushItem w s isNull env = some (w', st)) : SameBackoff w w' := by
  rcases flushItem_eq h with rfl | ⟨net, prng, evs, ok, hchurn, hevs, rfl⟩
  · exact .refl w'
  · exact ⟨rfl, rfl⟩

theorem drainOne_backoff {w w' : World ι cap} {s : Signal} {now : ℕ} (h : drainOne w s now = some w') :
    SameBackoff w w' := by
  unfold drainOne at h
  split at h
  · split at h
    · contradiction
    · cases h
      exact ⟨rfl, rfl⟩
  · contradiction

theorem backoffRetry_backoff (w : World ι cap) (env : BuildEnv) (now : ℕ) :
    SameBackoff w (backoffRetry w env now) ∨ w.exp.backoffDeadlineMono ≤ now := by
  unfold backoffRetry
  split
  · next hdue =>
    simp only [Bool.and_eq_true, decide_eq_true_eq] at hdue
    exact .inr hdue.2
  · exact .inl (.refl w)

/-- What holds of the backoff in every state on the real transport; `initialMs` and `maxMs` are the
options'. -/
structure BackoffOk (initialMs maxMs : ℕ) (e : OtlpExporter ι cap) : Prop where
  nullTransport_eq : e.nullTransport = false
  initialMs_eq : e.backoffInitialMs = initialMs
  maxMs_eq : e.backoffMaxMs = maxMs
  idle : e.backoffArmed = true → e.inFlight = none

variable {initialMs maxMs : ℕ}

theorem tickStep_backoff {w : World ι cap} (hok : BackoffOk initialMs maxMs w.exp)
    (harmed : w.exp.backoffArmed = true) (f : Frame) (env : TickEnv) :
    SameBackoff w (tickStep w f env).world ∨ w.exp.backoffDeadlineMono ≤ env.now := by
  have hidle := hok.idle harmed
  cases hpc : f.pc with
  | drain s =>
    simp only [tickStep, hpc]
    split
    · next w' hdrain => exact .inl (drainOne_backoff hdrain)
    · exact .inl (.refl w)
  | nullTransport =>
    simp only [tickStep, hpc, hok.nullTransport_eq]
    exact .inl (.refl w)
  | beginStart =>
    simp only [tickStep, hpc]
    split <;> exact .inl (.refl w)
  | start s shutdown nowMs =>
    simp only [tickStep, hpc, harmed, Bool.or_true, if_true]
    exact .inl (.refl w)
  | stepInFlight =>
    simp only [tickStep, hpc, stepInFlight, hidle]
    exact .inl (.refl w)
  | backoffRetry =>
    simp only [tickStep, hpc]
    exact backoffRetry_backoff w env.build env.now
  | loop =>
    simp only [tickStep, hpc]
    split <;> exact .inl (.refl w)

/-- **An armed backoff stays as it is** until a tick reads a clock that has reached its deadline. -/
theorem step_backoff {x y : State ι cap} {l : Label ι} (hok : BackoffOk initialMs maxMs x.world.exp)
    (harmed : x.world.exp.backoffArmed = true) (h : step x l = some y) :
    SameBackoff x.world y.world ∨ ∃ now ∈ l.clock, x.world.exp.backoffDeadlineMono ≤ now := by
  cases stepped h with
  | emitMove s item hlive => exact .inl (emitMoveCommon_backoff x.world s item)
  | emit s isNull clone hlive => exact .inl (emitCloneCommon_backoff x.world s isNull clone)
  | shutdown hlive => exact .inl ⟨rfl, rfl⟩
  | tick maxWaitMs now hidle => exact .inl (.refl _)
  | tickStep f env hphase =>
    exact (tickStep_backoff hok harmed f env).imp_right fun hdue => ⟨env.now, rfl, hdue⟩
  | flushMetric isNull env w st hidle hflush | flushLog isNull env w st hidle hflush =>
    exact .inl (flushItem_backoff hflush)
  | free hidle => exact .inl ⟨by rw [otlpExporterFree_exp], by rw [otlpExporterFree_exp]⟩

/-! ### Every state -/

theorem step_backoffOk {x y : State ι cap} {l : Label ι} (hok : BackoffOk initialMs maxMs x.world.exp)
    (h : step x l = some y) : BackoffOk initialMs maxMs y.world.exp := by
  obtain ⟨hreal, hinitial, hmax, hidle⟩ := hok
  have hreal' := (step_config h).nullTransport_eq.trans hreal
  have heffect := step_effect h
  obtain ⟨w, phase⟩ := y
  cases heffect with
  | quiet | shutdown | refused | accepted | drained | flushed => exact ⟨hreal', hinitial, hmax, hidle⟩
  | disarmed | startFailed | started | answeredFinal => exact ⟨hreal', hinitial, hmax, nofun⟩
  | progressed hcall r r' hflight =>
    refine ⟨hreal', hinitial, hmax, fun harmed => ?_⟩
    rw [hidle harmed] at hflight
    contradiction
  | answeredRetry | freed => exact ⟨hreal', hinitial, hmax, fun _ => rfl⟩
  | nullOutcome hcall s status now hnull => exact absurd hnull (by simp [hreal])

theorem backoffOk_init {opts : OtlpExporterOpts} {env : CreateEnv}
    {e : OtlpExporter ι (normalizeOpts opts).queueCapacity} (h : otlpExporterCreate ι opts env = some e)
    (fn : Bool) : BackoffOk (normalizeOpts opts).backoffInitialMs (normalizeOpts opts).backoffMaxMs
      (State.init e false fn).world.exp :=
  ⟨rfl, (created_of_create h).backoffInitialMs_eq, (created_of_create h).backoffMaxMs_eq,
    fun _ => (fresh_of_create h).inFlight_eq⟩

/-! ### The step that arms -/

theorem armsBackoff_eq {x : State ι cap} {l : Label ι} {t d : ℕ}
    (hreal : x.world.exp.nullTransport = false) (harms : ArmsBackoff x l t d) :
    ∃ o, requestEnds x l = some o ∧ d = x.world.exp.delay o.floorMs ∧ l.clock = some t ∧
      ∀ y ∈ step x l, y.world.exp.backoffArmed = true ∧
        y.world.exp.backoffDeadlineMono = Queue.u64 (t + d) := by
  obtain ⟨env, y, ev, rfl, rfl, h, hunarmed, harmed, hmem, hcode, rfl⟩ := harms
  have hends : ∃ o, requestEnds x (.tickStep env) = some o ∧ retries x.world.exp o.status = true := by
    have heffect := step_effect h
    obtain ⟨w, phase⟩ := y
    cases heffect with
    | quiet | shutdown | refused | accepted | drained | progressed | flushed =>
      exact absurd (hunarmed.symm.trans harmed) (by simp)
    | disarmed | startFailed | started | answeredFinal => exact absurd harmed (by simp [OtlpExporter.started,
        OtlpExporter.released, OtlpExporter.tally, OtlpExporter.ended])
    | answeredRetry r o net kept t ev hflight hends hretry => exact ⟨o, hends, hretry⟩
    | nullOutcome hcall s status now hnull => exact absurd hnull (by simp [hreal])
    | freed => exact absurd (hunarmed.symm.trans harmed) (by simp)
  obtain ⟨o, hends, hretry⟩ := hends
  obtain ⟨env', net, kept, heq, hy⟩ := step_answeredRetry h hends hretry
  cases heq
  have hdelay : ev.delayMs = x.world.exp.delay o.floorMs := by
    rw [observed_append (congrArg World.history hy)] at hmem
    obtain rfl : ev = armedEvent x.world.exp o.status o.floorMs := by simpa using hmem
    rfl
  refine ⟨o, hends, hdelay, rfl, fun y' hy' => ?_⟩
  obtain rfl : y = y' := Option.some.inj (h.symm.trans hy')
  rw [hdelay, hy]
  exact ⟨rfl, rfl⟩

/-! ### Runs -/

/-- The backoff that ends at `deadline` still waits, or the clock `c` has reached its end. -/
def Waits (deadline c : ℕ) (w : World ι cap) : Prop :=
  (w.exp.backoffArmed = true ∧ w.exp.backoffDeadlineMono = deadline) ∨ deadline ≤ c

/-- The clock readings of the labels are at least `c` and in order. -/
def ReadsFrom (c : ℕ) (ls : List (Label ι)) : Prop := (c :: ls.filterMap Label.clock).Pairwise (· ≤ ·)

def Label.clockAfter (c : ℕ) (l : Label ι) : ℕ := l.clock.getD c

theorem ReadsFrom.tail {c : ℕ} {l : Label ι} {ls : List (Label ι)} (h : ReadsFrom c (l :: ls)) :
    ReadsFrom (l.clockAfter c) ls := by
  unfold ReadsFrom at h ⊢
  cases hclock : l.clock with
  | none => rwa [List.filterMap_cons_none hclock, ← show l.clockAfter c = c by
      rw [Label.clockAfter, hclock]; rfl] at h
  | some now =>
    rw [List.filterMap_cons_some hclock, List.pairwise_cons] at h
    rw [Label.clockAfter, hclock]
    exact h.2

theorem ReadsFrom.le {c now : ℕ} {l : Label ι} {ls : List (Label ι)} (h : ReadsFrom c (l :: ls))
    (hnow : now ∈ l.clock) : c ≤ now := by
  unfold ReadsFrom at h
  rw [List.filterMap_cons_some hnow, List.pairwise_cons] at h
  exact h.1 now List.mem_cons_self

theorem waits_step {deadline c : ℕ} {x y : State ι cap} {l : Label ι} {ls : List (Label ι)}
    (hok : BackoffOk initialMs maxMs x.world.exp) (hwaits : Waits deadline c x.world)
    (hclock : ReadsFrom c (l :: ls)) (h : step x l = some y) :
    Waits deadline (l.clockAfter c) y.world := by
  rcases hwaits with ⟨harmed, hdeadline⟩ | hpassed
  · rcases step_backoff hok harmed h with hsame | ⟨now, hnow, hdue⟩
    · exact .inl ⟨hsame.armed_eq.trans harmed, hsame.deadline_eq.trans hdeadline⟩
    · refine .inr ?_
      rw [Label.clockAfter, hnow]
      exact hdeadline ▸ hdue
  · refine .inr (hpassed.trans ?_)
    cases hread : l.clock with
    | none => rw [Label.clockAfter, hread]; rfl
    | some now =>
      rw [Label.clockAfter, hread]
      exact hclock.le hread

theorem waits_startsPost {deadline c now : ℕ} {x : State ι cap} {l : Label ι} {ls : List (Label ι)}
    (hok : BackoffOk initialMs maxMs x.world.exp) (hwaits : Waits deadline c x.world)
    (hclock : ReadsFrom c (l :: ls)) (hstarts : StartsPost x l now) : deadline ≤ now := by
  obtain ⟨env, y, s, items, sock, rfl, rfl, h, hposted⟩ := hstarts
  rcases hwaits with ⟨harmed, hdeadline⟩ | hpassed
  · obtain ⟨a, hattempt⟩ := startAttempt_of_posted h hok.nullTransport_eq hposted
    exact hdeadline ▸ startAttempt_due hattempt harmed
  · exact hpassed.trans (hclock.le rfl)

/-- From the step on that has armed a backoff, no POST is started before the backoff has passed. -/
theorem armsBackoff_waits {x y : State ι cap} {l : Label ι} {ls : List (Label ι)} {t d : ℕ}
    (hok : BackoffOk initialMs maxMs x.world.exp) (hmax : maxMs < 2 ^ 32) (h : step x l = some y)
    (hclock : MonotoneClock (l :: ls)) (harms : ArmsBackoff x l t d) :
    Steps.Along step (fun y k => ∀ now, StartsPost y k now → t + d ≤ now) y ls := by
  obtain ⟨o, hends, hd, hread, harmed⟩ := armsBackoff_eq hok.nullTransport_eq harms
  obtain ⟨harmed, hdeadline⟩ := harmed y h
  obtain ⟨hle, hplatform⟩ := hclock
  rw [List.filterMap_cons_some hread] at hle hplatform
  -- the deadline does not wrap
  have hsum : t + d < 2 ^ 64 := by
    obtain ⟨nano, ht⟩ := hplatform t List.mem_cons_self
    have hlt := otlpPlatformNowMonoMs_lt nano
    have hcap := Retry.otlpRetryDelayMs_le x.world.exp.jitterPrng (succ32 x.world.exp.attempt) o.floorMs
      { initialMs := x.world.exp.backoffInitialMs, maxMs := x.world.exp.backoffMaxMs }
    rw [hok.maxMs_eq] at hcap
    have hdle : d ≤ maxMs := by
      rw [hd, OtlpExporter.delay, OtlpExporter.backoff, hok.maxMs_eq]
      exact hcap
    omega
  rw [Queue.u64_of_lt hsum] at hdeadline
  refine Steps.along_reading (P := fun c x => BackoffOk initialMs maxMs x.world.exp ∧ Waits (t + d) c x.world)
    (L := ReadsFrom) (c := t) (fun c l ls hread => hread.tail) ?_ ?_
    ⟨step_backoffOk hok h, .inl ⟨harmed, hdeadline⟩⟩ hle
  · intro c x l ls y hx hread h
    exact ⟨step_backoffOk hx.1 h, waits_step hx.1 hx.2 hread h⟩
  · intro c x l ls hx hread now hstarts
    exact waits_startsPost hx.1 hx.2 hread hstarts

/-- 429 and 5xx: the statuses whose Retry-After is honoured. -/
def Throttled (status : ℤ) : Prop := status = 429 ∨ (500 ≤ status ∧ status < 600)

/-- The delay that a step arms lies between what the server asked for and the cap. -/
theorem armsBackoff_bounds {x : State ι cap} {l : Label ι} {t d : ℕ}
    (hok : BackoffOk initialMs maxMs x.world.exp) (hinitial : 0 < initialMs) (hmax : 0 < maxMs)
    (harms : ArmsBackoff x l t d) :
    d ≤ maxMs ∧ ∀ o, requestEnds x l = some o → Throttled o.status → min o.retryAfterMs maxMs ≤ d := by
  obtain ⟨o, hends, rfl, -⟩ := armsBackoff_eq hok.nullTransport_eq harms
  simp only [OtlpExporter.delay, OtlpExporter.backoff, hok.initialMs_eq, hok.maxMs_eq]
  refine ⟨Retry.otlpRetryDelayMs_le _ _ _ _, fun o' hends' hthrottled => ?_⟩
  obtain rfl : o = o' := Option.some.inj (hends.symm.trans hends')
  have hzero : o.status ≠ 0 := by
    unfold Throttled at hthrottled
    omega
  rw [HttpOutcome.floorMs, if_neg hzero]
  have hle := @Retry.le_otlpRetryDelayMs { initialMs, maxMs } hinitial hmax
  exact hle _ _ _

/-- **Backoff is honoured for every signal.** In every run with a monotone clock on the real transport,
once a backoff of `d` milliseconds has been armed at `t` no POST is started before `t + d`; and the delay is
at most `backoff_max_ms` and at least what the server asked for, up to that cap. -/
theorem backoffHonoured_of_run {opts : OtlpExporterOpts} (hmax : opts.backoffMaxMs < 2 ^ 32)
    {env : CreateEnv} {fn : Bool} {e : OtlpExporter ι (normalizeOpts opts).queueCapacity}
    (hcreate : otlpExporterCreate ι opts env = some e) {ls : List (Label ι)} (hclock : MonotoneClock ls) :
    Steps.Later step (fun x l y k => ∀ t d, ArmsBackoff x l t d → ∀ now, StartsPost y k now → t + d ≤ now)
        (State.init e false fn) ls ∧
      Steps.Along step (fun x l => ∀ t d, ArmsBackoff x l t d →
        d ≤ (normalizeOpts opts).backoffMaxMs ∧ ∀ o, requestEnds x l = some o → Throttled o.status →
          min o.retryAfterMs (normalizeOpts opts).backoffMaxMs ≤ d) (State.init e false fn) ls := by
  obtain ⟨hpos, hlt⟩ : 0 < (normalizeOpts opts).backoffMaxMs ∧
      (normalizeOpts opts).backoffMaxMs < 2 ^ 32 := by
    simp only [normalizeOpts, orDefault]
    split <;> omega
  have hinitial : 0 < (normalizeOpts opts).backoffInitialMs := by
    simp only [normalizeOpts, orDefault]
    split <;> omega
  have hinit := backoffOk_init hcreate fn
  constructor
  · refine Steps.later_invariant (I := fun x => BackoffOk _ _ x.world.exp) (L := MonotoneClock)
      (fun l ls h => h.tail) (fun x l y hok h => step_backoffOk hok h) ?_ hinit hclock
    intro x l ls y hok hread h
    exact Steps.along_forall fun t => Steps.along_forall fun d => Steps.along_forall fun harms =>
      armsBackoff_waits hok hlt h hread harms
  · refine Steps.along_of_invariant (P := fun x => BackoffOk _ _ x.world.exp)
      (fun x l y hok h => step_backoffOk hok h) ?_ ls hinit
    intro x l hok t d harms
    exact armsBackoff_bounds hok hinitial hpos harms

/-- A span is posted and answered with a 503, and posted again when the backoff has passed. -/
def retriedRun : List (Label ℕ) :=
  [.emitMove .span (some 1)] ++ tickRound 11 0 (.fine 0 []) ++
    tickRound 8 0 (.fine 0 (emptyResponse 503)) ++ tickRound 8 1 (.fine 0 []) ++
    tickRound 8 100000 (.fine 0 [])

theorem retriedRun_clock : MonotoneClock retriedRun := by
  refine ⟨by decide +kernel, fun now hmem => ?_⟩
  have hread : ∀ now ∈ retriedRun.filterMap Label.clock, now = 0 ∨ now = 1 ∨ now = 100000 := by
    decide +kernel
  rcases hread now hmem with rfl | rfl | rfl
  · exact ⟨none, rfl⟩
  · exact ⟨some 1000000, by decide⟩
  · exact ⟨some 100000000000, by decide⟩

theorem backoffHonoured_of_run_503 :
    ∃ e, otlpExporterCreate ℕ (plainOpts 1 1) .fine = some e ∧
      (∃ y, Steps.run step (State.init e false false) retriedRun = some y ∧
        y.world.history.countP (fun ob => ob matches .posted ..) = 2) ∧
      Steps.Later step (fun x l y k => ∀ t d, ArmsBackoff x l t d → ∀ now, StartsPost y k now → t + d ≤ now)
        (State.init e false false) retriedRun := by
  have htwo : (runFrom (plainOpts 1 1) retriedRun).map
      (fun y => y.world.history.countP fun ob => ob matches .posted ..) = some 2 := by decide +kernel
  obtain ⟨y, hy, hposted⟩ := Option.map_eq_some_iff.1 htwo
  obtain ⟨e, hcreate, hrun⟩ := runFrom_eq_some hy
  exact ⟨e, hcreate, ⟨y, hrun, hposted⟩,
    (backoffHonoured_of_run (by decide) hcreate retriedRun_clock).1⟩

end OtlpC.Exporter
