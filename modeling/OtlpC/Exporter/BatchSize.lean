import OtlpC.Exporter.Invariants

/-!
# The size of a batch

A POST carries what its signal has pending when it starts. A signal starts one as soon as `batch_size` items are
pending, unless a request is in flight or a retry is waited for, and then its pending array takes items up to twice
that number. A tick drains before it starts anything, so that what counts is what waits before it, pending or queued.
-/

namespace OtlpC.Exporter

open Http

variable {ι : Type*} {cap : ℕ}

def BatchesAtMost (n : ℕ) (w : World ι cap) : Prop :=
  ∀ s items sock, .posted s items sock ∈ w.history → items.length ≤ n

def DrainsToBatch (x : State ι cap) (l : Label ι) : Prop :=
  ∀ s ∈ drains x l, (x.world.exp.sig s).pending.length < x.world.exp.batchSize

def StartsBatch (x : State ι cap) (l : Label ι) : Prop :=
  ∀ a ∈ startAttempt x l, buildFails x.world a.1 a.2 = false →
    (x.world.exp.sig a.1).pending.length ≤ x.world.exp.batchSize

instance (x : State ι cap) (l : Label ι) : Decidable (DrainsToBatch x l) :=
  inferInstanceAs (Decidable (∀ s ∈ drains x l, _))

def OtlpExporter.waiting (e : OtlpExporter ι cap) (s : Signal) : ℕ :=
  (e.sig s).pending.length + (e.sig s).queue.items.length

def InRound (x : State ι cap) (_ : Label ι) : Prop := ∀ f, x.phase = .tick f → f.pc ≠ .loop

/-- A tick is at the beginning of a round in `x`, and has got to `z` in it, with no call of another thread between. -/
def Round (x z : State ι cap) : Prop :=
  (∃ f, x.phase = .tick f ∧ f.pc = .drain .span) ∧ ∃ envs : List TickEnv,
    Steps.run step x (envs.map .tickStep) = some z ∧ Steps.Along step InRound x (envs.map .tickStep)

/-! ### One step -/

theorem NoCall.startsBatch {x : State ι cap} {l : Label ι} (h : NoCall x l) : StartsBatch x l := by
  intro a ha
  rw [h.startAttempt_eq] at ha
  contradiction

theorem startsBatch_of_requestEnds {x : State ι cap} {l : Label ι} {o : HttpOutcome}
    (h : requestEnds x l = some o) : StartsBatch x l := by
  intro a ha
  rw [startAttempt_of_requestEnds h] at ha
  contradiction

/-- What a step does to the POSTs: none, or one of what its signal has pending. -/
inductive PostStep (x : State ι cap) (l : Label ι) (w : World ι cap) : Prop where
  | same (hposted : ∀ s items sock, .posted s items sock ∈ w.history → .posted s items sock ∈ x.world.history)
      (hstarts : StartsBatch x l)
  | started (s : Signal) (env : BuildEnv) (k : Sock) (hattempt : startAttempt x l = some (s, env))
      (hstarts : buildFails x.world s env = false)
      (hposted : w.history = x.world.history ++
        [.encoded s (x.world.exp.sig s).pending, .posted s (x.world.exp.sig s).pending (some k)])

theorem recordOutcome_posted (w : World ι cap) (o : HttpOutcome) (now : ℕ) (s : Signal) (items : List ι)
    (sock : Option Sock) (h : .posted s items sock ∈ (recordOutcome w o now).history) :
    .posted s items sock ∈ w.history := by
  cases hretry : retries w.exp o.status with
  | true =>
    obtain ⟨t, ev, heq, -⟩ := recordOutcome_retry now hretry
    rw [heq] at h
    exact posted_append (by simp) s items sock h
  | false =>
    obtain ⟨t, rejected, more, -, heq⟩ := recordOutcome_final now hretry
    rw [heq] at h
    exact posted_append (by simp [endedObs]) s items sock h

theorem Effect.postStep {x : State ι cap} {l : Label ι} {w : World ι cap} (h : Effect x l w) : PostStep x l w := by
  cases h with
  | quiet hcall | shutdown hcall | drained hcall | disarmed hcall | progressed hcall =>
    exact .same (fun _ _ _ h => h) hcall.startsBatch
  | refused hcall | accepted hcall | flushed hcall => exact .same (posted_append (by simp)) hcall.startsBatch
  | startFailed s env net obs hattempt hfails hidle hnet hobs =>
    refine .same (posted_append ?_) ?_
    · rcases hobs with rfl | rfl <;> simp
    · intro a ha hstarts
      rw [hattempt, Option.mem_some_iff] at ha
      rw [← ha, hfails] at hstarts
      contradiction
  | started s env net r k hattempt hstarts => exact .started s env k hattempt hstarts rfl
  | answeredRetry r o net kept t ev hflight hends =>
    exact .same (posted_append (by simp)) (startsBatch_of_requestEnds hends)
  | answeredFinal r o net kept t rejected more hflight hends =>
    exact .same (posted_append (by simp [endedObs])) (startsBatch_of_requestEnds hends)
  | nullOutcome hcall s status now =>
    exact .same (recordOutcome_posted (nullPosted x.world s) _ now) hcall.startsBatch
  | freed hcall =>
    refine .same ?_ hcall.startsBatch
    rw [otlpExporterFree_history]
    exact posted_append (by simp [heldObs])

/-- **A step keeps the bound** exactly when it starts no POST of more than a batch. -/
theorem step_batchesAtMost {x y : State ι cap} {l : Label ι} (h : step x l = some y) :
    BatchesAtMost x.world.exp.batchSize y.world ↔ BatchesAtMost x.world.exp.batchSize x.world ∧ StartsBatch x l := by
  have hpast := (step_effect h).history_isPrefix
  cases (step_effect h).postStep with
  | same hposted hstarts =>
    rw [and_iff_left hstarts]
    exact ⟨fun hall s items sock hmem => hall s items sock (hpast.subset hmem),
      fun hall s items sock hmem => hall s items sock (hposted s items sock hmem)⟩
  | started s env k hattempt hstarts hposted =>
    have hstart : StartsBatch x l ↔ (x.world.exp.sig s).pending.length ≤ x.world.exp.batchSize := by
      simp [StartsBatch, hattempt, hstarts]
    rw [hstart]
    constructor
    · intro hall
      refine ⟨fun t items sock hmem => hall t items sock (hpast.subset hmem), hall s _ (some k) ?_⟩
      rw [hposted]
      simp
    · rintro ⟨hall, hle⟩ t items sock hmem
      rw [hposted] at hmem
      simp only [List.mem_append, List.mem_cons, reduceCtorEq, false_or, List.not_mem_nil, or_false,
        Obs.posted.injEq] at hmem
      rcases hmem with hmem | ⟨rfl, rfl, rfl⟩
      · exact hall t items sock hmem
      · exact hle

theorem ended_pending_kept (e : OtlpExporter ι cap) (status : ℤ) (rejected : ℕ) (s : Signal) :
    ((e.ended status rejected).sig s).pending = (e.sig s).pending ∨ ((e.ended status rejected).sig s).pending = [] := by
  by_cases hs : s = e.inFlightSignal
  · subst hs
    exact .inr (ended_pending ..)
  · rw [ended_sig_of_ne e status rejected hs]
    exact .inl rfl

theorem ended_pending_le (e : OtlpExporter ι cap) (status : ℤ) (rejected : ℕ) (s : Signal) :
    ((e.ended status rejected).sig s).pending.length ≤ (e.sig s).pending.length := by
  rcases ended_pending_kept e status rejected s with heq | hnil
  · exact (congrArg List.length heq).le
  · rw [hnil]
    exact Nat.zero_le _

theorem recordOutcome_pending (w : World ι cap) (o : HttpOutcome) (now : ℕ) (s : Signal) :
    ((recordOutcome w o now).exp.sig s).pending.length ≤ (w.exp.sig s).pending.length := by
  cases hretry : retries w.exp o.status with
  | true =>
    obtain ⟨t, ev, heq, -⟩ := recordOutcome_retry now hretry
    rw [heq]
    exact le_rfl
  | false =>
    obtain ⟨t, rejected, more, -, heq⟩ := recordOutcome_final now hretry
    rw [heq]
    exact ended_pending_le w.exp o.status rejected s

theorem Effect.pending_le {x : State ι cap} {l : Label ι} {w : World ι cap} (h : Effect x l w) (s : Signal) :
    (w.exp.sig s).pending.length ≤ (x.world.exp.sig s).pending.length ∨
      drains x l = some s ∧ (w.exp.sig s).pending.length = (x.world.exp.sig s).pending.length + 1 := by
  cases h with
  | quiet | shutdown | disarmed | progressed | startFailed | answeredRetry => exact .inl le_rfl
  | refused | accepted | started | flushed =>
    refine .inl (Eq.le ?_)
    exact proj_update_same (·.pending.length) _ _ s rfl
  | drained hcall t item queue firstMono hpop hdrains =>
    by_cases hts : s = t
    · subst hts
      exact .inr ⟨hdrains, by simp⟩
    · refine .inl (Eq.le ?_)
      exact congrArg (·.pending.length) (Function.update_of_ne hts _ x.world.exp.sig)
  | answeredFinal r o net kept t rejected => exact .inl (ended_pending_le x.world.exp o.status rejected s)
  | nullOutcome hcall t status now => exact .inl (recordOutcome_pending (nullPosted x.world t) _ now s)
  | freed =>
    rw [otlpExporterFree_sig]
    exact .inl (Nat.zero_le _)

theorem recordOutcome_pendingCap (w : World ι cap) (o : HttpOutcome) (now : ℕ) (s : Signal) :
    ((recordOutcome w o now).exp.sig s).pendingCap = (w.exp.sig s).pendingCap := by
  cases hretry : retries w.exp o.status with
  | true =>
    obtain ⟨t, ev, heq, -⟩ := recordOutcome_retry now hretry
    rw [heq]
    rfl
  | false =>
    obtain ⟨t, rejected, more, -, heq⟩ := recordOutcome_final now hretry
    rw [heq]
    exact proj_update_same (·.pendingCap) _ _ _ rfl

theorem step_pendingCap {x y : State ι cap} {l : Label ι} (h : step x l = some y) (s : Signal) :
    (y.world.exp.sig s).pendingCap = (x.world.exp.sig s).pendingCap := by
  have heffect := step_effect h
  generalize y.world = w at heffect ⊢
  cases heffect with
  | quiet | disarmed | startFailed | progressed | answeredRetry | shutdown => rfl
  | refused | accepted | drained | started | answeredFinal | flushed => exact proj_update_same (·.pendingCap) _ _ _ rfl
  | nullOutcome hcall t status now hnull => exact recordOutcome_pendingCap (nullPosted x.world t) _ now s
  | freed => rw [otlpExporterFree_sig]

/-! ### A round of a tick -/

theorem recordOutcome_pending_kept (w : World ι cap) (o : HttpOutcome) (now : ℕ) (s : Signal) :
    ((recordOutcome w o now).exp.sig s).pending = (w.exp.sig s).pending ∨
      ((recordOutcome w o now).exp.sig s).pending = [] := by
  cases hretry : retries w.exp o.status with
  | true =>
    obtain ⟨t, ev, heq, -⟩ := recordOutcome_retry now hretry
    rw [heq]
    exact .inl rfl
  | false =>
    obtain ⟨t, rejected, more, -, heq⟩ := recordOutcome_final now hretry
    rw [heq]
    exact ended_pending_kept w.exp o.status rejected s

theorem Effect.pending_kept {x : State ι cap} {l : Label ι} {w : World ι cap} (h : Effect x l w)
    (hdrains : drains x l = none) (s : Signal) :
    (w.exp.sig s).pending = (x.world.exp.sig s).pending ∨ (w.exp.sig s).pending = [] := by
  cases h with
  | quiet | shutdown | disarmed | progressed | startFailed | answeredRetry => exact .inl rfl
  | refused | accepted | started | flushed => exact .inl (proj_update_same (·.pending) _ _ s rfl)
  | drained hcall t item queue firstMono hpop hdrain =>
    rw [hdrains] at hdrain
    cases hdrain
  | answeredFinal r o net kept t rejected => exact ended_pending_kept x.world.exp o.status rejected s
  | nullOutcome hcall t status now => exact recordOutcome_pending_kept (nullPosted x.world t) _ now s
  | freed =>
    rw [otlpExporterFree_sig]
    exact .inr rfl

/-- What a drained item does to the signals. -/
theorem drainOne_eq_some {w w' : World ι cap} {s : Signal} {now : ℕ} (h : drainOne w s now = some w') :
    (w.exp.sig s).pending.length < (w.exp.sig s).pendingCap ∧ w'.exp.waiting s = w.exp.waiting s ∧
      (w'.exp.sig s).pending.length = (w.exp.sig s).pending.length + 1 ∧ ∀ t ≠ s, w'.exp.sig t = w.exp.sig t := by
  unfold drainOne at h
  split at h
  · next hlt =>
    split at h
    · contradiction
    · next item queue hpop =>
      rw [Option.some.injEq] at h
      subst h
      have hitems := congrArg List.length (BoundedFifo.pop_eq_some hpop)
      rw [List.length_cons] at hitems
      refine ⟨hlt, ?_, ?_, fun t ht => Function.update_of_ne ht ..⟩
      · simp only [OtlpExporter.waiting, modSig_exp, Function.update_self, List.length_append, List.length_singleton]
        omega
      · simp only [modSig_exp, Function.update_self, List.length_append, List.length_singleton]
  · contradiction

/-- Where nothing is drained, the array is full or the queue is empty. -/
theorem pending_of_drainOne_none {w : World ι cap} {s : Signal} {now : ℕ} (h : drainOne w s now = none)
    (hfits : (w.exp.sig s).pending.length ≤ (w.exp.sig s).pendingCap) :
    (w.exp.sig s).pending.length = min (w.exp.waiting s) (w.exp.sig s).pendingCap := by
  unfold drainOne at h
  rw [OtlpExporter.waiting]
  split at h
  · split at h
    · next hpop =>
      rw [BoundedFifo.pop_eq_none.1 hpop, List.length_nil]
      omega
    · contradiction
  · omega

def PendingFits (x : State ι cap) : Prop :=
  ∀ s, (x.world.exp.sig s).pending.length ≤ (x.world.exp.sig s).pendingCap

theorem step_pendingFits {x y : State ι cap} {l : Label ι} (hfits : PendingFits x) (h : step x l = some y) :
    PendingFits y := by
  intro s
  rw [step_pendingCap h]
  rcases (step_effect h).pending_le s with hle | ⟨hdrains, heq⟩
  · exact hle.trans (hfits s)
  · rw [heq]
    unfold drains at hdrains
    split at hdrains
    · split at hdrains
      · split at hdrains
        · obtain ⟨hsome, hsame⟩ := Option.ite_none_right_eq_some.1 hdrains
          obtain ⟨w', hw'⟩ := Option.isSome_iff_exists.1 hsome
          rw [Option.some.inj hsame] at hw'
          exact (drainOne_eq_some hw').1
        · contradiction
      · contradiction
    · contradiction

def Signal.place : Signal → ℕ
  | .span => 0
  | .metric => 1
  | .log => 2

/-- Part 1 is done with the signal. -/
def Pc.past (s : Signal) : Pc → Prop
  | .drain t => s.place < t.place
  | _ => True

/-- The signal has pending what waited in `e`, as much as fits, or has been cleared since. -/
def Taken (e e' : OtlpExporter ι cap) (s : Signal) : Prop :=
  (e'.sig s).pending = [] ∨ (e'.sig s).pending.length = min (e.waiting s) (e.sig s).pendingCap

/-- Where a round stands that began with the exporter `e`. -/
structure RoundOk (e : OtlpExporter ι cap) (x : State ι cap) : Prop where
  fits : PendingFits x
  cap_eq : ∀ s, (x.world.exp.sig s).pendingCap = (e.sig s).pendingCap
  taken : ∀ f s, x.phase = .tick f → f.pc.past s → Taken e x.world.exp s
  waiting : ∀ f s, x.phase = .tick f → ¬f.pc.past s → x.world.exp.waiting s = e.waiting s

theorem past_drainNext {s t : Signal} : (drainNext t).past s ↔ (Pc.drain t).past s ∨ s = t := by
  cases s <;> cases t <;> simp [drainNext, Signal.next, Pc.past, Signal.place]

/-- A tick that has left part 1 does not return to it in the same round. -/
theorem past_tickStep {w : World ι cap} {f f' : Frame} {env : TickEnv} (hpast : ∀ t, f.pc ≠ .drain t)
    (hround : f.pc ≠ .loop) (h : (tickStep w f env).phase = .tick f') (s : Signal) : f'.pc.past s := by
  obtain ⟨deadline, workDone, pc⟩ := f
  cases pc with
  | drain t => exact absurd rfl (hpast t)
  | loop => exact absurd rfl hround
  | nullTransport =>
    rw [tickStep] at h
    dsimp only at h
    split at h
    · split at h <;> cases h <;> trivial
    · cases h
      trivial
  | beginStart =>
    rw [tickStep] at h
    dsimp only at h
    split at h <;> cases h <;> trivial
  | start t shutdown nowMs =>
    have hnext : (startNext t shutdown nowMs).past s := by cases t <;> trivial
    rw [tickStep] at h
    dsimp only at h
    split at h
    · cases h
      trivial
    · split at h <;> cases h <;> exact hnext
  | stepInFlight | backoffRetry =>
    cases h
    trivial

theorem drainStep_roundOk {e : OtlpExporter ι cap} {x : State ι cap} {f : Frame} {env : TickEnv} {t : Signal}
    (h : RoundOk e x) (hphase : x.phase = .tick f) (hpc : f.pc = .drain t)
    (hfits : PendingFits (tickStep x.world f env))
    (hcap : ∀ s, ((tickStep x.world f env).world.exp.sig s).pendingCap = (e.sig s).pendingCap) :
    RoundOk e (tickStep x.world f env) := by
  obtain ⟨deadline, workDone, pc⟩ := f
  obtain rfl : pc = .drain t := hpc
  have htaken := fun s => h.taken _ s hphase
  have hwaiting := fun s => h.waiting _ s hphase
  refine ⟨hfits, hcap, ?_, ?_⟩ <;> clear hfits hcap <;> rw [tickStep] <;> dsimp only <;> intro f' s
  · cases hdrain : drainOne x.world t env.now with
    | some w =>
      rintro ⟨⟩ hpast
      have hapart : s ≠ t := by
        rintro rfl
        exact lt_irrefl _ hpast
      obtain ⟨-, -, -, hothers⟩ := drainOne_eq_some hdrain
      show Taken e w.exp s
      rw [Taken, hothers s hapart]
      exact htaken s hpast
    | none =>
      rintro ⟨⟩ hpast
      rcases past_drainNext.1 hpast with hbefore | rfl
      · exact htaken s hbefore
      · right
        rw [← h.cap_eq, ← hwaiting s (lt_irrefl _)]
        exact pending_of_drainOne_none hdrain (h.fits s)
  · cases hdrain : drainOne x.world t env.now with
    | some w =>
      rintro ⟨⟩ hpast
      obtain ⟨-, hsame, -, hothers⟩ := drainOne_eq_some hdrain
      rw [← hwaiting s hpast]
      by_cases hst : s = t
      · rw [hst]
        exact hsame
      · show w.exp.waiting s = x.world.exp.waiting s
        rw [OtlpExporter.waiting, hothers s hst, OtlpExporter.waiting]
    | none =>
      rintro ⟨⟩ hpast
      exact hwaiting s fun hbefore => hpast (past_drainNext.2 (.inl hbefore))

/-- **A step of a round**: part 1 takes what waits, and what comes behind it keeps that or clears it. -/
theorem step_roundOk {e : OtlpExporter ι cap} {x y : State ι cap} {env : TickEnv} (h : RoundOk e x)
    (hround : InRound x (.tickStep env)) (hstep : step x (.tickStep env) = some y) : RoundOk e y := by
  have hcap := fun s => (step_pendingCap hstep s).trans (h.cap_eq s)
  have hfits := step_pendingFits h.fits hstep
  have hkept := (step_effect hstep).pending_kept
  cases stepped hstep with
  | tickStep f env hphase =>
  by_cases hdrain : ∃ t, f.pc = .drain t
  · obtain ⟨t, hpc⟩ := hdrain
    exact drainStep_roundOk h hphase hpc hfits hcap
  · have hpast : ∀ t, f.pc ≠ .drain t := fun t hpc => hdrain ⟨t, hpc⟩
    have hall : ∀ s, f.pc.past s := by
      intro s
      cases hpc : f.pc with
      | drain t => exact absurd hpc (hpast t)
      | _ => trivial
    have hnone : drains x (.tickStep env) = none := by
      unfold drains
      rw [hphase]
      dsimp only
      split
      · next t hpc => exact absurd hpc (hpast t)
      · rfl
    have hafter : ∀ f', (tickStep x.world f env).phase = .tick f' → ∀ s, f'.pc.past s := fun f' hf' =>
      past_tickStep hpast (hround f hphase) hf'
    refine ⟨hfits, hcap, fun f' s hf' _ => ?_, fun f' s hf' hnot => absurd (hafter f' hf' s) hnot⟩
    rcases hkept hnone s with hsame | hnil
    · rw [Taken, hsame]
      exact h.taken f s hphase (hall s)
    · exact .inl hnil

theorem RoundOk.start {x : State ι cap} {f : Frame} (hfits : PendingFits x) (hphase : x.phase = .tick f)
    (hpc : f.pc = .drain .span) : RoundOk x.world.exp x := by
  refine ⟨hfits, fun s => rfl, fun f' s hf' hpast => ?_, fun _ _ _ _ => rfl⟩
  rw [hphase] at hf'
  cases hf'
  rw [hpc] at hpast
  exact absurd hpast (Nat.not_lt_zero _)

/-- A POST is only attempted behind part 1, and with items. -/
theorem past_of_startAttempt {x : State ι cap} {l : Label ι} {a : Signal × BuildEnv} (h : startAttempt x l = some a) :
    (∃ f, x.phase = .tick f ∧ f.pc.past a.1) ∧ (x.world.exp.sig a.1).pending ≠ [] := by
  unfold startAttempt at h
  split at h
  · split at h
    · next f hphase =>
      split at h
      · next s shutdown nowMs hpc =>
        obtain ⟨hready, ha⟩ := Option.ite_none_right_eq_some.1 h
        obtain rfl := Option.some.inj ha
        simp only [Bool.and_eq_true, Bool.not_eq_true', List.isEmpty_eq_false_iff] at hready
        refine ⟨⟨f, hphase, ?_⟩, hready.2⟩
        rw [hpc]
        trivial
      · next hpc =>
        obtain ⟨hready, ha⟩ := Option.ite_none_right_eq_some.1 h
        obtain rfl := Option.some.inj ha
        simp only [Bool.and_eq_true, Bool.not_eq_true', List.isEmpty_eq_false_iff] at hready
        refine ⟨⟨f, hphase, ?_⟩, hready.2⟩
        rw [hpc]
        trivial
      · contradiction
    · contradiction
  · contradiction

/-- **What a POST of a round carries**: what waited of its signal at the beginning, as much as fits. -/
theorem pending_of_round {x z : State ι cap} {l : Label ι} {a : Signal × BuildEnv} (hfits : PendingFits x)
    (h : Round x z) (hattempt : startAttempt z l = some a) :
    (z.world.exp.sig a.1).pending.length = min (x.world.exp.waiting a.1) (x.world.exp.sig a.1).pendingCap := by
  obtain ⟨⟨f, hphase, hpc⟩, envs, hrun, hround⟩ := h
  have hok : RoundOk x.world.exp z := by
    have hticks : Steps.Along step (fun _ l => ∃ env, l = .tickStep env) x (envs.map .tickStep) := by
      refine Steps.along_of_forall_mem fun l hl => ?_
      obtain ⟨env, -, rfl⟩ := List.mem_map.1 hl
      exact ⟨env, rfl⟩
    refine Steps.along_invariant (fun u l v hok hC hstep => ?_) (RoundOk.start hfits hphase hpc)
      (hround.and hticks) hrun
    obtain ⟨hin, env, rfl⟩ := hC
    exact step_roundOk hok hin hstep
  obtain ⟨⟨f', hphase', hpast⟩, hne⟩ := past_of_startAttempt hattempt
  exact (hok.taken f' a.1 hphase' hpast).resolve_left hne

theorem startsBatch_of_round {x z : State ι cap} {l : Label ι} (hfits : PendingFits x)
    (hcap : ∀ s, (x.world.exp.sig s).pendingCap = x.world.exp.batchSize * 2) (h : Round x z) :
    StartsBatch z l ↔ ∀ a ∈ startAttempt z l, buildFails z.world a.1 a.2 = false →
      x.world.exp.waiting a.1 ≤ x.world.exp.batchSize := by
  have hsize : z.world.exp.batchSize = x.world.exp.batchSize := by
    obtain ⟨-, envs, hrun, -⟩ := h
    exact Steps.run_invariant (P := fun u : State ι cap => u.world.exp.batchSize = x.world.exp.batchSize)
      (fun u l v hu hstep => (step_config hstep).batchSize_eq.trans hu) rfl hrun
  refine forall₃_congr fun a hattempt _ => ?_
  have hpending := pending_of_round hfits h hattempt
  have hsome := List.length_pos_iff.2 (past_of_startAttempt hattempt).2
  have hfull := hcap a.1
  omega

/-! ### Runs -/

/-- No signal has more than a batch pending, and no POST carried more. -/
structure BatchOk (n : ℕ) (w : World ι cap) : Prop where
  batchSize_eq : w.exp.batchSize = n
  pending_le : ∀ s, (w.exp.sig s).pending.length ≤ n
  batchesAtMost : BatchesAtMost n w

theorem step_batchOk {n : ℕ} {x y : State ι cap} {l : Label ι} (hok : BatchOk n x.world) (hdrains : DrainsToBatch x l)
    (h : step x l = some y) : BatchOk n y.world := by
  obtain rfl := hok.batchSize_eq
  have hstarts : StartsBatch x l := fun a _ _ => hok.pending_le a.1
  refine ⟨(step_config h).batchSize_eq, fun s => ?_, (step_batchesAtMost h).2 ⟨hok.batchesAtMost, hstarts⟩⟩
  rcases (step_effect h).pending_le s with hle | ⟨hdrain, heq⟩
  · exact hle.trans (hok.pending_le s)
  · rw [heq]
    exact hdrains s hdrain

theorem batchSize_of_create {opts : OtlpExporterOpts} {env : CreateEnv}
    {e : OtlpExporter ι (normalizeOpts opts).queueCapacity} (h : otlpExporterCreate ι opts env = some e) :
    e.batchSize = (normalizeOpts opts).batchSize := by
  unfold otlpExporterCreate createNormalized at h
  grind

theorem Fresh.batchOk {e : OtlpExporter ι cap} (h : Fresh e) (nullTransport fn : Bool) :
    BatchOk e.batchSize (State.init e nullTransport fn).world := by
  refine ⟨rfl, fun s => ?_, by simp [BatchesAtMost, State.init]⟩
  have hpending : ((State.init e nullTransport fn).world.exp.sig s).pending = [] := h.pending_eq s
  rw [hpending]
  exact Nat.zero_le _

theorem Fresh.pendingFits {e : OtlpExporter ι cap} (h : Fresh e) (nullTransport fn : Bool) :
    PendingFits (State.init e nullTransport fn) := by
  intro s
  show (e.sig s).pending.length ≤ (e.sig s).pendingCap
  rw [h.pending_eq]
  exact Nat.zero_le _

theorem pendingCap_of_run {opts : OtlpExporterOpts} {env : CreateEnv} {nullTransport fn : Bool}
    {e : OtlpExporter ι (normalizeOpts opts).queueCapacity} (hcreate : otlpExporterCreate ι opts env = some e)
    {ls : List (Label ι)} {y : State ι _} (hrun : Steps.run step (State.init e nullTransport fn) ls = some y)
    (s : Signal) : (y.world.exp.sig s).pendingCap = (normalizeOpts opts).batchSize * 2 := by
  have hcreated : (e.sig s).pendingCap = (normalizeOpts opts).batchSize * 2 := by
    rw [(fresh_of_create hcreate).sig_eq, ← batchSize_of_create hcreate]
    rfl
  exact Steps.run_invariant (P := fun x : State ι _ => (x.world.exp.sig s).pendingCap = _)
    (fun x l y hx h => (step_pendingCap h s).trans hx) hcreated hrun

/-- **A POST carries at most a batch** in every run that drains no item of a signal that has a whole batch pending,
and in any run exactly when no POST is started for a signal that has more than that pending. In a round of a tick
that is what waits of the signal, pending or queued, before the round. -/
theorem batchesAtMost_of_run {opts : OtlpExporterOpts} {env : CreateEnv} {nullTransport fn : Bool}
    {e : OtlpExporter ι (normalizeOpts opts).queueCapacity}
    (hcreate : otlpExporterCreate ι opts env = some e) {ls : List (Label ι)} {y : State ι _}
    (hrun : Steps.run step (State.init e nullTransport fn) ls = some y) :
    (Steps.Along step DrainsToBatch (State.init e nullTransport fn) ls →
      BatchesAtMost (normalizeOpts opts).batchSize y.world) ∧
    (BatchesAtMost (normalizeOpts opts).batchSize y.world ↔
      Steps.Along step StartsBatch (State.init e nullTransport fn) ls) ∧
    ∀ z, Round y z → ∀ l, StartsBatch z l ↔ ∀ a ∈ startAttempt z l, buildFails z.world a.1 a.2 = false →
      y.world.exp.waiting a.1 ≤ (normalizeOpts opts).batchSize := by
  have hfresh := fresh_of_create hcreate
  have hinit := hfresh.batchOk nullTransport fn
  have hcap := pendingCap_of_run hcreate hrun
  rw [← batchSize_of_create hcreate] at hcap ⊢
  have hsize : y.world.exp.batchSize = e.batchSize :=
    Steps.run_invariant (P := fun x : State ι _ => x.world.exp.batchSize = e.batchSize)
      (fun x l y hx h => (step_config h).batchSize_eq.trans hx) rfl hrun
  refine ⟨fun hdrains => ?_, ?_, fun z hround l => ?_⟩
  · exact (Steps.along_invariant (P := fun x => BatchOk e.batchSize x.world)
      (fun x l y hok hC h => step_batchOk hok hC h) hinit hdrains hrun).batchesAtMost
  · refine Steps.along_iff (P := fun x => BatchesAtMost e.batchSize x.world)
      (I := fun x => x.world.exp.batchSize = e.batchSize) (L := fun _ => True)
      (fun x l y hsize h => (step_config h).batchSize_eq.trans hsize) (fun x l y hsize _ h => ?_) rfl
      hinit.batchesAtMost (fun _ _ => trivial) hrun
    rw [← hsize]
    exact step_batchesAtMost h
  · have hfits : PendingFits y :=
      Steps.run_invariant (fun x l y hx h => step_pendingFits hx h) (hfresh.pendingFits nullTransport fn) hrun
    rw [← hsize] at hcap ⊢
    exact startsBatch_of_round hfits hcap hround

def oneSpanRun : List (Label ℕ) := [.emitMove .span (some 1)] ++ tickRound 11 0 (.fine 0 [])

def twoSpansRun : List (Label ℕ) :=
  [.emitMove .span (some 1), .emitMove .span (some 2)] ++ tickRound 12 0 (.fine 0 [])

theorem batchesAtMost_of_run_one_span :
    ∃ y : State ℕ _, runFrom (plainOpts 1 1) oneSpanRun = some y ∧
      .posted .span [1] (some 0) ∈ y.world.history ∧ BatchesAtMost 1 y.world := by
  have hrun : (runFrom (plainOpts 1 1) oneSpanRun).map (fun y =>
      decide (.posted .span [1] (some 0) ∈ y.world.history)) = some true := by decide +kernel
  obtain ⟨y, hy, hposted⟩ := Option.map_eq_some_iff.1 hrun
  obtain ⟨e, hcreate, hrun⟩ := runFrom_eq_some hy
  have hdrains : ∀ e ∈ otlpExporterCreate ℕ (plainOpts 1 1) .fine,
      Steps.Along step DrainsToBatch (State.init e false false) oneSpanRun := by decide +kernel
  exact ⟨y, hy, of_decide_eq_true hposted, (batchesAtMost_of_run hcreate hrun).1 (hdrains e hcreate)⟩

/-- Both spans are drained, and one POST carries them. -/
theorem two_spans_in_batch_of_one :
    ∃ y : State ℕ _, runFrom (plainOpts 1 1) twoSpansRun = some y ∧ (normalizeOpts (plainOpts 1 1)).batchSize = 1 ∧
      .posted .span [1, 2] (some 0) ∈ y.world.history ∧ ¬BatchesAtMost 1 y.world := by
  have hrun : (runFrom (plainOpts 1 1) twoSpansRun).map (fun y =>
      decide (.posted .span [1, 2] (some 0) ∈ y.world.history)) = some true := by decide +kernel
  obtain ⟨y, hy, hposted⟩ := Option.map_eq_some_iff.1 hrun
  refine ⟨y, hy, rfl, of_decide_eq_true hposted, fun hall => ?_⟩
  exact absurd (hall .span [1, 2] _ (of_decide_eq_true hposted)) (by decide)

end OtlpC.Exporter
