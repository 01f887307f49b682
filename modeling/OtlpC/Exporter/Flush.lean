import OtlpC.Exporter.BatchSize
import OtlpC.Exporter.Delivery

/-!
# The flush of the exporter

`otlp_exporter_flush` calls `otlp_exporter_tick` until nothing is pending, queued or in flight or its deadline has
passed, and looks a second time for its status. Other threads go on meanwhile: each look at a counter or at a queue
is one step, and calls of `otlp_exporter_emit*` and `otlp_exporter_shutdown` may come between any two of them.
-/

namespace OtlpC.Exporter

variable {ι : Type*} {cap : ℕ}

/-! ### The function -/

/-- What the two conditions look at. -/
inductive Operand where
  | pending (s : Signal)
  | inFlight
  | queued (s : Signal)
deriving Repr, DecidableEq

def Operand.holds (e : OtlpExporter ι cap) : Operand → Bool
  | .pending s => decide (0 < (e.sig s).pending.length)
  | .inFlight => e.inFlight.isSome
  | .queued s => decide (0 < (e.sig s).queue.size)

@[simp] theorem holds_pending {e : OtlpExporter ι cap} {s : Signal} :
    (Operand.pending s).holds e = true ↔ (e.sig s).pending ≠ [] := by
  rw [Operand.holds, decide_eq_true_eq, List.length_pos_iff]

@[simp] theorem holds_inFlight {e : OtlpExporter ι cap} : Operand.inFlight.holds e = true ↔ e.inFlight ≠ none :=
  Option.isSome_iff_ne_none

@[simp] theorem holds_queued {e : OtlpExporter ι cap} {s : Signal} :
    (Operand.queued s).holds e = true ↔ (e.sig s).queue.items ≠ [] := by
  rw [Operand.holds, decide_eq_true_eq, BoundedFifo.size, List.length_pos_iff]

def loopOperands : List Operand :=
  [.pending .span, .inFlight, .queued .span, .pending .metric, .queued .metric, .pending .log, .queued .log]

def statusOperands : List Operand :=
  [.pending .span, .inFlight, .pending .metric, .pending .log, .queued .span, .queued .metric, .queued .log]

inductive FlushPc where
  /-- Before `otlp_exporter_tick(e, 100)`. -/
  | tick
  | ticking
  /-- Before the clock is read behind the tick. -/
  | clock
  | again (rest : List Operand) (nowMs : ℕ)
  | status (rest : List Operand)
  | returned (st : OtlpStatus)
deriving Repr, DecidableEq

/-- The operands that a condition has still to look at. -/
def FlushPc.rest : FlushPc → List Operand
  | .again rest _ => rest
  | .status rest => rest
  | _ => []

structure Flush (ι : Type*) (cap : ℕ) where
  exporter : State ι cap
  pc : FlushPc
  deadline : ℕ

/-- A call of another thread, or the next step of the flush itself. -/
inductive FlushLabel (ι : Type*) where
  | other (l : Label ι)
  | own (env : TickEnv)

/-- The calls that any thread may make. -/
def Label.fromAnyThread : Label ι → Bool
  | .emitMove _ _ => true
  | .emit _ _ _ => true
  | .shutdown => true
  | _ => false

def FlushLabel.isOwn : FlushLabel ι → Bool
  | .own _ => true
  | .other _ => false

def otlpExporterFlush (x : State ι cap) (now : ℕ) : Flush ι cap :=
  { exporter := x, pc := .tick, deadline := Queue.u64 (now + x.world.exp.flushTimeoutMs) }

def Flush.ownStep (f : Flush ι cap) (env : TickEnv) : Option (Flush ι cap) :=
  match f.pc with
  | .tick => (step f.exporter (.tick 100 env.now)).map fun x => { f with exporter := x, pc := .ticking }
  | .ticking =>
    (step f.exporter (.tickStep env)).map fun x =>
      { f with exporter := x, pc := if x.phase = .idle then .clock else .ticking }
  | .clock => some { f with pc := .again loopOperands env.now }
  | .again [] _ => some { f with pc := .status statusOperands }
  | .again (o :: rest) nowMs =>
    if o.holds f.exporter.world.exp then
      some { f with pc := if nowMs < f.deadline then .tick else .status statusOperands }
    else some { f with pc := .again rest nowMs }
  | .status [] => some { f with pc := .returned .ok }
  | .status (o :: rest) =>
    if o.holds f.exporter.world.exp then some { f with pc := .returned .errNetwork }
    else some { f with pc := .status rest }
  | .returned _ => none

def Flush.step (f : Flush ι cap) : FlushLabel ι → Option (Flush ι cap)
  | .other l =>
    if l.fromAnyThread then (Exporter.step f.exporter l).map fun x => { f with exporter := x } else none
  | .own env => f.ownStep env

/-! ### What other threads leave alone -/

/-- The exporter but for its queues and counters, and what was cleared. -/
structure SameHeld (x y : State ι cap) : Prop where
  phase_eq : y.phase = x.phase
  inFlight_eq : y.world.exp.inFlight = x.world.exp.inFlight
  pending_eq : ∀ s, (y.world.exp.sig s).pending = (x.world.exp.sig s).pending
  pendingCap_eq : ∀ s, (y.world.exp.sig s).pendingCap = (x.world.exp.sig s).pendingCap
  cleared_eq : ∀ s, clearedItems s y.world.history = clearedItems s x.world.history

theorem SameHeld.refl (x : State ι cap) : SameHeld x x := ⟨rfl, rfl, fun _ => rfl, fun _ => rfl, fun _ => rfl⟩

theorem emitHanded_held (x : State ι cap) (s : Signal) (item : ι) :
    SameHeld x { x with world := (emitHanded (x.world.observe [.handed s item]) s item).1 } := by
  unfold emitHanded
  split
  · refine ⟨rfl, rfl, fun _ => rfl, fun _ => rfl, fun t => ?_⟩
    simp [clearedItems]
  · split
    · refine ⟨rfl, rfl, fun t => proj_update_same (·.pending) _ _ _ rfl,
        fun t => proj_update_same (·.pendingCap) _ _ _ rfl, fun t => ?_⟩
      simp [clearedItems, World.event]
    · refine ⟨rfl, rfl, fun t => proj_update_same (·.pending) _ _ _ rfl,
        fun t => proj_update_same (·.pendingCap) _ _ _ rfl, fun t => ?_⟩
      simp [clearedItems]

theorem emitMoveCommon_held (x : State ι cap) (s : Signal) (item : Option ι) :
    SameHeld x { x with world := (emitMoveCommon x.world s item).1 } := by
  cases item with
  | none => exact .refl x
  | some item => exact emitHanded_held x s item

/-- **A call of another thread** adds to a queue and touches nothing else that a flush looks at. -/
theorem sameHeld_of_other {x y : State ι cap} {l : Label ι} (hl : l.fromAnyThread = true)
    (h : step x l = some y) : SameHeld x y := by
  cases stepped h with
  | emitMove s item => exact emitMoveCommon_held x s item
  | emit s isNull clone =>
    unfold emitCloneCommon
    split
    · exact .refl x
    · split
      · exact .refl x
      · cases clone with
        | none => exact .refl x
        | some item => exact emitMoveCommon_held x s (some item)
  | shutdown => exact ⟨rfl, rfl, fun _ => rfl, fun _ => rfl, fun _ => rfl⟩
  | tick | tickStep | flushMetric | flushLog | free => cases hl

/-! ### The look for the status -/

/-- What has been seen of an operand that did not hold, `g` being the flush when the look began: of a queue, that
all it had accepted until then has been taken out of it. -/
def Operand.Clear (g : Flush ι cap) (x : State ι cap) : Operand → Prop
  | .pending s => (x.world.exp.sig s).pending = []
  | .inFlight => x.world.exp.inFlight = none
  | .queued s => acceptedItems s g.exporter.world.history <+: clearedItems s x.world.history ++
      (x.world.exp.sig s).pending

/-- The flush during the look that began at `g`. -/
structure Looking (g f : Flush ι cap) : Prop where
  idle : f.exporter.phase = .idle
  delivered : ∀ s, Delivered s f.exporter
  grown : ∀ s, acceptedItems s g.exporter.world.history <+: acceptedItems s f.exporter.world.history
  seen : ∀ rest, f.pc = .status rest → rest <:+ statusOperands ∧
    ∀ o ∈ statusOperands, o ∉ rest → o.Clear g f.exporter
  left : f.pc = .returned .errNetwork → ∃ o ∈ statusOperands, o.holds f.exporter.world.exp = true
  done : f.pc = .returned .ok → ∀ o ∈ statusOperands, o.Clear g f.exporter
  looking : (∃ rest, f.pc = .status rest) ∨ f.pc = .returned .ok ∨ f.pc = .returned .errNetwork

theorem Operand.Clear.of_held {g : Flush ι cap} {x y : State ι cap} (hheld : SameHeld x y) {o : Operand}
    (h : o.Clear g x) : o.Clear g y := by
  cases o with
  | pending s => exact (hheld.pending_eq s).trans h
  | inFlight => exact hheld.inFlight_eq.trans h
  | queued s =>
    simp only [Operand.Clear] at h ⊢
    rwa [hheld.cleared_eq, hheld.pending_eq]

/-- An operand that does not hold is clear. -/
theorem Looking.clear_of_not_holds {g f : Flush ι cap} (h : Looking g f) {o : Operand}
    (hno : ¬ o.holds f.exporter.world.exp = true) : o.Clear g f.exporter := by
  cases o with
  | pending s => rwa [holds_pending, not_not] at hno
  | inFlight => rwa [holds_inFlight, not_not] at hno
  | queued s =>
    have hempty : (f.exporter.world.exp.sig s).queue.items = [] := by rwa [holds_queued, not_not] at hno
    have horder := ((h.delivered s).live (by simp [h.idle])).order
    rw [hempty, List.append_nil] at horder
    rw [Operand.Clear, ← horder]
    exact h.grown s

theorem acceptedItems_isPrefix {x y : State ι cap} {l : Label ι} (h : step x l = some y) (s : Signal) :
    acceptedItems s x.world.history <+: acceptedItems s y.world.history := by
  obtain ⟨obs, hobs⟩ := (step_effect h).history_isPrefix
  rw [← hobs, acceptedItems_append]
  exact List.prefix_append _ _

/-- An operand that holds goes on holding: other threads only add. -/
theorem Operand.holds_of_held {x y : State ι cap} {l : Label ι} (hl : l.fromAnyThread = true)
    (h : step x l = some y) {o : Operand} (ho : o.holds x.world.exp = true) (hidle : x.phase = .idle)
    (hx : ∀ s, Delivered s x) : o.holds y.world.exp = true := by
  have hheld := sameHeld_of_other hl h
  cases o with
  | pending s => rwa [holds_pending, hheld.pending_eq, ← holds_pending]
  | inFlight => rwa [holds_inFlight, hheld.inFlight_eq, ← holds_inFlight]
  | queued s =>
    rw [holds_queued, ← List.length_pos_iff] at ho ⊢
    -- the queue is what is accepted and neither cleared nor pending
    have hy := delivered_step (hx s) h
    have hbefore := congrArg List.length ((hx s).live (by simp [hidle])).order
    have hafter := congrArg List.length (hy.live (by simp [hheld.phase_eq, hidle])).order
    have hle := (acceptedItems_isPrefix h s).length_le
    rw [hheld.cleared_eq, hheld.pending_eq] at hafter
    simp only [List.length_append] at hbefore hafter
    omega

/-- **A step of the look**, by the flush or by another thread. -/
theorem looking_step {g f f' : Flush ι cap} {l : FlushLabel ι} (h : Looking g f) (hstep : f.step l = some f') :
    Looking g f' := by
  cases l with
  | other l =>
    simp only [Flush.step, Option.ite_none_right_eq_some, Option.map_eq_some_iff] at hstep
    obtain ⟨hl, y, hy, rfl⟩ := hstep
    have hheld := sameHeld_of_other hl hy
    refine ⟨hheld.phase_eq.trans h.idle, fun s => delivered_step (h.delivered s) hy,
      fun s => (h.grown s).trans (acceptedItems_isPrefix hy s), fun rest hrest => ?_, fun hleft => ?_, fun hdone => ?_,
      h.looking⟩
    · exact ⟨(h.seen rest hrest).1, fun o ho hseen => ((h.seen rest hrest).2 o ho hseen).of_held hheld⟩
    · obtain ⟨o, ho, hholds⟩ := h.left hleft
      exact ⟨o, ho, Operand.holds_of_held hl hy hholds h.idle h.delivered⟩
    · exact fun o ho => (h.done hdone o ho).of_held hheld
  | own env =>
    simp only [Flush.step] at hstep
    rcases h.looking with ⟨rest, hrest⟩ | hret | hret
    · obtain ⟨hsuffix, hclear⟩ := h.seen rest hrest
      cases rest with
      | nil =>
        simp only [Flush.ownStep, hrest, Option.some.injEq] at hstep
        subst hstep
        exact ⟨h.idle, h.delivered, h.grown, by simp, by simp, fun _ o ho => hclear o ho (by simp), by simp⟩
      | cons o rest =>
        simp only [Flush.ownStep, hrest] at hstep
        split at hstep
        · next hholds =>
          cases hstep
          exact ⟨h.idle, h.delivered, h.grown, by simp, fun _ => ⟨o, hsuffix.subset (by simp), hholds⟩, by simp,
            by simp⟩
        · next hno =>
          cases hstep
          refine ⟨h.idle, h.delivered, h.grown, fun rest' hrest' => ?_, by simp, by simp, by simp⟩
          cases hrest'
          refine ⟨(List.suffix_cons o rest).trans hsuffix, fun o' ho' hseen => ?_⟩
          rcases eq_or_ne o' o with rfl | hne
          · exact h.clear_of_not_holds hno
          · exact hclear o' ho' (by simp [hne, hseen])
    · simp [Flush.ownStep, hret] at hstep
    · simp [Flush.ownStep, hret] at hstep

/-! ### What a flush returns -/

structure FlushOk (f : Flush ι cap) : Prop where
  delivered : ∀ s, Delivered s f.exporter
  ticking : f.pc = .ticking → ∃ fr, f.exporter.phase = .tick fr
  idle : f.pc ≠ .ticking → f.exporter.phase = .idle
  rest_le : f.pc.rest.length ≤ 7

theorem phase_of_tickStep {x y : State ι cap} {env : TickEnv} (h : step x (.tickStep env) = some y) :
    y.phase = .idle ∨ ∃ fr, y.phase = .tick fr := by
  cases hphase : y.phase with
  | idle => exact .inl rfl
  | tick fr => exact .inr ⟨fr, rfl⟩
  | freed => cases ((step_phase h).2 hphase).1

theorem flushOk_step {f f' : Flush ι cap} {l : FlushLabel ι} (h : FlushOk f) (hstep : f.step l = some f') :
    FlushOk f' := by
  cases l with
  | other l =>
    simp only [Flush.step, Option.ite_none_right_eq_some, Option.map_eq_some_iff] at hstep
    obtain ⟨hl, y, hy, rfl⟩ := hstep
    have hphase := (sameHeld_of_other hl hy).phase_eq
    exact ⟨fun s => delivered_step (h.delivered s) hy, fun hpc => hphase ▸ h.ticking hpc,
      fun hpc => hphase.trans (h.idle hpc), h.rest_le⟩
  | own env =>
    simp only [Flush.step] at hstep
    cases hpc : f.pc with
    | tick =>
      simp only [Flush.ownStep, hpc, Option.map_eq_some_iff] at hstep
      obtain ⟨y, hy, rfl⟩ := hstep
      refine ⟨fun s => delivered_step (h.delivered s) hy, fun _ => ?_, by simp, Nat.zero_le _⟩
      cases stepped hy with
      | tick => exact ⟨_, rfl⟩
    | ticking =>
      simp only [Flush.ownStep, hpc, Option.map_eq_some_iff] at hstep
      obtain ⟨y, hy, rfl⟩ := hstep
      refine ⟨fun s => delivered_step (h.delivered s) hy, fun hticking => ?_, fun hdone => ?_, by split <;> exact Nat.zero_le _⟩
      · exact (phase_of_tickStep hy).resolve_left fun hidle => by simp [hidle] at hticking
      · by_contra hbusy
        simp [hbusy] at hdone
    | clock =>
      simp only [Flush.ownStep, hpc, Option.some.injEq] at hstep
      subst hstep
      exact ⟨h.delivered, by simp, fun _ => h.idle (by simp [hpc]), le_refl 7⟩
    | again rest nowMs =>
      have hidle := h.idle (by simp [hpc])
      have hrest := h.rest_le
      rw [hpc] at hrest
      cases rest with
      | nil =>
        simp only [Flush.ownStep, hpc, Option.some.injEq] at hstep
        subst hstep
        exact ⟨h.delivered, by simp, fun _ => hidle, le_refl 7⟩
      | cons o rest =>
        simp only [Flush.ownStep, hpc] at hstep
        split at hstep
        · cases hstep
          exact ⟨h.delivered, by split <;> simp, fun _ => hidle, by split <;> simp [FlushPc.rest, statusOperands]⟩
        · cases hstep
          exact ⟨h.delivered, by simp, fun _ => hidle, (Nat.le_succ _).trans hrest⟩
    | status rest =>
      have hidle := h.idle (by simp [hpc])
      have hrest := h.rest_le
      rw [hpc] at hrest
      cases rest with
      | nil =>
        simp only [Flush.ownStep, hpc, Option.some.injEq] at hstep
        subst hstep
        exact ⟨h.delivered, by simp, fun _ => hidle, Nat.zero_le _⟩
      | cons o rest =>
        simp only [Flush.ownStep, hpc] at hstep
        split at hstep <;> cases hstep
        · exact ⟨h.delivered, by simp, fun _ => hidle, Nat.zero_le _⟩
        · exact ⟨h.delivered, by simp, fun _ => hidle, (Nat.le_succ _).trans hrest⟩
    | returned st => simp [Flush.ownStep, hpc] at hstep

theorem flushOk_of_run {opts : OtlpExporterOpts} {env : CreateEnv} {fn : Bool}
    {e : OtlpExporter ι (normalizeOpts opts).queueCapacity} (hcreate : otlpExporterCreate ι opts env = some e)
    {ls : List (Label ι)} {x : State ι _} (hrun : Steps.run step (State.init e false fn) ls = some x)
    (hidle : x.phase = .idle) {now : ℕ} {ks : List (FlushLabel ι)} {f : Flush ι _}
    (hflush : Steps.run Flush.step (otlpExporterFlush x now) ks = some f) : FlushOk f := by
  have hx : ∀ s, Delivered s x := fun s =>
    Steps.run_invariant (fun x l y hx h => delivered_step hx h) ((fresh_of_create hcreate).delivered fn s) hrun
  exact Steps.run_invariant (fun f l f' hf h => flushOk_step hf h)
    ⟨hx, by simp [otlpExporterFlush], fun _ => hidle, Nat.zero_le _⟩ hflush

def Unsettled (e : OtlpExporter ι cap) : Prop :=
  e.inFlight ≠ none ∨ ∃ s, (e.sig s).pending ≠ [] ∨ (e.sig s).queue.items ≠ []

theorem unsettled_of_holds {e : OtlpExporter ι cap} {o : Operand} (h : o.holds e = true) : Unsettled e := by
  cases o with
  | pending s => exact .inr ⟨s, .inl (holds_pending.1 h)⟩
  | inFlight => exact .inl (holds_inFlight.1 h)
  | queued s => exact .inr ⟨s, .inr (holds_queued.1 h)⟩

theorem mem_statusOperands (o : Operand) : o ∈ statusOperands := by
  cases o with
  | inFlight => decide
  | pending s | queued s => cases s <;> decide

/-- What a flush that returned `st` tells, `f` being the flush when it began to look for its status. -/
inductive FlushTells (f g : Flush ι cap) : OtlpStatus → Prop
  | settled (hinFlight : g.exporter.world.exp.inFlight = none)
      (hpending : ∀ s, (g.exporter.world.exp.sig s).pending = [])
      (hcleared : ∀ s, acceptedItems s f.exporter.world.history <+: clearedItems s g.exporter.world.history) :
      FlushTells f g .ok
  | unsettled (hleft : Unsettled g.exporter.world.exp) : FlushTells f g .errNetwork

theorem tells_of_looking {f g : Flush ι cap} {st : OtlpStatus} (h : Looking f g) (hret : g.pc = .returned st) :
    FlushTells f g st := by
  rcases h.looking with ⟨rest, hpc⟩ | hpc | hpc
  · rw [hret] at hpc
    cases hpc
  · have hclear := fun o => h.done hpc o (mem_statusOperands o)
    rw [hret] at hpc
    cases hpc
    refine .settled (hclear .inFlight) (fun s => hclear (.pending s)) fun s => ?_
    have hqueued : acceptedItems s f.exporter.world.history <+: _ := hclear (.queued s)
    have hpending : (g.exporter.world.exp.sig s).pending = [] := hclear (.pending s)
    rwa [hpending, List.append_nil] at hqueued
  · obtain ⟨o, -, hholds⟩ := h.left hpc
    rw [hret] at hpc
    cases hpc
    exact .unsettled (unsettled_of_holds hholds)

/-- **A flush tells the truth.** On the real transport, whatever other threads emit meanwhile: when
`otlp_exporter_flush` returns `OTLP_OK`, no request is in flight and every item that a queue accepted before the
flush began to look for its status has left the exporter with its batch; when it returns anything else, that is
`OTLP_ERR_NETWORK` and something is left. -/
theorem flush_tells {opts : OtlpExporterOpts} {env : CreateEnv} {fn : Bool}
    {e : OtlpExporter ι (normalizeOpts opts).queueCapacity} (hcreate : otlpExporterCreate ι opts env = some e)
    {ls : List (Label ι)} {x : State ι _} (hrun : Steps.run step (State.init e false fn) ls = some x)
    (hidle : x.phase = .idle) {now : ℕ} {ks ms : List (FlushLabel ι)} {f g : Flush ι _} {st : OtlpStatus}
    (hflush : Steps.run Flush.step (otlpExporterFlush x now) ks = some f) (hlook : f.pc = .status statusOperands)
    (hrest : Steps.run Flush.step f ms = some g) (hret : g.pc = .returned st) : FlushTells f g st := by
  have hf := flushOk_of_run hcreate hrun hidle hflush
  have hstart : Looking f f :=
    { idle := hf.idle (by simp [hlook]), delivered := hf.delivered, grown := fun s => List.prefix_refl _,
      seen := fun rest hrest' => by
        rw [hlook] at hrest'
        cases hrest'
        exact ⟨List.suffix_refl _, fun o ho hno => absurd ho hno⟩
      left := by simp [hlook], done := by simp [hlook], looking := .inl ⟨_, hlook⟩ }
  exact tells_of_looking (Steps.run_invariant (fun _ _ _ h hstep => looking_step h hstep) hstart hrest) hret

/-- A span is sent, and another emitted while the flush looks for its status. -/
theorem flush_tells_late_span : ∃ f g : Flush ℕ (normalizeOpts (plainOpts 1 1)).queueCapacity, FlushTells f g .ok ∧
    acceptedItems .span f.exporter.world.history = [1] ∧ (g.exporter.world.exp.sig .span).queue.items = [2] := by
  let own (n : ℕ) : List (FlushLabel ℕ) := List.replicate n (.own (.fine 0 (emptyResponse 200)))
  have hruns : ((runFrom (plainOpts 1 1) [.emitMove .span (some 1)]).bind fun x =>
      (Steps.run Flush.step (otlpExporterFlush x 0) (own 40)).bind fun f =>
        (Steps.run Flush.step f (own 5 ++ .other (.emitMove .span (some 2)) :: own 3)).map fun g =>
          (x.phase, f.pc, g.pc, acceptedItems .span f.exporter.world.history,
            (g.exporter.world.exp.sig .span).queue.items)) =
      some (.idle, .status statusOperands, .returned .ok, [1], [2]) := by decide +kernel
  obtain ⟨x, hx, hrest⟩ := Option.bind_eq_some_iff.1 hruns
  obtain ⟨f, hf, hrest⟩ := Option.bind_eq_some_iff.1 hrest
  obtain ⟨g, hg, hread⟩ := Option.map_eq_some_iff.1 hrest
  simp only [Prod.mk.injEq] at hread
  obtain ⟨hidle, hlook, hret, haccepted, hqueued⟩ := hread
  obtain ⟨e, hcreate, hrun⟩ := runFrom_eq_some hx
  exact ⟨f, g, flush_tells hcreate hrun hidle hf hlook hg hret, haccepted, hqueued⟩

/-! ### A flush comes to its end -/

def SignalState.room (sg : SignalState ι cap) : ℕ := sg.pendingCap - sg.pending.length

/-- The steps of a tick that are left when its deadline has passed. -/
def Pc.left (e : OtlpExporter ι cap) : Pc → ℕ
  | .drain .span => 11 + (e.sig .span).room + (e.sig .metric).room + (e.sig .log).room
  | .drain .metric => 10 + (e.sig .metric).room + (e.sig .log).room
  | .drain .log => 9 + (e.sig .log).room
  | .nullTransport => 8
  | .beginStart => 7
  | .start .span _ _ => 6
  | .start .metric _ _ => 5
  | .start .log _ _ => 4
  | .stepInFlight => 3
  | .backoffRetry => 2
  | .loop => 1

def State.left (x : State ι cap) : ℕ :=
  match x.phase with
  | .tick fr => fr.pc.left x.world.exp
  | _ => 0

theorem room_of_drained {w w' : World ι cap} {s : Signal} {now : ℕ} (h : drainOne w s now = some w') :
    (w'.exp.sig s).room + 1 = (w.exp.sig s).room ∧ ∀ t ≠ s, w'.exp.sig t = w.exp.sig t := by
  unfold drainOne at h
  split at h
  · next hlt =>
    split at h
    · contradiction
    · next item queue hpop =>
      rw [Option.some.injEq] at h
      subst h
      refine ⟨?_, fun t ht => Function.update_of_ne ht ..⟩
      simp only [SignalState.room, modSig_exp, Function.update_self, List.length_append, List.length_singleton]
      omega
  · contradiction

@[simp] theorem left_tick (w : World ι cap) (fr : Frame) : State.left ⟨w, .tick fr⟩ = fr.pc.left w.exp := rfl

@[simp] theorem left_idle (w : World ι cap) : State.left ⟨w, .idle⟩ = 0 := rfl

theorem left_drainNext (e : OtlpExporter ι cap) (s : Signal) : (drainNext s).left e + 1 ≤ (Pc.drain s).left e := by
  cases s with
  | span =>
    change 10 + (e.sig .metric).room + (e.sig .log).room + 1 ≤ 11 + _ + (e.sig .metric).room + (e.sig .log).room
    omega
  | metric =>
    change 9 + (e.sig .log).room + 1 ≤ 10 + _ + (e.sig .log).room
    omega
  | log =>
    change 8 + 1 ≤ 9 + _
    omega

theorem left_startNext (e e' : OtlpExporter ι cap) (s : Signal) (shutdown : Bool) (nowMs : ℕ) :
    (startNext s shutdown nowMs).left e' + 1 = (Pc.start s shutdown nowMs).left e := by
  cases s <;> rfl

/-- Where a step of a tick leads once the clock has reached its deadline. -/
theorem left_of_tickStep (w : World ι cap) {fr : Frame} {env : TickEnv} (hlate : fr.deadline ≤ env.now) :
    (tickStep w fr env).left + 1 ≤ fr.pc.left w.exp ∧
      ∀ fr', (tickStep w fr env).phase = .tick fr' → fr'.deadline = fr.deadline := by
  unfold tickStep
  cases fr.pc with
  | drain s =>
    cases hdrain : drainOne w s env.now with
    | none =>
      simp only [hdrain, left_tick, Phase.tick.injEq, forall_eq', and_true]
      exact left_drainNext w.exp s
    | some w' =>
      obtain ⟨hroom, hothers⟩ := room_of_drained hdrain
      simp only [hdrain, left_tick, Phase.tick.injEq, forall_eq', and_true]
      cases s with
      | span =>
        simp only [Pc.left, hothers .metric (by decide), hothers .log (by decide)]
        omega
      | metric =>
        simp only [Pc.left, hothers .log (by decide)]
        omega
      | log =>
        simp only [Pc.left]
        omega
  | nullTransport =>
    dsimp only
    cases nullTransportPost w env.nullStatus env.now <;> split <;> simp [Pc.left]
  | beginStart =>
    dsimp only
    split <;> simp [Pc.left]
  | start s shutdown nowMs =>
    dsimp only
    split
    · cases s <;> simp [Pc.left]
    · split <;> exact ⟨(left_startNext _ _ s shutdown nowMs).le, by simp⟩
  | stepInFlight | backoffRetry => simp [Pc.left]
  | loop => simp [hlate.not_gt, Pc.left]

/-- How many steps a flush still takes when the clock has reached its deadline. -/
def Flush.left (f : Flush ι cap) : ℕ :=
  match f.pc with
  | .tick => 0
  | .ticking => f.exporter.left + 17
  | .clock => 17
  | .again rest _ => rest.length + 9
  | .status rest => rest.length + 1
  | .returned _ => 0

/-- The clock has reached `c`, and with it the deadlines of the flush and of the tick that it is in. -/
structure Flush.Over (c : ℕ) (f : Flush ι cap) : Prop where
  deadline_le : f.deadline ≤ c
  begun : f.pc ≠ .tick
  tick : ∀ fr, f.exporter.phase = .tick fr → fr.deadline ≤ c
  read : ∀ rest nowMs, f.pc = .again rest nowMs → f.deadline ≤ nowMs

theorem left_of_held {x y : State ι cap} (h : SameHeld x y) : y.left = x.left := by
  have hroom : ∀ s, (y.world.exp.sig s).room = (x.world.exp.sig s).room := fun s => by
    rw [SignalState.room, h.pending_eq, h.pendingCap_eq, SignalState.room]
  unfold State.left
  rw [h.phase_eq]
  cases x.phase with
  | idle | freed => rfl
  | tick fr =>
    dsimp only
    unfold Pc.left
    simp only [hroom]

/-- **A step of a flush whose time is over.** -/
theorem over_step {c : ℕ} {f f' : Flush ι cap} {l : FlushLabel ι} (hok : FlushOk f) (h : f.Over c)
    (hclock : ∀ env, l = .own env → c ≤ env.now) (hstep : f.step l = some f') :
    f'.Over c ∧ f'.left + (if l.isOwn then 1 else 0) ≤ f.left := by
  cases l with
  | other l =>
    simp only [Flush.step, Option.ite_none_right_eq_some, Option.map_eq_some_iff] at hstep
    obtain ⟨hl, y, hy, rfl⟩ := hstep
    have hheld := sameHeld_of_other hl hy
    refine ⟨⟨h.deadline_le, h.begun, fun fr hfr => h.tick fr (hheld.phase_eq ▸ hfr), h.read⟩, Eq.le ?_⟩
    simp only [Flush.left, left_of_held hheld, FlushLabel.isOwn]
    rfl
  | own env =>
    have hnow := hclock env rfl
    simp only [Flush.step] at hstep
    cases hpc : f.pc with
    | tick => exact absurd hpc h.begun
    | ticking =>
      obtain ⟨fr, hfr⟩ := hok.ticking hpc
      simp only [Flush.ownStep, hpc, Exporter.step, hfr, Option.map_some, Option.some.injEq] at hstep
      subst hstep
      obtain ⟨hleft, hframe⟩ := left_of_tickStep f.exporter.world ((h.tick fr hfr).trans hnow)
      refine ⟨⟨h.deadline_le, by split <;> simp, fun fr' hfr' => ?_, by split <;> simp⟩, ?_⟩
      · exact (hframe fr' hfr').trans_le (h.tick fr hfr)
      · have hbefore : f.exporter.left = fr.pc.left f.exporter.world.exp := by simp [State.left, hfr]
        simp only [Flush.left, hpc, hbefore, FlushLabel.isOwn, if_true]
        by_cases hdone : (tickStep f.exporter.world fr env).phase = .idle
        · rw [if_pos hdone]
          dsimp only
          omega
        · rw [if_neg hdone]
          dsimp only
          omega
    | clock =>
      simp only [Flush.ownStep, hpc, Option.some.injEq] at hstep
      subst hstep
      have hidle := hok.idle (by simp [hpc])
      exact ⟨⟨h.deadline_le, by simp, by simp [hidle], by simpa using h.deadline_le.trans hnow⟩,
        by simp [Flush.left, hpc, loopOperands, FlushLabel.isOwn]⟩
    | again rest nowMs =>
      have hlate := h.read rest nowMs hpc
      have hidle := hok.idle (by simp [hpc])
      cases rest with
      | nil =>
        simp only [Flush.ownStep, hpc, Option.some.injEq] at hstep
        subst hstep
        exact ⟨⟨h.deadline_le, by simp, by simp [hidle], by simp⟩,
          by simp [Flush.left, hpc, statusOperands, FlushLabel.isOwn]⟩
      | cons o rest =>
        simp only [Flush.ownStep, hpc, hlate.not_gt, if_false] at hstep
        split at hstep <;> cases hstep
        · exact ⟨⟨h.deadline_le, by simp, by simp [hidle], by simp⟩,
            by simp [Flush.left, hpc, statusOperands, FlushLabel.isOwn]⟩
        · refine ⟨⟨h.deadline_le, by simp, by simp [hidle], by simpa using hlate⟩, ?_⟩
          simp only [Flush.left, hpc, FlushLabel.isOwn, List.length_cons, if_true]
          omega
    | status rest =>
      have hidle := hok.idle (by simp [hpc])
      cases rest with
      | nil =>
        simp only [Flush.ownStep, hpc, Option.some.injEq] at hstep
        subst hstep
        exact ⟨⟨h.deadline_le, by simp, by simp [hidle], by simp⟩, by simp [Flush.left, hpc, FlushLabel.isOwn]⟩
      | cons o rest =>
        simp only [Flush.ownStep, hpc] at hstep
        split at hstep <;> cases hstep <;>
          exact ⟨⟨h.deadline_le, by simp, by simp [hidle], by simp⟩,
            by simp [Flush.left, hpc, FlushLabel.isOwn]⟩
    | returned st => simp [Flush.ownStep, hpc] at hstep

theorem State.left_le {n : ℕ} {x : State ι cap} (hcap : ∀ s, (x.world.exp.sig s).pendingCap = n * 2) :
    x.left ≤ 11 + 6 * n := by
  have hroom : ∀ s, (x.world.exp.sig s).room ≤ n * 2 := fun s => by
    rw [SignalState.room, hcap]
    exact Nat.sub_le _ _
  have hspan := hroom .span
  have hmetric := hroom .metric
  have hlog := hroom .log
  unfold State.left Pc.left
  repeat' split
  all_goals omega

theorem Flush.left_le {n : ℕ} {f : Flush ι cap} (hok : FlushOk f)
    (hcap : ∀ s, (f.exporter.world.exp.sig s).pendingCap = n * 2) : f.left ≤ 28 + 6 * n := by
  have htick := State.left_le hcap
  have hrest := hok.rest_le
  unfold Flush.left
  cases hpc : f.pc with
  | tick | returned => exact Nat.zero_le _
  | clock =>
    dsimp only
    omega
  | ticking =>
    dsimp only
    omega
  | again rest nowMs | status rest =>
    rw [hpc] at hrest
    simp only [FlushPc.rest] at hrest ⊢
    omega

/-- Until it has returned, a flush has a next step, whatever the environment answers. -/
theorem ownStep_isSome {f : Flush ι cap} (h : FlushOk f) (hpc : ∀ st, f.pc ≠ .returned st) (env : TickEnv) :
    (f.step (.own env)).isSome := by
  cases hat : f.pc with
  | tick => simp [Flush.step, Flush.ownStep, hat, Exporter.step, h.idle (by simp [hat])]
  | ticking =>
    obtain ⟨fr, hfr⟩ := h.ticking hat
    simp [Flush.step, Flush.ownStep, hat, Exporter.step, hfr]
  | clock => simp [Flush.step, Flush.ownStep, hat]
  | again rest nowMs =>
    cases rest with
    | nil => simp [Flush.step, Flush.ownStep, hat]
    | cons o rest => 
      simp only [Flush.step, Flush.ownStep, hat]
      split <;> rfl
  | status rest =>
    cases rest with
    | nil => simp [Flush.step, Flush.ownStep, hat]
    | cons o rest => 
      simp only [Flush.step, Flush.ownStep, hat]
      split <;> rfl
  | returned st => exact absurd hat (hpc st)

theorem flush_invariant {P : State ι cap → Prop} (hP : ∀ x l y, P x → step x l = some y → P y) {f f' : Flush ι cap}
    {l : FlushLabel ι} (hf : P f.exporter) (hstep : f.step l = some f') : P f'.exporter := by
  cases l with
  | other l =>
    simp only [Flush.step, Option.ite_none_right_eq_some, Option.map_eq_some_iff] at hstep
    obtain ⟨-, y, hy, rfl⟩ := hstep
    exact hP _ _ _ hf hy
  | own env =>
    simp only [Flush.step, Flush.ownStep] at hstep
    split at hstep
    · obtain ⟨y, hy, rfl⟩ := Option.map_eq_some_iff.1 hstep
      exact hP _ _ _ hf hy
    · obtain ⟨y, hy, rfl⟩ := Option.map_eq_some_iff.1 hstep
      exact hP _ _ _ hf hy
    · cases hstep
      exact hf
    · cases hstep
      exact hf
    · split at hstep <;> cases hstep <;> exact hf
    · cases hstep
      exact hf
    · split at hstep <;> cases hstep <;> exact hf
    · cases hstep

theorem flush_pendingCap {opts : OtlpExporterOpts} {env : CreateEnv} {fn : Bool}
    {e : OtlpExporter ι (normalizeOpts opts).queueCapacity} (hcreate : otlpExporterCreate ι opts env = some e)
    {ls : List (Label ι)} {x : State ι _} (hrun : Steps.run step (State.init e false fn) ls = some x)
    {now : ℕ} {ks : List (FlushLabel ι)} {f : Flush ι _}
    (hflush : Steps.run Flush.step (otlpExporterFlush x now) ks = some f) (s : Signal) :
    (f.exporter.world.exp.sig s).pendingCap = (normalizeOpts opts).batchSize * 2 := by
  have hx := pendingCap_of_run hcreate hrun s
  exact Steps.run_invariant (P := fun f : Flush ι _ => (f.exporter.world.exp.sig s).pendingCap = _)
    (fun f l f' hf h => flush_invariant (P := fun x => (x.world.exp.sig s).pendingCap = _)
      (fun x l y hx h => (step_pendingCap h s).trans hx) hf h) hx hflush

/-- **A flush returns.** On the real transport, once the clock has reached a flush's deadline and that of the tick it
is in, the flush takes at most `28 + 6 * batch_size` further steps, whatever the network answers and other threads
emit, and until it has returned it always has a next one. -/
theorem flush_returns {opts : OtlpExporterOpts} {env : CreateEnv} {fn : Bool}
    {e : OtlpExporter ι (normalizeOpts opts).queueCapacity} (hcreate : otlpExporterCreate ι opts env = some e)
    {ls : List (Label ι)} {x : State ι _} (hrun : Steps.run step (State.init e false fn) ls = some x)
    (hidle : x.phase = .idle) {now : ℕ} {ks ms : List (FlushLabel ι)} {f g : Flush ι _}
    (hflush : Steps.run Flush.step (otlpExporterFlush x now) ks = some f) {c : ℕ} (hover : f.Over c)
    (hclock : ∀ env, .own env ∈ ms → c ≤ env.now) (hrest : Steps.run Flush.step f ms = some g) :
    ms.countP FlushLabel.isOwn ≤ 28 + 6 * (normalizeOpts opts).batchSize ∧
      ((∃ st, g.pc = .returned st) ∨ ∀ env, (g.step (.own env)).isSome) := by
  have hf := flushOk_of_run hcreate hrun hidle hflush
  have hlabels : Steps.Along Flush.step (fun _ l => ∀ env, l = .own env → c ≤ env.now) f ms :=
    Steps.along_of_forall_mem fun l hl env heq => hclock env (heq ▸ hl)
  constructor
  · have hsteps := Steps.countP_le_measure (I := fun f : Flush ι _ => FlushOk f ∧ f.Over c) (p := FlushLabel.isOwn)
      (fun f l f' h hl hstep => ⟨flushOk_step h.1 hstep, (over_step h.1 h.2 hl hstep).1⟩)
      (fun f l f' h hl hstep => (over_step h.1 h.2 hl hstep).2) ⟨hf, hover⟩ hlabels hrest
    have hleft := f.left_le hf (flush_pendingCap hcreate hrun hflush)
    omega
  · have hg : FlushOk g := Steps.run_invariant (fun f l f' hf h => flushOk_step hf h) hf hrest
    exact or_iff_not_imp_left.2 fun hpc => ownStep_isSome hg fun st hst => hpc ⟨st, hst⟩

/-- A flush that waits for the collector when its time is over. -/
theorem flush_returns_no_answer : ∃ f g : Flush ℕ (normalizeOpts (plainOpts 1 1)).queueCapacity,
    ∃ ms, Steps.run Flush.step f ms = some g ∧ g.pc = .returned .errNetwork ∧
      (ms.countP FlushLabel.isOwn ≤ 34 ∧ ((∃ st, g.pc = .returned st) ∨ ∀ env, (g.step (.own env)).isSome)) := by
  let own (n now : ℕ) : List (FlushLabel ℕ) := List.replicate n (.own (.fine now []))
  have hruns : ((runFrom (plainOpts 1 1) [.emitMove .span (some 1)]).bind fun x =>
      (Steps.run Flush.step (otlpExporterFlush x 0) (own 1 0)).bind fun f =>
        (Steps.run Flush.step f (own 14 30000)).map fun g =>
          (x.phase, f.pc, f.deadline, f.exporter.phase, g.pc)) =
      some (.idle, .ticking, 30000, .tick ⟨100, false, .drain .span⟩, .returned .errNetwork) := by decide +kernel
  obtain ⟨x, hx, hrest⟩ := Option.bind_eq_some_iff.1 hruns
  obtain ⟨f, hf, hrest⟩ := Option.bind_eq_some_iff.1 hrest
  obtain ⟨g, hg, hread⟩ := Option.map_eq_some_iff.1 hrest
  simp only [Prod.mk.injEq] at hread
  obtain ⟨hidle, hpc, hdeadline, hphase, hret⟩ := hread
  obtain ⟨e, hcreate, hrun⟩ := runFrom_eq_some hx
  have hover : f.Over 30000 := ⟨hdeadline.le, by simp [hpc], by simp [hphase], by simp [hpc]⟩
  refine ⟨f, g, own 14 30000, hg, hret, flush_returns hcreate hrun hidle hf hover (fun env henv => ?_) hg⟩
  obtain rfl : env = .fine 30000 [] := by simpa [own] using henv
  exact le_refl 30000

end OtlpC.Exporter
