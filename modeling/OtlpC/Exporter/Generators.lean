import OtlpC.Api.TracerThreads
import OtlpC.Exporter.Outcomes

/-!
# The generators

The state of the tracer's generator under all its threads, and that of the exporter's jitter in every run: neither
is ever zero. The jitter moves by `otlp_jitter_next` alone (`step_drawn`).
-/

namespace OtlpC.Exporter

open Retry

/-! ### The jitter -/

theorem otlpJitterNext_ne_zero {s : UInt64} (hs : s ≠ 0) : (otlpJitterNext s).1 ≠ 0 ∧ (otlpJitterNext s).2 ≠ 0 := by
  have hstate : (otlpJitterNext s).1 ≠ 0 :=
    Api.ne_xor_shiftLeft (by decide +kernel) (Api.ne_xor_shiftRight (Api.ne_xor_shiftLeft (by decide +kernel) hs))
  have hdrawn : (otlpJitterNext s).2 = 0x2545F4914F6CDD1D * (otlpJitterNext s).1 := UInt64.mul_comm _ _
  refine ⟨hstate, ?_⟩
  rw [hdrawn]
  exact Api.ne_mul_odd (by decide +kernel) hstate

/-- The state after any number of draws. -/
inductive Drawn (s : UInt64) : UInt64 → Prop where
  | none : Drawn s s
  | next {v : UInt64} (h : Drawn s v) : Drawn s (otlpJitterNext v).1

theorem Drawn.trans {s v u : UInt64} (h : Drawn s v) (h' : Drawn v u) : Drawn s u := by
  induction h' with
  | none => exact h
  | next _ ih => exact .next ih

theorem Drawn.ne_zero {s v : UInt64} (h : Drawn s v) (hs : s ≠ 0) : v ≠ 0 := by
  induction h with
  | none => exact hs
  | next _ ih => exact (otlpJitterNext_ne_zero ih).1

theorem otlpRetryDelayMs_drawn (prng : UInt64) (attempt serverFloorMs : ℕ) (cfg : OtlpRetryCfg) :
    Drawn prng (otlpRetryDelayMs prng attempt serverFloorMs cfg).1 := by
  unfold otlpRetryDelayMs
  dsimp only
  split
  · exact .none
  · exact .next .none

/-! ### Every step of the exporter -/

variable {ι : Type*} {cap : ℕ}

/-- The jitter of the second world is that of the first after some draws. -/
def JitterDrawn (w w' : World ι cap) : Prop := Drawn w.exp.jitterPrng w'.exp.jitterPrng

theorem JitterDrawn.of_eq {w w' : World ι cap} (h : w'.exp.jitterPrng = w.exp.jitterPrng) : JitterDrawn w w' := by
  rw [JitterDrawn, h]
  exact .none

theorem JitterDrawn.trans {w w' w'' : World ι cap} (h : JitterDrawn w w') (h' : JitterDrawn w' w'') :
    JitterDrawn w w'' := Drawn.trans h h'

theorem emitMoveCommon_drawn (w : World ι cap) (s : Signal) (item : Option ι) :
    JitterDrawn w (emitMoveCommon w s item).1 := by
  cases item with
  | none => exact .none
  | some item =>
    apply JitterDrawn.of_eq
    rw [emitMoveCommon, emitHanded]
    split
    · rfl
    split <;> rfl

theorem emitCloneCommon_drawn (w : World ι cap) (s : Signal) (isNull : Bool) (clone : Option ι) :
    JitterDrawn w (emitCloneCommon w s isNull clone).1 := by
  unfold emitCloneCommon
  split
  · exact .none
  split
  · exact .none
  split
  · exact .none
  · exact emitMoveCommon_drawn w s _

theorem recordOutcome_drawn (w : World ι cap) (o : HttpOutcome) (now : ℕ) :
    JitterDrawn w (recordOutcome w o now) := by
  by_cases hretry : retries w.exp o.status = true
  · rw [recordOutcome_armed now hretry]
    exact otlpRetryDelayMs_drawn _ _ _ _
  · rw [recordOutcome_ended now (Bool.not_eq_true _ ▸ hretry)]
    exact .of_eq (count_jitterPrng _ _)

theorem stepInFlight_drawn (w : World ι cap) (io : Http.IoEnv) (now : ℕ) :
    JitterDrawn w (stepInFlight w io now) := by
  unfold stepInFlight
  split
  · exact .none
  · dsimp only
    split
    · exact .none
    · next o r keepalive hended =>
      obtain ⟨net, kept, heq⟩ := requestAnswered_record w o r keepalive now
      rw [heq]
      exact recordOutcome_drawn (w.answered o.status keepalive) o now

theorem tryStartPost_drawn (w : World ι cap) (s : Signal) (env : BuildEnv) :
    JitterDrawn w (tryStartPost w s env).1 := by
  unfold tryStartPost
  split
  · exact .none
  split
  · next hspec =>
    obtain ⟨net, obs, rfl, -, -⟩ := specBuildRequest_error hspec
    exact .none
  · next hspec =>
    obtain ⟨net, k, rfl, -, -⟩ := specBuildRequest_ok hspec
    exact .none

theorem drainOne_drawn {w w' : World ι cap} {s : Signal} {now : ℕ} (h : drainOne w s now = some w') :
    JitterDrawn w w' := by
  unfold drainOne at h
  split at h
  · split at h
    · contradiction
    · cases h
      exact .none
  · contradiction

theorem nullTransportPost_drawn {w w' : World ι cap} {nullStatus : ℤ} {now : ℕ}
    (h : nullTransportPost w nullStatus now = some w') : JitterDrawn w w' := by
  unfold nullTransportPost at h
  split at h
  · contradiction
  · next s hs =>
    cases h
    exact recordOutcome_drawn (nullPosted w s) _ now

theorem backoffRetry_drawn (w : World ι cap) (env : BuildEnv) (now : ℕ) :
    JitterDrawn w (backoffRetry w env now) := by
  unfold backoffRetry
  split
  · dsimp only
    split
    · exact .none
    · exact tryStartPost_drawn { w with exp := { w.exp with backoffArmed := false } } _ env
  · exact .none

theorem tickStep_drawn (w : World ι cap) (f : Frame) (env : TickEnv) : JitterDrawn w (tickStep w f env).world := by
  cases hpc : f.pc with
  | drain s =>
    simp only [tickStep, hpc]
    split
    · next w' hdrain => exact drainOne_drawn hdrain
    · exact .none
  | nullTransport =>
    simp only [tickStep, hpc]
    split
    · split
      · next w' hpost => exact nullTransportPost_drawn hpost
      · exact .none
    · exact .none
  | beginStart =>
    simp only [tickStep, hpc]
    split <;> exact .none
  | start s shutdown nowMs =>
    simp only [tickStep, hpc]
    split
    · exact .none
    split
    · exact tryStartPost_drawn w s env.build
    · exact .none
  | stepInFlight =>
    simp only [tickStep, hpc]
    exact stepInFlight_drawn w env.io env.now
  | backoffRetry =>
    simp only [tickStep, hpc]
    exact backoffRetry_drawn w env.build env.now
  | loop =>
    simp only [tickStep, hpc]
    split <;> exact .none

theorem flushBackoff_drawn (w : World ι cap) (s : Signal) (attempt : ℕ) : JitterDrawn w (flushBackoff w s attempt) :=
  otlpRetryDelayMs_drawn _ _ _ _

theorem flushLoop_drawn {w w' : World ι cap} {s : Signal} {body : Bytes} {attempt : ℕ} {attempts : List AttemptEnv}
    {st : OtlpStatus} (h : flushLoop w s body attempt attempts = some (w', st)) : JitterDrawn w w' := by
  induction attempts generalizing w attempt with
  | nil => simp [flushLoop] at h
  | cons env attempts ih =>
    rw [flushLoop] at h
    split at h
    · contradiction
    next w₁ a honce =>
    obtain ⟨net, evs, -, -, rfl⟩ := flushPostOnce_eq honce
    split at h
    · cases h
      exact .none
    dsimp only at h
    have hwait : JitterDrawn w (if attempt < (w.flushed net w.exp.jitterPrng evs).exp.maxRetries then
        flushBackoff (w.flushed net w.exp.jitterPrng evs) s attempt else w.flushed net w.exp.jitterPrng evs) := by
      split
      · exact flushBackoff_drawn (w.flushed net w.exp.jitterPrng evs) s attempt
      · exact .none
    generalize (if attempt < (w.flushed net w.exp.jitterPrng evs).exp.maxRetries then
        flushBackoff (w.flushed net w.exp.jitterPrng evs) s attempt else w.flushed net w.exp.jitterPrng evs) = w₂
      at h hwait
    split at h
    · exact hwait.trans (ih h)
    · cases h
      exact hwait

theorem flushEncoded_drawn {w w' : World ι cap} {s : Signal} {env : FlushEnv} {st : OtlpStatus}
    (h : flushEncoded w s env = some (w', st)) : JitterDrawn w w' := by
  unfold flushEncoded at h
  split at h
  · cases h
    exact .none
  split at h
  · cases h
    exact .none
  · unfold flushSync at h
    split at h
    · cases h
      exact .none
    · exact flushLoop_drawn h

theorem flushItem_drawn {w w' : World ι cap} {s : Signal} {isNull : Bool} {env : FlushEnv} {st : OtlpStatus}
    (h : flushItem w s isNull env = some (w', st)) : JitterDrawn w w' := by
  unfold flushItem at h
  split at h
  · cases h
    exact .none
  dsimp only at h
  split at h
  · contradiction
  · next w₁ henc =>
    cases h
    have hdrawn := flushEncoded_drawn henc
    exact hdrawn
  · next w₁ st₁ hne henc =>
    cases h
    have hdrawn := flushEncoded_drawn henc
    exact hdrawn

/-- **Every step** of the exporter moves the jitter by draws alone. -/
theorem step_drawn {x y : State ι cap} {l : Label ι} (h : step x l = some y) : JitterDrawn x.world y.world := by
  cases stepped h with
  | emitMove s item hlive => exact emitMoveCommon_drawn x.world s item
  | emit s isNull clone hlive => exact emitCloneCommon_drawn x.world s isNull clone
  | shutdown hlive => exact .of_eq rfl
  | tick maxWaitMs now hidle => exact .of_eq rfl
  | tickStep f env hphase => exact tickStep_drawn x.world f env
  | flushMetric isNull env w st hidle hflush | flushLog isNull env w st hidle hflush => exact flushItem_drawn hflush
  | free hidle => exact .of_eq (by rw [otlpExporterFree_exp])

theorem jitterPrng_of_create {opts : OtlpExporterOpts} {env : CreateEnv}
    {e : OtlpExporter ι (normalizeOpts opts).queueCapacity} (h : otlpExporterCreate ι opts env = some e) :
    e.jitterPrng ≠ 0 := by
  have hseed : (if env.seed = 0 then 0x9E3779B97F4A7C15 else env.seed) ≠ 0 := by
    split
    · decide
    · next hne => exact hne
  unfold otlpExporterCreate createNormalized at h
  split at h
  · contradiction
  split at h
  · split at h
    · contradiction
    split at h
    · contradiction
    split at h
    · contradiction
    split at h
    · contradiction
    · cases h
      exact hseed
  · contradiction

theorem run_drawn {x y : State ι cap} {ls : List (Label ι)} (h : Steps.run step x ls = some y) :
    JitterDrawn x.world y.world := by
  have hstart : JitterDrawn x.world x.world := .of_eq rfl
  exact Steps.run_invariant (P := fun z => JitterDrawn x.world z.world)
    (fun _ _ _ hdrawn hstep => hdrawn.trans (step_drawn hstep)) hstart h

/-- **The generators never degenerate.** Under any number of threads, from any seed of a tracer, its state is never
zero, no word of an identifier is, the retry is never entered, and what a call returns is not all zero; and the
jitter of an exporter is never zero in a run. -/
theorem generators_never_zero {T : Type*} [DecidableEq T] (mono threadId pid : UInt64) :
    (∀ s ≠ 0, Api.xorshift64s s ≠ 0) ∧ Function.Injective Api.xorshift64s ∧
    (∀ as, ∀ s : Api.Threads.Shared T,
      Steps.run Api.Threads.step (.init (Api.otlpTracerCreate mono threadId pid).prngState.1) as = some s →
        s.prngState ≠ 0 ∧ s.retries = 0 ∧ (∀ v ∈ s.written, v ≠ 0) ∧
          ∀ r ∈ s.returned, r.out.length = 8 * r.words ∧ Api.Threads.OfWords r.words r.out ∧
            (0 < r.words → ∃ b ∈ r.out, b ≠ 0)) ∧
    (∀ s ≠ 0, ∀ v, Drawn s v → v ≠ 0) ∧
    ∀ opts env (e : OtlpExporter ι (normalizeOpts opts).queueCapacity), otlpExporterCreate ι opts env = some e →
      e.jitterPrng ≠ 0 ∧ ∀ nullTransport fn ls y,
        Steps.run step (State.init e nullTransport fn) ls = some y → y.world.exp.jitterPrng ≠ 0 := by
  refine ⟨fun s hs => Api.xorshift64s_ne_zero hs, Api.Threads.xorshift64s_injective, fun as s hrun => ?_,
    fun s hs v hdrawn => hdrawn.ne_zero hs, fun opts env e hcreate => ?_⟩
  · have hinv := Api.Threads.run_inv (Api.Threads.inv_init (Api.otlpTracerCreate mono threadId pid).prngState.2) hrun
    refine ⟨hinv.prngState, hinv.retries, hinv.written, fun r hr => ?_⟩
    have hwords := hinv.returned r hr
    exact ⟨hwords.length_eq, hwords, hwords.exists_ne_zero⟩
  · have hseed := jitterPrng_of_create hcreate
    refine ⟨hseed, fun nullTransport fn ls y hrun => ?_⟩
    have hdrawn := run_drawn hrun
    exact Drawn.ne_zero hdrawn hseed

end OtlpC.Exporter
