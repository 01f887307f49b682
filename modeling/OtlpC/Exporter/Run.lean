import OtlpC.Exporter.Sync
import OtlpC.Lib.Steps

/-!
# Runs of the exporter

The exporter takes small steps. A public call other than `otlp_exporter_tick` is one step; a tick is one
step for each part of its loop, for each signal a part looks at and for each item drained, so that the
emits of other threads may come between any two of them. The label of a step holds the call's arguments
and what the environment answers in it.
-/

namespace OtlpC.Exporter

open Http

/-- Where a tick is. Part 3 holds the shutdown flag and the clock it has read. -/
inductive Pc where
  | drain (s : Signal)
  | nullTransport
  | beginStart
  | start (s : Signal) (shutdown : Bool) (nowMs : ℕ)
  | stepInFlight
  | backoffRetry
  | loop
deriving Repr, DecidableEq

/-- The locals of `otlp_exporter_tick`. -/
structure Frame where
  deadline : ℕ
  workDone : Bool
  pc : Pc
deriving Repr, DecidableEq

/-- Between public calls, inside a tick, or after `otlp_exporter_free`. -/
inductive Phase where
  | idle
  | tick (f : Frame)
  | freed
deriving Repr, DecidableEq

structure State (ι : Type*) (cap : ℕ) where
  world : World ι cap
  phase : Phase

/-- What the environment answers in a step of a tick. -/
structure TickEnv where
  now : ℕ
  build : BuildEnv
  io : IoEnv
  nullStatus : ℤ

inductive Label (ι : Type*) where
  | emitMove (s : Signal) (item : Option ι)
  | emit (s : Signal) (isNull : Bool) (clone : Option ι)
  | shutdown
  | tick (maxWaitMs now : ℕ)
  | tickStep (env : TickEnv)
  | flushMetric (isNull : Bool) (env : FlushEnv)
  | flushLog (isNull : Bool) (env : FlushEnv)
  | free

variable {ι : Type*} {cap : ℕ}

/-- Where part 1 goes on when signal `s` is drained, and part 3 when it is looked at. -/
def drainNext (s : Signal) : Pc := (s.next.map Pc.drain).getD .nullTransport
def startNext (s : Signal) (shutdown : Bool) (nowMs : ℕ) : Pc :=
  (s.next.map fun s => Pc.start s shutdown nowMs).getD .stepInFlight

/-- The next step of `otlp_exporter_tick`. -/
def tickStep (w : World ι cap) (f : Frame) (env : TickEnv) : State ι cap :=
  match f.pc with
  | .drain s =>
    match drainOne w s env.now with
    | some w => ⟨w, .tick { f with workDone := true }⟩
    | none => ⟨w, .tick { f with pc := drainNext s }⟩
  | .nullTransport =>
    if w.exp.nullTransport && !w.exp.backoffArmed then
      match nullTransportPost w env.nullStatus env.now with
      | some w => ⟨w, .tick { f with workDone := true, pc := .loop }⟩
      | none => ⟨w, .tick { f with pc := .beginStart }⟩
    else ⟨w, .tick { f with pc := .beginStart }⟩
  | .beginStart =>
    if w.exp.inFlight.isNone && !w.exp.backoffArmed then
      ⟨w, .tick { f with pc := .start .span w.exp.shutdownRequested env.now }⟩
    else ⟨w, .tick { f with pc := .stepInFlight }⟩
  | .start s shutdown nowMs =>
    if w.exp.inFlight.isSome || w.exp.backoffArmed then ⟨w, .tick { f with pc := .stepInFlight }⟩
    else if batchReady w.exp s shutdown nowMs then
      let (w, st) := tryStartPost w s env.build
      ⟨w, .tick { f with workDone := f.workDone || st == .ok, pc := startNext s shutdown nowMs }⟩
    else ⟨w, .tick { f with pc := startNext s shutdown nowMs }⟩
  | .stepInFlight =>
    ⟨stepInFlight w env.io env.now,
      .tick { f with workDone := f.workDone || w.exp.inFlight.isSome, pc := .backoffRetry }⟩
  | .backoffRetry =>
    let w' := backoffRetry w env.build env.now
    let retried := w.exp.backoffArmed && !w'.exp.backoffArmed && w'.exp.inFlight.isSome
    ⟨w', .tick { f with workDone := f.workDone || retried, pc := .loop }⟩
  | .loop =>
    if f.workDone && env.now < f.deadline then
      ⟨w, .tick { f with workDone := false, pc := .drain .span }⟩
    else ⟨w, .idle⟩

def step (x : State ι cap) : Label ι → Option (State ι cap)
  | .emitMove s item =>
    if x.phase = .freed then none else some { x with world := (emitMoveCommon x.world s item).1 }
  | .emit s isNull clone =>
    if x.phase = .freed then none else some { x with world := (emitCloneCommon x.world s isNull clone).1 }
  | .shutdown =>
    if x.phase = .freed then none else some { x with world := otlpExporterShutdown x.world }
  | .tick maxWaitMs now =>
    if x.phase = .idle then
      some { x with phase := .tick { deadline := Queue.u64 (now + maxWaitMs), workDone := false,
                                     pc := .drain .span } }
    else none
  | .tickStep env =>
    match x.phase with
    | .tick f => some (tickStep x.world f env)
    | _ => none
  | .flushMetric isNull env =>
    if x.phase = .idle then
      (otlpExporterFlushMetric x.world isNull env).map fun r => { x with world := r.1 }
    else none
  | .flushLog isNull env =>
    if x.phase = .idle then
      (otlpExporterFlushLog x.world isNull env).map fun r => { x with world := r.1 }
    else none
  | .free =>
    if x.phase = .idle then some ⟨otlpExporterFree x.world, .freed⟩ else none

/-- The exporter as `otlp_exporter_create` returns it, before the first call, with the transport chosen
by `otlp_exporter_set_null_transport` for the whole run. -/
def State.init (e : OtlpExporter ι cap) (nullTransport nullTransportStatusFn : Bool) : State ι cap :=
  { world := { exp := { e with nullTransport, nullTransportStatusFn }, net := Net.empty,
               inFlightItems := [], history := [] }
    phase := .idle }

/-- What a step is: the guard of its label, and the state that it leads to. -/
inductive Stepped (x : State ι cap) : Label ι → State ι cap → Prop where
  | emitMove (s : Signal) (item : Option ι) (hlive : x.phase ≠ .freed) :
      Stepped x (.emitMove s item) { x with world := (emitMoveCommon x.world s item).1 }
  | emit (s : Signal) (isNull : Bool) (clone : Option ι) (hlive : x.phase ≠ .freed) :
      Stepped x (.emit s isNull clone) { x with world := (emitCloneCommon x.world s isNull clone).1 }
  | shutdown (hlive : x.phase ≠ .freed) : Stepped x .shutdown { x with world := otlpExporterShutdown x.world }
  | tick (maxWaitMs now : ℕ) (hidle : x.phase = .idle) :
      Stepped x (.tick maxWaitMs now) { x with
        phase := .tick { deadline := Queue.u64 (now + maxWaitMs), workDone := false, pc := .drain .span } }
  | tickStep (f : Frame) (env : TickEnv) (hphase : x.phase = .tick f) :
      Stepped x (.tickStep env) (tickStep x.world f env)
  | flushMetric (isNull : Bool) (env : FlushEnv) (w : World ι cap) (st : OtlpStatus) (hidle : x.phase = .idle)
      (hflush : otlpExporterFlushMetric x.world isNull env = some (w, st)) :
      Stepped x (.flushMetric isNull env) { x with world := w }
  | flushLog (isNull : Bool) (env : FlushEnv) (w : World ι cap) (st : OtlpStatus) (hidle : x.phase = .idle)
      (hflush : otlpExporterFlushLog x.world isNull env = some (w, st)) :
      Stepped x (.flushLog isNull env) { x with world := w }
  | free (hidle : x.phase = .idle) : Stepped x .free ⟨otlpExporterFree x.world, .freed⟩

/-- **Every step** of the exporter, by its label. -/
theorem stepped {x y : State ι cap} {l : Label ι} (h : step x l = some y) : Stepped x l y := by
  cases l with
  | emitMove s item =>
    simp only [step, Option.ite_none_left_eq_some, Option.some.injEq] at h
    obtain ⟨hlive, rfl⟩ := h
    exact .emitMove s item hlive
  | emit s isNull clone =>
    simp only [step, Option.ite_none_left_eq_some, Option.some.injEq] at h
    obtain ⟨hlive, rfl⟩ := h
    exact .emit s isNull clone hlive
  | shutdown =>
    simp only [step, Option.ite_none_left_eq_some, Option.some.injEq] at h
    obtain ⟨hlive, rfl⟩ := h
    exact .shutdown hlive
  | tick maxWaitMs now =>
    simp only [step, Option.ite_none_right_eq_some, Option.some.injEq] at h
    obtain ⟨hidle, rfl⟩ := h
    exact .tick maxWaitMs now hidle
  | tickStep env =>
    simp only [step] at h
    split at h
    · next f hphase =>
      cases h
      exact .tickStep f env hphase
    · contradiction
  | flushMetric isNull env =>
    simp only [step, Option.ite_none_right_eq_some, Option.map_eq_some_iff] at h
    obtain ⟨hidle, ⟨w, st⟩, hflush, rfl⟩ := h
    exact .flushMetric isNull env w st hidle hflush
  | flushLog isNull env =>
    simp only [step, Option.ite_none_right_eq_some, Option.map_eq_some_iff] at h
    obtain ⟨hidle, ⟨w, st⟩, hflush, rfl⟩ := h
    exact .flushLog isNull env w st hidle hflush
  | free =>
    simp only [step, Option.ite_none_right_eq_some, Option.some.injEq] at h
    obtain ⟨hidle, rfl⟩ := h
    exact .free hidle

/-! ### Runs in a given environment -/

/-- Options that name no endpoint but the default one. -/
def plainOpts (batchSize maxRetries : ℕ) : OtlpExporterOpts :=
  { endpoint := none, metricsEndpoint := none, logsEndpoint := none, serviceName := none,
    schemaUrl := none, batchSize, batchMs := 0, maxRetries, backoffInitialMs := 0, backoffMaxMs := 0,
    connectTimeoutMs := 0, readTimeoutMs := 0, flushTimeoutMs := 0, userAgent := none,
    httpHeaders := [], queueCapacity := 4 }

def CreateEnv.fine : CreateEnv := { allocOk := true, attrsOk := true, seed := 1 }

/-- A build in which nothing fails. -/
def BuildEnv.fine : BuildEnv :=
  { bufInitOk := fun _ => true, encoded := .ok [],
    start := { callocOk := true, mallocOk := true, connect := .ok, finish := .ok, now := 0 } }

/-- A step in which the socket takes the whole request, or returns `bytes`. -/
def fineIo (bytes : Bytes) : IoEnv :=
  { finish := .ok, write := .ok, nWritten := 1000, read := .ok, bytes, eof := false, allocOk := true,
    now := 0 }

def emptyResponse (status : ℕ) : Bytes :=
  ascii "HTTP/1.1 " ++ decimal status ++ ascii " \r\nContent-Length:0\r\n\r\n"

def TickEnv.fine (now : ℕ) (bytes : Bytes) : TickEnv :=
  { now, build := .fine, io := fineIo bytes, nullStatus := 200 }

def tickRound (steps now : ℕ) (env : TickEnv) : List (Label ι) :=
  .tick 0 now :: List.replicate steps (.tickStep { env with now })

/-- The exporter that `opts` create, after a run on the real transport. -/
def runFrom (opts : OtlpExporterOpts) (ls : List (Label ι)) :
    Option (State ι (normalizeOpts opts).queueCapacity) :=
  (otlpExporterCreate ι opts .fine).bind fun e => Steps.run step (State.init e false false) ls

theorem runFrom_eq_some {opts : OtlpExporterOpts} {ls : List (Label ι)}
    {y : State ι (normalizeOpts opts).queueCapacity} (h : runFrom opts ls = some y) :
    ∃ e, otlpExporterCreate ι opts .fine = some e ∧ Steps.run step (State.init e false false) ls = some y :=
  Option.bind_eq_some_iff.1 h

end OtlpC.Exporter
