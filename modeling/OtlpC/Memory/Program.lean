import OtlpC.Memory.Erasure

/-!
# Programs that create, change, copy and free

An application holds spans, log records and metrics, and calls the library in any order. Whatever requests the
allocator refuses, the live blocks are at any time those of the objects the application holds, each of them owned
once, and no call frees a block that is not live (`live_eq_owned`). So when the last object is freed nothing is left,
and the objects are those that the functions without the ledger make (`erases_runAll`).
-/

namespace OtlpC.Memory

open Exporter Api

/-! ### Objects -/

inductive Obj where
  | span (s : Span)
  | log (lr : LogRecord)
  | metric (m : Metric)

/-- A call that changes an object of the kind. -/
inductive ObjCall where
  | span (c : SpanCall)
  | log (c : LogCall)
  | metric (c : MetricCall)

def Obj.leaves : Obj → List Leaf
  | .span s => s.leaves
  | .log lr => lr.leaves
  | .metric m => m.leaves

/-- `otlp_span_free`, `otlp_log_record_free` and `otlp_metric_free`. -/
def Obj.free : Obj → MemM Unit
  | .span s => otlpSpanFree s
  | .log lr => otlpLogRecordFree lr
  | .metric m => otlpMetricFree m

/-- `otlp_span_clone`, `otlp_log_record_clone` and `otlp_metric_clone`. -/
def Obj.clone : Obj → MemM (Option Obj)
  | .span s => Option.map .span <$> otlpSpanClone s
  | .log lr => Option.map .log <$> otlpLogRecordClone lr
  | .metric m => Option.map .metric <$> otlpMetricClone m

/-- A call of another kind does not compile; it leaves the object as it is. -/
def Obj.call (fp : Fp) : Obj → ObjCall → MemM Obj
  | .span s, .span c => do
    let r ← spanCall s c
    return .span r.2
  | .log lr, .log c => do
    let r ← logCall lr c
    return .log r.2
  | .metric m, .metric c => do
    let r ← metricCall fp m c
    return .metric r.2
  | o, _ => return o

/-! ### Programs -/

/-- What an application does; objects are named by their places. -/
inductive Action where
  | createSpan (name : Option Bytes)
  | createLog (severity : UInt32) (body : Option Bytes)
  | createMetric (type : UInt32) (name unit description : Option Bytes) (histogramBounds : Option (List Double))
  | call (i : ℕ) (c : ObjCall)
  | clone (i : ℕ)
  | free (i : ℕ)

def hold (objs : List Obj) (o : Option Obj) : List Obj := objs ++ o.toList

def Action.run (fp : Fp) (objs : List Obj) : Action → MemM (List Obj)
  | createSpan name => do
    let s ← otlpSpanCreate name
    return hold objs (s.map .span)
  | createLog severity body => do
    let lr ← otlpLogRecordCreate severity body
    return hold objs (lr.map .log)
  | createMetric type name unit description histogramBounds => do
    let m ← otlpMetricCreate type name unit description histogramBounds
    return hold objs (m.map .metric)
  | call i c =>
    match objs[i]? with
    | none => return objs
    | some o => do
      let o ← o.call fp c
      return objs.set i o
  | clone i =>
    match objs[i]? with
    | none => return objs
    | some o => do
      let o ← o.clone
      return hold objs o
  | free i =>
    match objs[i]? with
    | none => return objs
    | some o => do
      o.free
      return objs.eraseIdx i

def runAll (fp : Fp) : List Action → List Obj → MemM (List Obj)
  | [], objs => return objs
  | a :: as, objs => do
    let objs ← a.run fp objs
    runAll fp as objs

/-! ### The ledger of a program -/

def heldBlocks (objs : List Obj) : Multiset ℕ := (objs.map fun o => blocks o.leaves).sum

theorem frees_objFree : Frees Obj.leaves Obj.free := by
  intro o
  cases o with
  | span s => exact frees_otlpSpanFree s
  | log lr => exact frees_otlpLogRecordFree lr
  | metric m => exact frees_otlpMetricFree m

theorem creates_objClone (o : Obj) : Creates Obj.leaves o.clone := by
  cases o with
  | span s => exact (creates_otlpSpanClone s).map fun r => by cases r <;> rfl
  | log lr => exact (creates_otlpLogRecordClone lr).map fun r => by cases r <;> rfl
  | metric m => exact (creates_otlpMetricClone m).map fun r => by cases r <;> rfl

theorem owns_objCall (fp : Fp) (o : Obj) (c : ObjCall) :
    Owns (blocks o.leaves) (o.call fp c) fun o => blocks o.leaves := by
  cases o with
  | span s =>
    cases c with
    | span c => exact (changes_spanCall s c).bind fun _ => .pure rfl
    | log c | metric c => exact .pure rfl
  | log lr =>
    cases c with
    | log c => exact (changes_logCall lr c).bind fun _ => .pure rfl
    | span c | metric c => exact .pure rfl
  | metric m =>
    cases c with
    | metric c => exact (changes_metricCall fp m c).bind fun _ => .pure rfl
    | span c | log c => exact .pure rfl

theorem heldBlocks_hold (objs : List Obj) (o : Option Obj) :
    heldBlocks (hold objs o) = (o.map fun o => blocks o.leaves).getD 0 + heldBlocks objs := by
  cases o <;> simp [heldBlocks, hold, add_comm]

theorem owns_hold {α : Type} {leaves : α → List Leaf} {f : MemM (Option α)} (hf : Creates leaves f) (objs : List Obj)
    {mk : α → Obj} (hmk : ∀ x, (mk x).leaves = leaves x) :
    Owns (heldBlocks objs) (do
      let x ← f
      return hold objs (x.map mk)) heldBlocks := by
  refine hf.step (zero_add _).symm fun x => .pure ?_
  rw [heldBlocks_hold]
  cases x with
  | none => rfl
  | some x => simp [hmk]

/-- **One action** turns the blocks of the objects held before into those of the objects held after. -/
theorem owns_run (fp : Fp) (objs : List Obj) (a : Action) : Owns (heldBlocks objs) (a.run fp objs) heldBlocks := by
  cases a with
  | createSpan name => exact owns_hold (creates_otlpSpanCreate name) objs fun _ => rfl
  | createLog severity body => exact owns_hold (creates_otlpLogRecordCreate severity body) objs fun _ => rfl
  | createMetric type name unit description histogramBounds =>
    exact owns_hold (creates_otlpMetricCreate type name unit description histogramBounds) objs fun _ => rfl
  | call i c =>
    rw [Action.run]
    split
    · exact .pure rfl
    · next o ho =>
      obtain ⟨r, hsum, hmodify⟩ := sum_map_modify (fun o : Obj => blocks o.leaves) ho
      refine (owns_objCall fp o c).step hsum fun o' => .pure ?_
      rw [heldBlocks, List.set_eq_modify, hmodify]
  | clone i =>
    rw [Action.run]
    split
    · exact .pure rfl
    · next o ho =>
      refine (creates_objClone o).step (zero_add _).symm fun o' => .pure ?_
      rw [heldBlocks_hold]
  | free i =>
    rw [Action.run]
    split
    · exact .pure rfl
    · next o ho =>
      obtain ⟨hlt, rfl⟩ := List.getElem?_eq_some_iff.1 ho
      refine (frees_objFree objs[i]).step ?_ fun _ => .pure (zero_add _)
      exact ((List.getElem_cons_eraseIdx_perm hlt).map fun o => blocks o.leaves).sum_eq.symm

theorem owns_runAll (fp : Fp) (as : List Action) (objs : List Obj) :
    Owns (heldBlocks objs) (runAll fp as objs) heldBlocks := by
  induction as generalizing objs with
  | nil => exact .pure rfl
  | cons a as ih => exact (owns_run fp objs a).bind ih

/-- **No leak, no double free**: after any program, whatever the allocator refused, the live blocks are those of the
objects that are held, none of them twice, and every block that was freed was live. -/
theorem live_eq_owned (fp : Fp) (grants : ℕ → ℕ → Bool) (as : List Action) :
    (runAll fp as [] (Mem.new grants)).2.faults = 0 ∧
    (runAll fp as [] (Mem.new grants)).2.live.val = heldBlocks (runAll fp as [] (Mem.new grants)).1 ∧
    (heldBlocks (runAll fp as [] (Mem.new grants)).1).Nodup := by
  obtain ⟨hfaults, hlive⟩ := owns_runAll fp as [] (Mem.new grants) 0 rfl rfl
  have hlive := hlive.trans (add_zero _)
  exact ⟨hfaults, hlive, hlive ▸ (runAll fp as [] (Mem.new grants)).2.live.nodup⟩

/-- A record, a copy of it for which the fifth request is refused, and the record freed. -/
example : (runAll .trivial [.createLog 9 (some [104, 105]), .call 0 (.log (.setAttribute (some [107]) (.bool true))),
    .clone 0, .free 0] [] (Mem.new fun n _ => n != 5)).2.live = ∅ := by decide +kernel

/-! ### What the objects are -/

/-- The copy that the functions without the ledger make. -/
def Obj.copied (h : Heap) : Obj → Option Obj × Heap
  | .span s => ((Api.otlpSpanClone h s).1.map .span, (Api.otlpSpanClone h s).2)
  | .log lr => ((Api.otlpLogRecordClone h lr).1.map .log, (Api.otlpLogRecordClone h lr).2)
  | .metric m => ((Api.otlpMetricClone h m).1.map .metric, (Api.otlpMetricClone h m).2)

def Obj.called (fp : Fp) (h : Heap) : Obj → ObjCall → Obj × Heap
  | .span s, .span c => (.span (c.run h s).2.1, (c.run h s).2.2)
  | .log lr, .log c => (.log (c.run h lr).2.1, (c.run h lr).2.2)
  | .metric m, .metric c => (.metric (c.run fp h m).2.1, (c.run fp h m).2.2)
  | o, _ => (o, h)

/-- The action, as the functions without the ledger carry it out. -/
def Action.done (fp : Fp) (objs : List Obj) (h : Heap) : Action → List Obj × Heap
  | createSpan name =>
    let r := Api.otlpSpanCreate h name
    (hold objs (r.1.map .span), r.2)
  | createLog severity body =>
    let r := Api.otlpLogRecordCreate h severity body
    (hold objs (r.1.map .log), r.2)
  | createMetric type name unit description histogramBounds =>
    let r := Api.otlpMetricCreate h type name unit description histogramBounds
    (hold objs (r.1.map .metric), r.2)
  | call i c =>
    match objs[i]? with
    | none => (objs, h)
    | some o => (objs.set i (o.called fp h c).1, (o.called fp h c).2)
  | clone i =>
    match objs[i]? with
    | none => (objs, h)
    | some o => (hold objs (o.copied h).1, (o.copied h).2)
  | free i => (objs.eraseIdx i, h)

def doneAll (fp : Fp) : List Action → List Obj → Heap → List Obj × Heap
  | [], objs, h => (objs, h)
  | a :: as, objs, h => doneAll fp as (a.done fp objs h).1 (a.done fp objs h).2

theorem erases_objCall (fp : Fp) (o : Obj) (c : ObjCall) : Erases (o.call fp c) (o.called fp · c) := by
  intro s
  cases o with
  | span x =>
    cases c with
    | span c =>
      refine (erases_spanCall x c).step fun st x' s' hr => ?_
      show _ = ((_ : Obj), _)
      rw [hr]
      rfl
    | log c | metric c => rfl
  | log x =>
    cases c with
    | log c =>
      refine (erases_logCall x c).step fun st x' s' hr => ?_
      show _ = ((_ : Obj), _)
      rw [hr]
      rfl
    | span c | metric c => rfl
  | metric x =>
    cases c with
    | metric c =>
      refine (erases_metricCall fp x c).step fun st x' s' hr => ?_
      show _ = ((_ : Obj), _)
      rw [hr]
      rfl
    | span c | log c => rfl

theorem erases_map {α β : Type} {f : MemM α} {g : Heap → α × Heap} (hf : Erases f g) (k : α → β) :
    Erases (k <$> f) fun h => (k (g h).1, (g h).2) := by
  intro s
  exact (congrArg (fun r => (k r.1, r.2)) (hf s) :)

theorem erases_objClone (o : Obj) : Erases o.clone o.copied := by
  cases o with
  | span s => exact erases_map (erases_otlpSpanClone s) _
  | log lr => exact erases_map (erases_otlpLogRecordClone lr) _
  | metric m => exact erases_map (erases_otlpMetricClone m) _

theorem keeps_objFree (o : Obj) : Keeps o.free := by
  cases o with
  | span s => exact keeps_otlpSpanFree s
  | log lr => exact keeps_otlpLogRecordFreeParts _ _ _ _
  | metric m => exact keeps_otlpMetricFreeParts _

theorem erases_run (fp : Fp) (objs : List Obj) (a : Action) : Erases (a.run fp objs) (a.done fp objs ·) := by
  cases a with
  | createSpan name => exact erases_map (erases_otlpSpanCreate name) fun r => hold objs (r.map .span)
  | createLog severity body => exact erases_map (erases_otlpLogRecordCreate severity body) fun r => hold objs (r.map .log)
  | createMetric type name unit description histogramBounds =>
    exact erases_map (erases_otlpMetricCreate type name unit description histogramBounds) fun r =>
      hold objs (r.map .metric)
  | call i c =>
    intro s
    dsimp only [Action.run, Action.done]
    cases objs[i]? with
    | none => rfl
    | some o => exact erases_map (erases_objCall fp o c) (objs.set i) s
  | clone i =>
    intro s
    dsimp only [Action.run, Action.done]
    cases objs[i]? with
    | none => rfl
    | some o => exact erases_map (erases_objClone o) (hold objs) s
  | free i =>
    intro s
    dsimp only [Action.run, Action.done]
    rcases ho : objs[i]? with _ | o
    · rw [List.eraseIdx_of_length_le (List.getElem?_eq_none_iff.1 ho)]
      rfl
    · exact (keeps_objFree o).step fun s' hs => Prod.ext rfl hs

/-- **The ledger changes nothing**: a program holds the objects that the functions without it make. -/
theorem erases_runAll (fp : Fp) (as : List Action) (objs : List Obj) :
    Erases (runAll fp as objs) (doneAll fp as objs) := by
  induction as generalizing objs with
  | nil => exact fun s => rfl
  | cons a as ih =>
    intro s
    refine (erases_run fp objs a).step fun objs' s' hr => ?_
    rw [doneAll, hr]
    exact ih objs' s'

end OtlpC.Memory
