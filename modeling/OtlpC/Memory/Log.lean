import OtlpC.Memory.Attribute

/-!
# Log records that are given back

The functions of `log.c` that take or free memory.
-/

namespace OtlpC.Memory

open Exporter Api

/-! ### Functions -/

/-- `otlp_log_record_free` of a record of which the texts may still be missing. -/
def otlpLogRecordFreeParts (block : ℕ) (severityText body : Option HeapStr) (attrs : AttrVec) : MemM Unit := do
  otlpFree (severityText.map HeapStr.block)
  otlpFree (body.map HeapStr.block)
  otlpAttrVecFree attrs
  otlpFree (some block)

def otlpLogRecordFree (lr : LogRecord) : MemM Unit :=
  otlpLogRecordFreeParts lr.block lr.severityText (some lr.body) lr.attrs

def otlpLogRecordCreate (severity : UInt32) (body : Option Bytes) : MemM (Option LogRecord) := do
  match ← otlpMalloc sizeofLogRecord with
  | none => return none
  | some c =>
    if !isUtf8 body then
      otlpFree (some c.block)
      return none
    else
      match ← otlpDupStr (some (body.getD [])) with
      | none =>
        otlpFree (some c.block)
        return none
      | some body =>
        return some {
          block := c.block
          severity
          severityText := none
          body
          timestamp := 0
          hasTimestamp := false
          traceId := zeroTraceId
          spanId := zeroSpanId
          hasTraceId := false
          hasSpanId := false
          attrs := .empty }

/-- The old text is freed before the new one is copied. -/
def otlpLogRecordSetSeverityText (lr : LogRecord) (text : Option Bytes) : MemM (OtlpStatus × LogRecord) := do
  if !isUtf8 text then return (.errUtf8, lr)
  else
    otlpFree (lr.severityText.map HeapStr.block)
    let severityText ← otlpDupStr (some (text.getD []))
    return (if text.isSome && severityText.isNone then .errNomem else .ok, { lr with severityText })

def otlpLogRecordSetAttribute (lr : LogRecord) (key : Option Bytes) (arg : AttrArg) :
    MemM (OtlpStatus × LogRecord) := do
  let (st, attrs) ← setAttribute lr.attrs otlpLogMaxAttrs key arg
  return (st, { lr with attrs })

def otlpLogRecordClone (src : LogRecord) : MemM (Option LogRecord) := do
  match ← otlpMalloc sizeofLogRecord with
  | none => return none
  | some c =>
    let severityText ← otlpDupStr (src.severityText.map (·.bytes))
    let body ← otlpDupStr (some src.body.bytes)
    if src.severityText.isSome && severityText.isNone then
      otlpLogRecordFreeParts c.block severityText body .empty
      return none
    else
      match body with
      | none =>
        otlpLogRecordFreeParts c.block severityText none .empty
        return none
      | some body =>
        match ← otlpAttrVecCopy src.attrs with
        | .error _ =>
          otlpLogRecordFreeParts c.block severityText (some body) .empty
          return none
        | .ok attrs => return some { src with block := c.block, severityText, body, attrs }

def logCall (lr : LogRecord) : LogCall → MemM (OtlpStatus × LogRecord)
  | .setTimestamp t => return otlpLogRecordSetTimestamp lr t
  | .markTimestamp now => return otlpLogRecordMarkTimestamp lr now
  | .setTraceId id => return otlpLogRecordSetTraceId lr id
  | .setSpanId id => return otlpLogRecordSetSpanId lr id
  | .setSeverityText text => otlpLogRecordSetSeverityText lr text
  | .setAttribute key arg => otlpLogRecordSetAttribute lr key arg

/-! ### What each owns -/

abbrev Creates {α : Type} (leaves : α → List Leaf) (f : MemM (Option α)) : Prop :=
  Owns 0 f fun r => (r.map fun x => blocks (leaves x)).getD 0

/-- After a call the object owns what it owned before and what was allocated, less what was freed. -/
abbrev Changes {α : Type} (leaves : α → List Leaf) (x : α) (f : MemM (OtlpStatus × α)) : Prop :=
  Owns (blocks (leaves x)) f fun r => blocks (leaves r.2)

theorem owns_otlpLogRecordFreeParts (block : ℕ) (severityText body : Option HeapStr) (attrs : AttrVec) :
    Owns ({block} + (optBlock (body.map HeapStr.block) + (optBlock (severityText.map HeapStr.block) +
      blocks (attrLeaves attrs)))) (otlpLogRecordFreeParts block severityText body attrs) fun _ => 0 := by
  refine (owns_otlpFree _).step (r := {block} + (optBlock (body.map HeapStr.block) + blocks (attrLeaves attrs)))
    (by abel) fun _ => ?_
  refine (owns_otlpFree _).step (r := {block} + blocks (attrLeaves attrs)) (by abel) fun _ => ?_
  refine (frees_otlpAttrVecFree attrs).step (r := {block}) (by abel) fun _ => ?_
  exact (owns_otlpFree (some block)).conseq (zero_add _) fun _ => rfl

theorem blocks_logLeaves (lr : LogRecord) : blocks lr.leaves = {lr.block} + ({lr.body.block} +
    (optBlock (lr.severityText.map HeapStr.block) + blocks (attrLeaves lr.attrs))) := by
  simp [LogRecord.leaves]

theorem frees_otlpLogRecordFree : Frees LogRecord.leaves otlpLogRecordFree := fun lr =>
  (owns_otlpLogRecordFreeParts lr.block lr.severityText (some lr.body) lr.attrs).conseq (blocks_logLeaves lr)
    fun _ => rfl

theorem blocks_attrLeaves_empty : blocks (attrLeaves .empty) = 0 := rfl

theorem creates_otlpLogRecordCreate (severity : UInt32) (body : Option Bytes) :
    Creates LogRecord.leaves (otlpLogRecordCreate severity body) := by
  refine (owns_otlpMalloc _).bind fun c => ?_
  cases c with
  | none => exact .pure rfl
  | some c =>
    dsimp only
    split
    · exact (owns_otlpFree (some c.block)).bind fun _ => .pure rfl
    refine (owns_otlpDupStr _).step (zero_add _).symm fun s => ?_
    cases s with
    | none => exact (owns_otlpFree (some c.block)).step (add_comm _ _) fun _ => .pure rfl
    | some s => exact .pure (add_comm _ _)

/-- **The copy of a log record** is all there or leaves nothing behind. -/
theorem creates_otlpLogRecordClone (src : LogRecord) : Creates LogRecord.leaves (otlpLogRecordClone src) := by
  refine (owns_otlpMalloc _).bind fun c => ?_
  cases c with
  | none => exact .pure rfl
  | some c =>
    refine (owns_otlpDupStr _).step (zero_add _).symm fun text => ?_
    refine (owns_otlpDupStr _).step (zero_add _).symm fun body => ?_
    have hfree : Owns (optBlock (body.map HeapStr.block) + (optBlock (text.map HeapStr.block) + {c.block}))
        (otlpLogRecordFreeParts c.block text body .empty) fun _ => 0 := by
      refine (owns_otlpLogRecordFreeParts c.block text body .empty).conseq ?_ fun _ => rfl
      rw [blocks_attrLeaves_empty]
      abel
    split
    · exact hfree.bind fun _ => .pure rfl
    cases body with
    | none => exact hfree.bind fun _ => .pure rfl
    | some body =>
      refine (builds_otlpAttrVecCopy src.attrs).step (zero_add _).symm fun attrs => ?_
      cases attrs with
      | error st => exact hfree.step (add_comm _ _) fun _ => .pure rfl
      | ok attrs =>
        refine .pure ?_
        simp only [okOwned_ok, Option.map_some, Option.getD_some, blocks_logLeaves, optBlock_some]
        abel

/-- **A call on a log record** leaks nothing and frees nothing twice. -/
theorem changes_logCall (lr : LogRecord) (c : LogCall) : Changes LogRecord.leaves lr (logCall lr c) := by
  cases c with
  | setTimestamp t => exact .pure rfl
  | markTimestamp now => cases now <;> exact .pure rfl
  | setTraceId id =>
    cases id with
    | none => exact .pure rfl
    | some id =>
      rw [logCall, otlpLogRecordSetTraceId]
      split <;> exact .pure rfl
  | setSpanId id =>
    cases id with
    | none => exact .pure rfl
    | some id =>
      rw [logCall, otlpLogRecordSetSpanId]
      split <;> exact .pure rfl
  | setSeverityText text =>
    rw [logCall, otlpLogRecordSetSeverityText]
    split
    · exact .pure rfl
    · refine (owns_otlpFree _).step
        (r := {lr.block} + ({lr.body.block} + blocks (attrLeaves lr.attrs))) ?_ fun _ => ?_
      · rw [blocks_logLeaves]
        abel
      · refine (owns_otlpDupStr _).step rfl fun s => .pure ?_
        rw [blocks_logLeaves]
        abel
  | setAttribute key arg =>
    refine (owns_setAttribute lr.attrs otlpLogMaxAttrs key arg).step
      (r := {lr.block} + ({lr.body.block} + optBlock (lr.severityText.map HeapStr.block))) ?_ fun r => .pure ?_
    · rw [blocks_logLeaves]
      abel
    · rw [blocks_logLeaves]
      abel

end OtlpC.Memory
