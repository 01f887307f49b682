import OtlpC.Memory.Metric

/-!
# But for the ledger

The functions that keep a ledger return what the functions of the same name return that keep none, and ask for the
same blocks. What is proved of the latter holds of the former.
-/

namespace OtlpC.Memory

open Exporter Api

/-! ### Rules

A proof below follows the code of the two functions call by call: `step` of `Erases`, `Erases₂` or `Keeps` moves both
past their next call, the last one past a call that only the function with the ledger makes.
-/

section Rules

variable {α β γ : Type}

/-- The program gives memory back and takes none, so that what keeps no ledger may leave it out. -/
def Keeps (x : MemM Unit) : Prop := ∀ s, (x s).2.heap = s.heap

theorem Keeps.bind {x y : MemM Unit} (hx : Keeps x) (hy : Keeps y) : Keeps (do x; y) :=
  fun s => (hy (x s).2).trans (hx s)

theorem Keeps.pure : Keeps (Pure.pure ()) := fun _ => rfl

theorem keeps_releaseAll {release : α → MemM Unit} (hrelease : ∀ x, Keeps (release x)) (xs : List α) :
    Keeps (releaseAll release xs) := by
  induction xs with
  | nil => exact .pure
  | cons x xs ih => exact (hrelease x).bind ih

theorem Keeps.step {x : MemM Unit} (hx : Keeps x) {k : Unit → MemM β} {s : Mem} {r : β × Heap}
    (hk : ∀ s', s'.heap = s.heap → erase (k () s') = r) : erase ((x >>= k) s) = r :=
  erase_release hx hk

/-- `Erases` of a call that returns a status and an object, which stand side by side where no ledger is kept. -/
def Erases₂ (f : MemM (α × β)) (g : Heap → α × β × Heap) : Prop :=
  ∀ s, g s.heap = ((f s).1.1, (f s).1.2, (f s).2.heap)

theorem Erases₂.step {f : MemM (α × β)} {g : Heap → α × β × Heap} (hf : Erases₂ f g) {k : α × β → MemM γ} {s : Mem}
    {r : γ × Heap} (hk : ∀ a b s', g s.heap = (a, b, s'.heap) → erase (k (a, b) s') = r) :
    erase ((f >>= k) s) = r :=
  hk _ _ _ (hf s)

def beside (r : α × β × Heap) : (α × β) × Heap := ((r.1, r.2.1), r.2.2)

/-- What is to be shown of such a call, once its parts have been followed. -/
theorem erases₂_of {f : MemM (α × β)} {g : Heap → α × β × Heap} (h : ∀ s, erase (f s) = beside (g s.heap)) :
    Erases₂ f g := by
  intro s
  obtain ⟨hfst, hsnd⟩ := Prod.mk.inj (h s)
  obtain ⟨ha, hb⟩ := Prod.mk.inj hfst
  exact Prod.ext ha.symm (Prod.ext hb.symm hsnd.symm)

/-- A loop that fails halfway gives back what it has built; without a ledger that is only forgotten. -/
theorem erases_buildAll {build : α → MemM (Except OtlpStatus β)} {fill : Heap → α → Except OtlpStatus β × Heap}
    {release : β → MemM Unit} (hbuild : ∀ x, Erases (build x) (fill · x)) (hrelease : ∀ y, Keeps (release y))
    (xs : List α) : Erases (buildAll build release xs) (fillAll fill · xs) := by
  induction xs with
  | nil => exact fun s => rfl
  | cons x xs ih =>
    intro s
    refine (hbuild x).step fun y s₁ hy => ?_
    show _ = fillAll fill s.heap (x :: xs)
    rw [fillAll, hy]
    cases y with
    | error st => rfl
    | ok y =>
      refine ih.step fun ys s₂ hys => ?_
      dsimp only
      rw [hys]
      cases ys with
      | error st => exact (hrelease y).step fun s₃ hs => Prod.ext rfl hs
      | ok ys => rfl

end Rules

/-! ### Releases

Every release is `Keeps`. That is used wherever a function fails and frees what it has made so far: its counterpart
returns at once.
-/

theorem keeps_otlpFree (p : Option ℕ) : Keeps (otlpFree p) := otlpFree_heap p

theorem keeps_releaseScalar (v : Scalar) : Keeps (releaseScalar v) := by
  cases v with
  | string v | bytes v => exact keeps_otlpFree _
  | bool v | int64 v | double v => exact .pure

theorem keeps_releaseEntry (e : HeapStr × Scalar) : Keeps (releaseEntry e) :=
  (keeps_otlpFree _).bind (keeps_releaseScalar e.2)

theorem keeps_freeItems {α : Type} {size : ℕ} {release : α → MemM Unit} (hrelease : ∀ x, Keeps (release x))
    (block : ℕ) (items : Option (HeapArr α size)) : Keeps (freeItems release block items) :=
  (keeps_releaseAll hrelease _).bind ((keeps_otlpFree _).bind (keeps_otlpFree _))

theorem keeps_otlpAttributeReleaseValue (v : AttrValue) : Keeps (otlpAttributeReleaseValue v) := by
  cases v with
  | scalar v => exact keeps_releaseScalar v
  | array block items => exact keeps_freeItems keeps_releaseScalar block items
  | kvlist block entries => exact keeps_freeItems keeps_releaseEntry block entries

theorem keeps_otlpAttributeFree (a : Attribute) : Keeps (otlpAttributeFree a) :=
  (keeps_otlpAttributeReleaseValue a.value).bind (keeps_otlpFree _)

theorem keeps_otlpAttrVecFree (vec : AttrVec) : Keeps (otlpAttrVecFree vec) :=
  (keeps_releaseAll keeps_otlpAttributeFree _).bind (keeps_otlpFree _)

theorem keeps_otlpLogRecordFreeParts (block : ℕ) (severityText body : Option HeapStr) (attrs : AttrVec) :
    Keeps (otlpLogRecordFreeParts block severityText body attrs) :=
  (keeps_otlpFree _).bind ((keeps_otlpFree _).bind ((keeps_otlpAttrVecFree _).bind (keeps_otlpFree _)))

theorem keeps_releaseEvent (e : Event) : Keeps (releaseEvent e) :=
  (keeps_otlpFree _).bind (keeps_otlpAttrVecFree e.attrs)

theorem keeps_otlpSpanFree (s : Span) : Keeps (otlpSpanFree s) := by
  unfold otlpSpanFree
  refine (keeps_otlpFree _).bind ((keeps_otlpFree _).bind ((keeps_otlpFree _).bind ?_))
  refine (keeps_releaseAll keeps_releaseEvent _).bind ((keeps_otlpFree _).bind ?_)
  refine (keeps_releaseAll (fun l : Link => keeps_otlpAttrVecFree l.attrs) _).bind ((keeps_otlpFree _).bind ?_)
  exact (keeps_otlpAttrVecFree _).bind (keeps_otlpFree _)

theorem keeps_otlpMetricFreeParts (m : MetricParts) : Keeps (otlpMetricFreeParts m) :=
  (keeps_releaseAll keeps_otlpFree _).bind ((keeps_otlpAttrVecFree _).bind (keeps_releaseAll keeps_otlpFree _))

/-! ### Attributes

The values that the setters build, from a text or a scalar up to arrays and lists of pairs; the copies of attributes
use the same loops over items.
-/

theorem erases_dupData (data : Bytes) : Erases (dupData data) (Api.dupData · data) := by
  intro s
  show _ = Api.dupData s.heap data
  rw [dupData, Api.dupData]
  split
  · rfl
  · refine (erases_dupArr 1 data).step fun b s' hb => ?_
    rw [hb]
    cases b <;> rfl

theorem erases_dupText (v : Option Bytes) : Erases (dupText v) (Api.dupText · v) := by
  intro s
  show _ = Api.dupText s.heap v
  rw [dupText, Api.dupText]
  split
  · rfl
  · refine (erases_otlpDupStr _).step fun c s' hc => ?_
    rw [hc]
    cases c <;> rfl

/-- A value of one of the five scalar types, with the copy of its text or data. -/
theorem erases_dupValue (nullStatus : OtlpStatus) (v : OtlpValue) :
    Erases (dupValue nullStatus v) (Api.dupValue nullStatus · v) := by
  cases v with
  | string v => exact erases_dupText v
  | bytes data => exact erases_dupData data
  | bool v | int64 v | double v => exact fun s => rfl
  | nullBytes len =>
    intro s
    show _ = Api.dupValue nullStatus s.heap (.nullBytes len)
    rw [dupValue, Api.dupValue]
    split <;> rfl
  | unknown => exact fun s => rfl

/-- The key is freed when the value of its pair cannot be had. -/
theorem erases_entryFill (e : OtlpKv) : Erases (entryFill e) (Api.entryFill · e) := by
  obtain ⟨_ | key, value⟩ := e
  · exact fun s => rfl
  intro s
  show _ = Api.entryFill s.heap ⟨some key, value⟩
  rw [entryFill, Api.entryFill]
  dsimp only
  split
  · rfl
  refine (erases_dupValue .errNomem value).step fun v s₁ hv => ?_
  rw [Api.valueFill, hv]
  cases v with
  | error st => rfl
  | ok v =>
    refine (erases_otlpDupStr _).step fun k s₂ hk => ?_
    dsimp only
    rw [hk]
    cases k with
    | none => exact (keeps_releaseScalar v).step fun s₃ hs => Prod.ext rfl hs
    | some k => rfl

section Items

variable {α β : Type} {size : ℕ} {build : α → MemM (Except OtlpStatus β)}
  {fill : Heap → α → Except OtlpStatus β × Heap} {release : β → MemM Unit}

/-- The elements of a composite, as the builders and the copies that keep no ledger fill them. -/
def filled (fill : Heap → α → Except OtlpStatus β × Heap) (block : ℕ) (xs : List α) (arr : Chunk (xs.length * size))
    (h : Heap) : Except OtlpStatus (ℕ × Option (HeapArr β size)) × Heap :=
  match fillAll fill h xs with
  | (.error st, h) => (.error st, h)
  | (.ok ys, h) => (.ok (block, some ⟨arr.block, ys.1, fits_built arr ys⟩), h)

theorem erases_fillItems (hbuild : ∀ x, Erases (build x) (fill · x)) (hrelease : ∀ y, Keeps (release y))
    (block : ℕ) (xs : List α) (arr : Chunk (xs.length * size)) :
    Erases (fillItems build release block xs arr) (filled fill block xs arr) := by
  intro s
  refine (erases_buildAll hbuild hrelease xs).step fun ys s₁ hys => ?_
  rw [filled, hys]
  cases ys with
  | error st =>
    refine (keeps_otlpFree _).step fun s₂ hs₂ => ?_
    exact (keeps_otlpFree _).step fun s₃ hs₃ => Prod.ext rfl (hs₃.trans hs₂)
  | ok ys => rfl

/-- A composite that is built, of which the blocks are freed when an item fails. -/
theorem erases_buildItems (hbuild : ∀ x, Erases (build x) (fill · x)) (hrelease : ∀ y, Keeps (release y))
    (items : Option (List α)) :
    Erases (buildItems size build release items) (Api.buildItems size fill · items) := by
  cases items with
  | none => exact fun s => rfl
  | some xs =>
    intro s
    show _ = Api.buildItems size fill s.heap (some xs)
    rw [buildItems, Api.buildItems]
    split
    · rfl
    refine (erases_otlpMalloc _).step fun c s₁ hc => ?_
    rw [hc]
    cases c with
    | none => rfl
    | some c =>
      dsimp only
      split
      · rfl
      refine (erases_otlpMalloc _).step fun arr s₂ harr => ?_
      rw [harr]
      cases arr with
      | none => exact (keeps_otlpFree _).step fun s₃ hs => Prod.ext rfl hs
      | some arr => exact erases_fillItems hbuild hrelease c.block xs arr s₂

/-- A composite that is copied. -/
theorem erases_copyItems {build : β → MemM (Except OtlpStatus β)} {copy : Heap → β → Except OtlpStatus β × Heap}
    (hbuild : ∀ x, Erases (build x) (copy · x)) (hrelease : ∀ y, Keeps (release y)) (xs : List β) :
    Erases (copyItems size build release xs) (Api.copyItems size copy · xs) := by
  intro s
  show _ = Api.copyItems size copy s.heap xs
  refine (erases_otlpMalloc _).step fun c s₁ hc => ?_
  rw [Api.copyItems, hc]
  cases c with
  | none => rfl
  | some c =>
    dsimp only
    split
    · exact (keeps_otlpFree _).step fun s₂ hs => Prod.ext rfl hs
    refine (erases_otlpMalloc _).step fun arr s₂ harr => ?_
    rw [harr]
    cases arr with
    | none => exact (keeps_otlpFree _).step fun s₃ hs => Prod.ext rfl hs
    | some arr =>
      dsimp only
      refine (erases_fillItems hbuild hrelease c.block xs arr s₂).trans ?_
      unfold filled
      rcases fillAll copy s₂.heap xs with ⟨_ | ys, h⟩ <;> rfl

end Items

theorem erases_otlpAttrArrayBuild (items : Option (List OtlpValue)) :
    Erases (otlpAttrArrayBuild items) (Api.otlpAttrArrayBuild · items) := by
  intro s
  show _ = Api.otlpAttrArrayBuild s.heap items
  refine (erases_buildItems (erases_dupValue .errNomem) keeps_releaseScalar items).step fun r s₁ hr => ?_
  rw [Api.otlpAttrArrayBuild, Api.valueFill, hr]
  cases r <;> rfl

theorem erases_otlpAttrKvlistBuild (entries : Option (List OtlpKv)) :
    Erases (otlpAttrKvlistBuild entries) (Api.otlpAttrKvlistBuild · entries) := by
  intro s
  show _ = Api.otlpAttrKvlistBuild s.heap entries
  refine (erases_buildItems erases_entryFill keeps_releaseEntry entries).step fun r s₁ hr => ?_
  rw [Api.otlpAttrKvlistBuild, hr]
  cases r <;> rfl

/-! ### The set-attribute engine

Where a vector grows, the two grown vectors have the same items in a block of the same number. All setters of the
three signals come down to `erases_setAttribute`.
-/

section Grow

variable {α β : Type} {size : ℕ} {v : GrowVec α size} {max : ℕ} {hlt : v.items.length < max} {hsize : size ≤ 64}

/-- What growing with the ledger does to the heap, and what it returns. -/
theorem grow_heap (s : Mem) : v.grow max hlt hsize s.heap =
    ((grow v max hlt hsize s).1.map fun v' => v'.toRoomyVec, (grow v max hlt hsize s).2.heap) := by
  rw [grow, GrowVec.grow]
  split
  · refine (erases_otlpRealloc _ _).elim (fun p : Option (GrownVec v) × Mem => _ = (p.1.map fun v' => v'.toRoomyVec, p.2.heap)) fun c s' hc => ?_
    rw [hc]
    cases c <;> rfl
  · rfl

theorem grow_step {k : Option (GrownVec v) → MemM β} {s : Mem} {r : β × Heap}
    (hk : ∀ g s', v.grow max hlt hsize s.heap = (g.map fun v' => v'.toRoomyVec, s'.heap) → erase (k g s') = r) :
    erase ((grow v max hlt hsize >>= k) s) = r :=
  hk _ _ (grow_heap s)

end Grow

/-- The value of a slot that is reused is freed before the slot is returned. -/
theorem erases_otlpAttrVecReserve (vec : AttrVec) (max : ℕ) (key : Bytes) :
    Erases₂ (otlpAttrVecReserve vec max key) (Api.otlpAttrVecReserve · vec max key) := by
  refine erases₂_of fun s => ?_
  rw [otlpAttrVecReserve, Api.otlpAttrVecReserve]
  cases vec.items.findIdx? (fun a => a.key.bytes == key) with
  | some i =>
    refine (keeps_releaseAll (fun a : Attribute => keeps_otlpAttributeReleaseValue a.value) _).step fun s' hs => ?_
    exact Prod.ext rfl hs
  | none =>
    dsimp only
    split
    · refine grow_step fun g s₁ hg => ?_
      rw [hg]
      cases g with
      | none => rfl
      | some g =>
        dsimp only [Option.map_some]
        split
        · rfl
        · refine (erases_otlpDupStr _).step fun k s₂ hk => ?_
          rw [hk]
          cases k <;> rfl
    · rfl

/-- A value that finds no slot is freed again. -/
theorem erases_attrVecPut (vec : AttrVec) (max : ℕ) (key : Bytes) {build : MemM (Except OtlpStatus AttrValue)}
    {built : Heap → Except OtlpStatus AttrValue × Heap} (hbuild : Erases build built) :
    Erases₂ (attrVecPut vec max key build) fun h => Api.attrVecPut vec max key (built h) := by
  refine erases₂_of fun s => ?_
  refine hbuild.step fun v s₁ hv => ?_
  rw [hv]
  cases v with
  | error st => rfl
  | ok v =>
    refine (erases_otlpAttrVecReserve vec max key).step fun r vec' s₂ hr => ?_
    rw [Api.attrVecPut, hr]
    cases r with
    | error st => exact (keeps_otlpAttributeReleaseValue v).step fun s₃ hs => Prod.ext rfl hs
    | ok i => rfl

theorem erases_otlpAttrVecSet (vec : AttrVec) (max : ℕ) (key : Bytes) (v : OtlpValue) :
    Erases₂ (otlpAttrVecSet vec max key v) (Api.otlpAttrVecSet · vec max key v) := by
  refine erases_attrVecPut vec max key fun s => ?_
  refine (erases_dupValue .errNull v).step fun r s' hr => ?_
  rw [hr]
  cases r <;> rfl

theorem erases_setAttribute (vec : AttrVec) (max : ℕ) (key : Option Bytes) (arg : AttrArg) :
    Erases₂ (setAttribute vec max key arg) (Api.setAttribute · vec max key arg) := by
  cases key with
  | none => exact fun s => rfl
  | some key =>
    cases arg with
    | array items => exact erases_attrVecPut vec max key (erases_otlpAttrArrayBuild items)
    | kvlist entries => exact erases_attrVecPut vec max key (erases_otlpAttrKvlistBuild entries)
    | string v | int v | double v | bool v | bytes v | nullBytes v => exact erases_otlpAttrVecSet vec max key _

/-! ### Copies of attributes

What the three clones, and the copies of events and links, share.
-/

theorem erases_copyScalar (v : Scalar) : Erases (copyScalar v) (Api.copyScalar · v) := by
  cases v with
  | bool v | int64 v | double v => exact fun s => rfl
  | string v =>
    cases v with
    | none => exact fun s => rfl
    | some c =>
      intro s
      show _ = Api.copyScalar s.heap (.string (some c))
      refine (erases_otlpDupStr _).step fun r s' hr => ?_
      rw [Api.copyScalar, hr]
      cases r <;> rfl
  | bytes v =>
    cases v with
    | none => exact fun s => rfl
    | some b => exact erases_dupData b.items

theorem erases_copyEntry (e : HeapStr × Scalar) : Erases (copyEntry e) (Api.copyEntry · e) := by
  intro s
  show _ = Api.copyEntry s.heap e
  refine (erases_otlpDupStr _).step fun k s₁ hk => ?_
  rw [Api.copyEntry, hk]
  cases k with
  | none => rfl
  | some k =>
    refine (erases_copyScalar e.2).step fun v s₂ hv => ?_
    dsimp only
    rw [hv]
    cases v with
    | error st => exact (keeps_otlpFree _).step fun s₃ hs => Prod.ext rfl hs
    | ok v => rfl

theorem erases_copyValue (v : AttrValue) : Erases (copyValue v) (Api.copyValue · v) := by
  intro s
  show _ = Api.copyValue s.heap v
  cases v with
  | scalar v =>
    refine (erases_copyScalar v).step fun r s' hr => ?_
    rw [Api.copyValue, hr]
    cases r <;> rfl
  | array block items =>
    refine (erases_copyItems erases_copyScalar keeps_releaseScalar (arrItems items)).step fun r s' hr => ?_
    rw [Api.copyValue, hr]
    cases r <;> rfl
  | kvlist block entries =>
    refine (erases_copyItems erases_copyEntry keeps_releaseEntry (arrItems entries)).step fun r s' hr => ?_
    rw [Api.copyValue, hr]
    cases r <;> rfl

theorem erases_attrCopyOne (a : Attribute) : Erases (attrCopyOne a) (Api.attrCopyOne · a) := by
  intro s
  show _ = Api.attrCopyOne s.heap a
  refine (erases_otlpDupStr _).step fun k s₁ hk => ?_
  rw [Api.attrCopyOne, hk]
  cases k with
  | none => rfl
  | some k =>
    refine (erases_copyValue a.value).step fun v s₂ hv => ?_
    dsimp only
    rw [hv]
    cases v with
    | error st => exact (keeps_otlpFree _).step fun s₃ hs => Prod.ext rfl hs
    | ok v => rfl

theorem erases_otlpAttrVecCopy (src : AttrVec) : Erases (otlpAttrVecCopy src) (Api.otlpAttrVecCopy · src) := by
  intro s
  show _ = Api.otlpAttrVecCopy s.heap src
  rw [otlpAttrVecCopy, Api.otlpAttrVecCopy]
  split
  · rfl
  split
  · rfl
  refine (erases_otlpMalloc _).step fun c s₁ hc => ?_
  rw [hc]
  cases c with
  | none => rfl
  | some c =>
    refine (erases_buildAll erases_attrCopyOne keeps_otlpAttributeFree src.items).step fun r s₂ hr => ?_
    dsimp only
    rw [hr]
    cases r with
    | error st => exact (keeps_otlpFree _).step fun s₃ hs => Prod.ext rfl hs
    | ok items => rfl

/-! ### Log records

Creation, the calls of the public API and the clone: the three results that `erases_runAll` takes of each signal.
-/

theorem erases_otlpLogRecordCreate (severity : UInt32) (body : Option Bytes) :
    Erases (otlpLogRecordCreate severity body) (Api.otlpLogRecordCreate · severity body) := by
  intro s
  show _ = Api.otlpLogRecordCreate s.heap severity body
  refine (erases_otlpMalloc _).step fun c s₁ hc => ?_
  rw [Api.otlpLogRecordCreate, hc]
  cases c with
  | none => rfl
  | some c =>
    dsimp only
    split
    · exact (keeps_otlpFree _).step fun s₂ hs => Prod.ext rfl hs
    refine (erases_otlpDupStr _).step fun b s₂ hb => ?_
    rw [hb]
    cases b with
    | none => exact (keeps_otlpFree _).step fun s₃ hs => Prod.ext rfl hs
    | some b => rfl

theorem erases_otlpLogRecordClone (src : LogRecord) :
    Erases (otlpLogRecordClone src) (Api.otlpLogRecordClone · src) := by
  intro s
  show _ = Api.otlpLogRecordClone s.heap src
  refine (erases_otlpMalloc _).step fun c s₁ hc => ?_
  rw [Api.otlpLogRecordClone, hc]
  cases c with
  | none => rfl
  | some c =>
    dsimp only
    refine (erases_otlpDupStr _).step fun text s₂ htext => ?_
    rw [htext]
    dsimp only
    refine (erases_otlpDupStr _).step fun body s₃ hbody => ?_
    rw [hbody]
    dsimp only
    split
    · exact (keeps_otlpLogRecordFreeParts _ _ _ _).step fun s₄ hs => Prod.ext rfl hs
    cases body with
    | none => exact (keeps_otlpLogRecordFreeParts _ _ _ _).step fun s₄ hs => Prod.ext rfl hs
    | some body =>
      refine (erases_otlpAttrVecCopy src.attrs).step fun attrs s₄ hattrs => ?_
      dsimp only
      rw [hattrs]
      cases attrs with
      | error st => exact (keeps_otlpLogRecordFreeParts _ _ _ _).step fun s₅ hs => Prod.ext rfl hs
      | ok attrs => rfl

/-- **A call on a log record.** -/
theorem erases_logCall (lr : LogRecord) (c : LogCall) : Erases₂ (logCall lr c) fun h => c.run h lr := by
  cases c with
  | setTimestamp t | markTimestamp t | setTraceId t | setSpanId t => exact fun s => rfl
  | setSeverityText text =>
    refine erases₂_of fun s => ?_
    rw [logCall, otlpLogRecordSetSeverityText, LogCall.run, Api.otlpLogRecordSetSeverityText]
    split
    · rfl
    · refine (keeps_otlpFree _).step fun s₁ hs => ?_
      refine (erases_otlpDupStr _).step fun c s₂ hc => ?_
      rw [← hs, hc]
      dsimp only
      split <;> rfl
  | setAttribute key arg =>
    refine erases₂_of fun s => ?_
    refine (erases_setAttribute lr.attrs _ key arg).step fun st attrs s' hr => ?_
    rw [LogCall.run, Api.otlpLogRecordSetAttribute, hr]
    rfl

/-! ### Spans

One lemma for each call that takes memory, and `erases_spanCall` for all of them.
-/

theorem erases_otlpSpanCreate (name : Option Bytes) : Erases (otlpSpanCreate name) (Api.otlpSpanCreate · name) := by
  intro s
  show _ = Api.otlpSpanCreate s.heap name
  refine (erases_otlpMalloc _).step fun c s₁ hc => ?_
  rw [Api.otlpSpanCreate, hc]
  cases c with
  | none => rfl
  | some c =>
    dsimp only
    split
    · exact (keeps_otlpFree _).step fun s₂ hs => Prod.ext rfl hs
    refine (erases_otlpDupStr _).step fun n s₂ hn => ?_
    rw [hn]
    cases n with
    | none => exact (keeps_otlpFree _).step fun s₃ hs => Prod.ext rfl hs
    | some n => rfl

theorem erases_otlpSpanSetName (s : Span) (name : Option Bytes) :
    Erases₂ (otlpSpanSetName s name) (Api.otlpSpanSetName · s name) := by
  refine erases₂_of fun m => ?_
  rw [otlpSpanSetName, Api.otlpSpanSetName]
  split
  · rfl
  · refine (erases_otlpDupStr _).step fun c m₁ hc => ?_
    rw [hc]
    cases c with
    | none => rfl
    | some c => exact (keeps_otlpFree _).step fun m₂ hm => Prod.ext rfl hm

theorem erases_otlpSpanSetStatus (s : Span) (code : UInt32) (description : Option Bytes) :
    Erases₂ (otlpSpanSetStatus s code description) (Api.otlpSpanSetStatus · s code description) := by
  refine erases₂_of fun m => ?_
  unfold otlpSpanSetStatus Api.otlpSpanSetStatus
  split
  · rfl
  cases description with
  | none => exact (keeps_otlpFree _).step fun m₁ hm => Prod.ext rfl hm
  | some description =>
    refine (erases_otlpDupStr _).step fun c m₁ hc => ?_
    dsimp only
    rw [hc]
    cases c with
    | none => rfl
    | some c => exact (keeps_otlpFree _).step fun m₂ hm => Prod.ext rfl hm

theorem erases_otlpSpanSetTraceState (s : Span) (traceState : Option Bytes) :
    Erases₂ (otlpSpanSetTraceState s traceState) (Api.otlpSpanSetTraceState · s traceState) := by
  refine erases₂_of fun m => ?_
  unfold otlpSpanSetTraceState Api.otlpSpanSetTraceState
  split
  · rfl
  cases traceState with
  | none => exact (keeps_otlpFree _).step fun m₁ hm => Prod.ext rfl hm
  | some traceState =>
    refine (erases_otlpDupStr _).step fun c m₁ hc => ?_
    dsimp only
    rw [hc]
    cases c with
    | none => rfl
    | some c => exact (keeps_otlpFree _).step fun m₂ hm => Prod.ext rfl hm

theorem erases_otlpSpanAddEvent (s : Span) (name : Option Bytes) (timeUnixNano : UInt64) :
    Erases₂ (otlpSpanAddEvent s name timeUnixNano) (Api.otlpSpanAddEvent · s name timeUnixNano) := by
  refine erases₂_of fun m => ?_
  cases name with
  | none => rfl
  | some name =>
    rw [otlpSpanAddEvent, Api.otlpSpanAddEvent]
    split
    · split
      · rfl
      refine (erases_otlpDupStr _).step fun c m₁ hc => ?_
      rw [hc]
      cases c with
      | none => rfl
      | some c =>
        refine grow_step fun g m₂ hg => ?_
        dsimp only
        cases g with
        | none =>
          split
          · next h heq =>
            obtain ⟨-, rfl⟩ := Prod.mk.inj (heq.symm.trans hg)
            exact (keeps_otlpFree _).step fun m₃ hm => Prod.ext rfl hm
          · next heq => cases (Prod.mk.inj (heq.symm.trans hg)).1
        | some g =>
          split
          · next heq => cases (Prod.mk.inj (heq.symm.trans hg)).1
          · next events h heq =>
            obtain ⟨hsome, rfl⟩ := Prod.mk.inj (heq.symm.trans hg)
            obtain rfl : events = g.toRoomyVec := Option.some.inj hsome
            rfl
    · rfl

theorem erases_otlpSpanAddLink (s : Span) (traceId : Option TraceId) (spanId : Option SpanId) :
    Erases₂ (otlpSpanAddLink s traceId spanId) (Api.otlpSpanAddLink · s traceId spanId) := by
  refine erases₂_of fun m => ?_
  unfold otlpSpanAddLink Api.otlpSpanAddLink
  cases traceId with
  | none => rfl
  | some traceId =>
    cases spanId with
    | none => rfl
    | some spanId =>
      dsimp only
      split
      · refine grow_step fun g m₁ hg => ?_
        cases g with
        | none =>
          split
          · next h heq =>
            obtain ⟨-, rfl⟩ := Prod.mk.inj (heq.symm.trans hg)
            rfl
          · next heq => cases (Prod.mk.inj (heq.symm.trans hg)).1
        | some g =>
          split
          · next heq => cases (Prod.mk.inj (heq.symm.trans hg)).1
          · next links h heq =>
            obtain ⟨hsome, rfl⟩ := Prod.mk.inj (heq.symm.trans hg)
            obtain rfl : links = g.toRoomyVec := Option.some.inj hsome
            rfl
      · rfl

/-- **A call on a span.** -/
theorem erases_spanCall (s : Span) (c : SpanCall) : Erases₂ (spanCall s c) fun h => c.run h s := by
  cases c with
  | setTraceId t | setSpanId t | setParentSpanId t | setStartTime t | setEndTime t | markStart t | markEnd t
  | setKind t | setSampled t => exact fun m => rfl
  | setName name => exact erases_otlpSpanSetName s name
  | setAttribute key arg =>
    refine erases₂_of fun m => ?_
    refine (erases_setAttribute s.attrs _ key arg).step fun st attrs m' hr => ?_
    rw [SpanCall.run, Api.otlpSpanSetAttribute, hr]
    rfl
  | setStatus code description => exact erases_otlpSpanSetStatus s code description
  | addEvent name t => exact erases_otlpSpanAddEvent s name t
  | addLink traceId spanId => exact erases_otlpSpanAddLink s traceId spanId
  | setTraceState traceState => exact erases_otlpSpanSetTraceState s traceState
  | setEventAttribute key arg =>
    refine erases₂_of fun m => ?_
    rw [spanCall, otlpSpanSetEventAttribute, SpanCall.run, Api.otlpSpanSetEventAttribute]
    cases s.events.items.getLast? with
    | none => rfl
    | some ev =>
      refine (erases_setAttribute ev.attrs otlpEventMaxAttrs key arg).step fun st attrs m' hr => ?_
      show _ = beside (_, withEventAttrs s (Api.setAttribute m.heap ev.attrs otlpEventMaxAttrs key arg).2.1, _)
      rw [hr]
      rfl
  | setLinkAttribute key arg =>
    refine erases₂_of fun m => ?_
    rw [spanCall, otlpSpanSetLinkAttribute, SpanCall.run, Api.otlpSpanSetLinkAttribute]
    cases s.links.items.getLast? with
    | none => rfl
    | some lk =>
      refine (erases_setAttribute lk.attrs otlpLinkMaxAttrs key arg).step fun st attrs m' hr => ?_
      show _ = beside (_, withLinkAttrs s (Api.setAttribute m.heap lk.attrs otlpLinkMaxAttrs key arg).2.1, _)
      rw [hr]
      rfl

theorem erases_dupOptStr (s : Option HeapStr) : Erases (dupOptStr s) (Api.dupOptStr · s) := by
  cases s with
  | none => exact fun m => rfl
  | some s =>
    intro m
    show _ = Api.dupOptStr m.heap (some s)
    refine (erases_otlpDupStr _).step fun c m' hc => ?_
    rw [Api.dupOptStr, hc]
    cases c <;> rfl

/-- A clone that cannot be finished frees the span that it has begun. -/
theorem erase_giveUp (dst : Span) (s : Mem) : erase (giveUp dst s) = (none, s.heap) :=
  (keeps_otlpSpanFree dst).step fun _ hs => Prod.ext rfl hs

/-- A loop over events or links, from the call that adds one. -/
theorem erases_cloneItems {α : Type} {add : Span → α → MemM (OtlpStatus × Span)}
    {add' : Heap → Span → α → OtlpStatus × Span × Heap} (hadd : ∀ dst x, Erases₂ (add dst x) (add' · dst x))
    (attrs : α → AttrVec) (withAttrs : Span → AttrVec → Span) (dst : Span) (xs : List α) :
    Erases (cloneItems add attrs withAttrs dst xs) (Api.cloneItems add' attrs withAttrs · dst xs) := by
  induction xs generalizing dst with
  | nil => exact fun m => rfl
  | cons x xs ih =>
    intro m
    show _ = Api.cloneItems add' attrs withAttrs m.heap dst (x :: xs)
    refine (hadd dst x).step fun st dst m₁ hdst => ?_
    rw [Api.cloneItems, hdst]
    cases st with
    | ok =>
      dsimp only
      split
      · refine (erases_otlpAttrVecCopy (attrs x)).step fun copy m₂ hcopy => ?_
        rw [hcopy]
        cases copy with
        | error st => exact erase_giveUp dst m₂
        | ok copy => exact ih (withAttrs dst copy) m₂
      · exact ih dst m₁
    | _ => exact erase_giveUp dst m₁

theorem erases_cloneEvents (dst : Span) (evs : List Event) :
    Erases (cloneEvents dst evs) (Api.cloneEvents · dst evs) :=
  erases_cloneItems (fun dst _ => erases_otlpSpanAddEvent dst _ _) _ _ dst evs

theorem erases_cloneLinks (dst : Span) (lks : List Link) :
    Erases (cloneLinks dst lks) (Api.cloneLinks · dst lks) :=
  erases_cloneItems (fun dst _ => erases_otlpSpanAddLink dst _ _) _ _ dst lks

theorem erases_otlpSpanClone (src : Span) : Erases (otlpSpanClone src) (Api.otlpSpanClone · src) := by
  intro m
  show _ = Api.otlpSpanClone m.heap src
  refine (erases_otlpSpanCreate _).step fun dst m₁ hdst => ?_
  rw [Api.otlpSpanClone, hdst]
  cases dst with
  | none => rfl
  | some dst =>
    dsimp only
    refine (erases_dupOptStr _).step fun msg m₂ hmsg => ?_
    rw [hmsg]
    cases msg with
    | none => exact erase_giveUp _ m₂
    | some msg =>
      dsimp only
      refine (erases_dupOptStr _).step fun state m₃ hstate => ?_
      rw [hstate]
      cases state with
      | none => exact erase_giveUp _ m₃
      | some state =>
        dsimp only
        refine (erases_otlpAttrVecCopy _).step fun attrs m₄ hattrs => ?_
        rw [hattrs]
        cases attrs with
        | error st => exact erase_giveUp _ m₄
        | ok attrs =>
          refine (erases_cloneEvents _ src.events.items).step fun r m₅ hr => ?_
          dsimp only
          cases r with
          | none =>
            split
            · next h heq =>
              obtain ⟨-, rfl⟩ := Prod.mk.inj (hr.symm.trans heq)
              rfl
            · next heq => cases (Prod.mk.inj (hr.symm.trans heq)).1
          | some dst₅ =>
            split
            · next heq => cases (Prod.mk.inj (hr.symm.trans heq)).1
            · next dst₆ h heq =>
              obtain ⟨hdst, rfl⟩ := Prod.mk.inj (hr.symm.trans heq)
              obtain rfl : dst₅ = dst₆ := Option.some.inj hdst
              exact erases_cloneLinks dst₅ src.links.items m₅

/-! ### Metrics

A histogram asks for its two arrays before it looks at either, so that with the ledger a failure returns the one that
was granted. `ErasesBuckets` compares the results apart from these blocks, which the caller frees.
-/

/-- The buckets, when both arrays were granted. -/
def okBuckets : Except (Option ℕ × Option ℕ) Buckets → Option Buckets
  | .error _ => none
  | .ok buckets => some buckets

/-- The blocks that are left to free apart, `f` returns what `g` returns. -/
def ErasesBuckets (f : MemM (Except (Option ℕ × Option ℕ) Buckets)) (g : Heap → Option Buckets × Heap) : Prop :=
  ∀ s, g s.heap = (okBuckets (f s).1, (f s).2.heap)

theorem ErasesBuckets.step {β : Type} {f : MemM (Except (Option ℕ × Option ℕ) Buckets)}
    {g : Heap → Option Buckets × Heap} (hf : ErasesBuckets f g) {k : Except (Option ℕ × Option ℕ) Buckets → MemM β}
    {s : Mem} {r : β × Heap} (hk : ∀ b s', g s.heap = (okBuckets b, s'.heap) → erase (k b s') = r) :
    erase ((f >>= k) s) = r :=
  hk _ _ (hf s)

/-- Both arrays are asked for, whether the first is granted or not. -/
theorem mallocBuckets_run (bs : List Double) (counts : List UInt64) (hcounts : counts.length = bs.length + 1)
    (s : Mem) (hroom : ¬(sizeMax / 8 < bs.length ∨ sizeMax / 8 ≤ bs.length)) :
    ∃ a h c, Api.otlpMalloc s.heap (bs.length * 8) = (a, h) ∧
      Api.otlpMalloc h ((bs.length + 1) * 8) = (c, (mallocBuckets bs counts hcounts s).2.heap) ∧
      okBuckets (mallocBuckets bs counts hcounts s).1 =
        a.bind fun a => c.map fun c => explicitBuckets a c counts hcounts := by
  rw [mallocBuckets, if_neg hroom]
  rcases ha : otlpMalloc (bs.length * 8) s with ⟨a, s₁⟩
  rcases hc : otlpMalloc ((bs.length + 1) * 8) s₁ with ⟨c, s₂⟩
  refine ⟨a, s₁.heap, c, ?_, ?_, ?_⟩
  · exact (erases_otlpMalloc _ s).symm.trans (congrArg erase ha)
  all_goals simp only [bind, StateT.bind, ha, hc]
  · refine (erases_otlpMalloc _ s₁).symm.trans ((congrArg erase hc).trans ?_)
    cases a with
    | none => rfl
    | some a => cases c <;> rfl
  · cases a with
    | none => rfl
    | some a => cases c <;> rfl

theorem erases_createBuckets (type : OtlpMetricType) (bounds : Option (List Double)) :
    ErasesBuckets (createBuckets type bounds) (Api.createBuckets · type bounds) := by
  intro s
  show Api.createBuckets s.heap type bounds = _
  rcases bounds with _ | _ | ⟨b, bs⟩
  · rfl
  · rfl
  rw [createBuckets, Api.createBuckets]
  · split
    · rfl
    by_cases hroom : sizeMax / 8 < (b :: bs).length ∨ sizeMax / 8 ≤ (b :: bs).length
    · rw [if_pos hroom, mallocBuckets, if_pos hroom]
      rfl
    · obtain ⟨a, h, c, ha, hc, hb⟩ := mallocBuckets_run (b :: bs) _ List.length_replicate s hroom
      rw [if_neg hroom, ha, hb]
      dsimp only
      rw [hc]
      cases a with
      | none => rfl
      | some a => cases c <;> rfl
  all_goals simp

theorem erases_cloneBuckets (b : Buckets) : ErasesBuckets (cloneBuckets b) (Api.cloneBuckets · b) := by
  intro s
  show Api.cloneBuckets s.heap b = _
  cases b with
  | none => rfl
  | single counts hlen => rfl
  | explicit bounds counts hlen =>
    rw [cloneBuckets, Api.cloneBuckets]
    split
    · rfl
    by_cases hroom : sizeMax / 8 < bounds.items.length ∨ sizeMax / 8 ≤ bounds.items.length
    · rw [if_pos hroom, mallocBuckets, if_pos hroom]
      rfl
    · obtain ⟨a, h, c, ha, hc, hb⟩ := mallocBuckets_run bounds.items counts.items hlen s hroom
      rw [if_neg hroom, ha, hb]
      dsimp only
      rw [hc]
      cases a with
      | none => rfl
      | some a => cases c <;> rfl

theorem erases_otlpMetricCreate (type : UInt32) (name unit description : Option Bytes)
    (histogramBounds : Option (List Double)) :
    Erases (otlpMetricCreate type name unit description histogramBounds)
      (Api.otlpMetricCreate · type name unit description histogramBounds) := by
  intro s
  show _ = Api.otlpMetricCreate s.heap type name unit description histogramBounds
  unfold otlpMetricCreate Api.otlpMetricCreate
  cases OtlpMetricType.ofEnum type with
  | none => rfl
  | some type =>
    refine (erases_otlpMalloc _).step fun c s₁ hc => ?_
    dsimp only
    rw [hc]
    cases c with
    | none => rfl
    | some c =>
      dsimp only
      split
      · exact (keeps_otlpFree _).step fun s₂ hs => Prod.ext rfl hs
      refine (erases_otlpDupStr _).step fun n s₂ hn => ?_
      rw [hn]
      dsimp only
      refine (erases_otlpDupStr _).step fun u s₃ hu => ?_
      rw [hu]
      dsimp only
      refine (erases_otlpDupStr _).step fun d s₄ hd => ?_
      rw [hd]
      dsimp only
      rcases n with _ | n
      · exact (keeps_releaseAll keeps_otlpFree _).step fun s₅ hs => Prod.ext rfl hs
      rcases u with _ | u
      · exact (keeps_releaseAll keeps_otlpFree _).step fun s₅ hs => Prod.ext rfl hs
      rcases d with _ | d
      · exact (keeps_releaseAll keeps_otlpFree _).step fun s₅ hs => Prod.ext rfl hs
      refine (erases_createBuckets type histogramBounds).step fun b s₅ hb => ?_
      dsimp only
      rw [hb]
      cases b with
      | error r => exact (keeps_releaseAll keeps_otlpFree _).step fun s₆ hs => Prod.ext rfl hs
      | ok b => rfl

theorem erases_recordBucket (fp : Fp) (value : Double) (buckets : Buckets) :
    Erases₂ (recordBucket fp value buckets) (Api.recordBucket fp · value buckets) := by
  cases buckets with
  | explicit bounds counts hlen => exact fun s => rfl
  | single counts hlen => exact fun s => rfl
  | none =>
    refine erases₂_of fun s => ?_
    refine (erases_otlpMalloc 8).step fun c s' hc => ?_
    rw [Api.recordBucket, hc]
    cases c <;> rfl

theorem erases_otlpMetricRecord (fp : Fp) (m : Metric) (value : Double) :
    Erases₂ (otlpMetricRecord fp m value) (Api.otlpMetricRecord fp · m value) := by
  refine erases₂_of fun s => ?_
  unfold otlpMetricRecord Api.otlpMetricRecord
  cases m.type with
  | counter | gauge | expHistogram => rfl
  | histogram =>
    refine (erases_recordBucket fp value m.buckets).step fun st b s' hb => ?_
    dsimp only
    rw [hb]
    rfl

theorem erases_setExpSide (side : ExpSide) (offset : Int32) (counts : Option (List UInt64)) :
    Erases₂ (setExpSide side offset counts) (Api.setExpSide · side offset counts) := by
  rcases counts with _ | _ | ⟨c, cs⟩
  · exact fun s => rfl
  · exact fun s => rfl
  refine erases₂_of fun s => ?_
  rw [setExpSide, Api.setExpSide]
  · split
    · rfl
    refine (keeps_otlpFree _).step fun s₁ hs => ?_
    refine (erases_dupArr 8 _).step fun a s₂ ha => ?_
    rw [← hs, ha]
    cases a <;> rfl
  all_goals simp

theorem erases_otlpMetricSetExpHistogram (m : Metric) (scale posOffset : Int32) (posCounts : Option (List UInt64))
    (negOffset : Int32) (negCounts : Option (List UInt64)) :
    Erases₂ (otlpMetricSetExpHistogram m scale posOffset posCounts negOffset negCounts)
      (Api.otlpMetricSetExpHistogram · m scale posOffset posCounts negOffset negCounts) := by
  refine erases₂_of fun s => ?_
  rw [otlpMetricSetExpHistogram, Api.otlpMetricSetExpHistogram]
  split
  · rfl
  refine (erases_setExpSide m.expPos posOffset posCounts).step fun st p s₁ hp => ?_
  dsimp only
  rw [hp]
  cases st with
  | ok =>
    refine (erases_setExpSide m.expNeg negOffset negCounts).step fun st n s₂ hn => ?_
    dsimp only
    rw [hn]
    rfl
  | _ => rfl

theorem erases_otlpMetricAddExemplar (m : Metric) (ex : Option Exemplar) :
    Erases₂ (otlpMetricAddExemplar m ex) (Api.otlpMetricAddExemplar · m ex) := by
  refine erases₂_of fun s => ?_
  cases ex with
  | none => rfl
  | some ex =>
    rw [otlpMetricAddExemplar, Api.otlpMetricAddExemplar]
    split
    · rfl
    split
    · rfl
    refine grow_step fun g s₁ hg => ?_
    rw [hg]
    cases g <;> rfl

/-- **A call on a metric.** -/
theorem erases_metricCall (fp : Fp) (m : Metric) (c : MetricCall) :
    Erases₂ (metricCall fp m c) fun h => c.run fp h m := by
  cases c with
  | setStartTime t | setTime t | markTime t | setAggregationTemporality t | setMonotonic t => exact fun s => rfl
  | record value => exact erases_otlpMetricRecord fp m value
  | setAttribute key arg =>
    refine erases₂_of fun s => ?_
    refine (erases_setAttribute m.attrs _ key arg).step fun st attrs s' hr => ?_
    rw [MetricCall.run, Api.otlpMetricSetAttribute, hr]
    rfl
  | setExpHistogram scale posOffset posCounts negOffset negCounts =>
    exact erases_otlpMetricSetExpHistogram m scale posOffset posCounts negOffset negCounts
  | addExemplar ex => exact erases_otlpMetricAddExemplar m ex

theorem erases_cloneExpSide (side : ExpSide) : Erases (cloneExpSide side) (Api.cloneExpSide · side) := by
  intro s
  show _ = Api.cloneExpSide s.heap side
  rw [cloneExpSide, Api.cloneExpSide]
  split
  · rfl
  split
  · rfl
  refine (erases_dupArr 8 _).step fun a s' ha => ?_
  rw [ha]
  cases a <;> rfl

theorem erases_cloneExemplars (src : GrowVec Exemplar sizeofExemplar) :
    Erases (cloneExemplars src) (Api.cloneExemplars · src) := by
  intro s
  show _ = Api.cloneExemplars s.heap src
  rw [cloneExemplars, Api.cloneExemplars]
  split
  · rfl
  split
  · rfl
  refine (erases_otlpMalloc _).step fun c s' hc => ?_
  rw [hc]
  cases c <;> rfl

/-- `fail` of `otlp_metric_clone` frees the parts that there are. -/
theorem erase_failMetric (m : MetricParts) (s : Mem) : erase (failMetric m s) = (none, s.heap) :=
  (keeps_otlpMetricFreeParts m).step fun _ hs => Prod.ext rfl hs

theorem erases_otlpMetricClone (src : Metric) : Erases (otlpMetricClone src) (Api.otlpMetricClone · src) := by
  intro s
  show _ = Api.otlpMetricClone s.heap src
  refine (erases_otlpMalloc _).step fun c s₁ hc => ?_
  rw [Api.otlpMetricClone, hc]
  cases c with
  | none => rfl
  | some c =>
    dsimp only
    refine (erases_otlpDupStr _).step fun n s₂ hn => ?_
    rw [hn]
    dsimp only
    refine (erases_otlpDupStr _).step fun u s₃ hu => ?_
    rw [hu]
    dsimp only
    refine (erases_otlpDupStr _).step fun d s₄ hd => ?_
    rw [hd]
    dsimp only
    rcases n with _ | n
    · exact erase_failMetric _ s₄
    rcases u with _ | u
    · exact erase_failMetric _ s₄
    rcases d with _ | d
    · exact erase_failMetric _ s₄
    refine (erases_otlpAttrVecCopy src.attrs).step fun attrs s₅ hattrs => ?_
    dsimp only
    rw [hattrs]
    cases attrs with
    | error st => exact erase_failMetric _ s₅
    | ok attrs =>
      dsimp only
      refine (erases_cloneExemplars src.exemplars).step fun ex s₆ hex => ?_
      rw [hex]
      cases ex with
      | none => exact erase_failMetric _ s₆
      | some ex =>
        dsimp only
        refine (erases_cloneBuckets src.buckets).step fun b s₇ hb => ?_
        rw [hb]
        cases b with
        | error r => exact erase_failMetric _ s₇
        | ok b =>
          dsimp only [okBuckets]
          refine (erases_cloneExpSide src.expPos).step fun p s₈ hp => ?_
          rw [hp]
          cases p with
          | none => exact erase_failMetric _ s₈
          | some p =>
            dsimp only
            refine (erases_cloneExpSide src.expNeg).step fun n s₉ hn => ?_
            rw [hn]
            cases n with
            | none => exact erase_failMetric _ s₉
            | some n => rfl

end OtlpC.Memory
