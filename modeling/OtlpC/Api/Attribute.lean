import OtlpC.Api.Vec
import OtlpC.Proto.Messages

/-!
# Attributes

`struct otlp_attribute` of `span_internal.h` and the set-attribute engine of `internal_util.c`. The public
values are flat, so that the items of an array and of a list of pairs are scalars. A string is NULL only in a
slot that is reserved and not yet filled.
-/

namespace OtlpC.Api

open Exporter Otlp

/-! ### Data -/

abbrev sizeofAttribute : ℕ := 32
abbrev sizeofKvlistEntry : ℕ := 40
abbrev sizeofAttrArray : ℕ := 16

/-- An attribute value that holds no other values; a 64-bit integer and a double are their bits. -/
inductive Scalar where
  | string (v : Option HeapStr)
  | bool (v : Bool)
  | int64 (v : UInt64)
  | double (v : UInt64)
  | bytes (v : Option (HeapArr UInt8 1))

/-- The type and the union of `struct otlp_attribute`. A composite has a block of its own and one for its items,
which is NULL when there are none. -/
inductive AttrValue where
  | scalar (v : Scalar)
  | array (block : ℕ) (items : Option (HeapArr Scalar sizeofAttribute))
  | kvlist (block : ℕ) (entries : Option (HeapArr (HeapStr × Scalar) sizeofKvlistEntry))

structure Attribute where
  key : HeapStr
  value : AttrValue

abbrev AttrVec := GrowVec Attribute sizeofAttribute

/-- `otlp_value_t`; `bytes` with its data, `nullBytes` with NULL for it, `unknown` a type that is not one. -/
inductive OtlpValue where
  | string (v : Option Bytes)
  | bool (v : Bool)
  | int64 (v : UInt64)
  | double (v : UInt64)
  | bytes (data : Bytes)
  | nullBytes (len : ℕ)
  | unknown
deriving Repr, DecidableEq

structure OtlpKv where
  key : Option Bytes
  value : OtlpValue
deriving Repr, DecidableEq

/-! ### What the encoder reads -/

def Scalar.any : Scalar → AnyValue
  | .string v => .string ((v.map (·.bytes)).getD [])
  | .bool v => .bool v
  | .int64 v => .int v
  | .double v => .double v
  | .bytes v => .bytes ((v.map (·.items)).getD [])

def arrItems {α : Type} {size : ℕ} (a : Option (HeapArr α size)) : List α := (a.map (·.items)).getD []

def AttrValue.any : AttrValue → AnyValue
  | .scalar v => v.any
  | .array _ items => .array ((arrItems items).map Scalar.any)
  | .kvlist _ entries => .kvlist ((arrItems entries).map fun e => (e.1.bytes, e.2.any))

def Attribute.kv (a : Attribute) : KeyValue := (a.key.bytes, a.value.any)

def attrKvs (v : AttrVec) : List KeyValue := v.items.map Attribute.kv

/-! ### What an attribute owns -/

def Scalar.leaves : Scalar → List Leaf
  | .string (some s) => [s.leaf]
  | .bytes (some b) => [b.leaf]
  | _ => []

def entryLeaves (e : HeapStr × Scalar) : List Leaf := e.1.leaf :: e.2.leaves

/-- An array and what its items own. -/
def arrLeaves {α : Type} {size : ℕ} (elem : α → List Leaf) : Option (HeapArr α size) → List Leaf
  | none => []
  | some a => a.leaf :: a.items.flatMap elem

def AttrValue.leaves : AttrValue → List Leaf
  | .scalar v => v.leaves
  | .array block items => blockLeaf block :: arrLeaves Scalar.leaves items
  | .kvlist block entries => blockLeaf block :: arrLeaves entryLeaves entries

def Attribute.leaves (a : Attribute) : List Leaf := a.key.leaf :: a.value.leaves

def attrLeaves (v : AttrVec) : List Leaf := v.leaves Attribute.leaves

/-! ### Builders -/

/-- `otlp_dup_bytes` of data that is there, or nothing when there is none. -/
def dupData (h : Heap) (data : Bytes) : Except OtlpStatus Scalar × Heap :=
  if data.isEmpty then (.ok (.bytes none), h)
  else
    match dupArr 1 h data with
    | (none, h) => (.error .errNomem, h)
    | (some b, h) => (.ok (.bytes (some b)), h)

/-- A string value, checked and copied. -/
def dupText (h : Heap) (v : Option Bytes) : Except OtlpStatus Scalar × Heap :=
  if !isUtf8 v then (.error .errUtf8, h)
  else
    match otlpDupStr h (some (v.getD [])) with
    | (none, h) => (.error .errNomem, h)
    | (some s, h) => (.ok (.string (some s)), h)

/-- `value_fill`; `nullStatus` is the answer to a length without data. -/
def dupValue (nullStatus : OtlpStatus) (h : Heap) : OtlpValue → Except OtlpStatus Scalar × Heap
  | .string v => dupText h v
  | .bool v => (.ok (.bool v), h)
  | .int64 v => (.ok (.int64 v), h)
  | .double v => (.ok (.double v), h)
  | .bytes data => dupData h data
  | .nullBytes len => if 0 < len then (.error nullStatus, h) else (.ok (.bytes none), h)
  | .unknown => (.error .errInvalidArgument, h)

def valueFill : Heap → OtlpValue → Except OtlpStatus Scalar × Heap := dupValue .errNomem

/-- An entry of a list of pairs. -/
def entryFill (h : Heap) (e : OtlpKv) : Except OtlpStatus (HeapStr × Scalar) × Heap :=
  match e.key with
  | none => (.error .errNull, h)
  | some key =>
    if !otlpStrIsUtf8 key then (.error .errUtf8, h)
    else
      match valueFill h e.value with
      | (.error st, h) => (.error st, h)
      | (.ok v, h) =>
        match otlpDupStr h (some key) with
        | (none, h) => (.error .errNomem, h)
        | (some k, h) => (.ok (k, v), h)

/-- The part that `otlp_attr_array_build` and `otlp_attr_kvlist_build` share: a block for the composite, one for
its items when there are any, and the items. `none` is NULL for more than no items. -/
def buildItems {α β : Type} (size : ℕ) (fill : Heap → α → Except OtlpStatus β × Heap) (h : Heap)
    (items : Option (List α)) : Except OtlpStatus (ℕ × Option (HeapArr β size)) × Heap :=
  match items with
  | none => (.error .errNull, h)
  | some xs =>
    if sizeMax / size < xs.length then (.error .errInvalidArgument, h)
    else
      match otlpMalloc h sizeofAttrArray with
      | (none, h) => (.error .errNomem, h)
      | (some c, h) =>
        if xs.isEmpty then (.ok (c.block, none), h)
        else
          match otlpMalloc h (xs.length * size) with
          | (none, h) => (.error .errNomem, h)
          | (some arr, h) =>
            match fillAll fill h xs with
            | (.error st, h) => (.error st, h)
            | (.ok ys, h) => (.ok (c.block, some ⟨arr.block, ys.1, ys.2.symm ▸ arr.fits⟩), h)

def otlpAttrArrayBuild (h : Heap) (items : Option (List OtlpValue)) : Except OtlpStatus AttrValue × Heap :=
  match buildItems sizeofAttribute valueFill h items with
  | (.error st, h) => (.error st, h)
  | (.ok (block, items), h) => (.ok (.array block items), h)

def otlpAttrKvlistBuild (h : Heap) (entries : Option (List OtlpKv)) : Except OtlpStatus AttrValue × Heap :=
  match buildItems sizeofKvlistEntry entryFill h entries with
  | (.error st, h) => (.error st, h)
  | (.ok (block, entries), h) => (.ok (.kvlist block entries), h)

/-! ### The set-attribute engine -/

/-- A slot that is reserved: `otlp_attribute_release_value` leaves it so as well. -/
def emptyValue : AttrValue := .scalar (.string none)

/-- `otlp_attr_vec_reserve`: the slot of the key, reused or appended. -/
def otlpAttrVecReserve (h : Heap) (vec : AttrVec) (max : ℕ) (key : Bytes) :
    Except OtlpStatus ℕ × AttrVec × Heap :=
  match vec.items.findIdx? (fun a => a.key.bytes == key) with
  | some i => (.ok i, vec.modify i fun a => { a with value := emptyValue }, h)
  | none =>
    if hlt : vec.items.length < max then
      match vec.grow max hlt (by decide) h with
      | (none, h) => (.error .errNomem, vec, h)
      | (some vec, h) =>
        if !otlpStrIsUtf8 key then (.error .errUtf8, vec.toGrowVec, h)
        else
          match otlpDupStr h (some key) with
          | (none, h) => (.error .errNomem, vec.toGrowVec, h)
          | (some k, h) => (.ok vec.items.length, GrowVec.push vec ⟨k, emptyValue⟩, h)
    else (.error .errOverflow, vec, h)

/-- The part that the three entry points share: the value is built first, then the slot reserved and filled. -/
def attrVecPut (vec : AttrVec) (max : ℕ) (key : Bytes) :
    Except OtlpStatus AttrValue × Heap → OtlpStatus × AttrVec × Heap
  | (.error st, h) => (st, vec, h)
  | (.ok value, h) =>
    match otlpAttrVecReserve h vec max key with
    | (.error st, vec, h) => (st, vec, h)
    | (.ok i, vec, h) => (.ok, vec.modify i fun a => { a with value }, h)

def otlpAttrVecSet (h : Heap) (vec : AttrVec) (max : ℕ) (key : Bytes) (v : OtlpValue) :
    OtlpStatus × AttrVec × Heap :=
  attrVecPut vec max key
    (match dupValue .errNull h v with
      | (.error st, h) => (.error st, h)
      | (.ok v, h) => (.ok (.scalar v), h))

def otlpAttrVecSetArray (h : Heap) (vec : AttrVec) (max : ℕ) (key : Bytes) (items : Option (List OtlpValue)) :
    OtlpStatus × AttrVec × Heap :=
  attrVecPut vec max key (otlpAttrArrayBuild h items)

def otlpAttrVecSetKvlist (h : Heap) (vec : AttrVec) (max : ℕ) (key : Bytes) (entries : Option (List OtlpKv)) :
    OtlpStatus × AttrVec × Heap :=
  attrVecPut vec max key (otlpAttrKvlistBuild h entries)

/-- The arguments of a setter `*_set_attribute_string`, `_int`, `_double`, `_bool`, `_bytes`, `_array` or
`_kvlist`, the key apart. -/
inductive AttrArg where
  | string (value : Option Bytes)
  | int (value : UInt64)
  | double (value : UInt64)
  | bool (value : Bool)
  | bytes (data : Bytes)
  | nullBytes (len : ℕ)
  | array (items : Option (List OtlpValue))
  | kvlist (entries : Option (List OtlpKv))
deriving Repr, DecidableEq

/-- The seven setters of a surface with attributes: NULL for the key is refused, NULL for a string is empty. -/
def setAttribute (h : Heap) (vec : AttrVec) (max : ℕ) (key : Option Bytes) (arg : AttrArg) :
    OtlpStatus × AttrVec × Heap :=
  match key with
  | none => (.errNull, vec, h)
  | some key =>
    match arg with
    | .string v => otlpAttrVecSet h vec max key (.string (some (v.getD [])))
    | .int v => otlpAttrVecSet h vec max key (.int64 v)
    | .double v => otlpAttrVecSet h vec max key (.double v)
    | .bool v => otlpAttrVecSet h vec max key (.bool v)
    | .bytes data => otlpAttrVecSet h vec max key (.bytes data)
    | .nullBytes len => otlpAttrVecSet h vec max key (.nullBytes len)
    | .array items => otlpAttrVecSetArray h vec max key items
    | .kvlist entries => otlpAttrVecSetKvlist h vec max key entries

/-! ### Copies -/

def copyScalar (h : Heap) : Scalar → Except OtlpStatus Scalar × Heap
  | .string none => (.ok (.string none), h)
  | .string (some s) =>
    match otlpDupStr h (some s.bytes) with
    | (none, h) => (.error .errNomem, h)
    | (some s, h) => (.ok (.string (some s)), h)
  | .bool v => (.ok (.bool v), h)
  | .int64 v => (.ok (.int64 v), h)
  | .double v => (.ok (.double v), h)
  | .bytes none => (.ok (.bytes none), h)
  | .bytes (some b) => dupData h b.items

/-- An entry of a list of pairs, key first. -/
def copyEntry (h : Heap) (e : HeapStr × Scalar) : Except OtlpStatus (HeapStr × Scalar) × Heap :=
  match otlpDupStr h (some e.1.bytes) with
  | (none, h) => (.error .errNomem, h)
  | (some k, h) =>
    match copyScalar h e.2 with
    | (.error st, h) => (.error st, h)
    | (.ok v, h) => (.ok (k, v), h)

/-- The part that arrays and lists of pairs share; a block for the items is asked for even when there are
none. -/
def copyItems {α : Type} (size : ℕ) (copy : Heap → α → Except OtlpStatus α × Heap) (h : Heap) (xs : List α) :
    Except OtlpStatus (ℕ × Option (HeapArr α size)) × Heap :=
  match otlpMalloc h sizeofAttrArray with
  | (none, h) => (.error .errNomem, h)
  | (some c, h) =>
    if sizeMax / size < xs.length then (.error .errNomem, h)
    else
      match otlpMalloc h (xs.length * size) with
      | (none, h) => (.error .errNomem, h)
      | (some arr, h) =>
        match fillAll copy h xs with
        | (.error st, h) => (.error st, h)
        | (.ok ys, h) => (.ok (c.block, some ⟨arr.block, ys.1, ys.2.symm ▸ arr.fits⟩), h)

def copyValue (h : Heap) : AttrValue → Except OtlpStatus AttrValue × Heap
  | .scalar v =>
    match copyScalar h v with
    | (.error st, h) => (.error st, h)
    | (.ok v, h) => (.ok (.scalar v), h)
  | .array _ items =>
    match copyItems sizeofAttribute copyScalar h (arrItems items) with
    | (.error st, h) => (.error st, h)
    | (.ok (block, items), h) => (.ok (.array block items), h)
  | .kvlist _ entries =>
    match copyItems sizeofKvlistEntry copyEntry h (arrItems entries) with
    | (.error st, h) => (.error st, h)
    | (.ok (block, entries), h) => (.ok (.kvlist block entries), h)

def attrCopyOne (h : Heap) (a : Attribute) : Except OtlpStatus Attribute × Heap :=
  match otlpDupStr h (some a.key.bytes) with
  | (none, h) => (.error .errNomem, h)
  | (some key, h) =>
    match copyValue h a.value with
    | (.error st, h) => (.error st, h)
    | (.ok value, h) => (.ok { key, value }, h)

/-- `otlp_attr_vec_copy` into an empty vector. -/
def otlpAttrVecCopy (h : Heap) (src : AttrVec) : Except OtlpStatus AttrVec × Heap :=
  if src.items.isEmpty then (.ok .empty, h)
  else if sizeMax / sizeofAttribute < src.items.length then (.error .errNomem, h)
  else
    match otlpMalloc h (src.items.length * sizeofAttribute) with
    | (none, h) => (.error .errNomem, h)
    | (some c, h) =>
      match fillAll attrCopyOne h src.items with
      | (.error st, h) => (.error st, h)
      | (.ok items, h) =>
        (.ok {
          block := some c.block
          items := items.1
          cap := src.items.length
          le_cap := items.2.le
          fits := c.fits }, h)

/-! ### What a setter asks for -/

def OtlpValue.any : OtlpValue → AnyValue
  | .string v => .string (v.getD [])
  | .bool v => .bool v
  | .int64 v => .int v
  | .double v => .double v
  | .bytes data => .bytes data
  | .nullBytes _ => .bytes []
  | .unknown => .unset

def OtlpKv.kv (e : OtlpKv) : KeyValue := (e.key.getD [], e.value.any)

def AttrArg.any : AttrArg → AnyValue
  | .string v => .string (v.getD [])
  | .int v => .int v
  | .double v => .double v
  | .bool v => .bool v
  | .bytes data => .bytes data
  | .nullBytes _ => .bytes []
  | .array items => .array ((items.getD []).map OtlpValue.any)
  | .kvlist entries => .kvlist ((entries.getD []).map OtlpKv.kv)

/-- The attributes are a map that keeps the order of first insertion: the last write wins. -/
def upsert (key : Bytes) (v : AnyValue) (kvs : List KeyValue) : List KeyValue :=
  match kvs.findIdx? (fun kv => kv.1 == key) with
  | some i => kvs.modify i fun kv => (kv.1, v)
  | none => kvs ++ [(key, v)]

def putKvs (st : OtlpStatus) (key : Bytes) (v : AnyValue) (kvs : List KeyValue) : List KeyValue :=
  if st = .ok then upsert key v kvs else kvs

/-! ### What the builders make -/

/-- What a builder returns reads as it should, and owns only blocks that the builder allocated, with valid text. -/
structure Makes {β γ : Type} (leaves : β → List Leaf) (read : β → γ) (h : Heap) (want : γ)
    (res : Except OtlpStatus β × Heap) : Prop where
  le : h.Le res.2
  leaf : ∀ y, res.1 = .ok y → ∀ l ∈ leaves y, l.Fresh h res.2 ∧ l.Valid
  read_eq : ∀ y, res.1 = .ok y → read y = want
  error_ne : ∀ st, res.1 = .error st → st ≠ .ok

section Makes

variable {β γ : Type} {leaves : β → List Leaf} {read : β → γ} {want : γ}

theorem Makes.error {h h' : Heap} (hle : h.Le h') {st : OtlpStatus} (hst : st ≠ .ok) :
    Makes leaves read h want (.error st, h') :=
  ⟨hle, fun _ hy => (by cases hy), fun _ hy => (by cases hy), fun _ hy => (by cases hy; exact hst)⟩

theorem Makes.ok {h h' : Heap} {y : β} (hle : h.Le h') (hleaf : ∀ l ∈ leaves y, l.Fresh h h' ∧ l.Valid)
    (hread : read y = want) : Makes leaves read h want (.ok y, h') :=
  ⟨hle, fun _ hy => (by cases hy; exact hleaf), fun _ hy => (by cases hy; exact hread), fun _ hy => (by cases hy)⟩

theorem Makes.ok_of_nil {h : Heap} {y : β} (hy : leaves y = []) (hread : read y = want) :
    Makes leaves read h want (.ok y, h) :=
  .ok (.refl h) (by simp [hy]) hread

theorem Makes.error_of {h h' : Heap} {st : OtlpStatus} (hmakes : Makes leaves read h want (.error st, h'))
    {δ ε : Type} {leaves' : δ → List Leaf} {read' : δ → ε} {want' : ε} :
    Makes leaves' read' h want' (.error st, h') :=
  .error hmakes.le (hmakes.error_ne st rfl)

theorem makes_dupText (h : Heap) (v : Option Bytes) :
    Makes Scalar.leaves Scalar.any h (.string (v.getD [])) (dupText h v) := by
  have hle := otlpDupStr_le h (some (v.getD []))
  unfold dupText
  split
  · exact .error (.refl h) (by decide)
  · next hutf8 =>
    split
    · next heq =>
      rw [heq] at hle
      exact .error hle (by decide)
    · next s h' heq =>
      rw [heq] at hle
      obtain ⟨htext, hfresh⟩ := otlpDupStr_some heq
      have htext := (Option.some.inj htext).symm
      refine .ok hle (fun l hl => ?_) (congrArg AnyValue.string htext)
      obtain rfl : l = s.leaf := by simpa [Scalar.leaves] using hl
      refine ⟨hfresh, fun t ht => ?_⟩
      cases ht
      rw [htext]
      simpa [isUtf8] using hutf8

theorem makes_dupData (h : Heap) (data : Bytes) :
    Makes Scalar.leaves Scalar.any h (.bytes data) (dupData h data) := by
  have hle := dupArr_le 1 h data
  unfold dupData
  split
  · next hempty => exact .ok_of_nil rfl (by simp [Scalar.any, List.isEmpty_iff.1 hempty])
  · split
    · next heq =>
      rw [heq] at hle
      exact .error hle (by decide)
    · next b h' heq =>
      rw [heq] at hle
      obtain ⟨hitems, hfresh⟩ := dupArr_some heq
      refine .ok hle (fun l hl => ?_) (congrArg AnyValue.bytes hitems)
      obtain rfl : l = b.leaf := by simpa [Scalar.leaves] using hl
      exact ⟨hfresh, valid_blockLeaf _⟩

theorem makes_dupValue {nullStatus : OtlpStatus} (hnull : nullStatus ≠ .ok) (h : Heap) (v : OtlpValue) :
    Makes Scalar.leaves Scalar.any h v.any (dupValue nullStatus h v) := by
  cases v with
  | string v => exact makes_dupText h v
  | bytes data => exact makes_dupData h data
  | bool v | int64 v | double v => exact .ok_of_nil rfl rfl
  | nullBytes len =>
    rw [dupValue]
    split
    · exact .error (.refl h) hnull
    · exact .ok_of_nil rfl rfl
  | unknown => exact .error (.refl h) (by decide)

theorem makes_valueFill (h : Heap) (v : OtlpValue) : Makes Scalar.leaves Scalar.any h v.any (valueFill h v) :=
  makes_dupValue (by decide) h v

def entryKv (e : HeapStr × Scalar) : KeyValue := (e.1.bytes, e.2.any)

theorem makes_entryFill (h : Heap) (e : OtlpKv) : Makes entryLeaves entryKv h e.kv (entryFill h e) := by
  unfold entryFill
  split
  · exact .error (.refl h) (by decide)
  · next key hkey =>
    split
    · exact .error (.refl h) (by decide)
    · next hutf8 =>
      have hvalue := makes_valueFill h e.value
      split
      · next heq =>
        rw [heq] at hvalue
        exact hvalue.error_of
      · next v h₁ heq =>
        rw [heq] at hvalue
        have hle := otlpDupStr_le h₁ (some key)
        split
        · next heq' =>
          rw [heq'] at hle
          exact .error (hvalue.le.trans hle) (by decide)
        · next k h₂ heq' =>
          rw [heq'] at hle
          obtain ⟨htext, hfresh⟩ := otlpDupStr_some heq'
          have htext := (Option.some.inj htext).symm
          refine .ok (hvalue.le.trans hle) (fun l hl => ?_) ?_
          · rcases List.mem_cons.1 hl with rfl | hl
            · refine ⟨hfresh.mono hvalue.le (.refl h₂), fun t ht => ?_⟩
              cases ht
              rw [htext]
              simpa using hutf8
            · obtain ⟨hfresh, hvalid⟩ := hvalue.leaf v rfl l hl
              exact ⟨hfresh.mono (.refl h) hle, hvalid⟩
          · simp only [entryKv, OtlpKv.kv, htext, hkey, Option.getD_some, hvalue.read_eq v rfl]

theorem makes_buildItems {α : Type} {size : ℕ} {fill : Heap → α → Except OtlpStatus β × Heap} {f : α → γ}
    (hfill : ∀ h x, Makes leaves read h (f x) (fill h x)) (h : Heap) (items : Option (List α)) :
    Makes (fun r : ℕ × Option (HeapArr β size) => blockLeaf r.1 :: arrLeaves leaves r.2)
      (fun r => (arrItems r.2).map read) h ((items.getD []).map f) (buildItems size fill h items) := by
  unfold buildItems
  split
  · exact .error (.refl h) (by decide)
  · next xs =>
    split
    · exact .error (.refl h) (by decide)
    · have hle := otlpMalloc_le h sizeofAttrArray
      split
      · next heq =>
        rw [heq] at hle
        exact .error hle (by decide)
      · next c h₁ heq =>
        rw [heq] at hle
        have hc := otlpMalloc_fresh heq none
        split
        · next hempty =>
          refine .ok hle (fun l hl => ?_) (by simp [arrItems, List.isEmpty_iff.1 hempty])
          obtain rfl : l = blockLeaf c.block := by simpa [arrLeaves] using hl
          exact ⟨hc, valid_blockLeaf _⟩
        · have hle₁ := otlpMalloc_le h₁ (xs.length * size)
          split
          · next heq₁ =>
            rw [heq₁] at hle₁
            exact .error (hle.trans hle₁) (by decide)
          · next arr h₂ heq₁ =>
            rw [heq₁] at hle₁
            have harr := otlpMalloc_fresh heq₁ none
            have hle₂ := fillAll_le (fun h x => (hfill h x).le) h₂ xs
            split
            · next heq₂ =>
              rw [heq₂] at hle₂
              have hne := fillAll_error_ne (fun h x st h' hx => (hfill h x).error_ne st (by rw [hx])) heq₂
              exact .error (hle.trans (hle₁.trans hle₂)) hne
            · next ys h₃ heq₂ =>
              rw [heq₂] at hle₂
              have hys := fillAll_leaves (fun h x => (hfill h x).le)
                (fun h x y h' hy => by simpa only [hy] using (hfill h x).leaf y (by rw [hy])) heq₂
              have hread := fillAll_map (fun h x y h' hy => (hfill h x).read_eq y (by rw [hy])) heq₂
              refine .ok (hle.trans (hle₁.trans hle₂)) (fun l hl => ?_) hread
              rcases List.mem_cons.1 hl with rfl | hl
              · exact ⟨hc.mono (.refl h) (hle₁.trans hle₂), valid_blockLeaf _⟩
              · rcases List.mem_cons.1 hl with rfl | hl
                · exact ⟨harr.mono hle hle₂, valid_blockLeaf _⟩
                · exact ⟨(hys l hl).1.mono (hle.trans hle₁) (.refl h₃), (hys l hl).2⟩

theorem makes_otlpAttrArrayBuild (h : Heap) (items : Option (List OtlpValue)) :
    Makes AttrValue.leaves AttrValue.any h (AttrArg.array items).any (otlpAttrArrayBuild h items) := by
  have hmakes : Makes _ _ h _ (buildItems sizeofAttribute valueFill h items) :=
    makes_buildItems makes_valueFill h items
  unfold otlpAttrArrayBuild
  split
  · next heq =>
    rw [heq] at hmakes
    exact hmakes.error_of
  · next heq =>
    rw [heq] at hmakes
    exact .ok hmakes.le (hmakes.leaf _ rfl) (congrArg AnyValue.array (hmakes.read_eq _ rfl))

theorem makes_otlpAttrKvlistBuild (h : Heap) (entries : Option (List OtlpKv)) :
    Makes AttrValue.leaves AttrValue.any h (AttrArg.kvlist entries).any (otlpAttrKvlistBuild h entries) := by
  have hmakes : Makes _ _ h _ (buildItems sizeofKvlistEntry entryFill h entries) :=
    makes_buildItems makes_entryFill h entries
  unfold otlpAttrKvlistBuild
  split
  · next heq =>
    rw [heq] at hmakes
    exact hmakes.error_of
  · next heq =>
    rw [heq] at hmakes
    exact .ok hmakes.le (hmakes.leaf _ rfl) (congrArg AnyValue.kvlist (hmakes.read_eq _ rfl))

end Makes

/-! ### What the engine changes -/

theorem attrLeaves_modify_subset {vec : AttrVec} {i : ℕ} {value : AttrValue} {l : Leaf}
    (hl : l ∈ attrLeaves (vec.modify i fun a => { a with value })) : l ∈ attrLeaves vec ∨ l ∈ value.leaves := by
  rcases GrowVec.mem_leaves_modify hl with hl | ⟨a, ha, hl⟩
  · exact .inl hl
  · rcases List.mem_cons.1 hl with rfl | hl
    · exact .inl (GrowVec.leaves_subset_of_mem (List.mem_of_getElem? ha) List.mem_cons_self)
    · exact .inr hl

theorem attrKvs_modify (vec : AttrVec) (i : ℕ) (value : AttrValue) :
    attrKvs (vec.modify i fun a => { a with value }) = (attrKvs vec).modify i fun kv => (kv.1, value.any) :=
  map_modify (f := Attribute.kv) (fun _ => rfl) vec.items i

/-- What `otlp_attr_vec_reserve` does: the slot of the key is reused, or one is appended, or nothing is set. -/
theorem otlpAttrVecReserve_spec (h : Heap) (vec : AttrVec) (max : ℕ) (key : Bytes) :
    Grows h (attrLeaves vec) (otlpAttrVecReserve h vec max key).2.2
      (attrLeaves (otlpAttrVecReserve h vec max key).2.1) ∧
    (∀ i, (otlpAttrVecReserve h vec max key).1 = .ok i → ∀ value : AttrValue,
      attrKvs ((otlpAttrVecReserve h vec max key).2.1.modify i fun a => { a with value }) =
        upsert key value.any (attrKvs vec)) ∧
    (∀ st, (otlpAttrVecReserve h vec max key).1 = .error st →
      st ≠ .ok ∧ attrKvs (otlpAttrVecReserve h vec max key).2.1 = attrKvs vec) := by
  have hfind : (attrKvs vec).findIdx? (fun kv => kv.1 == key) =
      vec.items.findIdx? (fun a => a.key.bytes == key) := List.findIdx?_map
  unfold otlpAttrVecReserve upsert
  rw [hfind]
  split
  · next i hi =>
    refine ⟨⟨.refl h, fun l hl => ?_⟩, ?_, fun st hst => by cases hst⟩
    · rcases attrLeaves_modify_subset hl with hl | hl
      · exact .inl hl
      · simp [emptyValue, AttrValue.leaves, Scalar.leaves] at hl
    · rintro j hj value
      cases hj
      rw [attrKvs_modify, attrKvs_modify, List.modify_modify_eq]
      rfl
  · split
    · next hlt =>
      have hgrow := GrowVec.grow_le vec max hlt (by decide) h
      split
      · next heq =>
        rw [heq] at hgrow
        exact ⟨.of_le hgrow _, fun i hi => (by cases hi), fun st hst => (by cases hst; exact ⟨by decide, rfl⟩)⟩
      · next vec' h₁ heq =>
        obtain ⟨hitems, hvec⟩ := GrowVec.grow_some heq Attribute.leaves
        have hkvs : attrKvs vec'.toGrowVec = attrKvs vec := congrArg (List.map Attribute.kv) hitems
        split
        · exact ⟨hvec, fun i hi => (by cases hi), fun st hst => (by cases hst; exact ⟨by decide, hkvs⟩)⟩
        · next hutf8 =>
          have hle := otlpDupStr_le h₁ (some key)
          split
          · next heq' =>
            rw [heq'] at hle
            exact ⟨hvec.trans (.of_le hle _), fun i hi => (by cases hi),
              fun st hst => (by cases hst; exact ⟨by decide, hkvs⟩)⟩
          · next k h₂ heq' =>
            rw [heq'] at hle
            obtain ⟨htext, hfresh⟩ := otlpDupStr_some heq'
            have htext := (Option.some.inj htext).symm
            refine ⟨hvec.trans ⟨hle, fun l hl => ?_⟩, ?_, fun st hst => by cases hst⟩
            · rcases GrowVec.mem_leaves_push hl with hl | hl
              · exact .inl hl
              · obtain rfl : l = k.leaf := by simpa [Attribute.leaves, emptyValue, AttrValue.leaves,
                  Scalar.leaves] using hl
                refine .inr ⟨hfresh, fun t ht => ?_⟩
                cases ht
                rw [htext]
                simpa using hutf8
            · rintro j hj value
              cases hj
              have hlength : vec'.items.length = (attrKvs vec).length := by rw [← hkvs, attrKvs, List.length_map]
              rw [attrKvs_modify, attrKvs, GrowVec.push, List.map_append, show vec'.items.map Attribute.kv =
                attrKvs vec from hkvs, hlength, List.modify_eq_take_drop, List.take_left, List.drop_left]
              simp [Attribute.kv, htext]
    · exact ⟨.refl h _, fun i hi => (by cases hi), fun st hst => (by cases hst; exact ⟨by decide, rfl⟩)⟩

/-- A setter puts the value, or changes nothing. -/
theorem attrVecPut_spec {h : Heap} (vec : AttrVec) (max : ℕ) (key : Bytes) {v : AnyValue}
    {built : Except OtlpStatus AttrValue × Heap} (hbuilt : Makes AttrValue.leaves AttrValue.any h v built) :
    Grows h (attrLeaves vec) (attrVecPut vec max key built).2.2 (attrLeaves (attrVecPut vec max key built).2.1) ∧
    attrKvs (attrVecPut vec max key built).2.1 =
      putKvs (attrVecPut vec max key built).1 key v (attrKvs vec) := by
  obtain ⟨res, h₁⟩ := built
  cases res with
  | error st => exact ⟨.of_le hbuilt.le _, (if_neg (hbuilt.error_ne st rfl)).symm⟩
  | ok value =>
    obtain ⟨hreserve, hok, herror⟩ := otlpAttrVecReserve_spec h₁ vec max key
    rw [attrVecPut]
    split
    · next st vec' h₂ heq =>
      rw [heq] at hreserve herror
      obtain ⟨hst, hkvs⟩ := herror st rfl
      exact ⟨(Grows.of_le hbuilt.le _).trans hreserve, hkvs.trans (if_neg hst).symm⟩
    · next i vec' h₂ heq =>
      rw [heq] at hreserve hok
      have hgrows := (Grows.of_le hbuilt.le _).trans hreserve
      refine ⟨⟨hgrows.le, fun l hl => ?_⟩, ?_⟩
      · rcases attrLeaves_modify_subset hl with hl | hl
        · exact hgrows.mem l hl
        · obtain ⟨hfresh, hvalid⟩ := hbuilt.leaf value rfl l hl
          exact .inr ⟨hfresh.mono (.refl h) hreserve.le, hvalid⟩
      · rw [hok i rfl value, hbuilt.read_eq value rfl]
        exact (if_pos rfl).symm

theorem otlpAttrVecSet_spec (h : Heap) (vec : AttrVec) (max : ℕ) (key : Bytes) (v : OtlpValue) :
    Grows h (attrLeaves vec) (otlpAttrVecSet h vec max key v).2.2
      (attrLeaves (otlpAttrVecSet h vec max key v).2.1) ∧
    attrKvs (otlpAttrVecSet h vec max key v).2.1 =
      putKvs (otlpAttrVecSet h vec max key v).1 key v.any (attrKvs vec) := by
  refine attrVecPut_spec vec max key ?_
  have hmakes := makes_dupValue (show OtlpStatus.errNull ≠ .ok by decide) h v
  split
  · next heq =>
    rw [heq] at hmakes
    exact hmakes.error_of
  · next heq =>
    rw [heq] at hmakes
    exact .ok hmakes.le (hmakes.leaf _ rfl) (hmakes.read_eq _ rfl)

/-- **A setter of an attribute** puts only valid text into the vector and only memory of its own, and it sets
what it was asked to set or changes nothing. -/
theorem setAttribute_spec (h : Heap) (vec : AttrVec) (max : ℕ) (key : Option Bytes) (arg : AttrArg) :
    Grows h (attrLeaves vec) (setAttribute h vec max key arg).2.2
      (attrLeaves (setAttribute h vec max key arg).2.1) ∧
    attrKvs (setAttribute h vec max key arg).2.1 =
      putKvs (setAttribute h vec max key arg).1 (key.getD []) arg.any (attrKvs vec) := by
  cases key with
  | none => exact ⟨.refl h _, rfl⟩
  | some key =>
    cases arg with
    | array items => exact attrVecPut_spec vec max key (makes_otlpAttrArrayBuild h items)
    | kvlist entries => exact attrVecPut_spec vec max key (makes_otlpAttrKvlistBuild h entries)
    | string v | int v | double v | bool v | bytes v | nullBytes v => exact otlpAttrVecSet_spec h vec max key _

/-! ### Copies -/

/-- What a copy returns owns only blocks that it allocated and reads as the original does, and it fails only for
want of memory. -/
structure Copies {β γ : Type} (leaves : β → List Leaf) (read : β → γ) (h : Heap) (orig : γ)
    (res : Except OtlpStatus β × Heap) : Prop where
  le : h.Le res.2
  leaf : ∀ y, res.1 = .ok y → ∀ l ∈ leaves y, l.Fresh h res.2
  read_eq : ∀ y, res.1 = .ok y → read y = orig
  refused : ∀ st, res.1 = .error st → h.refused < res.2.refused

section Copies

variable {β γ : Type} {leaves : β → List Leaf} {read : β → γ} {orig : γ}

theorem Copies.error {h h' : Heap} (hle : h.Le h') (hlt : h.refused < h'.refused) (st : OtlpStatus) :
    Copies leaves read h orig (.error st, h') :=
  ⟨hle, fun _ hy => (by cases hy), fun _ hy => (by cases hy), fun _ _ => hlt⟩

theorem Copies.ok {h h' : Heap} {y : β} (hle : h.Le h') (hleaf : ∀ l ∈ leaves y, l.Fresh h h')
    (hread : read y = orig) : Copies leaves read h orig (.ok y, h') :=
  ⟨hle, fun _ hy => (by cases hy; exact hleaf), fun _ hy => (by cases hy; exact hread), fun _ hy => (by cases hy)⟩

theorem Copies.ok_of_nil {h : Heap} {y : β} (hy : leaves y = []) (hread : read y = orig) :
    Copies leaves read h orig (.ok y, h) :=
  .ok (.refl h) (by simp [hy]) hread

theorem Copies.error_of {h h' : Heap} {st : OtlpStatus} (hcopies : Copies leaves read h orig (.error st, h'))
    {β' γ' : Type} {leaves' : β' → List Leaf} {read' : β' → γ'} {orig' : γ'} :
    Copies leaves' read' h orig' (.error st, h') :=
  .error hcopies.le (hcopies.refused st rfl) st

theorem otlpDupStr_cases (h : Heap) (s : HeapStr) :
    (∃ h', otlpDupStr h (some s.bytes) = (none, h') ∧ h.Le h' ∧ h.refused < h'.refused) ∨
    ∃ c h', otlpDupStr h (some s.bytes) = (some c, h') ∧ h.Le h' ∧ c.bytes = s.bytes ∧ c.leaf.Fresh h h' := by
  have hle := otlpDupStr_le h (some s.bytes)
  cases heq : otlpDupStr h (some s.bytes) with
  | mk res h' =>
    rw [heq] at hle
    cases res with
    | none => exact .inl ⟨h', rfl, hle, otlpDupStr_none s.fits heq⟩
    | some c =>
      obtain ⟨htext, hfresh⟩ := otlpDupStr_some heq
      exact .inr ⟨c, h', rfl, hle, (Option.some.inj htext).symm, hfresh⟩

theorem copies_dupData (h : Heap) (b : HeapArr UInt8 1) :
    Copies Scalar.leaves Scalar.any h (.bytes b.items) (dupData h b.items) := by
  have hle := dupArr_le 1 h b.items
  unfold dupData
  split
  · next hempty =>
    refine .ok_of_nil rfl ?_
    simp [Scalar.any, List.isEmpty_iff.1 hempty]
  · split
    · next heq =>
      rw [heq] at hle
      exact .error hle (dupArr_none heq) _
    · next c h' heq =>
      rw [heq] at hle
      obtain ⟨hitems, hfresh⟩ := dupArr_some heq
      refine .ok hle (fun l hl => ?_) (by simp [Scalar.any, hitems])
      obtain rfl : l = c.leaf := by simpa [Scalar.leaves] using hl
      exact hfresh

theorem copies_copyScalar (h : Heap) (v : Scalar) : Copies Scalar.leaves Scalar.any h v.any (copyScalar h v) := by
  cases v with
  | bool v | int64 v | double v => exact .ok_of_nil rfl rfl
  | string v =>
    cases v with
    | none => exact .ok_of_nil rfl rfl
    | some s =>
      rw [copyScalar]
      rcases otlpDupStr_cases h s with ⟨h', heq, hle, hlt⟩ | ⟨c, h', heq, hle, htext, hfresh⟩
      · rw [heq]
        exact .error hle hlt _
      · rw [heq]
        refine .ok hle (fun l hl => ?_) (by simp [Scalar.any, htext])
        obtain rfl : l = c.leaf := by simpa [Scalar.leaves] using hl
        exact hfresh
  | bytes v =>
    cases v with
    | none => exact .ok_of_nil rfl rfl
    | some b => exact copies_dupData h b

theorem copies_copyEntry (h : Heap) (e : HeapStr × Scalar) :
    Copies entryLeaves entryKv h (entryKv e) (copyEntry h e) := by
  unfold copyEntry
  rcases otlpDupStr_cases h e.1 with ⟨h₁, heq, hle, hlt⟩ | ⟨k, h₁, heq, hle, htext, hfresh⟩
  · rw [heq]
    exact .error hle hlt _
  · rw [heq]
    dsimp only
    have hvalue := copies_copyScalar h₁ e.2
    split
    · next st h₂ heq₂ =>
      rw [heq₂] at hvalue
      exact .error (hle.trans hvalue.le) (hle.refused_le.trans_lt (hvalue.refused st rfl)) _
    · next v h₂ heq₂ =>
      rw [heq₂] at hvalue
      refine .ok (hle.trans hvalue.le) (fun l hl => ?_) ?_
      · rcases List.mem_cons.1 hl with rfl | hl
        · exact hfresh.mono (.refl h) hvalue.le
        · exact (hvalue.leaf v rfl l hl).mono hle (.refl h₂)
      · simp only [entryKv, htext, hvalue.read_eq v rfl]

theorem length_arrItems {α : Type} {size : ℕ} (a : Option (HeapArr α size)) :
    (arrItems a).length * size ≤ ptrdiffMax := by
  cases a with
  | none => simp [arrItems]
  | some a => exact a.fits

theorem length_le_of_fits {n size : ℕ} (hpos : 0 < size) (hfits : n * size ≤ ptrdiffMax) :
    ¬sizeMax / size < n := by
  rw [not_lt, Nat.le_div_iff_mul_le hpos]
  unfold ptrdiffMax at hfits
  unfold sizeMax
  omega

theorem copies_copyItems {size : ℕ} {copy : Heap → β → Except OtlpStatus β × Heap} (hpos : 0 < size)
    (hcopy : ∀ h x, Copies leaves read h (read x) (copy h x)) (h : Heap) (xs : List β)
    (hfits : xs.length * size ≤ ptrdiffMax) :
    Copies (fun r : ℕ × Option (HeapArr β size) => blockLeaf r.1 :: arrLeaves leaves r.2)
      (fun r => (arrItems r.2).map read) h (xs.map read) (copyItems size copy h xs) := by
  have hle := otlpMalloc_le h sizeofAttrArray
  unfold copyItems
  split
  · next heq =>
    rw [heq] at hle
    exact .error hle (otlpMalloc_none heq) _
  · next c h₁ heq =>
    rw [heq] at hle
    have hc := otlpMalloc_fresh heq none
    rw [if_neg (length_le_of_fits hpos hfits)]
    have hle₁ := otlpMalloc_le h₁ (xs.length * size)
    split
    · next heq₁ =>
      rw [heq₁] at hle₁
      exact .error (hle.trans hle₁) (hle.refused_le.trans_lt (otlpMalloc_none heq₁)) _
    · next arr h₂ heq₁ =>
      rw [heq₁] at hle₁
      have harr := otlpMalloc_fresh heq₁ none
      have hle₂ := fillAll_le (fun h x => (hcopy h x).le) h₂ xs
      split
      · next heq₂ =>
        rw [heq₂] at hle₂
        have hlt := fillAll_error (fun h x => (hcopy h x).le)
          (fun x _ h st h' hx => by simpa only [hx] using (hcopy h x).refused st (by rw [hx])) heq₂
        exact .error (hle.trans (hle₁.trans hle₂)) ((hle.trans hle₁).refused_le.trans_lt hlt) _
      · next ys h₃ heq₂ =>
        rw [heq₂] at hle₂
        have hys := fillAll_leaves (fun h x => (hcopy h x).le)
          (fun h x y h' hy l hl => ⟨by simpa only [hy] using (hcopy h x).leaf y (by rw [hy]) l hl, trivial⟩) heq₂
        have hread := fillAll_map (fun h x y h' hy => (hcopy h x).read_eq y (by rw [hy])) heq₂
        refine .ok (hle.trans (hle₁.trans hle₂)) (fun l hl => ?_) hread
        rcases List.mem_cons.1 hl with rfl | hl
        · exact hc.mono (.refl h) (hle₁.trans hle₂)
        · rcases List.mem_cons.1 hl with rfl | hl
          · exact harr.mono hle hle₂
          · exact (hys l hl).1.mono (hle.trans hle₁) (.refl h₃)

theorem copies_copyValue (h : Heap) (v : AttrValue) :
    Copies AttrValue.leaves AttrValue.any h v.any (copyValue h v) := by
  cases v with
  | scalar v =>
    have hcopies := copies_copyScalar h v
    rw [copyValue]
    split
    · next heq =>
      rw [heq] at hcopies
      exact hcopies.error_of
    · next v' h' heq =>
      rw [heq] at hcopies
      exact .ok hcopies.le (hcopies.leaf v' rfl) (hcopies.read_eq v' rfl)
  | array block items =>
    have hcopies := copies_copyItems (by decide) copies_copyScalar h (arrItems items) (length_arrItems items)
    rw [copyValue]
    split
    · next heq =>
      rw [heq] at hcopies
      exact hcopies.error_of
    · next block' items' h' heq =>
      rw [heq] at hcopies
      exact .ok hcopies.le (hcopies.leaf _ rfl) (congrArg AnyValue.array (hcopies.read_eq _ rfl))
  | kvlist block entries =>
    have hcopies := copies_copyItems (by decide) copies_copyEntry h (arrItems entries) (length_arrItems entries)
    rw [copyValue]
    split
    · next heq =>
      rw [heq] at hcopies
      exact hcopies.error_of
    · next block' entries' h' heq =>
      rw [heq] at hcopies
      exact .ok hcopies.le (hcopies.leaf _ rfl) (congrArg AnyValue.kvlist (hcopies.read_eq _ rfl))

theorem copies_attrCopyOne (h : Heap) (a : Attribute) :
    Copies Attribute.leaves Attribute.kv h a.kv (attrCopyOne h a) := by
  unfold attrCopyOne
  rcases otlpDupStr_cases h a.key with ⟨h₁, heq, hle, hlt⟩ | ⟨k, h₁, heq, hle, htext, hfresh⟩
  · rw [heq]
    exact .error hle hlt _
  · rw [heq]
    dsimp only
    have hvalue := copies_copyValue h₁ a.value
    split
    · next st h₂ heq₂ =>
      rw [heq₂] at hvalue
      exact .error (hle.trans hvalue.le) (hle.refused_le.trans_lt (hvalue.refused st rfl)) _
    · next v h₂ heq₂ =>
      rw [heq₂] at hvalue
      refine .ok (hle.trans hvalue.le) (fun l hl => ?_) ?_
      · rcases List.mem_cons.1 hl with rfl | hl
        · exact hfresh.mono (.refl h) hvalue.le
        · exact (hvalue.leaf v rfl l hl).mono hle (.refl h₂)
      · simp only [Attribute.kv, htext, hvalue.read_eq v rfl]

/-- **The copy of an attribute vector.** -/
theorem copies_otlpAttrVecCopy (h : Heap) (src : AttrVec) :
    Copies attrLeaves attrKvs h (attrKvs src) (otlpAttrVecCopy h src) := by
  unfold otlpAttrVecCopy
  split
  · next hempty =>
    refine .ok_of_nil rfl ?_
    simp [attrKvs, GrowVec.empty, List.isEmpty_iff.1 hempty]
  · rw [if_neg (length_le_of_fits (by decide) src.length_le)]
    have hle := otlpMalloc_le h (src.items.length * sizeofAttribute)
    split
    · next heq =>
      rw [heq] at hle
      exact .error hle (otlpMalloc_none heq) _
    · next c h₁ heq =>
      rw [heq] at hle
      have hc := otlpMalloc_fresh heq none
      have hle₁ := fillAll_le (fun h x => (copies_attrCopyOne h x).le) h₁ src.items
      split
      · next heq₁ =>
        rw [heq₁] at hle₁
        have hlt := fillAll_error (fun h x => (copies_attrCopyOne h x).le)
          (fun x _ h st h' hx => by simpa only [hx] using (copies_attrCopyOne h x).refused st (by rw [hx])) heq₁
        exact .error (hle.trans hle₁) (hle.refused_le.trans_lt hlt) _
      · next ys h₂ heq₁ =>
        rw [heq₁] at hle₁
        have hys := fillAll_leaves (fun h x => (copies_attrCopyOne h x).le)
          (fun h x y h' hy l hl =>
            ⟨by simpa only [hy] using (copies_attrCopyOne h x).leaf y (by rw [hy]) l hl, trivial⟩) heq₁
        have hread := fillAll_map (fun h x y h' hy => (copies_attrCopyOne h x).read_eq y (by rw [hy])) heq₁
        refine .ok (hle.trans hle₁) (fun l hl => ?_) hread
        rcases List.mem_append.1 hl with hl | hl
        · obtain rfl : l = blockLeaf c.block := by simpa using hl
          exact hc.mono (.refl h) hle₁
        · exact (hys l hl).1.mono hle (.refl h₂)

end Copies

/-- The copy of a whole object, NULL only for want of memory. -/
structure Clones {α γ : Type} (leaves : α → List Leaf) (read : α → γ) (h : Heap) (orig : γ)
    (res : Option α × Heap) : Prop where
  le : h.Le res.2
  leaf : ∀ y, res.1 = some y → ∀ l ∈ leaves y, l.Fresh h res.2
  read_eq : ∀ y, res.1 = some y → read y = orig
  refused : res.1 = none → h.refused < res.2.refused

section Clones

variable {α γ : Type} {leaves : α → List Leaf} {read : α → γ} {orig : γ}

theorem Clones.none {h h' : Heap} (hle : h.Le h') (hlt : h.refused < h'.refused) :
    Clones leaves read h orig (none, h') :=
  ⟨hle, fun _ hy => (by cases hy), fun _ hy => (by cases hy), fun _ => hlt⟩

theorem Clones.some {h h' : Heap} {y : α} (hle : h.Le h') (hleaf : ∀ l ∈ leaves y, l.Fresh h h')
    (hread : read y = orig) : Clones leaves read h orig (some y, h') :=
  ⟨hle, fun _ hy => (by cases hy; exact hleaf), fun _ hy => (by cases hy; exact hread), fun hy => (by cases hy)⟩

end Clones

end OtlpC.Api
