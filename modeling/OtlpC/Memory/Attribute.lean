import OtlpC.Memory.Allocator

/-!
# Attributes that are given back

The attributes of `internal_util.c` with what they free: the old value of a slot that is reused, the value that found
no slot, the elements of an array that could not be finished.
-/

namespace OtlpC.Memory

open Exporter Api

/-! ### Release -/

/-- `otlp_attribute_free` of an element of a composite, which has no key. -/
def releaseScalar : Scalar → MemM Unit
  | .string v => otlpFree (v.map HeapStr.block)
  | .bytes v => otlpFree (v.map HeapArr.block)
  | .bool _ | .int64 _ | .double _ => return ()

/-- An entry of a list of pairs. -/
def releaseEntry (e : HeapStr × Scalar) : MemM Unit := do
  otlpFree (some e.1.block)
  releaseScalar e.2

/-- The part that `otlp_attr_array_free` and `otlp_attr_kvlist_free` share. -/
def freeItems {α : Type} {size : ℕ} (release : α → MemM Unit) (block : ℕ) (items : Option (HeapArr α size)) :
    MemM Unit := do
  releaseAll release (arrItems items)
  otlpFree (items.map HeapArr.block)
  otlpFree (some block)

def otlpAttrArrayFree (block : ℕ) (items : Option (HeapArr Scalar sizeofAttribute)) : MemM Unit :=
  freeItems releaseScalar block items

def otlpAttrKvlistFree (block : ℕ) (entries : Option (HeapArr (HeapStr × Scalar) sizeofKvlistEntry)) : MemM Unit :=
  freeItems releaseEntry block entries

def otlpAttributeReleaseValue : AttrValue → MemM Unit
  | .scalar v => releaseScalar v
  | .array block items => otlpAttrArrayFree block items
  | .kvlist block entries => otlpAttrKvlistFree block entries

def otlpAttributeFree (a : Attribute) : MemM Unit := do
  otlpAttributeReleaseValue a.value
  otlpFree (some a.key.block)

/-- `otlp_attr_vec_free`; a vector without a block has no elements. -/
def otlpAttrVecFree (vec : AttrVec) : MemM Unit := do
  releaseAll otlpAttributeFree vec.items
  otlpFree vec.block

/-! ### Builders -/

def dupData (data : Bytes) : MemM (Except OtlpStatus Scalar) := do
  if data.isEmpty then return .ok (.bytes none)
  else
    match ← dupArr 1 data with
    | none => return .error .errNomem
    | some b => return .ok (.bytes (some b))

def dupText (v : Option Bytes) : MemM (Except OtlpStatus Scalar) := do
  if !isUtf8 v then return .error .errUtf8
  else
    match ← otlpDupStr (some (v.getD [])) with
    | none => return .error .errNomem
    | some s => return .ok (.string (some s))

def dupValue (nullStatus : OtlpStatus) : OtlpValue → MemM (Except OtlpStatus Scalar)
  | .string v => dupText v
  | .bool v => return .ok (.bool v)
  | .int64 v => return .ok (.int64 v)
  | .double v => return .ok (.double v)
  | .bytes data => dupData data
  | .nullBytes len => return if 0 < len then .error nullStatus else .ok (.bytes none)
  | .unknown => return .error .errInvalidArgument

def valueFill : OtlpValue → MemM (Except OtlpStatus Scalar) := dupValue .errNomem

/-- An entry of a list of pairs: the value is given up when the key cannot be copied. -/
def entryFill (e : OtlpKv) : MemM (Except OtlpStatus (HeapStr × Scalar)) := do
  match e.key with
  | none => return .error .errNull
  | some key =>
    if !otlpStrIsUtf8 key then return .error .errUtf8
    else
      match ← valueFill e.value with
      | .error st => return .error st
      | .ok v =>
        match ← otlpDupStr (some key) with
        | none =>
          releaseScalar v
          return .error .errNomem
        | some k => return .ok (k, v)

theorem fits_built {α β : Type} {size : ℕ} {xs : List α} (arr : Chunk (xs.length * size))
    (ys : { ys : List β // ys.length = xs.length }) : ys.1.length * size ≤ ptrdiffMax :=
  ys.2.symm ▸ arr.fits

/-- The elements of a composite whose two blocks are there. When one cannot be made, all goes. -/
def fillItems {α β : Type} {size : ℕ} (fill : α → MemM (Except OtlpStatus β)) (release : β → MemM Unit) (block : ℕ)
    (xs : List α) (arr : Chunk (xs.length * size)) : MemM (Except OtlpStatus (ℕ × Option (HeapArr β size))) := do
  match ← buildAll fill release xs with
  | .error st =>
    otlpFree (some arr.block)
    otlpFree (some block)
    return .error st
  | .ok ys => return .ok (block, some ⟨arr.block, ys.1, fits_built arr ys⟩)

/-- The part that `otlp_attr_array_build` and `otlp_attr_kvlist_build` share. -/
def buildItems {α β : Type} (size : ℕ) (fill : α → MemM (Except OtlpStatus β)) (release : β → MemM Unit)
    (items : Option (List α)) : MemM (Except OtlpStatus (ℕ × Option (HeapArr β size))) := do
  match items with
  | none => return .error .errNull
  | some xs =>
    if sizeMax / size < xs.length then return .error .errInvalidArgument
    else
      match ← otlpMalloc sizeofAttrArray with
      | none => return .error .errNomem
      | some c =>
        if xs.isEmpty then return .ok (c.block, none)
        else
          match ← otlpMalloc (xs.length * size) with
          | none =>
            otlpFree (some c.block)
            return .error .errNomem
          | some arr => fillItems fill release c.block xs arr

def otlpAttrArrayBuild (items : Option (List OtlpValue)) : MemM (Except OtlpStatus AttrValue) := do
  match ← buildItems sizeofAttribute valueFill releaseScalar items with
  | .error st => return .error st
  | .ok (block, items) => return .ok (.array block items)

def otlpAttrKvlistBuild (entries : Option (List OtlpKv)) : MemM (Except OtlpStatus AttrValue) := do
  match ← buildItems sizeofKvlistEntry entryFill releaseEntry entries with
  | .error st => return .error st
  | .ok (block, entries) => return .ok (.kvlist block entries)

/-! ### The set-attribute engine -/

/-- An array with a free slot and the elements of `v`. -/
structure GrownVec {α : Type} {size : ℕ} (v : GrowVec α size) extends RoomyVec α size where
  items_eq : items = v.items

section Grown

variable {α : Type} {size : ℕ} {v : GrowVec α size} {max : ℕ}

theorem grown_room (hfull : v.items.length = v.cap) (hlt : v.items.length < max) :
    v.items.length < GrowVec.newCap v.cap max :=
  GrowVec.lt_newCap hfull hlt

theorem grown_le (hfull : v.items.length = v.cap) (hlt : v.items.length < max) :
    v.items.length ≤ GrowVec.newCap v.cap max :=
  (grown_room hfull hlt).le

theorem grown_fits (hsize : size ≤ 64) (c : Chunk (GrowVec.newCap v.cap max * size % 2 ^ 64)) :
    GrowVec.newCap v.cap max * size ≤ ptrdiffMax :=
  Nat.mod_eq_of_lt (GrowVec.newCap_fits hsize v.fits) ▸ c.fits

theorem room_of_not_full (hfull : ¬v.items.length = v.cap) : v.items.length < v.cap :=
  lt_of_le_of_ne v.le_cap hfull

theorem length_copied_le {β : Type} (items : { items : List β // items.length = v.items.length }) :
    items.1.length ≤ v.items.length :=
  items.2.le

theorem fits_copied (c : Chunk (v.items.length * size)) : v.items.length * size ≤ ptrdiffMax := c.fits

end Grown

theorem sizeofAttribute_le : sizeofAttribute ≤ 64 := by decide

/-- Makes sure of a free slot below the maximum. -/
def grow {α : Type} {size : ℕ} (v : GrowVec α size) (max : ℕ) (hlt : v.items.length < max) (hsize : size ≤ 64) :
    MemM (Option (GrownVec v)) := do
  if hfull : v.items.length = v.cap then
    match ← otlpRealloc v.block (GrowVec.newCap v.cap max * size % 2 ^ 64) with
    | none => return none
    | some c =>
      return some {
        block := some c.block
        items := v.items
        cap := GrowVec.newCap v.cap max
        le_cap := grown_le hfull hlt
        fits := grown_fits hsize c
        room := grown_room hfull hlt
        items_eq := rfl }
  else return some { v with room := room_of_not_full hfull, items_eq := rfl }

/-- `otlp_attr_vec_reserve`: the slot of the key, whose old value is released, or a new one. -/
def otlpAttrVecReserve (vec : AttrVec) (max : ℕ) (key : Bytes) : MemM (Except OtlpStatus ℕ × AttrVec) := do
  match vec.items.findIdx? (fun a => a.key.bytes == key) with
  | some i =>
    releaseAll (fun a => otlpAttributeReleaseValue a.value) vec.items[i]?.toList
    return (.ok i, vec.modify i fun a => { a with value := emptyValue })
  | none =>
    if hlt : vec.items.length < max then
      match ← grow vec max hlt sizeofAttribute_le with
      | none => return (.error .errNomem, vec)
      | some vec =>
        if !otlpStrIsUtf8 key then return (.error .errUtf8, vec.toGrowVec)
        else
          match ← otlpDupStr (some key) with
          | none => return (.error .errNomem, vec.toGrowVec)
          | some k => return (.ok vec.items.length, GrowVec.push vec.toRoomyVec ⟨k, emptyValue⟩)
    else return (.error .errOverflow, vec)

/-- The part that the three entry points share: a value that finds no slot is given up. -/
def attrVecPut (vec : AttrVec) (max : ℕ) (key : Bytes) (build : MemM (Except OtlpStatus AttrValue)) :
    MemM (OtlpStatus × AttrVec) := do
  match ← build with
  | .error st => return (st, vec)
  | .ok value =>
    match ← otlpAttrVecReserve vec max key with
    | (.error st, vec) =>
      otlpAttributeReleaseValue value
      return (st, vec)
    | (.ok i, vec) => return (.ok, vec.modify i fun a => { a with value })

def otlpAttrVecSet (vec : AttrVec) (max : ℕ) (key : Bytes) (v : OtlpValue) : MemM (OtlpStatus × AttrVec) :=
  attrVecPut vec max key do
    match ← dupValue .errNull v with
    | .error st => return .error st
    | .ok v => return .ok (.scalar v)

def otlpAttrVecSetArray (vec : AttrVec) (max : ℕ) (key : Bytes) (items : Option (List OtlpValue)) :
    MemM (OtlpStatus × AttrVec) :=
  attrVecPut vec max key (otlpAttrArrayBuild items)

def otlpAttrVecSetKvlist (vec : AttrVec) (max : ℕ) (key : Bytes) (entries : Option (List OtlpKv)) :
    MemM (OtlpStatus × AttrVec) :=
  attrVecPut vec max key (otlpAttrKvlistBuild entries)

/-- The seven setters of a surface with attributes. -/
def setAttribute (vec : AttrVec) (max : ℕ) (key : Option Bytes) (arg : AttrArg) : MemM (OtlpStatus × AttrVec) :=
  match key with
  | none => return (.errNull, vec)
  | some key =>
    match arg with
    | .string v => otlpAttrVecSet vec max key (.string (some (v.getD [])))
    | .int v => otlpAttrVecSet vec max key (.int64 v)
    | .double v => otlpAttrVecSet vec max key (.double v)
    | .bool v => otlpAttrVecSet vec max key (.bool v)
    | .bytes data => otlpAttrVecSet vec max key (.bytes data)
    | .nullBytes len => otlpAttrVecSet vec max key (.nullBytes len)
    | .array items => otlpAttrVecSetArray vec max key items
    | .kvlist entries => otlpAttrVecSetKvlist vec max key entries

/-! ### Copies -/

def copyScalar : Scalar → MemM (Except OtlpStatus Scalar)
  | .string none => return .ok (.string none)
  | .string (some s) => do
    match ← otlpDupStr (some s.bytes) with
    | none => return .error .errNomem
    | some s => return .ok (.string (some s))
  | .bool v => return .ok (.bool v)
  | .int64 v => return .ok (.int64 v)
  | .double v => return .ok (.double v)
  | .bytes none => return .ok (.bytes none)
  | .bytes (some b) => dupData b.items

/-- An entry of a list of pairs: the key is given up when the value cannot be copied. -/
def copyEntry (e : HeapStr × Scalar) : MemM (Except OtlpStatus (HeapStr × Scalar)) := do
  match ← otlpDupStr (some e.1.bytes) with
  | none => return .error .errNomem
  | some k =>
    match ← copyScalar e.2 with
    | .error st =>
      otlpFree (some k.block)
      return .error st
    | .ok v => return .ok (k, v)

/-- The part that arrays and lists of pairs share. -/
def copyItems {α : Type} (size : ℕ) (copy : α → MemM (Except OtlpStatus α)) (release : α → MemM Unit) (xs : List α) :
    MemM (Except OtlpStatus (ℕ × Option (HeapArr α size))) := do
  match ← otlpMalloc sizeofAttrArray with
  | none => return .error .errNomem
  | some c =>
    if sizeMax / size < xs.length then
      otlpFree (some c.block)
      return .error .errNomem
    else
      match ← otlpMalloc (xs.length * size) with
      | none =>
        otlpFree (some c.block)
        return .error .errNomem
      | some arr => fillItems copy release c.block xs arr

def copyValue : AttrValue → MemM (Except OtlpStatus AttrValue)
  | .scalar v => do
    match ← copyScalar v with
    | .error st => return .error st
    | .ok v => return .ok (.scalar v)
  | .array _ items => do
    match ← copyItems sizeofAttribute copyScalar releaseScalar (arrItems items) with
    | .error st => return .error st
    | .ok (block, items) => return .ok (.array block items)
  | .kvlist _ entries => do
    match ← copyItems sizeofKvlistEntry copyEntry releaseEntry (arrItems entries) with
    | .error st => return .error st
    | .ok (block, entries) => return .ok (.kvlist block entries)

/-- `attr_copy_one`. When it fails, its caller gives the attribute up, of which there is the key by then. -/
def attrCopyOne (a : Attribute) : MemM (Except OtlpStatus Attribute) := do
  match ← otlpDupStr (some a.key.bytes) with
  | none => return .error .errNomem
  | some key =>
    match ← copyValue a.value with
    | .error st =>
      otlpFree (some key.block)
      return .error st
    | .ok value => return .ok { key, value }

def otlpAttrVecCopy (src : AttrVec) : MemM (Except OtlpStatus AttrVec) := do
  if src.items.isEmpty then return .ok .empty
  else if sizeMax / sizeofAttribute < src.items.length then return .error .errNomem
  else
    match ← otlpMalloc (src.items.length * sizeofAttribute) with
    | none => return .error .errNomem
    | some c =>
      match ← buildAll attrCopyOne otlpAttributeFree src.items with
      | .error st =>
        otlpFree (some c.block)
        return .error st
      | .ok items =>
        return .ok {
          block := some c.block
          items := items.1
          cap := src.items.length
          le_cap := length_copied_le items
          fits := fits_copied c }

/-! ### What each gives back -/

/-- The release of an object gives up all it owns. -/
abbrev Frees {α : Type} (leaves : α → List Leaf) (release : α → MemM Unit) : Prop :=
  ∀ x, Owns (blocks (leaves x)) (release x) fun _ => 0

theorem frees_releaseScalar : Frees Scalar.leaves releaseScalar := by
  intro v
  cases v with
  | string v => exact (owns_otlpFree _).conseq (by cases v <;> rfl) fun _ => rfl
  | bytes v => exact (owns_otlpFree _).conseq (by cases v <;> rfl) fun _ => rfl
  | bool v | int64 v | double v => exact .pure rfl

theorem frees_releaseEntry : Frees entryLeaves releaseEntry := fun e =>
  (owns_otlpFree _).step rfl fun _ => (frees_releaseScalar e.2).conseq (zero_add _) fun _ => rfl

theorem blocks_arrLeaves {α : Type} {size : ℕ} (leaves : α → List Leaf) (items : Option (HeapArr α size)) :
    blocks (arrLeaves leaves items) =
      ((arrItems items).map fun x => blocks (leaves x)).sum + optBlock (items.map HeapArr.block) := by
  cases items with
  | none => rfl
  | some a =>
    rw [arrLeaves, blocks_cons, blocks_flatMap]
    exact add_comm _ _

theorem owns_freeItems {α : Type} {size : ℕ} {leaves : α → List Leaf} {release : α → MemM Unit}
    (hrelease : Frees leaves release) (block : ℕ) (items : Option (HeapArr α size)) :
    Owns (blocks (blockLeaf block :: arrLeaves leaves items)) (freeItems release block items) fun _ => 0 := by
  refine (owning_releaseAll hrelease (arrItems items)).step
    (r := optBlock (items.map HeapArr.block) + {block}) ?_ fun _ => ?_
  · rw [blocks_cons, blocks_arrLeaves, add_comm, add_assoc, block_blockLeaf]
  · exact (owns_otlpFree _).step (zero_add _) fun _ => (owns_otlpFree _).conseq (zero_add _) fun _ => rfl

theorem frees_otlpAttributeReleaseValue : Frees AttrValue.leaves otlpAttributeReleaseValue := by
  intro v
  cases v with
  | scalar v => exact frees_releaseScalar v
  | array block items => exact owns_freeItems frees_releaseScalar block items
  | kvlist block entries => exact owns_freeItems frees_releaseEntry block entries

theorem blocks_attributeLeaves (a : Attribute) : blocks a.leaves = blocks a.value.leaves + {a.key.block} :=
  add_comm {a.key.block} (blocks a.value.leaves)

theorem frees_otlpAttributeFree : Frees Attribute.leaves otlpAttributeFree := fun a =>
  (frees_otlpAttributeReleaseValue a.value).step (blocks_attributeLeaves a) fun _ =>
    (owns_otlpFree (some a.key.block)).conseq (zero_add _) fun _ => rfl

theorem blocks_vecLeaves {α : Type} {size : ℕ} (leaves : α → List Leaf) (v : GrowVec α size) :
    blocks (v.leaves leaves) = optBlock v.block + (v.items.map fun x => blocks (leaves x)).sum := by
  rw [GrowVec.leaves, blocks_append, blocks_flatMap]
  cases v.block <;> rfl

theorem frees_otlpAttrVecFree : Frees attrLeaves otlpAttrVecFree := fun vec =>
  (owning_releaseAll frees_otlpAttributeFree vec.items).step
    ((blocks_vecLeaves _ vec).trans (add_comm _ _)) fun _ =>
      (owns_otlpFree vec.block).conseq (zero_add _) fun _ => rfl

/-! ### What each makes -/

/-- The result owns what was allocated for it, and a failure leaves nothing. -/
abbrev Builds {β : Type} (leaves : β → List Leaf) (f : MemM (Except OtlpStatus β)) : Prop :=
  Owns 0 f (okOwned fun y => blocks (leaves y))

theorem builds_dupData (data : Bytes) : Builds Scalar.leaves (dupData data) := by
  unfold dupData
  split
  · exact .pure rfl
  · refine (owns_dupArr 1 data).bind fun b => ?_
    cases b <;> exact .pure rfl

theorem builds_dupText (v : Option Bytes) : Builds Scalar.leaves (dupText v) := by
  unfold dupText
  split
  · exact .pure rfl
  · refine (owns_otlpDupStr _).bind fun s => ?_
    cases s <;> exact .pure rfl

theorem builds_dupValue (nullStatus : OtlpStatus) (v : OtlpValue) : Builds Scalar.leaves (dupValue nullStatus v) := by
  cases v with
  | string v => exact builds_dupText v
  | bytes data => exact builds_dupData data
  | bool v | int64 v | double v => exact .pure rfl
  | nullBytes len =>
    rw [dupValue]
    split <;> exact .pure rfl
  | unknown => exact .pure rfl

theorem builds_entryFill (e : OtlpKv) : Builds entryLeaves (entryFill e) := by
  unfold entryFill
  split
  · exact .pure rfl
  split
  · exact .pure rfl
  refine (builds_dupValue .errNomem e.value).bind fun v => ?_
  cases v with
  | error st => exact .pure rfl
  | ok v =>
    refine (owns_otlpDupStr _).step (zero_add _).symm fun k => ?_
    cases k with
    | none => exact (frees_releaseScalar v).step (add_comm _ _) fun _ => .pure rfl
    | some k => exact .pure rfl

def itemsLeaves {β : Type} {size : ℕ} (leaves : β → List Leaf) (r : ℕ × Option (HeapArr β size)) : List Leaf :=
  blockLeaf r.1 :: arrLeaves leaves r.2

section Items

variable {α β : Type} {size : ℕ} {leaves : β → List Leaf} {fill : α → MemM (Except OtlpStatus β)}
  {release : β → MemM Unit}

theorem owns_fillItems (hfill : ∀ x, Builds leaves (fill x)) (hrelease : Frees leaves release) (block : ℕ)
    (xs : List α) (arr : Chunk (xs.length * size)) :
    Owns ({arr.block} + {block}) (fillItems fill release block xs arr)
      (okOwned fun r => blocks (itemsLeaves leaves r)) := by
  refine (owning_buildAll hfill hrelease xs).step (zero_add _).symm fun ys => ?_
  cases ys with
  | error st =>
    exact (owns_otlpFree (some arr.block)).step (zero_add _) fun _ =>
      (owns_otlpFree (some block)).step (r := 0) (by simp) fun _ => .pure rfl
  | ok ys =>
    refine .pure ?_
    simp only [okOwned_ok, itemsLeaves, blocks_cons, blocks_arrLeaves, arrItems, Option.map_some, Option.getD_some,
      optBlock_some, block_blockLeaf]
    abel

theorem builds_buildItems (hfill : ∀ x, Builds leaves (fill x)) (hrelease : Frees leaves release)
    (items : Option (List α)) : Builds (itemsLeaves leaves) (buildItems size fill release items) := by
  unfold buildItems
  split
  · exact .pure rfl
  split
  · exact .pure rfl
  refine (owns_otlpMalloc _).bind fun c => ?_
  cases c with
  | none => exact .pure rfl
  | some c =>
    dsimp only
    split
    · exact .pure rfl
    refine (owns_otlpMalloc _).step (zero_add _).symm fun arr => ?_
    cases arr with
    | none => exact (owns_otlpFree (some c.block)).step (add_comm _ _) fun _ => .pure rfl
    | some arr => exact owns_fillItems hfill hrelease c.block _ arr

theorem builds_copyItems {fill : β → MemM (Except OtlpStatus β)} (hfill : ∀ x, Builds leaves (fill x))
    (hrelease : Frees leaves release) (xs : List β) :
    Builds (itemsLeaves leaves) (copyItems size fill release xs) := by
  refine (owns_otlpMalloc _).bind fun c => ?_
  cases c with
  | none => exact .pure rfl
  | some c =>
    dsimp only
    split
    · exact (owns_otlpFree (some c.block)).bind fun _ => .pure rfl
    refine (owns_otlpMalloc _).step (zero_add _).symm fun arr => ?_
    cases arr with
    | none => exact (owns_otlpFree (some c.block)).step (add_comm _ _) fun _ => .pure rfl
    | some arr => exact owns_fillItems hfill hrelease c.block xs arr

end Items

theorem builds_otlpAttrArrayBuild (items : Option (List OtlpValue)) :
    Builds AttrValue.leaves (otlpAttrArrayBuild items) := by
  refine (builds_buildItems (builds_dupValue .errNomem) frees_releaseScalar items).bind fun r => ?_
  cases r <;> exact .pure rfl

theorem builds_otlpAttrKvlistBuild (entries : Option (List OtlpKv)) :
    Builds AttrValue.leaves (otlpAttrKvlistBuild entries) := by
  refine (builds_buildItems builds_entryFill frees_releaseEntry entries).bind fun r => ?_
  cases r <;> exact .pure rfl

theorem builds_copyScalar (v : Scalar) : Builds Scalar.leaves (copyScalar v) := by
  cases v with
  | bool v | int64 v | double v => exact .pure rfl
  | string v =>
    cases v with
    | none => exact .pure rfl
    | some s =>
      refine (owns_otlpDupStr _).bind fun c => ?_
      cases c <;> exact .pure rfl
  | bytes v =>
    cases v with
    | none => exact .pure rfl
    | some b => exact builds_dupData b.items

theorem builds_copyEntry (e : HeapStr × Scalar) : Builds entryLeaves (copyEntry e) := by
  refine (owns_otlpDupStr _).bind fun k => ?_
  cases k with
  | none => exact .pure rfl
  | some k =>
    refine (builds_copyScalar e.2).step (zero_add _).symm fun v => ?_
    cases v with
    | error st => exact (owns_otlpFree (some k.block)).step (add_comm _ _) fun _ => .pure rfl
    | ok v => exact .pure (add_comm _ _)

theorem builds_copyValue (v : AttrValue) : Builds AttrValue.leaves (copyValue v) := by
  cases v with
  | scalar v =>
    refine (builds_copyScalar v).bind fun r => ?_
    cases r <;> exact .pure rfl
  | array block items =>
    refine (builds_copyItems builds_copyScalar frees_releaseScalar (arrItems items)).bind fun r => ?_
    cases r <;> exact .pure rfl
  | kvlist block entries =>
    refine (builds_copyItems builds_copyEntry frees_releaseEntry (arrItems entries)).bind fun r => ?_
    cases r <;> exact .pure rfl

theorem builds_attrCopyOne (a : Attribute) : Builds Attribute.leaves (attrCopyOne a) := by
  refine (owns_otlpDupStr _).bind fun key => ?_
  cases key with
  | none => exact .pure rfl
  | some key =>
    refine (builds_copyValue a.value).step (zero_add _).symm fun v => ?_
    cases v with
    | error st => exact (owns_otlpFree (some key.block)).step (add_comm _ _) fun _ => .pure rfl
    | ok v => exact .pure (add_comm _ _)

/-- **A copy of the attributes** is all there or leaves nothing behind. -/
theorem builds_otlpAttrVecCopy (src : AttrVec) : Builds attrLeaves (otlpAttrVecCopy src) := by
  unfold otlpAttrVecCopy
  split
  · exact .pure rfl
  split
  · exact .pure rfl
  refine (owns_otlpMalloc _).bind fun c => ?_
  cases c with
  | none => exact .pure rfl
  | some c =>
    refine (owning_buildAll builds_attrCopyOne frees_otlpAttributeFree src.items).step (zero_add _).symm fun r => ?_
    cases r with
    | error st => exact (owns_otlpFree (some c.block)).step (add_comm _ _) fun _ => .pure rfl
    | ok items =>
      refine .pure ?_
      rw [okOwned_ok, okOwned_ok, attrLeaves, blocks_vecLeaves]
      exact add_comm _ _

/-! ### What the engine keeps -/

section Vec

variable {α : Type} {size : ℕ} (leaves : α → List Leaf)

/-- A write to one element, apart from what the others own. -/
theorem blocks_modify {v : GrowVec α size} {i : ℕ} {x : α} (hx : v.items[i]? = some x) :
    ∃ r, blocks (v.leaves leaves) = blocks (leaves x) + r ∧
      ∀ f, blocks ((v.modify i f).leaves leaves) = blocks (leaves (f x)) + r := by
  obtain ⟨r, hsum, hmodify⟩ := sum_map_modify (fun x => blocks (leaves x)) hx
  refine ⟨optBlock v.block + r, ?_, fun f => ?_⟩
  · rw [blocks_vecLeaves, hsum, add_left_comm]
  · rw [blocks_vecLeaves, show (v.modify i f).items = v.items.modify i f from rfl, hmodify, add_left_comm]
    rfl

theorem blocks_push (v : RoomyVec α size) (x : α) :
    blocks ((GrowVec.push v x).leaves leaves) = blocks (v.leaves leaves) + blocks (leaves x) := by
  rw [blocks_vecLeaves, blocks_vecLeaves, show (GrowVec.push v x).items = v.items ++ [x] from rfl, List.map_append,
    List.sum_append, List.map_singleton, List.sum_singleton, add_assoc]
  rfl

def grownOr (v : GrowVec α size) (r : Option (GrownVec v)) : GrowVec α size := (r.map fun v' => v'.toGrowVec).getD v

theorem owns_grow (v : GrowVec α size) (max : ℕ) (hlt : v.items.length < max) (hsize : size ≤ 64) :
    Owns (blocks (v.leaves leaves)) (grow v max hlt hsize) fun r => blocks ((grownOr v r).leaves leaves) := by
  unfold grow
  split
  · refine (owns_otlpRealloc v.block _).step (blocks_vecLeaves leaves v) fun c => ?_
    cases c with
    | none => exact .pure (blocks_vecLeaves leaves v).symm
    | some c =>
      refine .pure ?_
      rw [blocks_vecLeaves]
      rfl
  · exact .pure rfl

end Vec

theorem returns_otlpAttrVecReserve (vec : AttrVec) (max : ℕ) (key : Bytes) :
    Returns (otlpAttrVecReserve vec max key) fun r =>
      ∀ i, r.1 = .ok i → ∃ a, r.2.items[i]? = some a ∧ a.value = emptyValue := by
  unfold otlpAttrVecReserve
  split
  · next i hi =>
    refine .bind fun _ => .pure fun j hj => ?_
    obtain rfl : i = j := by simpa using hj
    obtain ⟨hlt, -⟩ := List.findIdx?_eq_some_iff_getElem.1 hi
    exact ⟨{ vec.items[i] with value := emptyValue }, by simp [GrowVec.modify, hlt], rfl⟩
  split
  · refine .bind fun grown => ?_
    cases grown with
    | none => exact .pure fun i hi => by cases hi
    | some grown =>
      dsimp only
      split
      · exact .pure fun i hi => by cases hi
      · refine .bind fun k => ?_
        cases k with
        | none => exact .pure fun i hi => by cases hi
        | some k =>
          refine .pure fun i hi => ⟨⟨k, emptyValue⟩, ?_, rfl⟩
          obtain rfl : grown.items.length = i := by simpa using hi
          simp [GrowVec.push]
  · exact .pure fun i hi => by cases hi

theorem owns_otlpAttrVecReserve (vec : AttrVec) (max : ℕ) (key : Bytes) :
    Owns (blocks (attrLeaves vec)) (otlpAttrVecReserve vec max key) fun r => blocks (attrLeaves r.2) := by
  unfold otlpAttrVecReserve
  split
  · next i hi =>
    obtain ⟨hlt, -⟩ := List.findIdx?_eq_some_iff_getElem.1 hi
    have hx : vec.items[i]? = some vec.items[i] := List.getElem?_eq_getElem hlt
    obtain ⟨r, hblocks, hmodify⟩ := blocks_modify Attribute.leaves hx
    rw [hx]
    refine (owning_releaseAll (fun a => frees_otlpAttributeReleaseValue a.value) [vec.items[i]]).step
      (r := {vec.items[i].key.block} + r) ?_ fun _ => .pure ?_
    · rw [attrLeaves, hblocks, blocks_attributeLeaves, add_assoc, List.map_singleton, List.sum_singleton]
    · rw [attrLeaves, hmodify, blocks_attributeLeaves, zero_add]
      rfl
  split
  · refine (owns_grow Attribute.leaves vec max _ _).bind fun grown => ?_
    cases grown with
    | none => exact .pure rfl
    | some grown =>
      dsimp only
      split
      · exact .pure rfl
      · refine (owns_otlpDupStr _).step (zero_add _).symm fun k => ?_
        cases k with
        | none => exact .pure (zero_add _)
        | some k =>
          refine .pure ?_
          rw [attrLeaves, blocks_push]
          exact add_comm _ _
  · exact .pure rfl

theorem owns_attrVecPut (vec : AttrVec) (max : ℕ) (key : Bytes) {build : MemM (Except OtlpStatus AttrValue)}
    (hbuild : Builds AttrValue.leaves build) :
    Owns (blocks (attrLeaves vec)) (attrVecPut vec max key build) fun r => blocks (attrLeaves r.2) := by
  refine hbuild.step (zero_add _).symm fun v => ?_
  cases v with
  | error st => exact .pure (zero_add _)
  | ok v =>
    refine (owns_otlpAttrVecReserve vec max key).step_of (returns_otlpAttrVecReserve vec max key) (add_comm _ _)
      fun r hr => ?_
    obtain ⟨i | i, vec'⟩ := r
    · exact (frees_otlpAttributeReleaseValue v).step (add_comm _ _) fun _ => .pure (zero_add _)
    · obtain ⟨a, ha, hvalue⟩ := hr i rfl
      obtain ⟨r, hblocks, hmodify⟩ := blocks_modify Attribute.leaves ha
      refine .pure ?_
      rw [attrLeaves, hblocks, attrLeaves, hmodify, blocks_attributeLeaves, blocks_attributeLeaves, hvalue]
      simp only [okOwned_ok, emptyValue, AttrValue.leaves, Scalar.leaves, blocks_nil]
      abel

/-- **A setter of an attribute** leaves the vector with all that was allocated and not freed. -/
theorem owns_setAttribute (vec : AttrVec) (max : ℕ) (key : Option Bytes) (arg : AttrArg) :
    Owns (blocks (attrLeaves vec)) (setAttribute vec max key arg) fun r => blocks (attrLeaves r.2) := by
  have hset : ∀ key v, Owns (blocks (attrLeaves vec)) (otlpAttrVecSet vec max key v)
      fun r => blocks (attrLeaves r.2) := fun key v => by
    refine owns_attrVecPut vec max key ((builds_dupValue .errNull v).bind fun r => ?_)
    cases r <;> exact .pure rfl
  cases key with
  | none => exact .pure rfl
  | some key =>
    cases arg with
    | array items => exact owns_attrVecPut vec max key (builds_otlpAttrArrayBuild items)
    | kvlist entries => exact owns_attrVecPut vec max key (builds_otlpAttrKvlistBuild entries)
    | string v | int v | double v | bool v | bytes v | nullBytes v => exact hset key _

end OtlpC.Memory
