import OtlpC.Api.Attribute
import OtlpC.Lib.OrderedMap

/-!
# The attribute vector is a bounded ordered map

What any sequence of `otlp_attr_vec_set`, `otlp_attr_vec_set_array` and `otlp_attr_vec_set_kvlist` with one maximum
leaves in a vector, whatever the allocator refuses: the writes that succeeded, in a map that keeps the order of first
insertion.
-/

namespace OtlpC.Api

open Exporter Otlp OrderedMap

/-- The writes of the engine are those of an ordered map. -/
theorem upsert_eq_put (key : Bytes) (v : AnyValue) (kvs : List KeyValue) : upsert key v kvs = put key v kvs := by
  induction kvs with
  | nil => rfl
  | cons kv kvs ih =>
    unfold upsert at ih ⊢
    rw [put, List.findIdx?_cons]
    by_cases hkey : kv.1 = key
    · rw [if_pos hkey, hkey, beq_self_eq_true, if_pos rfl]
      simp [← hkey]
    · rw [if_neg hkey, ← ih, beq_false_of_ne hkey, if_neg Bool.false_ne_true]
      cases kvs.findIdx? (fun kv => kv.1 == key) <;> rfl

/-! ### One call -/

/-- What is set: a scalar, an array or a list of pairs. -/
inductive VecArg where
  | set (v : Option OtlpValue)
  | setArray (items : Option (List OtlpValue))
  | setKvlist (entries : Option (List OtlpKv))

/-- A call of one of the three entry points; NULL for the key or for the value is refused. -/
structure VecCall where
  key : Option Bytes
  arg : VecArg

def VecArg.any : VecArg → AnyValue
  | .set v => (v.map OtlpValue.any).getD .unset
  | .setArray items => (AttrArg.array items).any
  | .setKvlist entries => (AttrArg.kvlist entries).any

def VecCall.write (c : VecCall) : KeyValue := (c.key.getD [], c.arg.any)

def vecCall (h : Heap) (vec : AttrVec) (max : ℕ) (c : VecCall) : OtlpStatus × AttrVec × Heap :=
  match c.key with
  | none => (.errNull, vec, h)
  | some key =>
    match c.arg with
    | .set none => (.errNull, vec, h)
    | .set (some v) => otlpAttrVecSet h vec max key v
    | .setArray items => otlpAttrVecSetArray h vec max key items
    | .setKvlist entries => otlpAttrVecSetKvlist h vec max key entries

/-- The value that a call builds before it looks at the vector. -/
def vecBuild (h : Heap) (c : VecCall) : Except OtlpStatus AttrValue × Heap :=
  match c.key, c.arg with
  | none, _ | _, .set none => (.error .errNull, h)
  | some _, .set (some v) =>
    match dupValue .errNull h v with
    | (.error st, h) => (.error st, h)
    | (.ok v, h) => (.ok (.scalar v), h)
  | some _, .setArray items => otlpAttrArrayBuild h items
  | some _, .setKvlist entries => otlpAttrKvlistBuild h entries

theorem vecCall_eq (h : Heap) (vec : AttrVec) (max : ℕ) (c : VecCall) :
    vecCall h vec max c = attrVecPut vec max (c.key.getD []) (vecBuild h c) := by
  obtain ⟨key, arg⟩ := c
  cases key with
  | none => rfl
  | some key =>
    cases arg with
    | set v => cases v <;> rfl
    | setArray items | setKvlist entries => rfl

/-! ### What is accepted -/

/-- A string that can be stored: UTF-8, and short enough to be copied. -/
def ValidText (s : Bytes) : Prop := otlpStrIsUtf8 s = true ∧ s.length ≠ sizeMax

/-- A value of one of the five scalar types; a string that is NULL stands for the empty one. -/
def OtlpValue.Valid : OtlpValue → Prop
  | .string v => ValidText (v.getD [])
  | .bool _ | .int64 _ | .double _ | .bytes _ => True
  | .nullBytes len => len = 0
  | .unknown => False

def OtlpKv.Valid (e : OtlpKv) : Prop := (∃ key, e.key = some key ∧ ValidText key) ∧ e.value.Valid

/-- A value that can be stored; the lengths pass the size checks of the builders. -/
def VecArg.Valid : VecArg → Prop
  | .set v => ∃ value, v = some value ∧ value.Valid
  | .setArray items => ∃ xs, items = some xs ∧ xs.length ≤ sizeMax / sizeofAttribute ∧ ∀ v ∈ xs, v.Valid
  | .setKvlist entries => ∃ xs, entries = some xs ∧ xs.length ≤ sizeMax / sizeofKvlistEntry ∧ ∀ e ∈ xs, e.Valid

def VecCall.Valid (c : VecCall) : Prop := (∃ key, c.key = some key ∧ ValidText key) ∧ c.arg.Valid

theorem dupValue_refused {nullStatus st : OtlpStatus} {h h' : Heap} {v : OtlpValue} (hv : v.Valid)
    (herror : dupValue nullStatus h v = (.error st, h')) : h.refused < h'.refused := by
  cases v with
  | string v =>
    rw [dupValue, dupText, isUtf8, hv.1] at herror
    split at herror
    · next hinvalid => exact absurd hinvalid (by decide)
    split at herror
    · next heq =>
      obtain ⟨-, rfl⟩ := Prod.mk.inj herror
      exact otlpDupStr_refused hv.2 heq
    · cases (Prod.mk.inj herror).1
  | bytes data =>
    rw [dupValue, dupData] at herror
    split at herror
    · cases (Prod.mk.inj herror).1
    split at herror
    · next heq =>
      obtain ⟨-, rfl⟩ := Prod.mk.inj herror
      exact dupArr_none heq
    · cases (Prod.mk.inj herror).1
  | bool v | int64 v | double v => cases (Prod.mk.inj herror).1
  | nullBytes len =>
    have hlen : ¬0 < len := Nat.not_lt.2 (Nat.le_of_eq hv)
    rw [dupValue, if_neg hlen] at herror
    cases (Prod.mk.inj herror).1
  | unknown => exact hv.elim

theorem entryFill_refused {st : OtlpStatus} {h h' : Heap} {e : OtlpKv} (he : e.Valid)
    (herror : entryFill h e = (.error st, h')) : h.refused < h'.refused := by
  obtain ⟨⟨key, hkey, hutf8, hlen⟩, hvalue⟩ := he
  have hnot : ¬(!otlpStrIsUtf8 key) = true := by rw [hutf8]; decide
  rw [entryFill, hkey] at herror
  dsimp only at herror
  rw [if_neg hnot] at herror
  split at herror
  · next heq =>
    obtain ⟨-, rfl⟩ := Prod.mk.inj herror
    exact dupValue_refused hvalue heq
  next v h₁ heq =>
  have hle : h.Le h₁ := by simpa only [heq] using (makes_valueFill h e.value).le
  split at herror
  · next heq' =>
    obtain ⟨-, rfl⟩ := Prod.mk.inj herror
    exact hle.refused_le.trans_lt (otlpDupStr_refused hlen heq')
  · cases (Prod.mk.inj herror).1

theorem buildItems_refused {α β γ : Type} {size : ℕ} {leaves : β → List Leaf} {read : β → γ} {want : α → γ}
    {fill : Heap → α → Except OtlpStatus β × Heap} (hmakes : ∀ h x, Makes leaves read h (want x) (fill h x))
    {xs : List α} (hsize : xs.length ≤ sizeMax / size)
    (hfill : ∀ x ∈ xs, ∀ h st h', fill h x = (.error st, h') → h.refused < h'.refused) {st : OtlpStatus}
    {h h' : Heap} (herror : buildItems size fill h (some xs) = (.error st, h')) : h.refused < h'.refused := by
  have hle := otlpMalloc_le h sizeofAttrArray
  rw [buildItems, if_neg (Nat.not_lt.2 hsize)] at herror
  split at herror
  · next heq =>
    obtain ⟨-, rfl⟩ := Prod.mk.inj herror
    exact otlpMalloc_none heq
  next c h₁ heq =>
  rw [heq] at hle
  split at herror
  · cases (Prod.mk.inj herror).1
  have hle₁ := otlpMalloc_le h₁ (xs.length * size)
  split at herror
  · next heq₁ =>
    obtain ⟨-, rfl⟩ := Prod.mk.inj herror
    exact hle.refused_le.trans_lt (otlpMalloc_none heq₁)
  next arr h₂ heq₁ =>
  rw [heq₁] at hle₁
  split at herror
  · next heq₂ =>
    obtain ⟨-, rfl⟩ := Prod.mk.inj herror
    exact (hle.trans hle₁).refused_le.trans_lt (fillAll_error (fun h x => (hmakes h x).le) hfill heq₂)
  · cases (Prod.mk.inj herror).1

theorem vecBuild_refused {h h' : Heap} {c : VecCall} (hc : c.Valid) {st : OtlpStatus}
    (herror : vecBuild h c = (.error st, h')) : h.refused < h'.refused := by
  obtain ⟨key, arg⟩ := c
  obtain ⟨⟨key, rfl, -⟩, harg⟩ := hc
  cases arg with
  | set v =>
    obtain ⟨value, rfl, hvalue⟩ := harg
    dsimp only [vecBuild] at herror
    split at herror
    · next heq =>
      obtain ⟨-, rfl⟩ := Prod.mk.inj herror
      exact dupValue_refused hvalue heq
    · cases (Prod.mk.inj herror).1
  | setArray items =>
    obtain ⟨xs, rfl, hsize, hvalid⟩ := harg
    dsimp only [vecBuild, otlpAttrArrayBuild] at herror
    split at herror
    · next heq =>
      obtain ⟨-, rfl⟩ := Prod.mk.inj herror
      exact buildItems_refused makes_valueFill hsize (fun v hv _ _ _ => dupValue_refused (hvalid v hv)) heq
    · cases (Prod.mk.inj herror).1
  | setKvlist entries =>
    obtain ⟨xs, rfl, hsize, hvalid⟩ := harg
    dsimp only [vecBuild, otlpAttrKvlistBuild] at herror
    split at herror
    · next heq =>
      obtain ⟨-, rfl⟩ := Prod.mk.inj herror
      exact buildItems_refused makes_entryFill hsize (fun e he _ _ _ => entryFill_refused (hvalid e he)) heq
    · cases (Prod.mk.inj herror).1

/-! ### The slot -/

/-- What `otlp_attr_vec_reserve` answers, and what it leaves of the vector when it fails. -/
structure Reserved (vec : AttrVec) (max : ℕ) (key : Bytes) (r : Except OtlpStatus ℕ × AttrVec × Heap) : Prop where
  cap_le : vec.cap ≤ max → r.2.1.cap ≤ max
  items_eq : ∀ st, r.1 = .error st → r.2.1.items = vec.items
  found : key ∈ keys (attrKvs vec) → ∃ i, r.1 = .ok i
  full : key ∉ keys (attrKvs vec) → max ≤ vec.items.length → r.1 = .error .errOverflow

theorem mem_keys_attrKvs {vec : AttrVec} {key : Bytes} :
    key ∈ keys (attrKvs vec) ↔ ∃ a ∈ vec.items, (a.key.bytes == key) = true := by
  simp [keys, attrKvs, Attribute.kv]

theorem grow_cap_le {vec : AttrVec} {max : ℕ} {hlt : vec.items.length < max} {hsize : sizeofAttribute ≤ 64}
    {h h' : Heap} {vec' : RoomyVec Attribute sizeofAttribute} (hgrow : vec.grow max hlt hsize h = (some vec', h'))
    (hcap : vec.cap ≤ max) : vec'.cap ≤ max := by
  unfold GrowVec.grow at hgrow
  split at hgrow
  · split at hgrow
    · cases (Prod.mk.inj hgrow).1
    · obtain ⟨hgrow, -⟩ := Prod.mk.inj hgrow
      cases hgrow
      exact min_le_right _ _
  · obtain ⟨hgrow, -⟩ := Prod.mk.inj hgrow
    cases hgrow
    exact hcap

theorem otlpAttrVecReserve_reserved (h : Heap) (vec : AttrVec) (max : ℕ) (key : Bytes) :
    Reserved vec max key (otlpAttrVecReserve h vec max key) := by
  unfold otlpAttrVecReserve
  split
  · next i hfind =>
    have hmem : key ∈ keys (attrKvs vec) := by
      obtain ⟨hi, hkey, -⟩ := List.findIdx?_eq_some_iff_getElem.1 hfind
      exact mem_keys_attrKvs.2 ⟨_, List.getElem_mem hi, hkey⟩
    exact ⟨id, fun st hst => (by cases hst), fun _ => ⟨i, rfl⟩, fun hnew => absurd hmem hnew⟩
  · next hfind =>
    have hnew : key ∉ keys (attrKvs vec) := by
      rw [mem_keys_attrKvs]
      rintro ⟨a, ha, hkey⟩
      rw [List.findIdx?_eq_none_iff.1 hfind a ha] at hkey
      cases hkey
    split
    · next hlt =>
      have hroom : ∀ {P : Prop}, max ≤ vec.items.length → P := fun hle => absurd hlt (not_lt.2 hle)
      split
      · exact ⟨id, fun _ _ => rfl, fun hmem => absurd hmem hnew, fun _ => hroom⟩
      · next vec' h₁ heq =>
        have hitems := (GrowVec.grow_some heq Attribute.leaves).1
        have hcap := fun hle => grow_cap_le heq hle
        split
        · exact ⟨hcap, fun _ _ => hitems, fun hmem => absurd hmem hnew, fun _ => hroom⟩
        · split
          · exact ⟨hcap, fun _ _ => hitems, fun hmem => absurd hmem hnew, fun _ => hroom⟩
          · exact ⟨hcap, fun st hst => (by cases hst), fun hmem => absurd hmem hnew, fun _ => hroom⟩
    · exact ⟨id, fun _ _ => rfl, fun hmem => absurd hmem hnew, fun _ _ => rfl⟩

theorem otlpAttrVecReserve_refused {h h' : Heap} {vec vec' : AttrVec} {max : ℕ} {key : Bytes} (hkey : ValidText key)
    (hroom : key ∈ keys (attrKvs vec) ∨ vec.items.length < max) {st : OtlpStatus}
    (herror : otlpAttrVecReserve h vec max key = (.error st, vec', h')) : h.refused < h'.refused := by
  have hnot : ¬(!otlpStrIsUtf8 key) = true := by rw [hkey.1]; decide
  unfold otlpAttrVecReserve at herror
  split at herror
  · cases (Prod.mk.inj herror).1
  next hfind =>
  split at herror
  · next hlt =>
    split at herror
    · next heq =>
      obtain ⟨-, hrest⟩ := Prod.mk.inj herror
      obtain ⟨-, rfl⟩ := Prod.mk.inj hrest
      exact GrowVec.grow_none heq
    next vec₁ h₁ heq =>
    have hle : h.Le h₁ := by simpa only [heq] using GrowVec.grow_le vec max hlt (by decide) h
    split at herror
    · next heq' =>
      obtain ⟨-, hrest⟩ := Prod.mk.inj herror
      obtain ⟨-, rfl⟩ := Prod.mk.inj hrest
      exact hle.refused_le.trans_lt (otlpDupStr_refused hkey.2 heq')
    · cases (Prod.mk.inj herror).1
  · next hfull =>
    -- no room: the key is not there, and the vector is full
    obtain ⟨a, ha, hsame⟩ := mem_keys_attrKvs.1 (hroom.resolve_right hfull)
    rw [List.findIdx?_eq_none_iff.1 hfind a ha] at hsame
    cases hsame

theorem makes_vecBuild (h : Heap) (c : VecCall) : Makes AttrValue.leaves AttrValue.any h c.arg.any (vecBuild h c) := by
  obtain ⟨key, arg⟩ := c
  cases key with
  | none => exact .error (.refl h) (by decide)
  | some key =>
    cases arg with
    | set v =>
      cases v with
      | none => exact .error (.refl h) (by decide)
      | some v =>
        have hmakes := makes_dupValue (show OtlpStatus.errNull ≠ .ok by decide) h v
        dsimp only [vecBuild]
        split
        · next heq =>
          rw [heq] at hmakes
          exact hmakes.error_of
        · next heq =>
          rw [heq] at hmakes
          exact .ok hmakes.le (hmakes.leaf _ rfl) (hmakes.read_eq _ rfl)
    | setArray items => exact makes_otlpAttrArrayBuild h items
    | setKvlist entries => exact makes_otlpAttrKvlistBuild h entries

/-- **A call** writes to the map or changes nothing. -/
theorem attrKvs_vecCall (h : Heap) (vec : AttrVec) (max : ℕ) (c : VecCall) :
    attrKvs (vecCall h vec max c).2.1 =
      if (vecCall h vec max c).1 = .ok then put c.write.1 c.write.2 (attrKvs vec) else attrKvs vec := by
  rw [vecCall_eq, (attrVecPut_spec vec max (c.key.getD []) (makes_vecBuild h c)).2, putKvs, upsert_eq_put]
  rfl

theorem vecCall_cap_le {vec : AttrVec} {max : ℕ} (hcap : vec.cap ≤ max) (h : Heap) (c : VecCall) :
    (vecCall h vec max c).2.1.cap ≤ max := by
  rw [vecCall_eq]
  rcases vecBuild h c with ⟨res, h₁⟩
  cases res with
  | error st => exact hcap
  | ok value =>
    have hreserved := (otlpAttrVecReserve_reserved h₁ vec max (c.key.getD [])).cap_le hcap
    rw [attrVecPut]
    split <;> next heq => rwa [heq] at hreserved

/-- A valid call that has room is only refused for want of memory. -/
theorem vecCall_refused {h : Heap} {vec : AttrVec} {max : ℕ} {c : VecCall} (hc : c.Valid)
    (hroom : c.write.1 ∈ keys (attrKvs vec) ∨ vec.items.length < max) (herror : (vecCall h vec max c).1 ≠ .ok) :
    h.refused < (vecCall h vec max c).2.2.refused := by
  have hle := (makes_vecBuild h c).le
  rw [vecCall_eq] at herror ⊢
  rcases hbuild : vecBuild h c with ⟨res, h₁⟩
  rw [hbuild] at herror hle
  cases res with
  | error st => exact vecBuild_refused hc hbuild
  | ok value =>
    rw [attrVecPut] at herror ⊢
    split at herror
    · next st vec' h₂ heq =>
      obtain ⟨key, hkey, htext⟩ := hc.1
      have hsame : c.key.getD [] = key := by rw [hkey, Option.getD_some]
      rw [VecCall.write, hsame] at hroom
      rw [hsame] at heq
      exact hle.refused_le.trans_lt (otlpAttrVecReserve_refused htext hroom heq)
    · exact absurd rfl herror

/-- What a call promises: a valid one is accepted where there is room and memory; any one fails without a trace, it
overwrites also at the limit, and it adds no key there. -/
structure CallKept (h : Heap) (vec : AttrVec) (max : ℕ) (c : VecCall) : Prop where
  accepts : c.Valid → c.write.1 ∈ keys (attrKvs vec) ∨ vec.items.length < max →
    (vecCall h vec max c).2.2.refused = h.refused → (vecCall h vec max c).1 = .ok
  atomic : (vecCall h vec max c).1 ≠ .ok → (vecCall h vec max c).2.1.items = vec.items
  overwrites : c.write.1 ∈ keys (attrKvs vec) → ∀ value, (vecBuild h c).1 = .ok value →
    (vecCall h vec max c).1 = .ok
  refuses : c.write.1 ∉ keys (attrKvs vec) → max ≤ vec.items.length → (vecCall h vec max c).1 ≠ .ok

theorem vecCall_kept (h : Heap) (vec : AttrVec) (max : ℕ) (c : VecCall) : CallKept h vec max c := by
  have haccepts : c.Valid → c.write.1 ∈ keys (attrKvs vec) ∨ vec.items.length < max →
      (vecCall h vec max c).2.2.refused = h.refused → (vecCall h vec max c).1 = .ok := by
    intro hc hroom hgranted
    by_contra herror
    have hlt := vecCall_refused hc hroom herror
    omega
  have hmakes := makes_vecBuild h c
  have hcall := vecCall_eq h vec max c
  rcases hbuild : vecBuild h c with ⟨res, h₁⟩
  rw [hbuild] at hmakes hcall
  cases res with
  | error st =>
    refine ⟨haccepts, fun _ => by rw [hcall]; rfl, fun _ value hvalue => ?_, fun _ _ => ?_⟩
    · rw [hbuild] at hvalue
      cases hvalue
    · rw [hcall]
      exact hmakes.error_ne st rfl
  | ok value =>
    have hreserved := otlpAttrVecReserve_reserved h₁ vec max (c.key.getD [])
    have hput := attrVecPut_spec vec max (c.key.getD []) hmakes
    have herror := (otlpAttrVecReserve_spec h₁ vec max (c.key.getD [])).2.2
    rw [attrVecPut] at hcall
    split at hcall
    · next st vec' h₂ heq =>
      rw [heq] at hreserved herror
      refine ⟨haccepts, fun _ => ?_, fun hmem => ?_, fun _ _ => ?_⟩
      · rw [hcall]
        exact hreserved.items_eq st rfl
      · obtain ⟨i, hi⟩ := hreserved.found hmem
        cases hi
      · rw [hcall]
        exact (herror st rfl).1
    · next i vec' h₂ heq =>
      rw [heq] at hreserved
      refine ⟨haccepts, fun hne => ?_, fun _ _ _ => by rw [hcall], fun hnew hfull => ?_⟩
      · rw [hcall] at hne
        exact absurd rfl hne
      · cases hreserved.full hnew hfull

/-! ### Calls one after the other -/

/-- A vector with its allocator, and the writes that have succeeded so far. -/
structure VecState where
  vec : AttrVec
  heap : Heap
  writes : List KeyValue

def VecState.init (h : Heap) : VecState := ⟨.empty, h, []⟩

def vecStep (max : ℕ) (x : VecState) (c : VecCall) : VecState :=
  let r := vecCall x.heap x.vec max c
  { vec := r.2.1, heap := r.2.2, writes := if r.1 = .ok then x.writes ++ [c.write] else x.writes }

/-- The vector holds the successful writes within its bounds. -/
structure VecKept (max : ℕ) (x : VecState) : Prop where
  kvs_eq : attrKvs x.vec = ofWrites x.writes
  cap_le : x.vec.cap ≤ max

theorem vecStep_kept {max : ℕ} {x : VecState} (hx : VecKept max x) (c : VecCall) : VecKept max (vecStep max x c) := by
  refine ⟨?_, vecCall_cap_le hx.cap_le x.heap c⟩
  have hkvs := attrKvs_vecCall x.heap x.vec max c
  rw [hx.kvs_eq] at hkvs
  unfold vecStep
  dsimp only
  rw [hkvs]
  split
  · rw [ofWrites_append_singleton]
  · rfl

theorem foldl_vecStep_kept {max : ℕ} (cs : List VecCall) {x : VecState} (hx : VecKept max x) :
    VecKept max (cs.foldl (vecStep max) x) := by
  induction cs generalizing x with
  | nil => exact hx
  | cons c cs ih => exact ih (vecStep_kept hx c)

/-- **The attribute vector is a bounded ordered map.** After any calls with one maximum, whatever the allocator
grants, it holds the successful writes in the order of first insertion, with distinct keys, within its capacity and
the maximum; and the next call succeeds when it is valid and has room and memory, fails without a trace, overwrites
also at the limit and adds no key there. -/
theorem attrVec_boundedMap (max : ℕ) (h : Heap) (cs : List VecCall) :
    let x := cs.foldl (vecStep max) (.init h)
    attrKvs x.vec = ofWrites x.writes ∧ (keys (attrKvs x.vec)).Nodup ∧ x.vec.items.length ≤ x.vec.cap ∧
      x.vec.cap ≤ max ∧ ∀ c, CallKept x.heap x.vec max c := by
  have hkept := foldl_vecStep_kept cs (x := .init h) ⟨rfl, Nat.zero_le max⟩
  refine ⟨hkept.kvs_eq, ?_, GrowVec.le_cap _, hkept.cap_le, vecCall_kept _ _ max⟩
  rw [hkept.kvs_eq]
  exact nodup_keys_ofWrites _

/-- Two keys at the limit: an array, a value that is written twice, and a third key, which is refused; and both keys
can still be written. -/
theorem attrVec_boundedMap_two :
    ∃ x : VecState, attrKvs x.vec =
        [(ascii "a", .int 7), (ascii "b", .array [.bool true, .string (ascii "x")])] ∧
      x.vec.items.length ≤ 2 ∧ (vecCall x.heap x.vec 2 ⟨some (ascii "c"), .set (some (.bool true))⟩).1 ≠ .ok ∧
      (vecCall x.heap x.vec 2 ⟨some (ascii "b"), .setKvlist (some [⟨some (ascii "k"), .int64 1⟩])⟩).1 = .ok := by
  let cs : List VecCall := [⟨some (ascii "a"), .set (some (.bool true))⟩,
    ⟨some (ascii "b"), .setArray (some [.bool true, .string (some (ascii "x"))])⟩,
    ⟨some (ascii "c"), .set (some (.bool false))⟩, ⟨some (ascii "a"), .set (some (.int64 7))⟩]
  obtain ⟨hkvs, -, hle, hcap, hkept⟩ := attrVec_boundedMap 2 .granting cs
  have hkeys : attrKvs (cs.foldl (vecStep 2) (.init .granting)).vec =
      [(ascii "a", .int 7), (ascii "b", .array [.bool true, .string (ascii "x")])] := hkvs.trans rfl
  have hnew : ascii "c" ∉ keys (attrKvs (cs.foldl (vecStep 2) (.init .granting)).vec) := by
    rw [hkeys]
    decide
  have hold : ascii "b" ∈ keys (attrKvs (cs.foldl (vecStep 2) (.init .granting)).vec) := by
    rw [hkeys]
    decide
  have hvalid : VecCall.Valid ⟨some (ascii "b"), .setKvlist (some [⟨some (ascii "k"), .int64 1⟩])⟩ := by
    refine ⟨⟨_, rfl, by decide, by decide⟩, _, rfl, by decide, fun e he => ?_⟩
    rw [List.mem_singleton.1 he]
    exact ⟨⟨_, rfl, by decide, by decide⟩, trivial⟩
  exact ⟨_, hkeys, hle.trans hcap, (hkept _).refuses hnew (by decide +kernel),
    (hkept _).accepts hvalid (.inl hold) (by decide +kernel)⟩

end OtlpC.Api
