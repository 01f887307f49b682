import OtlpC.Proto.Encode
import OtlpC.Proto.Messages

/-!
# The shared part of the request encoders

`AnyValue`, `KeyValue`, the resource, the scope and the request around the items, from `otlp_messages.c` and the two
encoders that share them. The field numbers are those of `otlp_schema.h`.
-/

namespace OtlpC.Proto

open Api Proto3 Otlp

/-! ### AnyValue and KeyValue -/

mutual

def otlpEncodeAnyValue : AnyValue → Enc
  | .unset => .fail .errInvalidArgument
  | .string v => otlpPbTag 1 otlpPbWireLen >> otlpPbString (some v)
  | .bool v => otlpPbTag 2 otlpPbWireVarint >> otlpPbVarint (if v then 1 else 0)
  | .int v => otlpPbTag 3 otlpPbWireVarint >> otlpPbVarint v
  | .double v => otlpPbTag 4 otlpPbWireFixed64 >> otlpPbFixed64 v
  | .array [] => otlpPbTag 5 otlpPbWireLen >> otlpPbBytes (.bytes [])
  | .array (v :: vs) => otlpPbTag 5 otlpPbWireLen >> .withSub (encodeItems (v :: vs)) otlpPbBytes
  | .kvlist [] => otlpPbTag 6 otlpPbWireLen >> otlpPbBytes (.bytes [])
  | .kvlist (kv :: kvs) => otlpPbTag 6 otlpPbWireLen >> .withSub (encodeEntries (kv :: kvs)) otlpPbBytes
  | .bytes v => otlpPbTag 7 otlpPbWireLen >> otlpPbBytes (.bytes v)

/-- The loop of `encode_attr_array`. -/
def encodeItems : List AnyValue → Enc
  | [] => .done
  | v :: vs => .withSub (otlpEncodeAnyValue v) (otlpPbFieldMessage 1) >> encodeItems vs

/-- The loop of `encode_attr_kvlist`, with `otlp_encode_key_value` for each entry. -/
def encodeEntries : List KeyValue → Enc
  | [] => .done
  | (key, v) :: kvs =>
    .withSub (.withSub (otlpEncodeAnyValue v) fun val =>
      (otlpPbTag 1 otlpPbWireLen >> otlpPbString (some key)) >> otlpPbFieldMessage 2 val) (otlpPbFieldMessage 1) >>
    encodeEntries kvs

end

def otlpEncodeKeyValue (key : Bytes) (v : AnyValue) : Enc :=
  .withSub (otlpEncodeAnyValue v) fun val =>
    (otlpPbTag 1 otlpPbWireLen >> otlpPbString (some key)) >> otlpPbFieldMessage 2 val

def otlpEmitAttributes (fieldNum : UInt32) (attrs : List KeyValue) : Enc :=
  .each (fun kv => .withSub (otlpEncodeKeyValue kv.1 kv.2) (otlpPbFieldMessage fieldNum)) attrs

/-- An encoder that fails has appended whatever is asked. -/
theorem emits_withSub_fail {st : OtlpStatus} (hst : st ≠ .ok) (use : PbData → Enc) (fs : List Field) :
    Emits (.withSub (.fail st) use) fs := by
  intro h b b' h' hok
  cases st
  · exact absurd rfl hst
  all_goals cases (Prod.mk.inj hok).1

theorem AnyValue.wire_ne_nil {v : AnyValue} (hv : v ≠ .unset) : message v.wire ≠ [] := by
  rw [Ne, message_eq_nil]
  cases v with
  | unset => exact absurd rfl hv
  | string v | bool v | int v | double v | array v | kvlist v | bytes v => exact List.cons_ne_nil _ _

/-- A value is never left out as empty. -/
theorem emits_anyMessage {v : AnyValue} (n : UInt32) (hv : Emits (otlpEncodeAnyValue v) v.wire) :
    Emits (.withSub (otlpEncodeAnyValue v) (otlpPbFieldMessage n)) [.len n.toNat (message v.wire)] := by
  by_cases hunset : v = .unset
  · subst hunset
    exact emits_withSub_fail (by decide) _ _
  · rw [← omitEmpty_of_ne (AnyValue.wire_ne_nil hunset)]
    exact emits_subMessage n hv

theorem emits_keyValue {key : Bytes} {v : AnyValue} (hv : Emits (otlpEncodeAnyValue v) v.wire) :
    Emits (otlpEncodeKeyValue key v) (KeyValue.wire (key, v)) := by
  by_cases hunset : v = .unset
  · subst hunset
    exact emits_withSub_fail (by decide) _ _
  · have hval : Emits (otlpPbFieldMessage 2 (.bytes (message v.wire))) [.len 2 (message v.wire)] := by
      rw [← omitEmpty_of_ne (AnyValue.wire_ne_nil hunset)]
      exact emits_fieldMessage 2 _
    exact Appends.withSub hv ((emits_tagBytes 1 key).andThen hval)

theorem emits_keyValueMessage (n : UInt32) {key : Bytes} {v : AnyValue}
    (hkv : Emits (otlpEncodeKeyValue key v) (KeyValue.wire (key, v))) :
    Emits (.withSub (otlpEncodeKeyValue key v) (otlpPbFieldMessage n))
      [.len n.toNat (message (KeyValue.wire (key, v)))] := by
  rw [← omitEmpty_of_ne (KeyValue.message_wire_ne_nil (key, v))]
  exact emits_subMessage n hkv

mutual

theorem emits_anyValue : (v : AnyValue) → Emits (otlpEncodeAnyValue v) v.wire
  | .unset => appends_fail (by decide) _
  | .string v => emits_tagBytes 1 v
  | .bool v => emits_tagVarint 2 _
  | .int v => emits_tagVarint 3 v
  | .double v => emits_tagFixed64 4 v
  | .array [] => emits_tagBytes 5 []
  | .array (v :: vs) =>
    emits_field (Appends.withSub (emits_items (v :: vs)) (appends_bytes _)) rfl rfl
  | .kvlist [] => emits_tagBytes 6 []
  | .kvlist (kv :: kvs) =>
    emits_field (Appends.withSub (emits_entries (kv :: kvs)) (appends_bytes _)) rfl rfl
  | .bytes v => emits_tagBytes 7 v

theorem emits_items : (vs : List AnyValue) → Emits (encodeItems vs) (repeated 1 (AnyValue.wires vs))
  | [] => emits_done
  | v :: vs => (emits_anyMessage 1 (emits_anyValue v)).andThen (emits_items vs)

theorem emits_entries : (kvs : List KeyValue) → Emits (encodeEntries kvs) (repeated 1 (AnyValue.entryWires kvs))
  | [] => emits_done
  | (_, v) :: kvs => (emits_keyValueMessage 1 (emits_keyValue (emits_anyValue v))).andThen (emits_entries kvs)

end

theorem emits_attributes (n : UInt32) (kvs : List KeyValue) :
    Emits (otlpEmitAttributes n kvs) (keyValues n.toNat kvs) := by
  have heach := emits_each (f := fun kv : KeyValue => .withSub (otlpEncodeKeyValue kv.1 kv.2) (otlpPbFieldMessage n))
    (fun kv => emits_keyValueMessage n (emits_keyValue (emits_anyValue kv.2))) kvs
  rwa [keyValues, repeated, List.map_map, List.map_eq_flatMap]

/-! ### Resource and scope -/

/-- `s && s[0]`. -/
def nonEmptyStr (s : Option Bytes) : Bool := !(s.getD []).isEmpty

def serviceNameKey : Bytes := ascii "service.name"

def otlpEmitResource (fieldNum : UInt32) (serviceName : Option Bytes) (attrs : List KeyValue) : Enc :=
  if !nonEmptyStr serviceName && attrs.isEmpty then .done
  else .withSub
    (.onlyIf (nonEmptyStr serviceName) (.withSub (otlpEncodeKeyValue serviceNameKey (.string (serviceName.getD [])))
        (otlpPbFieldMessage 1)) >>
      .each (fun kv => .onlyIf (!kv.1.isEmpty) (.withSub (otlpEncodeKeyValue kv.1 kv.2) (otlpPbFieldMessage 1))) attrs)
    (otlpPbFieldMessage fieldNum)

def otlpEmitInstrumentationScope (fieldNum : UInt32) (name version : Option Bytes) : Enc :=
  if !nonEmptyStr name && !nonEmptyStr version then .done
  else .withSub
    (.onlyIf (nonEmptyStr name) (otlpPbFieldString 1 name) >>
      .onlyIf (nonEmptyStr version) (otlpPbFieldString 2 version))
    (otlpPbFieldMessage fieldNum)

/-- An identifier as a `bytes` field has it, empty when it is absent. -/
def idBytes {n : ℕ} (id : Option (Vector UInt8 n)) : Bytes := (id.map Vector.toList).getD []

/-- The attributes of the resource on the wire. -/
def resourceKvs (serviceName : Option Bytes) (attrs : List KeyValue) : List KeyValue :=
  (if nonEmptyStr serviceName then [(serviceNameKey, .string (serviceName.getD []))] else []) ++
    attrs.filter fun kv => !kv.1.isEmpty

theorem emits_onlyIf_string (n : UInt32) (s : Option Bytes) :
    Emits (.onlyIf (nonEmptyStr s) (otlpPbFieldString n s)) (omitEmpty n.toNat (s.getD [])) := by
  rcases s with - | (- | ⟨c, s⟩)
  · exact emits_done
  · exact emits_done
  · exact emits_fieldString n (c :: s)

theorem keyValues_append (n : ℕ) (kvs kvs' : List KeyValue) :
    keyValues n (kvs ++ kvs') = keyValues n kvs ++ keyValues n kvs' := by
  rw [keyValues, repeated, List.map_append, List.map_append]
  rfl

theorem flatMap_onlyIf (n : ℕ) (p : KeyValue → Bool) (kvs : List KeyValue) :
    (kvs.flatMap fun kv => if p kv then [Field.len n (message (KeyValue.wire kv))] else []) =
      keyValues n (kvs.filter p) := by
  induction kvs with
  | nil => rfl
  | cons kv kvs ih =>
    rw [List.flatMap_cons, List.filter_cons, ih]
    cases p kv <;> rfl

theorem emits_resource (n : UInt32) (serviceName : Option Bytes) (attrs : List KeyValue) :
    Emits (otlpEmitResource n serviceName attrs)
      (omitEmpty n.toNat (message (keyValues 1 (resourceKvs serviceName attrs)))) := by
  unfold otlpEmitResource
  split
  · next hnone =>
    simp only [Bool.and_eq_true, Bool.not_eq_true'] at hnone
    have hkvs : resourceKvs serviceName attrs = [] := by simp [resourceKvs, hnone.1, List.isEmpty_iff.1 hnone.2]
    rw [hkvs]
    exact emits_done
  · have hmessage : ∀ (key : Bytes) (v : AnyValue), Emits (.withSub (otlpEncodeKeyValue key v) (otlpPbFieldMessage 1))
        [.len 1 (message (KeyValue.wire (key, v)))] := fun _ v =>
      emits_keyValueMessage 1 (emits_keyValue (emits_anyValue v))
    have hservice := (hmessage serviceNameKey (.string (serviceName.getD []))).onlyIf (nonEmptyStr serviceName)
    have hattrs := emits_each (f := fun kv : KeyValue =>
        .onlyIf (!kv.1.isEmpty) (.withSub (otlpEncodeKeyValue kv.1 kv.2) (otlpPbFieldMessage 1)))
      (fun kv => (hmessage kv.1 kv.2).onlyIf (!kv.1.isEmpty)) attrs
    have hfields : (if nonEmptyStr serviceName then [Field.len 1 (message (KeyValue.wire (serviceNameKey,
          .string (serviceName.getD []))))] else []) ++
        (attrs.flatMap fun kv => if !kv.1.isEmpty then [Field.len 1 (message (KeyValue.wire kv))] else []) =
        keyValues 1 (resourceKvs serviceName attrs) := by
      rw [flatMap_onlyIf, resourceKvs, keyValues_append]
      cases nonEmptyStr serviceName <;> rfl
    have hsub := emits_subMessage n (hservice.andThen hattrs)
    exact hfields ▸ hsub

theorem emits_scope (n : UInt32) (name version : Option Bytes) :
    Emits (otlpEmitInstrumentationScope n name version)
      (omitEmpty n.toNat (message (scopeWire (name.getD []) (version.getD [])))) := by
  unfold otlpEmitInstrumentationScope
  split
  · next hnone =>
    have hempty : name.getD [] = [] ∧ version.getD [] = [] := by simpa [nonEmptyStr] using hnone
    rw [hempty.1, hempty.2]
    exact emits_done
  · exact emits_subMessage n ((emits_onlyIf_string 1 name).andThen (emits_onlyIf_string 2 version))

/-! ### The request -/

def encodeExportRequest {α : Type} (emitItem : α → Enc) (serviceName schemaUrl : Option Bytes)
    (attrs : List KeyValue) (scopeName scopeVersion : Option Bytes) (items : List α) : Enc :=
  if items.isEmpty && !nonEmptyStr serviceName && attrs.isEmpty then .done
  else .withSub
    (otlpEmitResource 1 serviceName attrs >>
      .withSub (otlpEmitInstrumentationScope 1 scopeName scopeVersion >> .each emitItem items)
        (otlpPbFieldMessage 2) >>
      .onlyIf (nonEmptyStr schemaUrl) (otlpPbFieldString 3 schemaUrl))
    (otlpPbFieldMessage 1)

/-- The fields of the request; `items` are the payloads. -/
def requestWire (serviceName schemaUrl : Option Bytes) (attrs : List KeyValue) (scopeName scopeVersion : Option Bytes)
    (items : List Bytes) : List Field :=
  if items.isEmpty && !nonEmptyStr serviceName && attrs.isEmpty then []
  else exportRequestWire (resourceKvs serviceName attrs) (schemaUrl.getD []) (scopeName.getD [])
    (scopeVersion.getD []) items

theorem emits_exportRequest {α : Type} {emitItem : α → Enc} {itemWire : α → Bytes}
    (hitem : ∀ x, Emits (emitItem x) (omitEmpty 2 (itemWire x))) (serviceName schemaUrl : Option Bytes)
    (attrs : List KeyValue) (scopeName scopeVersion : Option Bytes) (items : List α) :
    Emits (encodeExportRequest emitItem serviceName schemaUrl attrs scopeName scopeVersion items)
      (requestWire serviceName schemaUrl attrs scopeName scopeVersion (items.map itemWire)) := by
  unfold encodeExportRequest requestWire
  rw [List.isEmpty_map]
  split
  · exact emits_done
  · have hitems := emits_each hitem items
    have hscope := emits_subMessage 2 ((emits_scope 1 scopeName scopeVersion).andThen hitems)
    have hrequest := emits_subMessage 1
      ((emits_resource 1 serviceName attrs).andThen (hscope.andThen (emits_onlyIf_string 3 schemaUrl)))
    rw [exportRequestWire, resourceItemsWire, scopeItemsWire, List.flatMap_map, List.append_assoc]
    exact hrequest

/-- A buffer never holds more than can be decoded. -/
theorem length_lt_of_emits {f : Enc} {fs : List Field} (hf : Emits f fs) {h h' : Heap} {b b' : PbBuf}
    (hok : f h b = (.ok, b', h')) : (message fs).length < 2 ^ 64 := by
  have hle := b'.le_cap.trans b'.fits
  have hmax : ptrdiffMax < 2 ^ 64 := by decide
  rw [hf hok, List.length_append] at hle
  omega

theorem nonEmpty_eq_nil_of_scopeItemsWire {name version : Bytes} {ps : List Bytes}
    (hwire : scopeItemsWire name version ps = []) : nonEmpty ps = [] := by
  rw [scopeItemsWire, flatMap_omitEmpty] at hwire
  exact List.map_eq_nil_iff.1 (List.append_eq_nil_iff.1 hwire).2

theorem scopeItemsWire_of_resourceItemsWire {kvs : List KeyValue} {schemaUrl name version : Bytes} {ps : List Bytes}
    (hwire : resourceItemsWire kvs schemaUrl name version ps = []) : scopeItemsWire name version ps = [] := by
  have hscope := (List.append_eq_nil_iff.1 (List.append_eq_nil_iff.1 hwire).1).2
  by_contra hne
  rw [omitEmpty_of_ne (mt message_eq_nil.1 hne)] at hscope
  exact List.cons_ne_nil _ _ hscope

theorem resourceKvs_of_resourceItemsWire {kvs : List KeyValue} {schemaUrl name version : Bytes} {ps : List Bytes}
    (hwire : resourceItemsWire kvs schemaUrl name version ps = []) : kvs = [] := by
  have hresource := (List.append_eq_nil_iff.1 (List.append_eq_nil_iff.1 hwire).1).1
  by_contra hne
  have hkvs : message (keyValues 1 kvs) ≠ [] := by simpa [message_eq_nil, keyValues, repeated] using hne
  rw [omitEmpty_of_ne hkvs] at hresource
  exact List.cons_ne_nil _ _ hresource

/-- What a request reads back as: the items, under one resource and one scope at most. -/
structure ReadsBack {α : Type} (req : ExportRequest α) (items : List α) (attributes : List KeyValue)
    (schemaUrl scopeName scopeVersion : Bytes) : Prop where
  items_eq : req.items = items
  length_le : req.length ≤ 1
  attributes_eq : (req.flatMap fun ri => ri.resource.attributes) = attributes
  schemaUrl_eq : ∀ ri ∈ req, ri.schemaUrl = schemaUrl
  scopes_eq : ∀ ri ∈ req, ∀ si ∈ ri.scopeItems, si.scope = ⟨scopeName, scopeVersion, [], 0⟩ ∧ si.schemaUrl = []

/-- **The request reads back** as its resource, its scope and the items that were not empty. -/
theorem decodeExportRequest_request {α : Type} {item : Bytes → Option α} {xs : List α} {ps : List Bytes}
    {serviceName schemaUrl scopeName scopeVersion : Option Bytes} {attrs : List KeyValue}
    (hitems : (nonEmpty ps).mapM item = some xs)
    (hlen : (message (requestWire serviceName schemaUrl attrs scopeName scopeVersion ps)).length < 2 ^ 64) :
    ∃ req, decodeExportRequest item (message (requestWire serviceName schemaUrl attrs scopeName scopeVersion ps)) =
        some req ∧
      ReadsBack req xs (resourceKvs serviceName attrs) (schemaUrl.getD []) (scopeName.getD [])
        (scopeVersion.getD []) := by
  have hnil : nonEmpty ps = [] → xs = [] := by
    intro hps
    rw [hps] at hitems
    exact (Option.some.inj hitems).symm
  unfold requestWire at hlen ⊢
  split
  · next hempty =>
    simp only [Bool.and_eq_true, Bool.not_eq_true'] at hempty
    have hps : ps = [] := List.isEmpty_iff.1 hempty.1.1
    have hkvs : resourceKvs serviceName attrs = [] := by simp [resourceKvs, hempty.1.2, List.isEmpty_iff.1 hempty.2]
    refine ⟨[], rfl, ?_, Nat.zero_le _, hkvs.symm, by simp, by simp⟩
    rw [hnil (by rw [hps]; rfl)]
    rfl
  · next hsome =>
    rw [if_neg hsome] at hlen
    refine ⟨_, decodeExportRequest_wire hitems hlen, ?_, ?_, ?_, ?_, ?_⟩
    · split
      · next hresource =>
        rw [hnil (nonEmpty_eq_nil_of_scopeItemsWire (scopeItemsWire_of_resourceItemsWire hresource))]
        rfl
      · split
        · next hscope =>
          rw [hnil (nonEmpty_eq_nil_of_scopeItemsWire hscope)]
          rfl
        · simp [ExportRequest.items]
    · split <;> simp
    · split
      · next hresource =>
        exact (resourceKvs_of_resourceItemsWire hresource).symm
      · simp
    · split <;> simp
    · split
      · simp
      · split <;> simp

theorem length_item_lt {serviceName schemaUrl scopeName scopeVersion : Option Bytes} {attrs : List KeyValue}
    {ps : List Bytes} {p : Bytes} (hp : p ∈ ps) (hne : p ≠ [])
    (hlen : (message (requestWire serviceName schemaUrl attrs scopeName scopeVersion ps)).length < 2 ^ 64) :
    p.length < 2 ^ 64 := by
  unfold requestWire at hlen
  split at hlen
  · next hempty =>
    simp only [Bool.and_eq_true] at hempty
    rw [List.isEmpty_iff.1 hempty.1.1] at hp
    exact absurd hp List.not_mem_nil
  · have hresource := length_subMessage_omitEmpty (n := 1)
      (p := message (resourceItemsWire (resourceKvs serviceName attrs) (schemaUrl.getD []) (scopeName.getD [])
        (scopeVersion.getD []) ps)) (by simp [exportRequestWire]) hlen
    have hscope := length_subMessage_omitEmpty (n := 2)
      (p := message (scopeItemsWire (scopeName.getD []) (scopeVersion.getD []) ps)) (by simp [resourceItemsWire]) hresource
    refine (length_lt_of_mem_lens (n := 2) ?_).trans hscope
    simp [scopeItemsWire, flatMap_omitEmpty, nonEmpty, hp, hne]

/-- **The resource of a request** is the service name and the attributes that it was given. -/
theorem decodeResource_of_emits {f : Enc} {serviceName schemaUrl scopeName scopeVersion : Option Bytes}
    {attrs : List KeyValue} {ps : List Bytes}
    (hf : Emits f (requestWire serviceName schemaUrl attrs scopeName scopeVersion ps)) {h h' : Heap} {b b' : PbBuf}
    (hb : b.bytes = []) (hok : f h b = (.ok, b', h')) :
    ∃ req, decodeExportRequest some b'.bytes = some req ∧ req.length ≤ 1 ∧
      (req.flatMap fun ri => ri.resource.attributes) = resourceKvs serviceName attrs := by
  have hbytes := hf hok
  rw [hb, List.nil_append] at hbytes
  have hitems : (nonEmpty ps).mapM some = some (nonEmpty ps) := by
    have hmap : ((nonEmpty ps).map id).mapM some = some ((nonEmpty ps).map id) := mapM_map_some fun _ _ => rfl
    rwa [List.map_id] at hmap
  obtain ⟨req, hreq, hback⟩ := decodeExportRequest_request hitems (length_lt_of_emits hf hok)
  rw [hbytes]
  exact ⟨req, hreq, hback.length_le, hback.attributes_eq⟩

/-- The items that a request leaves out encode to nothing; the others come back in order. -/
theorem decodeWritten_of_emits {α β : Type} {f : Enc} {payload : α → Bytes} {item : Bytes → Option β}
    {msg : α → β} {serviceName schemaUrl scopeName scopeVersion : Option Bytes} {attrs : List KeyValue} {xs : List α}
    (hf : Emits f (requestWire serviceName schemaUrl attrs scopeName scopeVersion (xs.map payload)))
    (hitem : ∀ x, (payload x).length < 2 ^ 64 → item (payload x) = some (msg x))
    {h h' : Heap} {b b' : PbBuf} (hb : b.bytes = []) (hok : f h b = (.ok, b', h')) :
    ∃ req, decodeExportRequest item b'.bytes = some req ∧
      ReadsBack req ((xs.filter fun x => !(payload x).isEmpty).map msg) (resourceKvs serviceName attrs)
        (schemaUrl.getD []) (scopeName.getD []) (scopeVersion.getD []) := by
  have hlen := length_lt_of_emits hf hok
  have hbytes := hf hok
  rw [hb, List.nil_append] at hbytes
  rw [hbytes]
  have hitems : (nonEmpty (xs.map payload)).mapM item =
      some ((xs.filter fun x => !(payload x).isEmpty).map msg) := by
    rw [nonEmpty, List.filter_map]
    refine mapM_map_some fun x hx => hitem x ?_
    obtain ⟨hx, hne⟩ := List.mem_filter.1 hx
    exact length_item_lt (List.mem_map_of_mem hx) (by simpa using hne) hlen
  exact decodeExportRequest_request hitems hlen

/-- **A request reads back**, item by item. -/
theorem decodeExportRequest_of_emits {α β : Type} {f : Enc} {payload : α → Bytes} {item : Bytes → Option β}
    {msg : α → β} {serviceName schemaUrl scopeName scopeVersion : Option Bytes} {attrs : List KeyValue} {xs : List α}
    (hf : Emits f (requestWire serviceName schemaUrl attrs scopeName scopeVersion (xs.map payload)))
    (hne : ∀ x, payload x ≠ []) (hitem : ∀ x, (payload x).length < 2 ^ 64 → item (payload x) = some (msg x))
    {h h' : Heap} {b b' : PbBuf} (hb : b.bytes = []) (hok : f h b = (.ok, b', h')) :
    ∃ req, decodeExportRequest item b'.bytes = some req ∧ req.items = xs.map msg := by
  obtain ⟨req, hreq, hback⟩ := decodeWritten_of_emits hf hitem hb hok
  have hitems := hback.items_eq
  rw [List.filter_eq_self.2 fun x _ => by simpa using hne x] at hitems
  exact ⟨req, hreq, hitems⟩

end OtlpC.Proto
