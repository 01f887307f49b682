import OtlpC.Lib.Proto3
import OtlpC.Status

/-!
# The OTLP messages

The messages of an export request as proto3 defines them, and a decoder for each: what a collector reads.
The envelope of resource and scope is the same for the three signals, with the same field numbers, and takes
the decoder of the items as a parameter.
-/

namespace OtlpC.Otlp

open Proto3

/-! ### AnyValue and KeyValue -/

/-- `AnyValue`; integers and doubles are their 64 bits. -/
inductive AnyValue where
  | unset
  | string (v : Bytes)
  | bool (v : Bool)
  | int (v : UInt64)
  | double (v : UInt64)
  | array (values : List AnyValue)
  | kvlist (values : List (Bytes × AnyValue))
  | bytes (v : Bytes)
deriving Repr

abbrev KeyValue := Bytes × AnyValue

namespace AnyValue

theorem induction {P : AnyValue → Prop} (unset : P unset) (string : ∀ v, P (string v)) (bool : ∀ v, P (bool v))
    (int : ∀ v, P (int v)) (double : ∀ v, P (double v)) (array : ∀ vs, (∀ v ∈ vs, P v) → P (array vs))
    (kvlist : ∀ kvs, (∀ kv ∈ kvs, P kv.2) → P (kvlist kvs)) (bytes : ∀ v, P (bytes v)) (v : AnyValue) : P v := by
  refine @AnyValue.rec P (fun vs => ∀ v ∈ vs, P v) (fun kvs => ∀ kv ∈ kvs, P kv.2) (fun kv => P kv.2)
    unset string bool int double array kvlist bytes ?_ ?_ ?_ ?_ ?_ v
  · simp
  · intro v vs hv hvs
    exact List.forall_mem_cons.2 ⟨hv, hvs⟩
  · simp
  · intro kv kvs hkv hkvs
    exact List.forall_mem_cons.2 ⟨hkv, hkvs⟩
  · intro _ _ hv
    exact hv

mutual

/-- The fields of a value. -/
def wire : AnyValue → List Field
  | unset => []
  | string v => [.len 1 v]
  | bool v => [.varint 2 (if v then 1 else 0)]
  | int v => [.varint 3 v]
  | double v => [.i64 4 v]
  | array vs => [.len 5 (message (repeated 1 (wires vs)))]
  | kvlist kvs => [.len 6 (message (repeated 1 (entryWires kvs)))]
  | bytes v => [.len 7 v]

def wires : List AnyValue → List Bytes
  | [] => []
  | v :: vs => message v.wire :: wires vs

def entryWires : List KeyValue → List Bytes
  | [] => []
  | (key, v) :: kvs => message [.len 1 key, .len 2 (message v.wire)] :: entryWires kvs

end

theorem wires_eq_map (vs : List AnyValue) : wires vs = vs.map fun v => message v.wire := by
  induction vs with
  | nil => rfl
  | cons v vs ih => rw [wires, ih, List.map_cons]

theorem valid_of_mem_wire {v : AnyValue} {f : Field} (h : f ∈ v.wire) : f.Valid := by
  cases v <;> simp only [wire, List.mem_singleton, List.not_mem_nil] at h <;> subst h <;> simp

end AnyValue

/-- The fields of a `KeyValue`. -/
def KeyValue.wire (kv : KeyValue) : List Field := [.len 1 kv.1, .len 2 (message kv.2.wire)]

theorem AnyValue.entryWires_eq_map (kvs : List KeyValue) :
    entryWires kvs = kvs.map fun kv => message (KeyValue.wire kv) := by
  induction kvs with
  | nil => rfl
  | cons kv kvs ih => rw [entryWires, ih, List.map_cons, KeyValue.wire]

theorem KeyValue.valid_of_mem_wire {kv : KeyValue} {f : Field} (h : f ∈ kv.wire) : f.Valid := by
  simp only [KeyValue.wire, List.mem_cons, List.not_mem_nil, or_false] at h
  rcases h with rfl | rfl <;> simp

/-- The field is a case of the `oneof` of `AnyValue`. -/
def isAnyValueCase : Field → Bool
  | .len n _ => n = 1 ∨ n = 5 ∨ n = 6 ∨ n = 7
  | .varint n _ => n = 2 ∨ n = 3
  | .i64 n _ => n = 4
  | .i32 _ _ => false

/-- `KeyValue`, with the decoder of the value. -/
def decodeEntry (value : Bytes → Option AnyValue) (bs : Bytes) : Option KeyValue := do
  let fs ← fields bs
  let v ← value (subMessage 2 fs)
  some (lastD (lens 1 fs) [], v)

/-- `AnyValue`: the last case set counts. Every level of nesting takes a round. -/
def decodeAny : ℕ → Bytes → Option AnyValue
  | 0, _ => none
  | rounds + 1, bs => do
    let fs ← fields bs
    match fs.reverse.find? isAnyValueCase with
    | some (.len 1 v) => some (.string v)
    | some (.varint 2 v) => some (.bool (v != 0))
    | some (.varint 3 v) => some (.int v)
    | some (.i64 4 v) => some (.double v)
    | some (.len 5 body) => do
      let fs ← fields body
      let vs ← (lens 1 fs).mapM (decodeAny rounds)
      some (.array vs)
    | some (.len 6 body) => do
      let fs ← fields body
      let kvs ← (lens 1 fs).mapM (decodeEntry (decodeAny rounds))
      some (.kvlist kvs)
    | some (.len 7 v) => some (.bytes v)
    | _ => some .unset

def decodeAnyValue (bs : Bytes) : Option AnyValue := decodeAny (bs.length + 1) bs

def decodeKeyValue (bs : Bytes) : Option KeyValue := decodeEntry decodeAnyValue bs

/-- The repeated `KeyValue` field `n`. -/
def decodeKeyValues (n : ℕ) (fs : List Field) : Option (List KeyValue) := (lens n fs).mapM decodeKeyValue

theorem valid_of_mem_repeated {n : ℕ} (hn : 0 < n ∧ n < 2 ^ 29) {ps : List Bytes} {f : Field}
    (h : f ∈ repeated n ps) : f.Valid := by
  obtain ⟨p, -, rfl⟩ := List.mem_map.1 h
  exact hn

theorem length_lt_of_mem_repeated {n : ℕ} {ps : List Bytes} {p : Bytes} (h : p ∈ ps) :
    p.length < (message (repeated n ps)).length :=
  length_payload_lt (List.mem_map_of_mem h)

theorem decodeEntry_wire {kv : KeyValue} {value : Bytes → Option AnyValue}
    (hlen : (message kv.wire).length < 2 ^ 64) (hvalue : value (message kv.2.wire) = some kv.2) :
    decodeEntry value (message kv.wire) = some kv := by
  rw [decodeEntry, fields_message (fun f hf => KeyValue.valid_of_mem_wire hf) hlen]
  simp [KeyValue.wire, subMessage, hvalue]

theorem length_value_lt (kv : KeyValue) : (message kv.2.wire).length < (message kv.wire).length :=
  length_payload_lt (n := 2) (by simp [KeyValue.wire])

theorem decodeAny_wire (v : AnyValue) (rounds : ℕ) (hrounds : (message v.wire).length < rounds)
    (hlen : (message v.wire).length < 2 ^ 64) : decodeAny rounds (message v.wire) = some v := by
  induction v using AnyValue.induction generalizing rounds with
  | unset =>
    obtain ⟨rounds, rfl⟩ : ∃ k, rounds = k + 1 := ⟨rounds - 1, by omega⟩
    rfl
  | string v | int v | double v | bytes v =>
    obtain ⟨rounds, rfl⟩ : ∃ k, rounds = k + 1 := ⟨rounds - 1, by omega⟩
    rw [decodeAny, fields_message (fun f hf => AnyValue.valid_of_mem_wire hf) hlen]
    rfl
  | bool v =>
    obtain ⟨rounds, rfl⟩ : ∃ k, rounds = k + 1 := ⟨rounds - 1, by omega⟩
    rw [decodeAny, fields_message (fun f hf => AnyValue.valid_of_mem_wire hf) hlen]
    cases v <;> rfl
  | array vs ih =>
    obtain ⟨rounds, rfl⟩ : ∃ k, rounds = k + 1 := ⟨rounds - 1, by omega⟩
    have hbody : (message (repeated 1 (AnyValue.wires vs))).length < (message (AnyValue.array vs).wire).length :=
      length_payload_lt List.mem_cons_self
    rw [decodeAny, fields_message (fun f hf => AnyValue.valid_of_mem_wire hf) hlen]
    have hvs : (AnyValue.wires vs).mapM (decodeAny rounds) = some vs := by
      rw [AnyValue.wires_eq_map, mapM_map_some (k := id), List.map_id]
      intro v hv
      have hmem : message v.wire ∈ AnyValue.wires vs := by
        rw [AnyValue.wires_eq_map]
        exact List.mem_map_of_mem hv
      have := length_lt_of_mem_repeated (n := 1) hmem
      exact ih v hv rounds (by omega) (by omega)
    have hfields := fields_message (fun f hf => valid_of_mem_repeated (by decide) hf) (hbody.trans hlen)
    simp [AnyValue.wire, isAnyValueCase, hfields, hvs]
  | kvlist kvs ih =>
    obtain ⟨rounds, rfl⟩ : ∃ k, rounds = k + 1 := ⟨rounds - 1, by omega⟩
    have hbody : (message (repeated 1 (AnyValue.entryWires kvs))).length <
        (message (AnyValue.kvlist kvs).wire).length := length_payload_lt List.mem_cons_self
    rw [decodeAny, fields_message (fun f hf => AnyValue.valid_of_mem_wire hf) hlen]
    have hkvs : (AnyValue.entryWires kvs).mapM (decodeEntry (decodeAny rounds)) = some kvs := by
      rw [AnyValue.entryWires_eq_map, mapM_map_some (k := id), List.map_id]
      intro kv hkv
      have hmem : message (KeyValue.wire kv) ∈ AnyValue.entryWires kvs := by
        rw [AnyValue.entryWires_eq_map]
        exact List.mem_map_of_mem (f := fun kv => message (KeyValue.wire kv)) hkv
      have hentry := length_lt_of_mem_repeated (n := 1) hmem
      have hvalue := length_value_lt kv
      exact decodeEntry_wire (by omega) (ih kv hkv rounds (by omega) (by omega))
    have hfields := fields_message (fun f hf => valid_of_mem_repeated (by decide) hf) (hbody.trans hlen)
    simp [AnyValue.wire, isAnyValueCase, hfields, hkvs]

theorem decodeAnyValue_wire {v : AnyValue} (hlen : (message v.wire).length < 2 ^ 64) :
    decodeAnyValue (message v.wire) = some v :=
  decodeAny_wire v _ (Nat.lt_succ_self _) hlen

theorem decodeKeyValue_wire {kv : KeyValue} (hlen : (message kv.wire).length < 2 ^ 64) :
    decodeKeyValue (message kv.wire) = some kv :=
  decodeEntry_wire hlen (decodeAnyValue_wire ((length_value_lt kv).trans hlen))

theorem KeyValue.message_wire_ne_nil (kv : KeyValue) : message kv.wire ≠ [] := by
  rw [Ne, message_eq_nil]
  exact List.cons_ne_nil _ _

/-- The repeated `KeyValue` field `n`, written. -/
def keyValues (n : ℕ) (kvs : List KeyValue) : List Field := repeated n (kvs.map fun kv => message kv.wire)

theorem keyValues_eq_nil {n : ℕ} {kvs : List KeyValue} : keyValues n kvs = [] ↔ kvs = [] := by
  simp [keyValues, repeated]

/-- Each payload of a repeated field is shorter than the message it is part of. -/
theorem length_lt_of_mem_lens {n : ℕ} {fs : List Field} {p : Bytes} (h : p ∈ lens n fs) :
    p.length < (message fs).length := by
  obtain ⟨f, hf, hp⟩ := List.mem_filterMap.1 h
  cases f with
  | len m q =>
    simp only [Option.ite_none_right_eq_some, Option.some.injEq] at hp
    obtain ⟨rfl, rfl⟩ := hp
    exact length_payload_lt hf
  | varint m v | i64 m v | i32 m v => cases hp

theorem decodeKeyValues_eq {n : ℕ} {fs : List Field} {kvs : List KeyValue}
    (hlens : lens n fs = kvs.map fun kv => message kv.wire) (hlen : (message fs).length < 2 ^ 64) :
    decodeKeyValues n fs = some kvs := by
  rw [decodeKeyValues, hlens, mapM_map_some (k := id), List.map_id]
  intro kv hkv
  refine decodeKeyValue_wire ((length_lt_of_mem_lens (n := n) ?_).trans hlen)
  rw [hlens]
  exact List.mem_map_of_mem (f := fun kv => message (KeyValue.wire kv)) hkv

/-! ### Resource and scope -/

structure Resource where
  attributes : List KeyValue
  droppedAttributesCount : UInt64
deriving Repr

structure InstrumentationScope where
  name : Bytes
  version : Bytes
  attributes : List KeyValue
  droppedAttributesCount : UInt64
deriving Repr

structure ScopeItems (α : Type) where
  scope : InstrumentationScope
  items : List α
  schemaUrl : Bytes
deriving Repr

structure ResourceItems (α : Type) where
  resource : Resource
  scopeItems : List (ScopeItems α)
  schemaUrl : Bytes
deriving Repr

abbrev ExportRequest (α : Type) := List (ResourceItems α)

def ExportRequest.items {α : Type} (r : ExportRequest α) : List α :=
  r.flatMap fun ri => ri.scopeItems.flatMap (·.items)

def decodeResource (bs : Bytes) : Option Resource := do
  let fs ← fields bs
  let attributes ← decodeKeyValues 1 fs
  some { attributes, droppedAttributesCount := lastD (varints 2 fs) 0 }

def decodeScope (bs : Bytes) : Option InstrumentationScope := do
  let fs ← fields bs
  let attributes ← decodeKeyValues 3 fs
  some {
    name := lastD (lens 1 fs) []
    version := lastD (lens 2 fs) []
    attributes
    droppedAttributesCount := lastD (varints 4 fs) 0 }

section Envelope

variable {α : Type} (item : Bytes → Option α)

def decodeScopeItems (bs : Bytes) : Option (ScopeItems α) := do
  let fs ← fields bs
  let scope ← decodeScope (subMessage 1 fs)
  let items ← (lens 2 fs).mapM item
  some { scope, items, schemaUrl := lastD (lens 3 fs) [] }

def decodeResourceItems (bs : Bytes) : Option (ResourceItems α) := do
  let fs ← fields bs
  let resource ← decodeResource (subMessage 1 fs)
  let scopeItems ← (lens 2 fs).mapM (decodeScopeItems item)
  some { resource, scopeItems, schemaUrl := lastD (lens 3 fs) [] }

def decodeExportRequest (bs : Bytes) : Option (ExportRequest α) := do
  let fs ← fields bs
  (lens 1 fs).mapM (decodeResourceItems item)

end Envelope

/-! What the envelope is written as; the payloads of the items are left out when they are empty. -/

def scopeWire (name version : Bytes) : List Field := omitEmpty 1 name ++ omitEmpty 2 version

def scopeItemsWire (name version : Bytes) (items : List Bytes) : List Field :=
  omitEmpty 1 (message (scopeWire name version)) ++ items.flatMap (omitEmpty 2)

def resourceItemsWire (resource : List KeyValue) (schemaUrl name version : Bytes) (items : List Bytes) :
    List Field :=
  omitEmpty 1 (message (keyValues 1 resource)) ++ omitEmpty 2 (message (scopeItemsWire name version items)) ++
    omitEmpty 3 schemaUrl

def exportRequestWire (resource : List KeyValue) (schemaUrl name version : Bytes) (items : List Bytes) :
    List Field :=
  omitEmpty 1 (message (resourceItemsWire resource schemaUrl name version items))

theorem decodeResource_wire {kvs : List KeyValue} (hlen : (message (keyValues 1 kvs)).length < 2 ^ 64) :
    decodeResource (message (keyValues 1 kvs)) = some ⟨kvs, 0⟩ := by
  have hnumbered : WellNumbered (keyValues 1 kvs) := by simp [keyValues]
  have hkvs : decodeKeyValues 1 (keyValues 1 kvs) = some kvs := decodeKeyValues_eq (by simp [keyValues]) hlen
  rw [decodeResource, fields_message hnumbered hlen, Option.bind_eq_bind, Option.bind_some, hkvs]
  simp [keyValues]

theorem decodeScope_wire {name version : Bytes} (hlen : (message (scopeWire name version)).length < 2 ^ 64) :
    decodeScope (message (scopeWire name version)) = some ⟨name, version, [], 0⟩ := by
  have hnumbered : WellNumbered (scopeWire name version) := by simp [scopeWire]
  have hkvs : decodeKeyValues 3 (scopeWire name version) = some [] :=
    decodeKeyValues_eq (by simp [scopeWire]) hlen
  rw [decodeScope, fields_message hnumbered hlen, Option.bind_eq_bind, Option.bind_some, hkvs]
  simp [scopeWire]

theorem length_subMessage_omitEmpty {n : ℕ} {p : Bytes} {fs : List Field} (h : lens n fs = if p ≠ [] then [p] else [])
    (hlen : (message fs).length < 2 ^ 64) : p.length < 2 ^ 64 := by
  by_cases hp : p = []
  · simp [hp]
  · exact (length_lt_of_mem_lens (n := n) (by simp [h, hp])).trans hlen

section EnvelopeWire

variable {α : Type} {item : Bytes → Option α} {name version schemaUrl : Bytes} {ps : List Bytes} {xs : List α}

theorem decodeScopeItems_wire (hitems : (nonEmpty ps).mapM item = some xs)
    (hlen : (message (scopeItemsWire name version ps)).length < 2 ^ 64) :
    decodeScopeItems item (message (scopeItemsWire name version ps)) =
      some ⟨⟨name, version, [], 0⟩, xs, []⟩ := by
  have hnumbered : WellNumbered (scopeItemsWire name version ps) := by
    simp [scopeItemsWire, flatMap_omitEmpty]
  have hscope : decodeScope (message (scopeWire name version)) = some ⟨name, version, [], 0⟩ :=
    decodeScope_wire (length_subMessage_omitEmpty (n := 1) (by simp [scopeItemsWire, flatMap_omitEmpty]) hlen)
  rw [decodeScopeItems, fields_message hnumbered hlen]
  simp [scopeItemsWire, flatMap_omitEmpty, subMessage, hscope, hitems]

theorem decodeResourceItems_wire (kvs : List KeyValue) (schemaUrl name version : Bytes) (hitems : (nonEmpty ps).mapM item = some xs)
    (hlen : (message (resourceItemsWire kvs schemaUrl name version ps)).length < 2 ^ 64) :
    decodeResourceItems item (message (resourceItemsWire kvs schemaUrl name version ps)) = some {
      resource := ⟨kvs, 0⟩
      scopeItems := if scopeItemsWire name version ps = [] then [] else [⟨⟨name, version, [], 0⟩, xs, []⟩]
      schemaUrl } := by
  have hnumbered : WellNumbered (resourceItemsWire kvs schemaUrl name version ps) := by simp [resourceItemsWire]
  have hresource : decodeResource (message (keyValues 1 kvs)) = some ⟨kvs, 0⟩ :=
    decodeResource_wire (length_subMessage_omitEmpty (n := 1) (by simp [resourceItemsWire]) hlen)
  have hscope : decodeScopeItems item (message (scopeItemsWire name version ps)) =
      some ⟨⟨name, version, [], 0⟩, xs, []⟩ :=
    decodeScopeItems_wire hitems (length_subMessage_omitEmpty (n := 2) (by simp [resourceItemsWire]) hlen)
  rw [decodeResourceItems, fields_message hnumbered hlen]
  by_cases hempty : scopeItemsWire name version ps = []
  · simp [resourceItemsWire, subMessage, hresource, hempty]
  · have hne := mt message_eq_nil.1 hempty
    simp [resourceItemsWire, subMessage, hresource, hempty, hne, hscope]

/-- **The envelope** reads back as it was written, around the items that were not empty. -/
theorem decodeExportRequest_wire {kvs : List KeyValue} (hitems : (nonEmpty ps).mapM item = some xs)
    (hlen : (message (exportRequestWire kvs schemaUrl name version ps)).length < 2 ^ 64) :
    decodeExportRequest item (message (exportRequestWire kvs schemaUrl name version ps)) = some
      (if resourceItemsWire kvs schemaUrl name version ps = [] then [] else [{
        resource := ⟨kvs, 0⟩
        scopeItems := if scopeItemsWire name version ps = [] then [] else [⟨⟨name, version, [], 0⟩, xs, []⟩]
        schemaUrl }]) := by
  have hnumbered : WellNumbered (exportRequestWire kvs schemaUrl name version ps) := by simp [exportRequestWire]
  have hresource := decodeResourceItems_wire kvs schemaUrl name version hitems
    (length_subMessage_omitEmpty (n := 1) (by simp [exportRequestWire]) hlen)
  rw [decodeExportRequest, fields_message hnumbered hlen]
  by_cases hempty : resourceItemsWire kvs schemaUrl name version ps = []
  · simp [exportRequestWire, hempty]
  · have hne := mt message_eq_nil.1 hempty
    simp [exportRequestWire, hempty, hne, hresource]

end EnvelopeWire

end OtlpC.Otlp
