import OtlpC.Proto.Messages

/-!
# The string fields of a request

The fields of proto type `string` of what all the signals share, with those of an item as a parameter. The fields of
type `bytes` are not among them.
-/

namespace OtlpC.Otlp

open Proto3

namespace AnyValue

mutual

/-- The `string_value`s of a value, and the keys in it. -/
def strings : AnyValue → List Bytes
  | string v => [v]
  | array vs => arrayStrings vs
  | kvlist kvs => entryStrings kvs
  | unset | bool _ | int _ | double _ | bytes _ => []

def arrayStrings : List AnyValue → List Bytes
  | [] => []
  | v :: vs => v.strings ++ arrayStrings vs

def entryStrings : List KeyValue → List Bytes
  | [] => []
  | (key, v) :: kvs => key :: v.strings ++ entryStrings kvs

end

theorem arrayStrings_eq_flatMap (vs : List AnyValue) : arrayStrings vs = vs.flatMap strings := by
  induction vs with
  | nil => rfl
  | cons v vs ih => rw [arrayStrings, ih, List.flatMap_cons]

end AnyValue

def KeyValue.strings (kv : KeyValue) : List Bytes := kv.1 :: kv.2.strings

theorem AnyValue.entryStrings_eq_flatMap (kvs : List KeyValue) : entryStrings kvs = kvs.flatMap KeyValue.strings := by
  induction kvs with
  | nil => rfl
  | cons kv kvs ih => rw [entryStrings, ih, List.flatMap_cons, KeyValue.strings]

/-- The strings of a repeated `KeyValue`. -/
def attributeStrings (kvs : List KeyValue) : List Bytes := kvs.flatMap KeyValue.strings

def Resource.strings (r : Resource) : List Bytes := attributeStrings r.attributes

def InstrumentationScope.strings (s : InstrumentationScope) : List Bytes :=
  [s.name, s.version] ++ attributeStrings s.attributes

section

variable {α : Type} (item : α → List Bytes)

def ScopeItems.strings (si : ScopeItems α) : List Bytes :=
  si.schemaUrl :: (si.scope.strings ++ si.items.flatMap item)

def ResourceItems.strings (ri : ResourceItems α) : List Bytes :=
  ri.schemaUrl :: (ri.resource.strings ++ ri.scopeItems.flatMap (ScopeItems.strings item))

def ExportRequest.strings (r : ExportRequest α) : List Bytes := r.flatMap (ResourceItems.strings item)

theorem ExportRequest.forall_strings {P : Bytes → Prop} {r : ExportRequest α}
    (hitems : ∀ x ∈ r.items, ∀ t ∈ item x, P t)
    (hresource : ∀ t ∈ attributeStrings (r.flatMap fun ri => ri.resource.attributes), P t)
    (hschema : ∀ ri ∈ r, P ri.schemaUrl)
    (hscopes : ∀ ri ∈ r, ∀ si ∈ ri.scopeItems, P si.schemaUrl ∧ ∀ t ∈ si.scope.strings, P t) :
    ∀ t ∈ r.strings item, P t := by
  intro t ht
  obtain ⟨ri, hri, ht⟩ := List.mem_flatMap.1 ht
  rcases List.mem_cons.1 ht with rfl | ht
  · exact hschema ri hri
  rcases List.mem_append.1 ht with ht | ht
  · obtain ⟨kv, hkv, ht⟩ := List.mem_flatMap.1 ht
    exact hresource t (List.mem_flatMap.2 ⟨kv, List.mem_flatMap.2 ⟨ri, hri, hkv⟩, ht⟩)
  obtain ⟨si, hsi, ht⟩ := List.mem_flatMap.1 ht
  rcases List.mem_cons.1 ht with rfl | ht
  · exact (hscopes ri hri si hsi).1
  rcases List.mem_append.1 ht with ht | ht
  · exact (hscopes ri hri si hsi).2 t ht
  · obtain ⟨x, hx, ht⟩ := List.mem_flatMap.1 ht
    exact hitems x (List.mem_flatMap.2 ⟨ri, hri, List.mem_flatMap.2 ⟨si, hsi, hx⟩⟩) t ht

end

end OtlpC.Otlp
