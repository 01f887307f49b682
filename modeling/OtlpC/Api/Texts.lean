import OtlpC.Api.Owned
import OtlpC.Proto.StringFields

/-!
# The text that an object owns

The blocks of an object hold valid text exactly when what the encoder reads as a string is valid. So a metric that
reads as another one owns valid text as well, and that is what a clone needs.
-/

namespace OtlpC.Api

open Exporter Otlp

/-! ### Attributes -/

def ValidLeaves (ls : List Leaf) : Prop := ∀ l ∈ ls, l.Valid

def ValidStrings (ts : List Bytes) : Prop := ∀ t ∈ ts, otlpStrIsUtf8 t = true

theorem validLeaves_nil : ValidLeaves [] := fun _ hl => absurd hl List.not_mem_nil

theorem validStrings_nil : ValidStrings [] := fun _ ht => absurd ht List.not_mem_nil

theorem validLeaves_cons {l : Leaf} {ls : List Leaf} : ValidLeaves (l :: ls) ↔ l.Valid ∧ ValidLeaves ls :=
  List.forall_mem_cons

theorem validStrings_cons {t : Bytes} {ts : List Bytes} :
    ValidStrings (t :: ts) ↔ otlpStrIsUtf8 t = true ∧ ValidStrings ts :=
  List.forall_mem_cons

theorem validLeaves_append {ls ms : List Leaf} : ValidLeaves (ls ++ ms) ↔ ValidLeaves ls ∧ ValidLeaves ms :=
  List.forall_mem_append

theorem validStrings_append {ts us : List Bytes} : ValidStrings (ts ++ us) ↔ ValidStrings ts ∧ ValidStrings us :=
  List.forall_mem_append

theorem validLeaves_flatMap {α : Type} {f : α → List Leaf} {xs : List α} :
    ValidLeaves (xs.flatMap f) ↔ ∀ x ∈ xs, ValidLeaves (f x) :=
  List.forall_mem_flatMap

theorem validStrings_flatMap {α : Type} {f : α → List Bytes} {xs : List α} :
    ValidStrings (xs.flatMap f) ↔ ∀ x ∈ xs, ValidStrings (f x) :=
  List.forall_mem_flatMap

theorem HeapStr.valid_leaf {s : HeapStr} : s.leaf.Valid ↔ otlpStrIsUtf8 s.bytes = true :=
  ⟨fun hs => hs _ rfl, fun hs t ht => by cases ht; exact hs⟩

theorem validLeaves_strLeaves (s : Option HeapStr) :
    ValidLeaves (strLeaves s) ↔ otlpStrIsUtf8 ((s.map (·.bytes)).getD []) = true := by
  cases s with
  | none => exact iff_of_true validLeaves_nil rfl
  | some s => exact (validLeaves_cons.trans (and_iff_left validLeaves_nil)).trans HeapStr.valid_leaf

theorem Scalar.valid_iff (v : Scalar) : ValidLeaves v.leaves ↔ ValidStrings v.any.strings := by
  cases v with
  | string s =>
    refine Iff.trans ?_ (validStrings_cons.trans (and_iff_left validStrings_nil)).symm
    refine Iff.trans ?_ (validLeaves_strLeaves s)
    cases s <;> rfl
  | bytes b =>
    refine iff_of_true ?_ validStrings_nil
    cases b with
    | none => exact validLeaves_nil
    | some b => exact validLeaves_cons.2 ⟨valid_blockLeaf _, validLeaves_nil⟩
  | bool _ | int64 _ | double _ => exact iff_of_true validLeaves_nil validStrings_nil

theorem entry_valid_iff (e : HeapStr × Scalar) :
    ValidLeaves (entryLeaves e) ↔ ValidStrings (KeyValue.strings (entryKv e)) :=
  validLeaves_cons.trans ((and_congr HeapStr.valid_leaf e.2.valid_iff).trans validStrings_cons.symm)

theorem arrLeaves_valid_iff {α : Type} {size : ℕ} {elem : α → List Leaf} {strings : α → List Bytes}
    (helem : ∀ x, ValidLeaves (elem x) ↔ ValidStrings (strings x)) (block : ℕ) (items : Option (HeapArr α size)) :
    ValidLeaves (blockLeaf block :: arrLeaves elem items) ↔ ValidStrings ((arrItems items).flatMap strings) := by
  rw [validLeaves_cons, and_iff_right (valid_blockLeaf block), validStrings_flatMap]
  cases items with
  | none => exact iff_of_true validLeaves_nil fun _ hx => absurd hx List.not_mem_nil
  | some a =>
    have hleaf : a.leaf.Valid := valid_blockLeaf a.block
    rw [arrLeaves, validLeaves_cons, and_iff_right hleaf, validLeaves_flatMap]
    exact forall₂_congr fun x _ => helem x

theorem AttrValue.valid_iff (v : AttrValue) : ValidLeaves v.leaves ↔ ValidStrings v.any.strings := by
  cases v with
  | scalar v => exact v.valid_iff
  | array block items =>
    rw [any, AnyValue.strings, AnyValue.arrayStrings_eq_flatMap, List.flatMap_map]
    exact arrLeaves_valid_iff Scalar.valid_iff block items
  | kvlist block entries =>
    rw [any, AnyValue.strings, AnyValue.entryStrings_eq_flatMap, List.flatMap_map]
    exact arrLeaves_valid_iff entry_valid_iff block entries

theorem Attribute.valid_iff (a : Attribute) : ValidLeaves a.leaves ↔ ValidStrings (KeyValue.strings a.kv) :=
  validLeaves_cons.trans ((and_congr HeapStr.valid_leaf a.value.valid_iff).trans validStrings_cons.symm)

theorem GrowVec.valid_iff {α : Type} {size : ℕ} (elem : α → List Leaf) (v : GrowVec α size) :
    ValidLeaves (v.leaves elem) ↔ ∀ x ∈ v.items, ValidLeaves (elem x) := by
  rw [leaves, validLeaves_append, validLeaves_flatMap]
  refine and_iff_right fun l hl => ?_
  obtain ⟨block, -, rfl⟩ := List.mem_map.1 hl
  exact valid_blockLeaf block

/-- **Attributes own valid text** exactly when they read as valid strings. -/
theorem attrLeaves_valid_iff (v : AttrVec) :
    ValidLeaves (attrLeaves v) ↔ ValidStrings (attributeStrings (attrKvs v)) := by
  rw [attrLeaves, GrowVec.valid_iff, attributeStrings, attrKvs, List.flatMap_map, validStrings_flatMap]
  exact forall₂_congr fun a _ => a.valid_iff

/-! ### Spans and log records -/

def SpanView.strings (s : SpanView) : List Bytes :=
  s.name :: s.statusMessage.getD [] :: s.traceState.getD [] :: (attributeStrings s.attrs ++
    (s.events.flatMap (fun ev => ev.name :: attributeStrings ev.attrs) ++
      s.links.flatMap fun lk => attributeStrings lk.attrs))

theorem Span.valid_iff (s : Span) : ValidLeaves s.leaves ↔ ValidStrings s.view.strings := by
  have hevents : ValidLeaves (s.events.leaves Event.leaves) ↔
      ValidStrings (s.view.events.flatMap fun ev => ev.name :: attributeStrings ev.attrs) := by
    rw [GrowVec.valid_iff, view, List.flatMap_map, validStrings_flatMap]
    refine forall₂_congr fun ev _ => validLeaves_cons.trans ?_
    exact (and_congr HeapStr.valid_leaf (attrLeaves_valid_iff ev.attrs)).trans validStrings_cons.symm
  have hlinks : ValidLeaves (s.links.leaves Link.leaves) ↔
      ValidStrings (s.view.links.flatMap fun lk => attributeStrings lk.attrs) := by
    rw [GrowVec.valid_iff, view, List.flatMap_map, validStrings_flatMap]
    exact forall₂_congr fun lk _ => attrLeaves_valid_iff lk.attrs
  have hstatus := validLeaves_strLeaves s.statusMessage
  have hstate := validLeaves_strLeaves s.traceState
  have hattrs := attrLeaves_valid_iff s.attrs
  have hname : s.name.leaf.Valid ↔ otlpStrIsUtf8 s.view.name = true := HeapStr.valid_leaf
  rw [SpanView.strings, validStrings_cons, validStrings_cons, validStrings_cons, validStrings_append,
    validStrings_append, ← hevents, ← hlinks, ← hname]
  simp only [leaves, validLeaves_cons, validLeaves_append, valid_blockLeaf, true_and, hstatus, hstate, hattrs]
  change _ ↔ _ ∧ otlpStrIsUtf8 ((s.statusMessage.map (·.bytes)).getD []) = true ∧
    otlpStrIsUtf8 ((s.traceState.map (·.bytes)).getD []) = true ∧
    ValidStrings (attributeStrings (attrKvs s.attrs)) ∧ _
  tauto

def LogView.strings (lr : LogView) : List Bytes :=
  lr.body :: lr.severityText.getD [] :: attributeStrings lr.attrs

theorem LogRecord.valid_iff (lr : LogRecord) : ValidLeaves lr.leaves ↔ ValidStrings lr.view.strings := by
  rw [LogView.strings, validStrings_cons, validStrings_cons]
  simp only [leaves, validLeaves_cons, validLeaves_append, valid_blockLeaf, true_and, HeapStr.valid_leaf,
    validLeaves_strLeaves, attrLeaves_valid_iff]
  rfl

/-! ### Metrics -/

def MetricView.strings (m : MetricView) : List Bytes := m.name :: m.unit :: m.description :: attributeStrings m.attrs

theorem Buckets.valid_leaves (b : Buckets) : ValidLeaves b.leaves := by
  intro l hl
  cases b with
  | none => exact absurd hl List.not_mem_nil
  | single counts _ => exact List.mem_singleton.1 hl ▸ valid_blockLeaf _
  | explicit bounds counts _ =>
    rcases List.mem_pair.1 hl with rfl | rfl <;> exact valid_blockLeaf _

theorem ExpSide.valid_leaves (side : ExpSide) : ValidLeaves side.leaves := by
  intro l hl
  obtain ⟨a, -, rfl⟩ := List.mem_map.1 hl
  exact valid_blockLeaf _

theorem exemplarLeaves_valid (v : GrowVec Exemplar sizeofExemplar) : ValidLeaves (exemplarLeaves v) :=
  (GrowVec.valid_iff _ v).2 fun _ _ => validLeaves_nil

theorem Metric.valid_iff (m : Metric) : ValidLeaves m.leaves ↔ ValidStrings m.view.strings := by
  rw [MetricView.strings, validStrings_cons, validStrings_cons, validStrings_cons]
  simp only [leaves, List.cons_append, List.nil_append, validLeaves_cons, validLeaves_append, valid_blockLeaf,
    true_and, HeapStr.valid_leaf, attrLeaves_valid_iff, Buckets.valid_leaves, ExpSide.valid_leaves,
    exemplarLeaves_valid, and_true]
  rfl

end OtlpC.Api
