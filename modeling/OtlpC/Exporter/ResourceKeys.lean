import OtlpC.Api.AttributeMap
import OtlpC.Proto.LogRecords
import OtlpC.Proto.Metrics
import OtlpC.Proto.SpanBody

/-!
# The keys of the resource

What `otlp_exporter_create` keeps of the service name and of the resource attributes, and what the request of each
signal then says of the resource.
-/

namespace OtlpC.Exporter

open Api Proto Proto3 Otlp OrderedMap

/-! ### Creation -/

structure OtlpResourceAttr where
  key : Option Bytes
  value : OtlpValue

/-- The options that the resource is made of. -/
structure ResourceOpts where
  serviceName : Option Bytes
  schemaUrl : Option Bytes
  resourceAttributes : Option (List OtlpResourceAttr)

structure ExporterResource where
  serviceName : HeapStr
  schemaUrl : Option HeapStr
  resourceAttrs : AttrVec

abbrev otlpResourceMaxAttrs : ℕ := 128

/-- The entries that the loop passes over. -/
def skipped (svcSet : Bool) (src : OtlpResourceAttr) : Bool :=
  !nonEmptyStr src.key || (svcSet && src.key.getD [] == serviceNameKey) ||
    (match src.value with
      | .string v => !nonEmptyStr v
      | _ => false)

/-- The loop over `o.resource_attributes`. -/
def setResourceAttrs (svcSet : Bool) (h : Heap) (vec : AttrVec) : List OtlpResourceAttr → Option AttrVec × Heap
  | [] => (some vec, h)
  | src :: rest =>
    if skipped svcSet src then setResourceAttrs svcSet h vec rest
    else
      match otlpAttrVecSet h vec otlpResourceMaxAttrs (src.key.getD []) src.value with
      | (.ok, vec, h) => setResourceAttrs svcSet h vec rest
      | (_, _, h) => (none, h)

/-- The resource in `otlp_exporter_create`: the service name is empty by default, the strings are checked and copied,
then the attributes are set. -/
def otlpExporterCreateResource (h : Heap) (o : ResourceOpts) : Option ExporterResource × Heap :=
  if !isUtf8 o.serviceName || !isUtf8 o.schemaUrl then (none, h)
  else
    let (serviceName, h) := otlpDupStr h (some (o.serviceName.getD []))
    let (schemaUrl, h) := otlpDupStr h o.schemaUrl
    match serviceName with
    | none => (none, h)
    | some serviceName =>
      if o.schemaUrl.isSome && schemaUrl.isNone then (none, h)
      else
        match setResourceAttrs (nonEmptyStr o.serviceName) h .empty (o.resourceAttributes.getD []) with
        | (none, h) => (none, h)
        | (some resourceAttrs, h) => (some { serviceName, schemaUrl, resourceAttrs }, h)

/-! ### What is kept -/

/-- The entries that are not passed over, as they go to the wire. -/
def keptAttrs (o : ResourceOpts) : List KeyValue :=
  ((o.resourceAttributes.getD []).filter fun src => !skipped (nonEmptyStr o.serviceName) src).map fun src =>
    (src.key.getD [], src.value.any)

theorem attrKvs_setResourceAttrs {svcSet : Bool} {h h' : Heap} {vec vec' : AttrVec} {srcs : List OtlpResourceAttr}
    (hset : setResourceAttrs svcSet h vec srcs = (some vec', h')) :
    attrKvs vec' = ((srcs.filter fun src => !skipped svcSet src).map fun src =>
      (src.key.getD [], src.value.any)).foldl (fun m w => put w.1 w.2 m) (attrKvs vec) := by
  induction srcs generalizing h vec with
  | nil =>
    cases hset
    rfl
  | cons src rest ih =>
    rw [setResourceAttrs] at hset
    cases hskip : skipped svcSet src with
    | true =>
      rw [if_pos hskip] at hset
      rw [List.filter_cons, hskip]
      exact ih hset
    | false =>
      rw [if_neg (by rw [hskip]; decide)] at hset
      have hkvs := (otlpAttrVecSet_spec h vec otlpResourceMaxAttrs (src.key.getD []) src.value).2
      split at hset
      · next vec₁ h₁ heq =>
        rw [heq, putKvs, if_pos rfl, upsert_eq_put] at hkvs
        rw [List.filter_cons, hskip, ih hset, hkvs]
        rfl
      · cases (Prod.mk.inj hset).1

theorem otlpExporterCreateResource_some {h h' : Heap} {o : ResourceOpts} {r : ExporterResource}
    (hcreate : otlpExporterCreateResource h o = (some r, h')) :
    r.serviceName.bytes = o.serviceName.getD [] ∧ attrKvs r.resourceAttrs = ofWrites (keptAttrs o) := by
  unfold otlpExporterCreateResource at hcreate
  split at hcreate
  · cases (Prod.mk.inj hcreate).1
  · dsimp only at hcreate
    split at hcreate
    · cases (Prod.mk.inj hcreate).1
    · next name hname =>
      split at hcreate
      · cases (Prod.mk.inj hcreate).1
      · split at hcreate
        · cases (Prod.mk.inj hcreate).1
        · next attrs h₁ hset =>
          obtain ⟨hr, -⟩ := Prod.mk.inj hcreate
          cases hr
          refine ⟨?_, attrKvs_setResourceAttrs hset⟩
          have hdup := otlpDupStr_some (Prod.ext hname rfl)
          exact (Option.some.inj hdup.1).symm

theorem key_of_mem_keptAttrs {o : ResourceOpts} {kv : KeyValue} (hkv : kv ∈ keptAttrs o) :
    kv.1 ≠ [] ∧ (nonEmptyStr o.serviceName → kv.1 ≠ serviceNameKey) := by
  obtain ⟨src, hsrc, rfl⟩ := List.mem_map.1 hkv
  have hkept := (List.mem_filter.1 hsrc).2
  simp only [skipped, Bool.not_eq_true', Bool.or_eq_false_iff, Bool.and_eq_false_iff] at hkept
  obtain ⟨⟨hkey, hsvc⟩, -⟩ := hkept
  refine ⟨by simpa [nonEmptyStr] using hkey, fun hset => ?_⟩
  rcases hsvc with hunset | hne
  · rw [hset] at hunset
    cases hunset
  · exact beq_eq_false_iff_ne.1 hne

/-! ### The resource on the wire -/

/-- The attributes of a resource are a map of the service name and of the entries that were kept. -/
structure ResourceMap (o : ResourceOpts) (kvs : List KeyValue) : Prop where
  nodup : (keys kvs).Nodup
  service : nonEmptyStr o.serviceName → get? serviceNameKey kvs = some (.string (o.serviceName.getD []))
  others : ∀ key, ¬(nonEmptyStr o.serviceName ∧ key = serviceNameKey) → get? key kvs = get? key (keptAttrs o).reverse

theorem key_of_mem_ofWrites {o : ResourceOpts} {kv : KeyValue} (hkv : kv ∈ ofWrites (keptAttrs o)) :
    kv.1 ≠ [] ∧ (nonEmptyStr o.serviceName → kv.1 ≠ serviceNameKey) := by
  have hkey : kv.1 ∈ keys (keptAttrs o) := mem_keys_ofWrites.1 (List.mem_map_of_mem hkv)
  obtain ⟨kv', hkv', heq⟩ := List.mem_map.1 hkey
  rw [← heq]
  exact key_of_mem_keptAttrs hkv'

/-- None of the attributes that are kept is left out of the request. -/
theorem resourceKvs_ofWrites (serviceName : Option Bytes) (o : ResourceOpts) :
    resourceKvs serviceName (ofWrites (keptAttrs o)) =
      (if nonEmptyStr serviceName then [(serviceNameKey, .string (serviceName.getD []))] else []) ++
        ofWrites (keptAttrs o) := by
  rw [resourceKvs, List.filter_eq_self.2 fun kv hkv => by simpa using (key_of_mem_ofWrites hkv).1]

theorem resourceMap_resourceKvs (o : ResourceOpts) :
    ResourceMap o (resourceKvs (some (o.serviceName.getD [])) (ofWrites (keptAttrs o))) := by
  have hset : nonEmptyStr (some (o.serviceName.getD [])) = nonEmptyStr o.serviceName := by
    cases o.serviceName <;> rfl
  rw [resourceKvs_ofWrites, hset, Option.getD_some]
  by_cases hservice : nonEmptyStr o.serviceName = true
  · rw [if_pos hservice, List.singleton_append]
    refine ⟨?_, fun _ => ?_, fun key hkey => ?_⟩
    · refine List.nodup_cons.2 ⟨fun hmem => ?_, nodup_keys_ofWrites _⟩
      obtain ⟨kv, hkv, heq⟩ := List.mem_map.1 hmem
      exact (key_of_mem_ofWrites hkv).2 hservice heq
    · rw [get?, if_pos rfl]
    · rw [get?, if_neg fun heq => hkey ⟨hservice, heq.symm⟩, get?_ofWrites]
  · rw [if_neg hservice, List.nil_append]
    exact ⟨nodup_keys_ofWrites _, fun h => absurd h hservice, fun key _ => get?_ofWrites key _⟩

/-- The bytes are a request with one resource at most, and its attributes are such a map. -/
def ResourceUnique (o : ResourceOpts) (bs : Bytes) : Prop :=
  ∃ req, decodeExportRequest some bs = some req ∧ req.length ≤ 1 ∧
    ResourceMap o (req.flatMap fun ri => ri.resource.attributes)

theorem resourceUnique_of_emits {o : ResourceOpts} {r : ExporterResource} {h h' k k' : Heap}
    (hcreate : otlpExporterCreateResource h o = (some r, h')) {f : Enc} {schemaUrl scopeName scopeVersion : Option Bytes}
    {ps : List Bytes}
    (hf : Emits f (requestWire (some r.serviceName.bytes) schemaUrl (attrKvs r.resourceAttrs) scopeName scopeVersion ps))
    {b b' : PbBuf} (hb : b.bytes = []) (hok : f k b = (.ok, b', k')) : ResourceUnique o b'.bytes := by
  obtain ⟨req, hreq, hlength, hresource⟩ := decodeResource_of_emits hf hb hok
  obtain ⟨hname, hattrs⟩ := otlpExporterCreateResource_some hcreate
  refine ⟨req, hreq, hlength, ?_⟩
  rw [hresource, hname, hattrs]
  exact resourceMap_resourceKvs o

/-- **The keys of the resource are unique on the wire.** In the request of each signal, whatever its items, the
resource has distinct keys; `service.name` has the value of the option when that is not empty, and every other key
the value of its last entry that was kept. -/
theorem resource_keys_unique {o : ResourceOpts} {r : ExporterResource} {h h' : Heap}
    (hcreate : otlpExporterCreateResource h o = (some r, h')) (scopeName scopeVersion : Option Bytes) (k k' : Heap)
    {b b' : PbBuf} (hb : b.bytes = []) :
    (∀ spans, otlpEncodeExportTraceServiceRequest (some r.serviceName.bytes) (r.schemaUrl.map (·.bytes))
      (attrKvs r.resourceAttrs) scopeName scopeVersion spans k b = (.ok, b', k') → ResourceUnique o b'.bytes) ∧
    (∀ metrics, otlpEncodeExportMetricsServiceRequest (some r.serviceName.bytes) (r.schemaUrl.map (·.bytes))
      (attrKvs r.resourceAttrs) scopeName scopeVersion metrics k b = (.ok, b', k') → ResourceUnique o b'.bytes) ∧
    (∀ logs, otlpEncodeExportLogsServiceRequest (some r.serviceName.bytes) (r.schemaUrl.map (·.bytes))
      (attrKvs r.resourceAttrs) scopeName scopeVersion logs k b = (.ok, b', k') → ResourceUnique o b'.bytes) := by
  refine ⟨fun spans => ?_, fun metrics => ?_, fun logs => ?_⟩
  · exact resourceUnique_of_emits hcreate (emits_traceRequest _ _ _ _ _ _) hb
  · exact resourceUnique_of_emits hcreate (emits_metricsRequest _ _ _ _ _ _) hb
  · exact resourceUnique_of_emits hcreate (emits_logsRequest _ _ _ _ _ _) hb

/-- An exporter with a service name, one key twice and an entry that yields to the option. -/
def repeatedOpts : ResourceOpts where
  serviceName := some (ascii "api")
  schemaUrl := none
  resourceAttributes := some [⟨some (ascii "k"), .int64 1⟩, ⟨some serviceNameKey, .string (some (ascii "x"))⟩,
    ⟨some (ascii "k"), .int64 2⟩]

theorem repeatedOpts_accepted :
    (otlpExporterCreateResource .granting repeatedOpts).1.isSome = true := by decide +kernel

theorem repeatedOpts_encodes :
    (otlpEncodeExportTraceServiceRequest (some (Option.get _ repeatedOpts_accepted).serviceName.bytes)
      ((Option.get _ repeatedOpts_accepted).schemaUrl.map (·.bytes))
      (attrKvs (Option.get _ repeatedOpts_accepted).resourceAttrs) none none []
      .granting .inline).1 = .ok := by decide +kernel

/-- On the wire the repeated key has the value of its last entry, and `service.name` that of the option. -/
theorem resource_keys_unique_repeated : ∃ r h' b' k' req,
    otlpExporterCreateResource .granting repeatedOpts = (some r, h') ∧
    otlpEncodeExportTraceServiceRequest (some r.serviceName.bytes) (r.schemaUrl.map (·.bytes))
      (attrKvs r.resourceAttrs) none none [] .granting .inline = (.ok, b', k') ∧
    decodeExportRequest (some : Bytes → Option Bytes) b'.bytes = some req ∧
    (keys (req.flatMap fun ri => ri.resource.attributes)).Nodup ∧
    get? (ascii "k") (req.flatMap fun ri => ri.resource.attributes) = some (.int 2) ∧
    get? serviceNameKey (req.flatMap fun ri => ri.resource.attributes) = some (.string (ascii "api")) := by
  have hcreate := eq_of_isSome repeatedOpts_accepted
  have hrun := eq_of_ok repeatedOpts_encodes
  obtain ⟨req, hreq, -, hmap⟩ := (resource_keys_unique hcreate none none _ _ rfl).1 [] hrun
  have hkey : ¬(nonEmptyStr repeatedOpts.serviceName ∧ ascii "k" = serviceNameKey) := by decide
  exact ⟨_, _, _, _, req, hcreate, hrun, hreq, hmap.nodup, hmap.others _ hkey, hmap.service (by decide)⟩

end OtlpC.Exporter
