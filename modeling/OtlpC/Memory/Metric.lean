import OtlpC.Memory.Span

/-!
# Metrics that are given back

The functions of `metric.c` that take or free memory. A run of `otlp_free` calls is the list of their arguments.
-/

namespace OtlpC.Memory

open Exporter Api

/-! ### Functions -/

/-- The pointers of a metric that `otlp_metric_free` frees, NULL where there is nothing yet. -/
structure MetricParts where
  block : ℕ
  name : Option HeapStr
  unit : Option HeapStr
  description : Option HeapStr
  bounds : Option ℕ
  bucketCounts : Option ℕ
  expPosCounts : Option Counts
  expNegCounts : Option Counts
  attrs : AttrVec
  exemplars : Option ℕ

def otlpMetricFreeParts (m : MetricParts) : MemM Unit := do
  releaseAll otlpFree [m.name.map HeapStr.block, m.unit.map HeapStr.block, m.description.map HeapStr.block, m.bounds,
    m.bucketCounts, m.expPosCounts.map HeapArr.block, m.expNegCounts.map HeapArr.block]
  otlpAttrVecFree m.attrs
  releaseAll otlpFree [m.exemplars, some m.block]

def bucketsBounds : Buckets → Option ℕ
  | .none | .single _ _ => none
  | .explicit bounds _ _ => some bounds.block

def bucketsCounts : Buckets → Option ℕ
  | .none => none
  | .single counts _ | .explicit _ counts _ => some counts.block

def otlpMetricFree (m : Metric) : MemM Unit :=
  otlpMetricFreeParts {
    block := m.block
    name := m.name
    unit := m.unit
    description := m.description
    bounds := bucketsBounds m.buckets
    bucketCounts := bucketsCounts m.buckets
    expPosCounts := m.expPos.counts
    expNegCounts := m.expNeg.counts
    attrs := m.attrs
    exemplars := m.exemplars.block }

/-- The blocks for the bounds and the counts, as far as they can be had: both are asked for before either is looked
at. -/
def mallocBuckets (bs : List Double) (counts : List UInt64) (hcounts : counts.length = bs.length + 1) :
    MemM (Except (Option ℕ × Option ℕ) Buckets) := do
  if sizeMax / 8 < bs.length ∨ sizeMax / 8 ≤ bs.length then return .error (none, none)
  else
    let a ← otlpMalloc (bs.length * 8)
    let c ← otlpMalloc ((bs.length + 1) * 8)
    match a, c with
    | some a, some c => return .ok (explicitBuckets a c counts hcounts)
    | a, c => return .error (a.map Chunk.block, c.map Chunk.block)

theorem length_zeroCounts (bs : List Double) : (List.replicate (bs.length + 1) (0 : UInt64)).length = bs.length + 1 :=
  List.length_replicate

/-- The bounds, and the counts all 0. -/
def createBuckets (type : OtlpMetricType) (bounds : Option (List Double)) :
    MemM (Except (Option ℕ × Option ℕ) Buckets) :=
  match bounds with
  | none | some [] => return .ok .none
  | some bs =>
    if type ≠ .histogram then return .ok .none
    else mallocBuckets bs (.replicate (bs.length + 1) 0) (length_zeroCounts bs)

def otlpMetricCreate (type : UInt32) (name unit description : Option Bytes) (histogramBounds : Option (List Double)) :
    MemM (Option Metric) := do
  match OtlpMetricType.ofEnum type with
  | none => return none
  | some type =>
    match ← otlpMalloc sizeofMetric with
    | none => return none
    | some c =>
      if !isUtf8 name || !isUtf8 unit || !isUtf8 description then
        otlpFree (some c.block)
        return none
      else
        let name ← otlpDupStr (some (name.getD []))
        let unit ← otlpDupStr (some (unit.getD []))
        let description ← otlpDupStr (some (description.getD []))
        match name, unit, description with
        | some name, some unit, some description =>
          match ← createBuckets type histogramBounds with
          | .error (bounds, bucketCounts) =>
            releaseAll otlpFree [some name.block, some unit.block, some description.block, bounds, bucketCounts,
              some c.block]
            return none
          | .ok buckets =>
            return some {
              block := c.block
              type
              name
              unit
              description
              startTime := 0
              time := 0
              hasStart := false
              hasTime := false
              attrs := .empty
              aggTemp := otlpAggTempCumulative
              isMonotonic := true
              value := 0
              count := 0
              sum := 0
              min := 0
              max := 0
              hasMinmax := false
              buckets
              expScale := 0
              expZeroCount := 0
              expPos := ⟨0, none⟩
              expNeg := ⟨0, none⟩
              hasExpScale := false
              exemplars := .empty }
        | name, unit, description =>
          releaseAll otlpFree [name.map HeapStr.block, unit.map HeapStr.block, description.map HeapStr.block, none, none,
            some c.block]
          return none

section Bumped

variable {counts : Counts}

theorem length_bumped (fp : Fp) (value : Double) {bounds : HeapArr Double 8}
    (hlen : counts.items.length = bounds.items.length + 1) :
    (counts.bump (bounds.items.findIdx (fp.le value))).items.length = bounds.items.length + 1 :=
  (List.length_modify ..).trans hlen

theorem length_bumped_single (hlen : counts.items.length = 1) : (counts.bump 0).items.length = 1 :=
  (List.length_modify ..).trans hlen

theorem fits_word (c : Chunk 8) : [(0 : UInt64)].length * 8 ≤ ptrdiffMax := c.fits

theorem length_first (c : Chunk 8) : (Counts.bump ⟨c.block, [0], fits_word c⟩ 0).items.length = 1 := rfl

end Bumped

/-- The bucket of a recorded value; without bounds there is one, which the first call allocates. -/
def recordBucket (fp : Fp) (value : Double) : Buckets → MemM (OtlpStatus × Buckets)
  | .explicit bounds counts hlen =>
    return (.ok, .explicit bounds (counts.bump (bounds.items.findIdx (fp.le value))) (length_bumped fp value hlen))
  | .single counts hlen => return (.ok, .single (counts.bump 0) (length_bumped_single hlen))
  | .none => do
    match ← otlpMalloc 8 with
    | none => return (.errNomem, .none)
    | some c => return (.ok, .single (Counts.bump ⟨c.block, [0], fits_word c⟩ 0) (length_first c))

def otlpMetricRecord (fp : Fp) (m : Metric) (value : Double) : MemM (OtlpStatus × Metric) :=
  match m.type with
  | .counter => return (.ok, { m with value := fp.add m.value value })
  | .gauge => return (.ok, { m with value })
  | .histogram => do
    let (st, buckets) ← recordBucket fp value m.buckets
    return (st, { m with
      count := m.count + 1
      sum := fp.add m.sum value
      min := if !m.hasMinmax || fp.lt value m.min then value else m.min
      max := if !m.hasMinmax || fp.lt m.max value then value else m.max
      hasMinmax := true
      buckets })
  | .expHistogram =>
    return (.ok, { m with
      count := m.count + 1
      sum := fp.add m.sum value
      expZeroCount := if fp.isZero value then m.expZeroCount + 1 else m.expZeroCount })

def otlpMetricSetAttribute (m : Metric) (key : Option Bytes) (arg : AttrArg) : MemM (OtlpStatus × Metric) := do
  let (st, attrs) ← setAttribute m.attrs otlpMetricMaxAttrs key arg
  return (st, { m with attrs })

/-- One side of `otlp_metric_set_exp_histogram`: the old counts are freed before the new ones are allocated. -/
def setExpSide (side : ExpSide) (offset : Int32) : Option (List UInt64) → MemM (OtlpStatus × ExpSide)
  | none | some [] => return (.ok, side)
  | some counts => do
    if sizeMax / 8 < counts.length then return (.errInvalidArgument, side)
    else
      otlpFree (side.counts.map HeapArr.block)
      match ← dupArr 8 counts with
      | none => return (.errNomem, ⟨offset, none⟩)
      | some a => return (.ok, ⟨offset, some a⟩)

def otlpMetricSetExpHistogram (m : Metric) (scale posOffset : Int32) (posCounts : Option (List UInt64))
    (negOffset : Int32) (negCounts : Option (List UInt64)) : MemM (OtlpStatus × Metric) := do
  if m.type ≠ .expHistogram then return (.errInvalidArgument, m)
  else
    match ← setExpSide m.expPos posOffset posCounts with
    | (.ok, expPos) =>
      let (st, expNeg) ← setExpSide m.expNeg negOffset negCounts
      return (st, { m with expScale := scale, hasExpScale := true, expPos, expNeg })
    | (st, expPos) => return (st, { m with expScale := scale, hasExpScale := true, expPos })

theorem metricExemplars_lt (m : Metric) : m.exemplars.items.length < sizeMax := exemplars_lt m.exemplars

theorem sizeofExemplar_le : sizeofExemplar ≤ 64 := by decide

def otlpMetricAddExemplar (m : Metric) (ex : Option Exemplar) : MemM (OtlpStatus × Metric) := do
  match ex with
  | none => return (.errNull, m)
  | some ex =>
    if !ex.hasDouble && !ex.hasInt then return (.errInvalidArgument, m)
    else if m.exemplars.items.length = m.exemplars.cap ∧ m.exemplars.cap * 2 % 2 ^ 64 < m.exemplars.cap then
      return (.errOverflow, m)
    else
      match ← grow m.exemplars sizeMax (metricExemplars_lt m) sizeofExemplar_le with
      | none => return (.errNomem, m)
      | some exemplars => return (.ok, { m with exemplars := GrowVec.push exemplars.toRoomyVec ex })

/-! ### Clone -/

/-- The copy of the bounds and of the counts. -/
def cloneBuckets : Buckets → MemM (Except (Option ℕ × Option ℕ) Buckets)
  | .none | .single _ _ => return .ok .none
  | .explicit bounds counts hlen =>
    if bounds.items = [] then return .ok .none else mallocBuckets bounds.items counts.items hlen

/-- The copy of one side of an exponential histogram. -/
def cloneExpSide (side : ExpSide) : MemM (Option ExpSide) := do
  if arrItems side.counts = [] then return some ⟨side.offset, none⟩
  else if sizeMax / 8 < (arrItems side.counts).length then return none
  else
    match ← dupArr 8 (arrItems side.counts) with
    | none => return none
    | some a => return some ⟨side.offset, some a⟩

theorem length_le_self (src : GrowVec Exemplar sizeofExemplar) : src.items.length ≤ src.items.length := le_rfl

def cloneExemplars (src : GrowVec Exemplar sizeofExemplar) : MemM (Option (GrowVec Exemplar sizeofExemplar)) := do
  if src.items = [] then return some .empty
  else if sizeMax / sizeofExemplar < src.items.length then return none
  else
    match ← otlpMalloc (src.items.length * sizeofExemplar) with
    | none => return none
    | some c => return some ⟨some c.block, src.items, src.items.length, length_le_self src, fits_copied c⟩

def failMetric (m : MetricParts) : MemM (Option Metric) := do
  otlpMetricFreeParts m
  return none

def otlpMetricClone (src : Metric) : MemM (Option Metric) := do
  match ← otlpMalloc sizeofMetric with
  | none => return none
  | some c =>
    let name ← otlpDupStr (some src.name.bytes)
    let unit ← otlpDupStr (some src.unit.bytes)
    let description ← otlpDupStr (some src.description.bytes)
    let parts : MetricParts := ⟨c.block, name, unit, description, none, none, none, none, .empty, none⟩
    match name, unit, description with
    | some name, some unit, some description =>
      match ← otlpAttrVecCopy src.attrs with
      | .error _ => failMetric parts
      | .ok attrs =>
        match ← cloneExemplars src.exemplars with
        | none => failMetric { parts with attrs }
        | some exemplars =>
          match ← cloneBuckets src.buckets with
          | .error (bounds, bucketCounts) =>
            failMetric { parts with attrs, exemplars := exemplars.block, bounds, bucketCounts }
          | .ok buckets =>
            let parts := { parts with
              attrs, exemplars := exemplars.block
              bounds := bucketsBounds buckets, bucketCounts := bucketsCounts buckets }
            match ← cloneExpSide src.expPos with
            | none => failMetric parts
            | some expPos =>
              match ← cloneExpSide src.expNeg with
              | none => failMetric { parts with expPosCounts := expPos.counts }
              | some expNeg =>
                return some { src with
                  block := c.block, name, unit, description, attrs, exemplars, buckets, expPos, expNeg }
    | _, _, _ => failMetric parts

def metricCall (fp : Fp) (m : Metric) : MetricCall → MemM (OtlpStatus × Metric)
  | .record value => otlpMetricRecord fp m value
  | .setStartTime t => return otlpMetricSetStartTime m t
  | .setTime t => return otlpMetricSetTime m t
  | .markTime now => return otlpMetricMarkTime m now
  | .setAttribute key arg => otlpMetricSetAttribute m key arg
  | .setExpHistogram scale posOffset posCounts negOffset negCounts =>
    otlpMetricSetExpHistogram m scale posOffset posCounts negOffset negCounts
  | .setAggregationTemporality temp => return otlpMetricSetAggregationTemporality m temp
  | .setMonotonic monotonic => return otlpMetricSetMonotonic m monotonic
  | .addExemplar ex => otlpMetricAddExemplar m ex

/-! ### What each owns -/

def partsBlocks (m : MetricParts) : Multiset ℕ :=
  optBlock (m.name.map HeapStr.block) + (optBlock (m.unit.map HeapStr.block) +
    (optBlock (m.description.map HeapStr.block) + (optBlock m.bounds + (optBlock m.bucketCounts +
      (optBlock (m.expPosCounts.map HeapArr.block) + (optBlock (m.expNegCounts.map HeapArr.block) +
        (blocks (attrLeaves m.attrs) + (optBlock m.exemplars + {m.block}))))))))

theorem owns_otlpMetricFreeParts (m : MetricParts) : Owns (partsBlocks m) (otlpMetricFreeParts m) fun _ => 0 := by
  refine (owning_releaseAll owns_otlpFree _).step
    (r := blocks (attrLeaves m.attrs) + (optBlock m.exemplars + {m.block})) ?_ fun _ => ?_
  · simp only [partsBlocks, List.map_cons, List.map_nil, List.sum_cons, List.sum_nil]
    abel
  refine (frees_otlpAttrVecFree m.attrs).step (zero_add _) fun _ => ?_
  refine (owning_releaseAll owns_otlpFree _).conseq ?_ fun _ => rfl
  simp only [List.map_cons, List.map_nil, List.sum_cons, List.sum_nil, optBlock_some]
  abel

theorem blocks_buckets (b : Buckets) :
    blocks b.leaves = optBlock (bucketsBounds b) + optBlock (bucketsCounts b) := by
  cases b <;> rfl

theorem blocks_expSide (side : ExpSide) : blocks side.leaves = optBlock (side.counts.map HeapArr.block) := by
  obtain ⟨offset, counts⟩ := side
  cases counts <;> rfl

theorem blocks_exemplars (v : GrowVec Exemplar sizeofExemplar) : blocks (exemplarLeaves v) = optBlock v.block := by
  rw [exemplarLeaves, blocks_vecLeaves]
  simp

theorem blocks_metricLeaves (m : Metric) : blocks m.leaves = {m.name.block} + ({m.unit.block} +
    ({m.description.block} + (blocks (attrLeaves m.attrs) + (blocks m.buckets.leaves + (blocks m.expPos.leaves +
      (blocks m.expNeg.leaves + (blocks (exemplarLeaves m.exemplars) + {m.block}))))))) := by
  simp only [Metric.leaves, blocks_append, blocks_cons, blocks_nil, block_blockLeaf, block_strLeaf]
  abel

theorem frees_otlpMetricFree : Frees Metric.leaves otlpMetricFree := fun m => by
  refine (owns_otlpMetricFreeParts _).conseq ?_ fun _ => rfl
  rw [blocks_metricLeaves, blocks_buckets, blocks_expSide, blocks_expSide, blocks_exemplars]
  simp only [partsBlocks, Option.map_some, optBlock_some]
  abel

/-- The buckets, or what is left to free. -/
def bucketsOwned : Except (Option ℕ × Option ℕ) Buckets → Multiset ℕ
  | .error (bounds, bucketCounts) => optBlock bounds + optBlock bucketCounts
  | .ok buckets => blocks buckets.leaves

theorem owns_mallocBuckets (bs : List Double) (counts : List UInt64) (hcounts : counts.length = bs.length + 1) :
    Owns 0 (mallocBuckets bs counts hcounts) bucketsOwned := by
  unfold mallocBuckets
  split
  · exact .pure rfl
  refine (owns_otlpMalloc _).bind fun a => ?_
  refine (owns_otlpMalloc _).step (zero_add _).symm fun c => ?_
  cases a with
  | none => exact .pure (add_comm _ _)
  | some a => cases c <;> exact .pure (add_comm _ _)

theorem owns_createBuckets (type : OtlpMetricType) (bounds : Option (List Double)) :
    Owns 0 (createBuckets type bounds) bucketsOwned := by
  unfold createBuckets
  split
  · exact .pure rfl
  · exact .pure rfl
  · split
    · exact .pure rfl
    · exact owns_mallocBuckets _ _ _

theorem creates_otlpMetricCreate (type : UInt32) (name unit description : Option Bytes)
    (histogramBounds : Option (List Double)) :
    Creates Metric.leaves (otlpMetricCreate type name unit description histogramBounds) := by
  unfold otlpMetricCreate
  split
  · exact .pure rfl
  refine (owns_otlpMalloc _).bind fun c => ?_
  cases c with
  | none => exact .pure rfl
  | some c =>
    dsimp only
    split
    · exact (owns_otlpFree (some c.block)).bind fun _ => .pure rfl
    refine (owns_otlpDupStr _).step (zero_add _).symm fun name => ?_
    refine (owns_otlpDupStr _).step (zero_add _).symm fun unit => ?_
    refine (owns_otlpDupStr _).step (zero_add _).symm fun description => ?_
    split
    · refine (owns_createBuckets _ histogramBounds).step (zero_add _).symm fun buckets => ?_
      cases buckets with
      | error r =>
        refine (owning_releaseAll owns_otlpFree _).step (r := 0) ?_ fun _ => .pure rfl
        simp only [bucketsOwned, List.map_cons, List.map_nil, List.sum_cons, List.sum_nil, Option.map_some, optBlock_some]
        abel
      | ok buckets =>
        refine .pure (Eq.trans ?_ (blocks_metricLeaves _).symm)
        simp only [bucketsOwned, Option.map_some, optBlock_some, blocks_expSide, blocks_exemplars, Option.map_none,
          optBlock_none, GrowVec.empty]
        abel
    · refine (owning_releaseAll owns_otlpFree _).step (r := 0) ?_ fun _ => .pure rfl
      simp only [List.map_cons, List.map_nil, List.sum_cons, List.sum_nil, Option.map_some, optBlock_some,
        optBlock_none]
      abel

/-! ### The parts of a metric -/

section Parts

variable (m : Metric)

theorem part_metricAttrs : ∃ r, ∀ attrs, blocks { m with attrs }.leaves = blocks (attrLeaves attrs) + r := by
  refine ⟨{m.name.block} + ({m.unit.block} + ({m.description.block} + (blocks m.buckets.leaves +
    (blocks m.expPos.leaves + (blocks m.expNeg.leaves + (blocks (exemplarLeaves m.exemplars) + {m.block})))))),
    fun attrs => ?_⟩
  rw [blocks_metricLeaves]
  abel

theorem part_buckets : ∃ r, ∀ buckets, blocks { m with buckets }.leaves = blocks buckets.leaves + r := by
  refine ⟨{m.name.block} + ({m.unit.block} + ({m.description.block} + (blocks (attrLeaves m.attrs) +
    (blocks m.expPos.leaves + (blocks m.expNeg.leaves + (blocks (exemplarLeaves m.exemplars) + {m.block})))))),
    fun buckets => ?_⟩
  rw [blocks_metricLeaves]
  abel

theorem part_expSides : ∃ r, ∀ expPos expNeg, blocks { m with expPos, expNeg }.leaves =
    blocks expPos.leaves + (blocks expNeg.leaves + r) := by
  refine ⟨{m.name.block} + ({m.unit.block} + ({m.description.block} + (blocks (attrLeaves m.attrs) +
    (blocks m.buckets.leaves + (blocks (exemplarLeaves m.exemplars) + {m.block}))))), fun expPos expNeg => ?_⟩
  rw [blocks_metricLeaves]
  abel

theorem part_exemplars : ∃ r, ∀ exemplars, blocks { m with exemplars }.leaves =
    blocks (exemplarLeaves exemplars) + r := by
  refine ⟨{m.name.block} + ({m.unit.block} + ({m.description.block} + (blocks (attrLeaves m.attrs) +
    (blocks m.buckets.leaves + (blocks m.expPos.leaves + (blocks m.expNeg.leaves + {m.block})))))),
    fun exemplars => ?_⟩
  rw [blocks_metricLeaves]
  abel

end Parts

/-! ### Calls -/

theorem owns_recordBucket (fp : Fp) (value : Double) (buckets : Buckets) :
    Owns (blocks buckets.leaves) (recordBucket fp value buckets) fun r => blocks r.2.leaves := by
  cases buckets with
  | explicit bounds counts hlen => exact .pure rfl
  | single counts hlen => exact .pure rfl
  | none =>
    refine (owns_otlpMalloc 8).bind fun c => ?_
    cases c <;> exact .pure rfl

theorem changes_otlpMetricRecord (fp : Fp) (m : Metric) (value : Double) :
    Changes Metric.leaves m (otlpMetricRecord fp m value) := by
  unfold otlpMetricRecord
  split
  · exact .pure rfl
  · exact .pure rfl
  · obtain ⟨r, hr⟩ := part_buckets m
    exact (owns_recordBucket fp value m.buckets).step (hr m.buckets) fun b => .pure (hr b.2).symm
  · exact .pure rfl

theorem owns_setExpSide (side : ExpSide) (offset : Int32) (counts : Option (List UInt64)) :
    Owns (blocks side.leaves) (setExpSide side offset counts) fun r => blocks r.2.leaves := by
  unfold setExpSide
  split
  · exact .pure rfl
  · exact .pure rfl
  split
  · exact .pure rfl
  · rw [blocks_expSide]
    refine (owns_otlpFree _).bind fun _ => ?_
    refine (owns_dupArr 8 _).bind fun a => ?_
    cases a <;> exact .pure rfl

theorem changes_otlpMetricSetExpHistogram (m : Metric) (scale posOffset : Int32) (posCounts : Option (List UInt64))
    (negOffset : Int32) (negCounts : Option (List UInt64)) :
    Changes Metric.leaves m (otlpMetricSetExpHistogram m scale posOffset posCounts negOffset negCounts) := by
  obtain ⟨r, hr⟩ := part_expSides m
  unfold otlpMetricSetExpHistogram
  split
  · exact .pure rfl
  refine (owns_setExpSide m.expPos posOffset posCounts).step (hr m.expPos m.expNeg) fun p => ?_
  obtain ⟨st, expPos⟩ := p
  split
  · next expPos' heq =>
    obtain ⟨-, rfl⟩ := Prod.mk.inj heq
    refine (owns_setExpSide m.expNeg negOffset negCounts).step (r := blocks expPos.leaves + r) (add_left_comm _ _ _)
      fun n => .pure ?_
    exact (add_left_comm _ _ _).trans (hr expPos n.2).symm
  · next expPos' _ heq =>
    obtain ⟨-, rfl⟩ := Prod.mk.inj heq
    exact .pure (hr expPos m.expNeg).symm

theorem changes_otlpMetricAddExemplar (m : Metric) (ex : Option Exemplar) :
    Changes Metric.leaves m (otlpMetricAddExemplar m ex) := by
  unfold otlpMetricAddExemplar
  split
  · exact .pure rfl
  split
  · exact .pure rfl
  split
  · exact .pure rfl
  · obtain ⟨r, hr⟩ := part_exemplars m
    refine (owns_grow (fun _ => []) m.exemplars _ _ _).step (hr m.exemplars) fun exemplars => ?_
    cases exemplars with
    | none => exact .pure (hr m.exemplars).symm
    | some exemplars =>
      refine .pure ?_
      rw [hr, exemplarLeaves, blocks_push, blocks_nil, add_zero]
      rfl

/-- **A call on a metric** leaks nothing and frees nothing twice. -/
theorem changes_metricCall (fp : Fp) (m : Metric) (c : MetricCall) :
    Changes Metric.leaves m (metricCall fp m c) := by
  cases c with
  | record value => exact changes_otlpMetricRecord fp m value
  | setStartTime t | setTime t | setMonotonic t => exact .pure rfl
  | markTime now => cases now <;> exact .pure rfl
  | setAttribute key arg =>
    obtain ⟨r, hr⟩ := part_metricAttrs m
    exact (owns_setAttribute m.attrs _ key arg).step (hr m.attrs) fun a => .pure (hr a.2).symm
  | setExpHistogram scale posOffset posCounts negOffset negCounts =>
    exact changes_otlpMetricSetExpHistogram m scale posOffset posCounts negOffset negCounts
  | setAggregationTemporality temp =>
    rw [metricCall, otlpMetricSetAggregationTemporality]
    split <;> exact .pure rfl
  | addExemplar ex => exact changes_otlpMetricAddExemplar m ex

/-! ### Clone -/

theorem owns_cloneBuckets (b : Buckets) : Owns 0 (cloneBuckets b) bucketsOwned := by
  cases b with
  | none => exact .pure rfl
  | single counts hlen => exact .pure rfl
  | explicit bounds counts hlen =>
    rw [cloneBuckets]
    split
    · exact .pure rfl
    · exact owns_mallocBuckets _ _ _

theorem creates_cloneExpSide (side : ExpSide) : Creates ExpSide.leaves (cloneExpSide side) := by
  unfold cloneExpSide
  split
  · exact .pure rfl
  split
  · exact .pure rfl
  · refine (owns_dupArr 8 _).bind fun a => ?_
    cases a <;> exact .pure rfl

theorem creates_cloneExemplars (src : GrowVec Exemplar sizeofExemplar) :
    Creates exemplarLeaves (cloneExemplars src) := by
  unfold cloneExemplars
  split
  · exact .pure rfl
  split
  · exact .pure rfl
  · refine (owns_otlpMalloc _).bind fun c => ?_
    cases c with
    | none => exact .pure rfl
    | some c => exact .pure (blocks_exemplars ⟨some c.block, src.items, src.items.length, le_rfl, c.fits⟩).symm

theorem owns_failMetric (m : MetricParts) :
    Owns (partsBlocks m) (failMetric m) fun r => (r.map fun m => blocks m.leaves).getD 0 :=
  (owns_otlpMetricFreeParts m).bind fun _ => .pure rfl

/-- **The copy of a metric** is all there or leaves nothing behind. -/
theorem creates_otlpMetricClone (src : Metric) : Creates Metric.leaves (otlpMetricClone src) := by
  refine (owns_otlpMalloc _).bind fun c => ?_
  cases c with
  | none => exact .pure rfl
  | some c =>
    refine (owns_otlpDupStr _).step (zero_add _).symm fun name => ?_
    refine (owns_otlpDupStr _).step (zero_add _).symm fun unit => ?_
    refine (owns_otlpDupStr _).step (zero_add _).symm fun description => ?_
    dsimp only
    split
    · next name unit description =>
      refine (builds_otlpAttrVecCopy src.attrs).step (zero_add _).symm fun attrs => ?_
      cases attrs with
      | error st =>
        refine (owns_failMetric _).conseq ?_ fun _ => rfl
        simp only [partsBlocks, okOwned_error, Option.map_some, optBlock_some, Option.map_none, optBlock_none,
          blocks_attrLeaves_empty]
        abel
      | ok attrs =>
        refine (creates_cloneExemplars src.exemplars).step (zero_add _).symm fun exemplars => ?_
        cases exemplars with
        | none =>
          refine (owns_failMetric _).conseq ?_ fun _ => rfl
          simp only [partsBlocks, okOwned_ok, Option.map_some, optBlock_some, Option.map_none, optBlock_none,
            Option.getD_none]
          abel
        | some exemplars =>
          refine (owns_cloneBuckets src.buckets).step (zero_add _).symm fun buckets => ?_
          cases buckets with
          | error r =>
            refine (owns_failMetric _).conseq ?_ fun _ => rfl
            simp only [partsBlocks, bucketsOwned, okOwned_ok, Option.map_some, optBlock_some, Option.map_none,
              optBlock_none, Option.getD_some, blocks_exemplars]
            abel
          | ok buckets =>
            refine (creates_cloneExpSide src.expPos).step (zero_add _).symm fun expPos => ?_
            cases expPos with
            | none =>
              refine (owns_failMetric _).conseq ?_ fun _ => rfl
              simp only [partsBlocks, bucketsOwned, okOwned_ok, Option.map_some, optBlock_some, Option.map_none,
                optBlock_none, Option.getD_some, Option.getD_none, blocks_exemplars, blocks_buckets]
              abel
            | some expPos =>
              refine (creates_cloneExpSide src.expNeg).step (zero_add _).symm fun expNeg => ?_
              cases expNeg with
              | none =>
                refine (owns_failMetric _).conseq ?_ fun _ => rfl
                simp only [partsBlocks, bucketsOwned, okOwned_ok, Option.map_some, optBlock_some, Option.map_none,
                  optBlock_none, Option.getD_some, Option.getD_none, blocks_exemplars, blocks_buckets, blocks_expSide]
                abel
              | some expNeg =>
                refine .pure (Eq.trans ?_ (blocks_metricLeaves _).symm)
                simp only [bucketsOwned, okOwned_ok, Option.map_some, optBlock_some, Option.getD_some]
                abel
    · refine (owns_failMetric _).conseq ?_ fun _ => rfl
      simp only [partsBlocks, Option.map_none, optBlock_none, Option.map_some, optBlock_some, blocks_attrLeaves_empty]
      abel

end OtlpC.Memory
