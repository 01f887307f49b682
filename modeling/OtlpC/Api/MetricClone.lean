import OtlpC.Api.Metric

/-!
# The clone of a metric

What a metric owns, and its clone: unless an allocation is refused there is one, it reads as the original, and all it
owns was allocated for it.
-/

namespace OtlpC.Api

open Exporter Otlp

/-! ### What a metric owns -/

def Buckets.leaves : Buckets → List Leaf
  | none => []
  | single counts _ => [counts.leaf]
  | explicit bounds counts _ => [bounds.leaf, counts.leaf]

def ExpSide.leaves (side : ExpSide) : List Leaf := side.counts.toList.map HeapArr.leaf

def exemplarLeaves (v : GrowVec Exemplar sizeofExemplar) : List Leaf := v.leaves fun _ => []

/-- The blocks that `otlp_metric_free` frees. -/
def Metric.leaves (m : Metric) : List Leaf :=
  [blockLeaf m.block, m.name.leaf, m.unit.leaf, m.description.leaf] ++
    (attrLeaves m.attrs ++ (m.buckets.leaves ++ (m.expPos.leaves ++ (m.expNeg.leaves ++ exemplarLeaves m.exemplars))))

/-! ### The parts -/

section

variable {h h' : Heap}

theorem explicitBuckets_fresh {bs : List Double} {h₁ : Heap} {a : Chunk (bs.length * 8)}
    {c : Chunk ((bs.length + 1) * 8)} (ha : otlpMalloc h (bs.length * 8) = (some a, h₁))
    (hc : otlpMalloc h₁ ((bs.length + 1) * 8) = (some c, h')) (counts : List UInt64)
    (hcounts : counts.length = bs.length + 1) :
    h.Le h' ∧ ∀ l ∈ (explicitBuckets a c counts hcounts).leaves, l.Fresh h h' := by
  have hle := otlpMalloc_le h (bs.length * 8)
  have hle₁ := otlpMalloc_le h₁ ((bs.length + 1) * 8)
  rw [ha] at hle
  rw [hc] at hle₁
  refine ⟨hle.trans hle₁, fun l hl => ?_⟩
  rcases List.mem_pair.1 hl with rfl | rfl
  · exact (otlpMalloc_fresh ha none).mono (.refl h) hle₁
  · exact (otlpMalloc_fresh hc none).mono hle (.refl h')

theorem clones_cloneBuckets (h : Heap) (src : Buckets) :
    Clones Buckets.leaves Buckets.view h src.view (cloneBuckets h src) := by
  cases src with
  | none => exact .some (.refl h) (fun l hl => absurd hl List.not_mem_nil) rfl
  | single counts hlen => exact .some (.refl h) (fun l hl => absurd hl List.not_mem_nil) rfl
  | explicit bounds counts hlen =>
    unfold cloneBuckets
    dsimp only
    by_cases hempty : bounds.items = []
    · rw [if_pos hempty]
      exact .some (.refl h) (fun l hl => absurd hl List.not_mem_nil) (if_pos hempty).symm
    have hroom : ¬(sizeMax / 8 < bounds.items.length ∨ sizeMax / 8 ≤ bounds.items.length) := by
      have hfits := bounds.fits
      unfold ptrdiffMax at hfits
      unfold sizeMax
      omega
    rw [if_neg hempty, if_neg hroom]
    have hle := otlpMalloc_le h (bounds.items.length * 8)
    rcases ha : otlpMalloc h (bounds.items.length * 8) with ⟨a, h₁⟩
    rw [ha] at hle
    have hle₁ := otlpMalloc_le h₁ ((bounds.items.length + 1) * 8)
    dsimp only
    rcases hc : otlpMalloc h₁ ((bounds.items.length + 1) * 8) with ⟨c, h₂⟩
    rw [hc] at hle₁
    cases a with
    | none => exact .none (hle.trans hle₁) ((otlpMalloc_none ha).trans_le hle₁.refused_le)
    | some a =>
      cases c with
      | none => exact .none (hle.trans hle₁) (hle.refused_le.trans_lt (otlpMalloc_none hc))
      | some c =>
        obtain ⟨hle₂, hfresh⟩ := explicitBuckets_fresh ha hc counts.items hlen
        exact .some hle₂ hfresh rfl

theorem clones_cloneExpSide (h : Heap) (src : ExpSide) :
    Clones ExpSide.leaves ExpSide.view h src.view (cloneExpSide h src) := by
  have hle := dupArr_le 8 h (arrItems src.counts)
  by_cases hempty : arrItems src.counts = []
  · rw [cloneExpSide, if_pos hempty]
    exact .some (.refl h) (fun l hl => absurd hl List.not_mem_nil) (if_pos hempty).symm
  rw [cloneExpSide, if_neg hempty, if_neg (length_le_of_fits (by decide) (length_arrItems src.counts))]
  rcases hdup : dupArr 8 h (arrItems src.counts) with ⟨_ | a, h₁⟩
  · rw [hdup] at hle
    exact .none hle (dupArr_none hdup)
  · rw [hdup] at hle
    obtain ⟨hitems, hfresh⟩ := dupArr_some hdup
    refine .some hle (fun l hl => ?_) ?_
    · obtain rfl : l = a.leaf := by simpa [ExpSide.leaves] using hl
      exact hfresh
    · rw [ExpSide.view, ExpSide.view]
      change (if a.items = [] then none else some (src.offset, a.items)) = _
      rw [hitems]

theorem clones_cloneExemplars (h : Heap) (src : GrowVec Exemplar sizeofExemplar) :
    Clones exemplarLeaves GrowVec.items h src.items (cloneExemplars h src) := by
  have hle := otlpMalloc_le h (src.items.length * sizeofExemplar)
  by_cases hempty : src.items = []
  · rw [cloneExemplars, if_pos hempty]
    exact .some (.refl h) (fun l hl => absurd hl List.not_mem_nil) hempty.symm
  rw [cloneExemplars, if_neg hempty, if_neg (length_le_of_fits (by decide) src.length_le)]
  rcases hmalloc : otlpMalloc h (src.items.length * sizeofExemplar) with ⟨_ | c, h₁⟩
  · rw [hmalloc] at hle
    exact .none hle (otlpMalloc_none hmalloc)
  · rw [hmalloc] at hle
    refine .some hle (fun l hl => ?_) rfl
    obtain rfl : l = blockLeaf c.block := by simpa [exemplarLeaves, GrowVec.leaves] using hl
    exact otlpMalloc_fresh hmalloc none

theorem Metric.mem_leaves {m : Metric} {l : Leaf} : l ∈ m.leaves ↔
    (l = blockLeaf m.block ∨ l = m.name.leaf ∨ l = m.unit.leaf ∨ l = m.description.leaf) ∨ l ∈ attrLeaves m.attrs ∨
      l ∈ m.buckets.leaves ∨ l ∈ m.expPos.leaves ∨ l ∈ m.expNeg.leaves ∨ l ∈ exemplarLeaves m.exemplars := by
  simp only [leaves, List.mem_append, List.mem_cons, List.not_mem_nil, or_false]

/-- The copies of the name, the unit and the description, made before any of them is looked at. -/
theorem dupThree_cases (h : Heap) (a b c : HeapStr) :
    ∃ a' b' c' h₁ h₂ h₃, otlpDupStr h (some a.bytes) = (a', h₁) ∧ otlpDupStr h₁ (some b.bytes) = (b', h₂) ∧
      otlpDupStr h₂ (some c.bytes) = (c', h₃) ∧ h.Le h₃ ∧
      ((a' = none ∨ b' = none ∨ c' = none) ∧ h.refused < h₃.refused ∨
        ∃ x y z, a' = some x ∧ b' = some y ∧ c' = some z ∧ x.bytes = a.bytes ∧ y.bytes = b.bytes ∧
          z.bytes = c.bytes ∧ ∀ l ∈ [x.leaf, y.leaf, z.leaf], l.Fresh h h₃) := by
  rcases ha : otlpDupStr h (some a.bytes) with ⟨a', h₁⟩
  rcases hb : otlpDupStr h₁ (some b.bytes) with ⟨b', h₂⟩
  rcases hc : otlpDupStr h₂ (some c.bytes) with ⟨c', h₃⟩
  have hle₁ := otlpDupStr_le h (some a.bytes)
  have hle₂ := otlpDupStr_le h₁ (some b.bytes)
  have hle₃ := otlpDupStr_le h₂ (some c.bytes)
  rw [ha] at hle₁
  rw [hb] at hle₂
  rw [hc] at hle₃
  refine ⟨a', b', c', h₁, h₂, h₃, rfl, hb, hc, hle₁.trans (hle₂.trans hle₃), ?_⟩
  cases a' with
  | none => exact .inl ⟨.inl rfl, (otlpDupStr_none a.fits ha).trans_le (hle₂.trans hle₃).refused_le⟩
  | some x =>
    cases b' with
    | none =>
      exact .inl ⟨.inr (.inl rfl), hle₁.refused_le.trans_lt ((otlpDupStr_none b.fits hb).trans_le hle₃.refused_le)⟩
    | some y =>
      cases c' with
      | none => exact .inl ⟨.inr (.inr rfl), (hle₁.trans hle₂).refused_le.trans_lt (otlpDupStr_none c.fits hc)⟩
      | some z =>
        obtain ⟨hx, hxFresh⟩ := otlpDupStr_some ha
        obtain ⟨hy, hyFresh⟩ := otlpDupStr_some hb
        obtain ⟨hz, hzFresh⟩ := otlpDupStr_some hc
        refine .inr ⟨x, y, z, rfl, rfl, rfl, (Option.some.inj hx).symm, (Option.some.inj hy).symm,
          (Option.some.inj hz).symm, fun l hl => ?_⟩
        simp only [List.mem_cons, List.not_mem_nil, or_false] at hl
        rcases hl with rfl | rfl | rfl
        · exact hxFresh.mono (.refl h) (hle₂.trans hle₃)
        · exact hyFresh.mono hle₁ hle₃
        · exact hzFresh.mono (hle₁.trans hle₂) (.refl h₃)

def Metric.cloned (m : Metric) : MetricView × List Exemplar := (m.view, m.exemplars.items)

/-- **`otlp_metric_clone`**. -/
theorem clones_otlpMetricClone (h : Heap) (src : Metric) :
    Clones Metric.leaves Metric.cloned h src.cloned (otlpMetricClone h src) := by
  have hle := otlpMalloc_le h sizeofMetric
  unfold otlpMetricClone
  split
  · next h₁ heq =>
    rw [heq] at hle
    exact .none hle (otlpMalloc_none heq)
  next block h₁ heq =>
  rw [heq] at hle
  obtain ⟨a, b, c, h₂, h₃, h₄, ha, hb, hc, hle₄, hstrs⟩ := dupThree_cases h₁ src.name src.unit src.description
  rw [ha]
  dsimp only
  rw [hb]
  dsimp only
  rw [hc]
  dsimp only
  have hle₄' := hle.trans hle₄
  rcases hstrs with ⟨hnone, hlt⟩ | ⟨name, unit, description, rfl, rfl, rfl, hname, hunit, hdesc, hstrFresh⟩
  · have hlt' := hle.refused_le.trans_lt hlt
    rcases hnone with rfl | rfl | rfl
    · exact .none hle₄' hlt'
    · cases a <;> exact .none hle₄' hlt'
    · cases a <;> cases b <;> exact .none hle₄' hlt'
  dsimp only
  have hattrs := copies_otlpAttrVecCopy h₄ src.attrs
  split
  · next st h₅ heq₅ =>
    rw [heq₅] at hattrs
    exact .none (hle₄'.trans hattrs.le) (hle₄'.refused_le.trans_lt (hattrs.refused st rfl))
  next attrs h₅ heq₅ =>
  rw [heq₅] at hattrs
  have hle₅ := hle₄'.trans hattrs.le
  have hexemplars := clones_cloneExemplars h₅ src.exemplars
  split
  · next h₆ heq₆ =>
    rw [heq₆] at hexemplars
    exact .none (hle₅.trans hexemplars.le) (hle₅.refused_le.trans_lt (hexemplars.refused rfl))
  next exemplars h₆ heq₆ =>
  rw [heq₆] at hexemplars
  have hle₆ := hle₅.trans hexemplars.le
  have hbuckets := clones_cloneBuckets h₆ src.buckets
  split
  · next h₇ heq₇ =>
    rw [heq₇] at hbuckets
    exact .none (hle₆.trans hbuckets.le) (hle₆.refused_le.trans_lt (hbuckets.refused rfl))
  next buckets h₇ heq₇ =>
  rw [heq₇] at hbuckets
  have hle₇ := hle₆.trans hbuckets.le
  have hpos := clones_cloneExpSide h₇ src.expPos
  split
  · next h₈ heq₈ =>
    rw [heq₈] at hpos
    exact .none (hle₇.trans hpos.le) (hle₇.refused_le.trans_lt (hpos.refused rfl))
  next expPos h₈ heq₈ =>
  rw [heq₈] at hpos
  have hle₈ := hle₇.trans hpos.le
  have hneg := clones_cloneExpSide h₈ src.expNeg
  split
  · next h₉ heq₉ =>
    rw [heq₉] at hneg
    exact .none (hle₈.trans hneg.le) (hle₈.refused_le.trans_lt (hneg.refused rfl))
  next expNeg h₉ heq₉ =>
  rw [heq₉] at hneg
  have hrest₅ := hexemplars.le.trans (hbuckets.le.trans (hpos.le.trans hneg.le))
  refine .some (hle₈.trans hneg.le) (fun l hl => ?_) ?_
  · rcases Metric.mem_leaves.1 hl with (rfl | rfl | rfl | rfl) | hl | hl | hl | hl | hl
    · exact (otlpMalloc_fresh heq none).mono (.refl h) (hle₄.trans (hattrs.le.trans hrest₅))
    · exact (hstrFresh _ (by simp)).mono hle (hattrs.le.trans hrest₅)
    · exact (hstrFresh _ (by simp)).mono hle (hattrs.le.trans hrest₅)
    · exact (hstrFresh _ (by simp)).mono hle (hattrs.le.trans hrest₅)
    · exact (hattrs.leaf attrs rfl l hl).mono hle₄' hrest₅
    · exact (hbuckets.leaf buckets rfl l hl).mono hle₆ (hpos.le.trans hneg.le)
    · exact (hpos.leaf expPos rfl l hl).mono hle₇ hneg.le
    · exact (hneg.leaf expNeg rfl l hl).mono hle₈ (.refl h₉)
    · exact (hexemplars.leaf exemplars rfl l hl).mono hle₅ (hbuckets.le.trans (hpos.le.trans hneg.le))
  · simp only [Metric.cloned, Metric.view, hname, hunit, hdesc, hattrs.read_eq attrs rfl,
      hexemplars.read_eq exemplars rfl, hbuckets.read_eq buckets rfl, hpos.read_eq expPos rfl,
      hneg.read_eq expNeg rfl]

/-- **A clone reads as its source.** -/
theorem otlpMetricClone_some {src dst : Metric} (hclone : otlpMetricClone h src = (some dst, h')) :
    dst.view = src.view ∧ dst.exemplars.items = src.exemplars.items := by
  have hclones := clones_otlpMetricClone h src
  rw [hclone] at hclones
  exact Prod.mk.inj (hclones.read_eq dst rfl)

end

end OtlpC.Api
