import OtlpC.Api.Texts

/-!
# A clone and its original stay apart

The original never gets hold of a block of its clone, whatever happens to it afterwards. Here is the clone of a log
record as well, and what a metric owns when it may be a clone itself.
-/

namespace OtlpC.Api

open Exporter Otlp

section

variable {h h' : Heap}

/-! ### Apart for good -/

/-- **A clone and its original share no block**, for as long as the original lives: the clone's blocks were allocated
for it, and what the original gets hold of later is newer still. -/
theorem Clones.apart {α γ κ : Type} {leaves : α → List Leaf} {read : α → γ} {orig : γ} {x y : α}
    (hclones : Clones leaves read h orig (Option.some y, h')) (hx : Owns h (leaves x))
    {run : Heap → α → κ → OtlpStatus × α × Heap}
    (hrun : ∀ h x c, Grows h (leaves x) (run h x c).2.2 (leaves (run h x c).2.1)) {k : Heap} {x' : α}
    (hlife : Life run (h', x) (k, x')) : ∀ l ∈ leaves y, ∀ l' ∈ leaves x', l.block ≠ l'.block := by
  intro l hl l' hl'
  have hfresh := hclones.leaf y rfl l hl
  rcases (Life.grows hrun hlife).mem l' hl' with hold | ⟨hnew, -⟩
  · exact ((hx l' hold).1.trans_le hfresh.1).ne'
  · exact (hfresh.2.trans_le hnew.1).ne

/-! ### Log records -/

/-- **`otlp_log_record_clone`**. -/
theorem clones_otlpLogRecordClone (h : Heap) (src : LogRecord) :
    Clones LogRecord.leaves LogRecord.view h src.view (otlpLogRecordClone h src) := by
  have hle := otlpMalloc_le h sizeofLogRecord
  unfold otlpLogRecordClone
  split
  · next h₁ heq =>
    rw [heq] at hle
    exact .none hle (otlpMalloc_none heq)
  next c h₁ heq =>
  rw [heq] at hle
  dsimp only
  have hbodyLe := fun h => otlpDupStr_le h (some src.body.bytes)
  -- A text that is not there is copied to NULL, and nothing is asked for.
  have htext : (src.severityText.isSome = true ∧ ∃ h₂, otlpDupStr h₁ (src.severityText.map (·.bytes)) = (none, h₂) ∧
      h₁.Le h₂ ∧ h₁.refused < h₂.refused) ∨
      ∃ text h₂, otlpDupStr h₁ (src.severityText.map (·.bytes)) = (text, h₂) ∧ h₁.Le h₂ ∧
        (src.severityText.isSome && text.isNone) = false ∧
        text.map (·.bytes) = src.severityText.map (·.bytes) ∧ ∀ l ∈ strLeaves text, l.Fresh h₁ h₂ := by
    cases hsrc : src.severityText with
    | none => exact .inr ⟨none, h₁, rfl, .refl h₁, rfl, rfl, fun l hl => absurd hl List.not_mem_nil⟩
    | some s =>
      rcases otlpDupStr_cases h₁ s with ⟨h₂, hdup, hle₂, hlt⟩ | ⟨text, h₂, hdup, hle₂, hbytes, hfresh⟩
      · exact .inl ⟨rfl, h₂, hdup, hle₂, hlt⟩
      · exact .inr ⟨some text, h₂, hdup, hle₂, rfl, congrArg some hbytes,
          fun l hl => mem_strLeaves_some.1 hl ▸ hfresh⟩
  rcases htext with ⟨hsome, h₂, hdup, hle₂, hlt⟩ | ⟨text, h₂, hdup, hle₂, hcheck, htext, htextFresh⟩
  · rw [hdup, if_pos (by rw [hsome]; rfl)]
    exact .none (hle.trans (hle₂.trans (hbodyLe h₂)))
      ((hle.refused_le.trans_lt hlt).trans_le (hbodyLe h₂).refused_le)
  rw [hdup]
  dsimp only
  rcases otlpDupStr_cases h₂ src.body with ⟨h₃, hbody, hle₃, hlt⟩ | ⟨body, h₃, hbody, hle₃, hbytes, hbodyFresh⟩
  · rw [hbody, if_neg (by rw [hcheck]; decide)]
    exact .none (hle.trans (hle₂.trans hle₃)) ((hle.trans hle₂).refused_le.trans_lt hlt)
  rw [hbody, if_neg (by rw [hcheck]; decide)]
  dsimp only
  have hcopy := copies_otlpAttrVecCopy h₃ src.attrs
  have hle₃' := hle.trans (hle₂.trans hle₃)
  split
  · next st h₄ heq₄ =>
    rw [heq₄] at hcopy
    exact .none (hle₃'.trans hcopy.le) (hle₃'.refused_le.trans_lt (hcopy.refused st rfl))
  next attrs h₄ heq₄ =>
  rw [heq₄] at hcopy
  refine .some (hle₃'.trans hcopy.le) (fun l hl => ?_) ?_
  · rcases LogRecord.mem_leaves.1 hl with rfl | rfl | hl | hl
    · exact (otlpMalloc_fresh heq none).mono (.refl h) (hle₂.trans (hle₃.trans hcopy.le))
    · exact hbodyFresh.mono (hle.trans hle₂) hcopy.le
    · exact (htextFresh l hl).mono hle (hle₃.trans hcopy.le)
    · exact (hcopy.leaf attrs rfl l hl).mono hle₃' (.refl h₄)
  · have hattrs := hcopy.read_eq attrs rfl
    simp only [LogRecord.view, htext, hbytes, hattrs]

/-! ### Metrics -/

theorem createBuckets_some {type : OtlpMetricType} {bounds : Option (List Double)} {buckets : Buckets}
    (hcreate : createBuckets h type bounds = (some buckets, h')) :
    h.Le h' ∧ ∀ l ∈ buckets.leaves, l.Fresh h h' := by
  unfold createBuckets at hcreate
  split at hcreate
  · cases hcreate
    exact ⟨.refl h, fun l hl => absurd hl List.not_mem_nil⟩
  · cases hcreate
    exact ⟨.refl h, fun l hl => absurd hl List.not_mem_nil⟩
  · next bs _ =>
    split at hcreate
    · cases hcreate
      exact ⟨.refl h, fun l hl => absurd hl List.not_mem_nil⟩
    · split at hcreate
      · cases (Prod.mk.inj hcreate).1
      · dsimp only at hcreate
        split at hcreate
        · next a c ha hc =>
          cases hcreate
          exact explicitBuckets_fresh (Prod.ext ha rfl) (Prod.ext hc rfl) _ _
        · cases (Prod.mk.inj hcreate).1

theorem owns_dupStr {s : Bytes} {c : HeapStr} {k : Heap} (hdup : otlpDupStr h (some s) = (some c, h'))
    (hutf8 : otlpStrIsUtf8 s = true) (hle : h'.Le k) : c.leaf.block < k.next ∧ c.leaf.Valid := by
  obtain ⟨hfresh, hvalid⟩ := ((grows_dupStr hdup hutf8 []).mem _ (List.mem_singleton_self _)).resolve_left
    List.not_mem_nil
  exact ⟨hfresh.2.trans_le hle.next_le, hvalid⟩

theorem otlpMetricCreate_owns {type : UInt32} {name unit description : Option Bytes} {bounds : Option (List Double)}
    {m : Metric} (hm : otlpMetricCreate h type name unit description bounds = (some m, h')) : Owns h' m.leaves := by
  unfold otlpMetricCreate at hm
  split at hm
  · cases (Prod.mk.inj hm).1
  split at hm
  · cases (Prod.mk.inj hm).1
  next c h₁ hmalloc =>
  split at hm
  · cases (Prod.mk.inj hm).1
  next hutf8 =>
  simp only [Bool.or_eq_true, Bool.not_eq_true', not_or, Bool.not_eq_false] at hutf8
  dsimp only at hm
  split at hm
  swap
  · cases (Prod.mk.inj hm).1
  next name' unit' description' hname hunit hdesc =>
  split at hm
  · cases (Prod.mk.inj hm).1
  next buckets h₅ hbuckets =>
  obtain ⟨hbucketsLe, hbucketsFresh⟩ := createBuckets_some hbuckets
  have hdescLe := (otlpDupStr_le (otlpDupStr (otlpDupStr h₁ (some (name.getD []))).2 (some (unit.getD []))).2
    (some (description.getD []))).trans hbucketsLe
  have hunitLe := (otlpDupStr_le (otlpDupStr h₁ (some (name.getD []))).2 (some (unit.getD []))).trans hdescLe
  have hnameLe := (otlpDupStr_le h₁ (some (name.getD []))).trans hunitLe
  obtain ⟨hm, rfl⟩ := Prod.mk.inj hm
  cases hm
  intro l hl
  rcases Metric.mem_leaves.1 hl with (rfl | rfl | rfl | rfl) | hl | hl | hl | hl | hl
  · exact ⟨(otlpMalloc_fresh hmalloc none).2.trans_le hnameLe.next_le, valid_blockLeaf _⟩
  · exact owns_dupStr (Prod.ext hname rfl) hutf8.1.1 hunitLe
  · exact owns_dupStr (Prod.ext hunit rfl) hutf8.1.2 hdescLe
  · exact owns_dupStr (Prod.ext hdesc rfl) hutf8.2 hbucketsLe
  · exact absurd hl List.not_mem_nil
  · exact ⟨(hbucketsFresh l hl).2, buckets.valid_leaves l hl⟩
  all_goals exact absurd hl List.not_mem_nil

/-- **What a metric owns** was allocated before, and the text in it is valid. -/
theorem MetricBuilt.owns {fp : Fp} {exs : List Exemplar} {m : Metric} (hm : MetricBuilt fp exs h m) :
    Owns h m.leaves := by
  induction hm with
  | create hm => exact otlpMetricCreate_owns hm
  | call hm c ih => exact ih.grows (c.run_grows fp _ _)
  | @clone exs h h' m m' hm hclone ih =>
    have hclones := clones_otlpMetricClone h m
    rw [hclone] at hclones
    -- The blocks of the clone are new; the text in them is valid since it reads as its source does.
    have hvalid : ValidLeaves m'.leaves := by
      rw [Metric.valid_iff, (otlpMetricClone_some hclone).1, ← Metric.valid_iff]
      exact fun l hl => (ih l hl).2
    exact fun l hl => ⟨(hclones.leaf m' rfl l hl).2, hvalid l hl⟩
  | meanwhile hm hle ih => exact ih.grows (.of_le hle _)

end

end OtlpC.Api
