import OtlpC.Proto.MetricMessages
import OtlpC.Proto.Metrics

/-!
# What a collector reads of a metric

The message that the metrics encoder stands for, and that the decoder returns it.
-/

namespace OtlpC.Proto

open Api Proto3 Otlp

/-! ### The messages -/

def numberMsg : NumberValue → Number
  | .double v => .double v
  | .int v => .int v

def exemplarMsg (ex : ExemplarView) : Otlp.Exemplar where
  filteredAttributes := []
  timeUnixNano := ex.time.getD 0
  value := some (numberMsg ex.value)
  spanId := idBytes ex.spanId
  traceId := idBytes ex.traceId

def numberDataPointMsg (m : MetricView) : NumberDataPoint where
  attributes := m.attrs
  startTimeUnixNano := m.startTime.getD 0
  timeUnixNano := m.time.getD 0
  value := some (.double m.value)
  exemplars := m.exemplars.map exemplarMsg
  flags := 0

def histogramDataPointMsg (m : MetricView) : HistogramDataPoint where
  attributes := m.attrs
  startTimeUnixNano := m.startTime.getD 0
  timeUnixNano := m.time.getD 0
  count := m.count
  sum := some m.sum
  bucketCounts := (m.buckets.map Prod.snd).getD []
  explicitBounds := (m.buckets.map Prod.fst).getD []
  exemplars := m.exemplars.map exemplarMsg
  flags := 0
  min := m.minmax.map Prod.fst
  max := m.minmax.map Prod.snd

def expBucketsMsg : Option (Int32 × List UInt64) → ExpBuckets
  | none => ⟨0, []⟩
  | some (offset, counts) => if counts = [] then ⟨0, []⟩ else ⟨offset.toInt, counts⟩

def expHistogramDataPointMsg (m : MetricView) : ExponentialHistogramDataPoint where
  attributes := m.attrs
  startTimeUnixNano := m.startTime.getD 0
  timeUnixNano := m.time.getD 0
  count := m.count
  sum := some m.sum
  scale := (m.expScale.getD 0).toInt
  zeroCount := m.expZeroCount
  positive := expBucketsMsg m.expPos
  negative := expBucketsMsg m.expNeg
  flags := 0
  exemplars := []
  min := none
  max := none
  zeroThreshold := 0

def dataMsg (m : MetricView) : MetricData :=
  match m.type with
  | .counter => .sum [numberDataPointMsg m] m.aggTemp.toUInt64 m.isMonotonic
  | .gauge => .gauge [numberDataPointMsg m]
  | .histogram => .histogram [histogramDataPointMsg m] m.aggTemp.toUInt64
  | .expHistogram => .exponentialHistogram [expHistogramDataPointMsg m] m.aggTemp.toUInt64

def metricMsg (m : MetricView) : Otlp.Metric where
  name := m.name
  description := m.description
  unit := m.unit
  data := dataMsg m
  metadata := []

/-! ### Signed numbers -/

theorem getLsbD_sign (x : BitVec 32) {i : ℕ} (hi : i < 32) : (x.sshiftRight 31).getLsbD i = x.msb := by
  rw [BitVec.getLsbD_sshiftRight, decide_eq_false (by omega), Bool.not_false, Bool.true_and]
  split
  · obtain rfl : i = 0 := by omega
    exact (BitVec.msb_eq_getLsbD_last x).symm
  · rfl

theorem unzigzag_zigzag32 (v : Int32) : unzigzag (zigzag32 v).toNat = v.toInt := by
  change unzigzag ((v.toBitVec <<< 1) ^^^ (v.toBitVec.sshiftRight 31)).toNat = v.toBitVec.toInt
  generalize v.toBitVec = x
  cases hmsb : x.msb with
  | false =>
    have hsign : x.sshiftRight 31 = 0#32 := by
      apply BitVec.eq_of_getLsbD_eq
      intro i hi
      rw [getLsbD_sign x hi, hmsb, BitVec.getLsbD_zero]
    have hlt := BitVec.msb_eq_false_iff_two_mul_lt.1 hmsb
    rw [hsign, BitVec.xor_zero, BitVec.toNat_shiftLeft, BitVec.toInt_eq_toNat_of_msb hmsb, Nat.shiftLeft_eq, unzigzag]
    split <;> omega
  | true =>
    have hsign : x.sshiftRight 31 = BitVec.allOnes 32 := by
      apply BitVec.eq_of_getLsbD_eq
      intro i hi
      rw [getLsbD_sign x hi, hmsb, BitVec.getLsbD_allOnes, decide_eq_true hi]
    have hle := BitVec.msb_eq_true_iff_two_mul_ge.1 hmsb
    have hlt := x.isLt
    rw [hsign, BitVec.xor_allOnes, BitVec.toNat_not, BitVec.toNat_shiftLeft, BitVec.toInt_eq_toNat_cond,
      Nat.shiftLeft_eq, unzigzag]
    split <;> omega

/-! ### Reading -/

theorem decodeExemplar_wire {ex : ExemplarView} (hlen : (message (exemplarWire ex)).length < 2 ^ 64) :
    decodeExemplar (message (exemplarWire ex)) = some (exemplarMsg ex) := by
  have hnumbered : WellNumbered (exemplarWire ex) := by
    cases hvalue : ex.value <;> simp [exemplarWire, numberWire, hvalue]
  have hattrs : decodeKeyValues 7 (exemplarWire ex) = some [] :=
    decodeKeyValues_eq (by cases hvalue : ex.value <;> simp [exemplarWire, numberWire, hvalue]) hlen
  rw [decodeExemplar, fields_message hnumbered hlen, Option.bind_eq_bind, Option.bind_some, hattrs]
  cases hvalue : ex.value <;>
    simp [exemplarWire, numberWire, exemplarMsg, numberMsg, hvalue, idBytes]

theorem decodeExemplars_eq {n : ℕ} {fs : List Field} {exs : List ExemplarView}
    (hlens : lens n fs = exs.map fun ex => message (exemplarWire ex)) (hlen : (message fs).length < 2 ^ 64) :
    (lens n fs).mapM decodeExemplar = some (exs.map exemplarMsg) := by
  rw [hlens]
  refine mapM_map_some fun ex hex => decodeExemplar_wire ((length_lt_of_mem_lens (n := n) ?_).trans hlen)
  rw [hlens]
  exact List.mem_map_of_mem (f := fun ex => message (exemplarWire ex)) hex

theorem decodeNumberDataPoint_wire {m : MetricView} (hlen : (message (numberDataPointWire m)).length < 2 ^ 64) :
    decodeNumberDataPoint (message (numberDataPointWire m)) = some (numberDataPointMsg m) := by
  have hnumbered : WellNumbered (numberDataPointWire m) := by simp [numberDataPointWire, keyValues, exemplarsWire]
  have hattrs : decodeKeyValues 7 (numberDataPointWire m) = some m.attrs :=
    decodeKeyValues_eq (by simp [numberDataPointWire, keyValues, exemplarsWire]) hlen
  have hexs : (lens 5 (numberDataPointWire m)).mapM decodeExemplar = some (m.exemplars.map exemplarMsg) :=
    decodeExemplars_eq (by simp [numberDataPointWire, keyValues, exemplarsWire]) hlen
  rw [decodeNumberDataPoint, fields_message hnumbered hlen]
  simp only [Option.bind_eq_bind, Option.bind_some, hattrs, hexs]
  simp [numberDataPointWire, numberDataPointMsg, keyValues, exemplarsWire]

/-! Histograms -/

theorem getLast?_toList {α : Type} (a : Option α) : a.toList.getLast? = a := by
  cases a <;> rfl

theorem packedI64s_packLe (n : ℕ) (vs : List UInt64) : packedI64s n (omitEmpty n (packLe vs)) = some vs :=
  packed_omitEmpty (fun v => List.ne_nil_of_length_pos (by rw [length_putLe]; decide)) takeLe_putLe vs

section Buckets

variable (bs : Option (List Double × List UInt64))

theorem lens_bucketsWire {n : ℕ} (h₆ : n ≠ 6) (h₇ : n ≠ 7) : lens n (bucketsWire bs) = [] := by
  rcases bs with - | ⟨bounds, counts⟩ <;> simp [bucketsWire, h₆.symm, h₇.symm]

@[simp] theorem varints_bucketsWire (n : ℕ) : varints n (bucketsWire bs) = [] := by
  rcases bs with - | ⟨bounds, counts⟩ <;> simp [bucketsWire]

@[simp] theorem i64s_bucketsWire (n : ℕ) : i64s n (bucketsWire bs) = [] := by
  rcases bs with - | ⟨bounds, counts⟩ <;> simp [bucketsWire]

@[simp] theorem wellNumbered_bucketsWire : WellNumbered (bucketsWire bs) := by
  rcases bs with - | ⟨bounds, counts⟩ <;> simp [bucketsWire]

theorem packedI64s_bucketsWire_counts : packedI64s 6 (bucketsWire bs) = some ((bs.map Prod.snd).getD []) := by
  rcases bs with - | ⟨bounds, counts⟩
  · rfl
  · have hbounds : packedI64s 6 (omitEmpty 7 (packLe bounds)) = some [] := packed_of_ne (by simp)
    simp [bucketsWire, packedI64s_packLe, hbounds]

theorem packedI64s_bucketsWire_bounds : packedI64s 7 (bucketsWire bs) = some ((bs.map Prod.fst).getD []) := by
  rcases bs with - | ⟨bounds, counts⟩
  · rfl
  · have hcounts : packedI64s 7 (omitEmpty 6 (packLe counts)) = some [] := packed_of_ne (by simp)
    simp [bucketsWire, packedI64s_packLe, hcounts]

end Buckets

section Minmax

variable (mm : Option (Double × Double))

@[simp] theorem lens_minmaxWire (n : ℕ) : lens n (minmaxWire mm) = [] := by
  rcases mm with - | ⟨min, max⟩ <;> simp [minmaxWire]

@[simp] theorem varints_minmaxWire (n : ℕ) : varints n (minmaxWire mm) = [] := by
  rcases mm with - | ⟨min, max⟩ <;> simp [minmaxWire]

@[simp] theorem wellNumbered_minmaxWire : WellNumbered (minmaxWire mm) := by
  rcases mm with - | ⟨min, max⟩ <;> simp [minmaxWire]

@[simp] theorem i64s_minmaxWire (n : ℕ) : i64s n (minmaxWire mm) =
    (if n = 11 then (mm.map Prod.fst).toList else []) ++ (if n = 12 then (mm.map Prod.snd).toList else []) := by
  rcases mm with - | ⟨min, max⟩
  · simp [minmaxWire]
  · rw [minmaxWire, i64s_cons_i64, i64s_cons_i64, i64s_nil]
    by_cases h₁₁ : n = 11
    · simp [h₁₁]
    · by_cases h₁₂ : n = 12
      · simp [h₁₂]
      · simp [h₁₁, h₁₂, Ne.symm h₁₁, Ne.symm h₁₂]

@[simp] theorem avoids_minmaxWire {n : ℕ} (h₁₁ : n ≠ 11) (h₁₂ : n ≠ 12) : Avoids n (minmaxWire mm) := by
  rcases mm with - | ⟨min, max⟩ <;> simp [minmaxWire, Field.number, h₁₁.symm, h₁₂.symm]

end Minmax

theorem decodeHistogramDataPoint_wire {m : MetricView} (hlen : (message (histogramDataPointWire m)).length < 2 ^ 64) :
    decodeHistogramDataPoint (message (histogramDataPointWire m)) = some (histogramDataPointMsg m) := by
  have hnumbered : WellNumbered (histogramDataPointWire m) := by simp [histogramDataPointWire, keyValues, exemplarsWire]
  have hattrs : decodeKeyValues 9 (histogramDataPointWire m) = some m.attrs :=
    decodeKeyValues_eq (by simp [histogramDataPointWire, keyValues, exemplarsWire, lens_bucketsWire]) hlen
  have hexs : (lens 8 (histogramDataPointWire m)).mapM decodeExemplar = some (m.exemplars.map exemplarMsg) :=
    decodeExemplars_eq (by simp [histogramDataPointWire, keyValues, exemplarsWire, lens_bucketsWire]) hlen
  have hcounts : packedI64s 6 (histogramDataPointWire m) = some ((m.buckets.map Prod.snd).getD []) := by
    simp [histogramDataPointWire, keyValues, exemplarsWire, packedI64s_bucketsWire_counts, packed_of_ne,
      packed_cons_i64]
  have hbounds : packedI64s 7 (histogramDataPointWire m) = some ((m.buckets.map Prod.fst).getD []) := by
    simp [histogramDataPointWire, keyValues, exemplarsWire, packedI64s_bucketsWire_bounds, packed_of_ne,
      packed_cons_i64]
  rw [decodeHistogramDataPoint, fields_message hnumbered hlen]
  simp only [Option.bind_eq_bind, Option.bind_some, hattrs, hexs, hcounts, hbounds]
  simp [histogramDataPointWire, histogramDataPointMsg, keyValues, exemplarsWire, getLast?_toList]

/-! Exponential histograms -/

theorem packedVarints_packVarints (n : ℕ) (vs : List UInt64) :
    packedVarints n (omitEmpty n (packVarints vs)) = some vs :=
  packed_omitEmpty (fun v => varint_ne_nil v.toNat) takeU64_varint vs

theorem sint32_of_varints {n : ℕ} {fs : List Field} {v : Int32}
    (hvarints : lastD (varints n fs) 0 = (zigzag32 v).toUInt64) : sint32 n fs = v.toInt := by
  have hlt := (zigzag32 v).toNat_lt
  rw [sint32, hvarints, UInt32.toNat_toUInt64, Nat.mod_eq_of_lt hlt, unzigzag_zigzag32]

theorem decodeExpBuckets_wire {side : Int32 × List UInt64} (hlen : (message (expBucketsWire side)).length < 2 ^ 64) :
    decodeExpBuckets (message (expBucketsWire side)) = some ⟨side.1.toInt, side.2⟩ := by
  have hnumbered : WellNumbered (expBucketsWire side) := by simp [expBucketsWire]
  have hcounts : packedVarints 2 (expBucketsWire side) = some side.2 := by
    have hoffset : packedVarints 2 (omitZero 1 (zigzag32 side.1).toUInt64) = some [] := packed_of_ne (by simp)
    simp [expBucketsWire, hoffset, packedVarints_packVarints]
  have hoffset : sint32 1 (expBucketsWire side) = side.1.toInt := sint32_of_varints (by simp [expBucketsWire])
  rw [decodeExpBuckets, fields_message hnumbered hlen]
  simp only [Option.bind_eq_bind, Option.bind_some, hcounts, hoffset]

section ExpSide

variable (m : ℕ) (side : Option (Int32 × List UInt64))

theorem lens_expSideWire {n : ℕ} (hne : n ≠ m) : lens n (expSideWire m side) = [] := by
  rcases side with - | side
  · rfl
  · rw [expSideWire]
    split
    · rfl
    · simp [hne.symm]

@[simp] theorem varints_expSideWire (n : ℕ) : varints n (expSideWire m side) = [] := by
  rcases side with - | side
  · rfl
  · rw [expSideWire]
    split <;> simp

@[simp] theorem i64s_expSideWire (n : ℕ) : i64s n (expSideWire m side) = [] := by
  rcases side with - | side
  · rfl
  · rw [expSideWire]
    split <;> simp

@[simp] theorem wellNumbered_expSideWire (hpos : 0 < m) (hlt : m < 2 ^ 29) : WellNumbered (expSideWire m side) := by
  rcases side with - | side
  · exact wellNumbered_nil
  · rw [expSideWire]
    split
    · exact wellNumbered_nil
    · exact wellNumbered_omitEmpty hpos hlt _

end ExpSide

/-- One side of the data point: the counts of the last call that set it, or none. -/
theorem decodeExpSide_eq {n : ℕ} {side : Option (Int32 × List UInt64)} {fs : List Field}
    (hlens : lens n fs = lens n (expSideWire n side)) (hlen : (message fs).length < 2 ^ 64) :
    decodeExpBuckets (subMessage n fs) = some (expBucketsMsg side) := by
  rcases side with - | ⟨offset, counts⟩
  · rw [subMessage, hlens]
    rfl
  · rw [expSideWire] at hlens
    by_cases hcounts : counts = []
    · rw [subMessage, hlens, expBucketsMsg, if_pos hcounts, if_pos hcounts]
      rfl
    · rw [if_neg hcounts, lens_omitEmpty] at hlens
      have hsub : (message (expBucketsWire (offset, counts))).length < 2 ^ 64 :=
        length_subMessage_omitEmpty (n := n) (by simpa using hlens) hlen
      have hflat : subMessage n fs = message (expBucketsWire (offset, counts)) := by
        rw [subMessage, hlens]
        simp
      rw [hflat, expBucketsMsg, if_neg hcounts]
      exact decodeExpBuckets_wire hsub

theorem decodeExponentialHistogramDataPoint_wire {m : MetricView}
    (hlen : (message (expHistogramDataPointWire m)).length < 2 ^ 64) :
    decodeExponentialHistogramDataPoint (message (expHistogramDataPointWire m)) =
      some (expHistogramDataPointMsg m) := by
  have hnumbered : WellNumbered (expHistogramDataPointWire m) := by simp [expHistogramDataPointWire, keyValues]
  have hattrs : decodeKeyValues 1 (expHistogramDataPointWire m) = some m.attrs :=
    decodeKeyValues_eq (by simp [expHistogramDataPointWire, keyValues, lens_expSideWire]) hlen
  have hexs : lens 11 (expHistogramDataPointWire m) = [] := by
    simp [expHistogramDataPointWire, keyValues, lens_expSideWire]
  have hpos : decodeExpBuckets (subMessage 8 (expHistogramDataPointWire m)) = some (expBucketsMsg m.expPos) :=
    decodeExpSide_eq (by simp [expHistogramDataPointWire, keyValues, lens_expSideWire]) hlen
  have hneg : decodeExpBuckets (subMessage 9 (expHistogramDataPointWire m)) = some (expBucketsMsg m.expNeg) :=
    decodeExpSide_eq (by simp [expHistogramDataPointWire, keyValues, lens_expSideWire]) hlen
  have hscale : sint32 6 (expHistogramDataPointWire m) = (m.expScale.getD 0).toInt :=
    sint32_of_varints (by simp [expHistogramDataPointWire, keyValues])
  rw [decodeExponentialHistogramDataPoint, fields_message hnumbered hlen]
  simp only [Option.bind_eq_bind, Option.bind_some, hattrs, hpos, hneg, hexs, hscale, List.mapM_nil]
  simp [expHistogramDataPointWire, expHistogramDataPointMsg, keyValues]

/-! Metrics -/

theorem dataPointWire_ne_nil (m : MetricView) : message (dataPointWire m) ≠ [] := by
  rw [Ne, message_eq_nil, dataPointWire]
  cases m.type with
  | counter | gauge => simp [numberDataPointWire]
  | histogram => simp [histogramDataPointWire]
  | expHistogram => simp [expHistogramDataPointWire]

/-- The fields of the case of `oneof data`. -/
def dataWire (m : MetricView) : List Field := omitEmpty 1 (message (dataPointWire m)) ++ extraWire m

theorem lens_dataWire (m : MetricView) : lens 1 (dataWire m) = [message (dataPointWire m)] := by
  have hextra : lens 1 (extraWire m) = [] := by
    rw [extraWire]
    cases m.type <;> simp
  simp [dataWire, hextra, dataPointWire_ne_nil m]

theorem wellNumbered_dataWire (m : MetricView) : WellNumbered (dataWire m) := by
  have hextra : WellNumbered (extraWire m) := by
    rw [extraWire]
    cases m.type <;> simp
  simp [dataWire, hextra]

theorem decodeMetricData_wire {m : MetricView} (hlen : (message (dataWire m)).length < 2 ^ 64) :
    decodeMetricData (metricKindSpecs m.type).1.toNat (dataWire m) = some (dataMsg m) := by
  have hlens := lens_dataWire m
  have hpoint : (message (dataPointWire m)).length < 2 ^ 64 :=
    (length_lt_of_mem_lens (n := 1) (by rw [hlens]; exact List.mem_singleton_self _)).trans hlen
  rw [dataPointWire] at hlens hpoint
  cases htype : m.type with
  | counter =>
    simp only [htype] at hlens hpoint
    have hdecode := decodeNumberDataPoint_wire hpoint
    have htemp : lastD (varints 2 (dataWire m)) 0 = m.aggTemp.toUInt64 := by simp [dataWire, extraWire, htype]
    have hmono : (lastD (varints 3 (dataWire m)) 0 != 0) = m.isMonotonic := by
      cases hm : m.isMonotonic <;> simp [dataWire, extraWire, htype, hm]
    change ((lens 1 (dataWire m)).mapM decodeNumberDataPoint).bind _ = _
    simp [hlens, hdecode, htemp, hmono, dataMsg, htype]
  | gauge =>
    simp only [htype] at hlens hpoint
    have hdecode := decodeNumberDataPoint_wire hpoint
    change ((lens 1 (dataWire m)).mapM decodeNumberDataPoint).bind _ = _
    simp [hlens, hdecode, dataMsg, htype]
  | histogram =>
    simp only [htype] at hlens hpoint
    have hdecode := decodeHistogramDataPoint_wire hpoint
    have htemp : lastD (varints 2 (dataWire m)) 0 = m.aggTemp.toUInt64 := by simp [dataWire, extraWire, htype]
    change ((lens 1 (dataWire m)).mapM decodeHistogramDataPoint).bind _ = _
    simp [hlens, hdecode, htemp, dataMsg, htype]
  | expHistogram =>
    simp only [htype] at hlens hpoint
    have hdecode := decodeExponentialHistogramDataPoint_wire hpoint
    have htemp : lastD (varints 2 (dataWire m)) 0 = m.aggTemp.toUInt64 := by simp [dataWire, extraWire, htype]
    change ((lens 1 (dataWire m)).mapM decodeExponentialHistogramDataPoint).bind _ = _
    simp [hlens, hdecode, htemp, dataMsg, htype]

/-- **A metric reads back** as the message it stands for. -/
theorem decodeMetric_wire {m : MetricView} (hlen : (message (metricWire m)).length < 2 ^ 64) :
    decodeMetric (message (metricWire m)) = some (metricMsg m) := by
  have hnumber : (metricKindSpecs m.type).1.toNat ∈ [5, 7, 9, 10, 11] := by cases m.type <;> decide
  have hvalid : 0 < (metricKindSpecs m.type).1.toNat ∧ (metricKindSpecs m.type).1.toNat < 2 ^ 29 := by
    cases m.type <;> decide
  have hne : ∀ n ∈ [1, 2, 3, 12], (metricKindSpecs m.type).1.toNat ≠ n := by cases m.type <;> decide
  have hdata : message (dataWire m) ≠ [] := by
    rw [Ne, message_eq_nil, dataWire, omitEmpty_of_ne (dataPointWire_ne_nil m)]
    exact List.cons_ne_nil _ _
  have hwire : metricWire m = .len 1 m.name :: omitEmpty 2 m.description ++ omitEmpty 3 m.unit ++
      [.len (metricKindSpecs m.type).1.toNat (message (dataWire m))] := by
    rw [← omitEmpty_of_ne hdata]
    rfl
  have hbody : (message (dataWire m)).length < 2 ^ 64 :=
    (length_payload_lt (n := (metricKindSpecs m.type).1.toNat) (by rw [hwire]; simp)).trans hlen
  have hfields := fields_message (wellNumbered_dataWire m) hbody
  have hread := decodeMetricData_wire hbody
  generalize (metricKindSpecs m.type).1.toNat = k at hnumber hvalid hne hwire hread
  have hnumbered : WellNumbered (metricWire m) := by
    rw [hwire, wellNumbered_append, wellNumbered_append, wellNumbered_cons, wellNumbered_cons]
    exact ⟨⟨⟨by simp, by simp⟩, by simp⟩, hvalid, wellNumbered_nil⟩
  have hmeta : decodeKeyValues 12 (metricWire m) = some [] :=
    decodeKeyValues_eq (by simp [hwire, hne 12 (by decide)]) hlen
  have hcases : dataFields (metricWire m) = [(k, message (dataWire m))] := by
    rw [hwire, List.cons_append, List.cons_append, dataFields_cons_len, dataFields_append, dataFields_append,
      dataFields_omitEmpty (by decide), dataFields_omitEmpty (by decide), dataFields_cons_len, if_pos hnumber]
    rfl
  rw [decodeMetric, fields_message hnumbered hlen]
  simp only [Option.bind_eq_bind, Option.bind_some, hmeta, hcases, List.getLast?_singleton, hfields, hread]
  simp [hwire, metricMsg, hne 1 (by decide), hne 2 (by decide), hne 3 (by decide)]

theorem metricWire_ne_nil (m : MetricView) : message (metricWire m) ≠ [] := by
  rw [Ne, message_eq_nil]
  exact List.cons_ne_nil _ _

/-- **A metrics request reads back** as the messages of its metrics, in order. -/
theorem decodeMetricsRequest {serviceName schemaUrl scopeName scopeVersion : Option Bytes} {attrs : List KeyValue}
    {metrics : List MetricView} {h h' : Heap} {b b' : PbBuf} (hb : b.bytes = [])
    (hok : otlpEncodeExportMetricsServiceRequest serviceName schemaUrl attrs scopeName scopeVersion metrics h b =
      (.ok, b', h')) :
    ∃ req, decodeExportRequest decodeMetric b'.bytes = some req ∧ req.items = metrics.map metricMsg :=
  decodeExportRequest_of_emits (emits_metricsRequest _ _ _ _ _ _) metricWire_ne_nil
    (fun _ hlen => decodeMetric_wire hlen) hb hok

end OtlpC.Proto
