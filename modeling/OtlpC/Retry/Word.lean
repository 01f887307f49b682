import Mathlib.Tactic.Ring
import OtlpC.Retry.Policy

/-!
# Retry timing in machine words

`retry_policy.c` at the widths it is written in: attempts and delays of 32 bits, the exponential of 64.
`Retry.Policy` has the same functions over the natural numbers; here no step of the arithmetic loses a
bit, so the two agree.
-/

namespace OtlpC.Retry.Word

structure OtlpRetryCfg where
  initialMs : UInt32
  maxMs : UInt32
deriving Repr, DecidableEq

/-- The same settings without a width. -/
def OtlpRetryCfg.exact (cfg : OtlpRetryCfg) : Retry.OtlpRetryCfg :=
  ⟨cfg.initialMs.toNat, cfg.maxMs.toNat⟩

/-- `attempt - 1`, which wraps for attempt 0, clamped at 31. -/
def shiftCount (attempt : UInt32) : UInt32 :=
  let shift := attempt - 1
  if 31 < shift then 31 else shift

/-- `(uint64_t) initial_ms << shift`. -/
def expMs (attempt : UInt32) (cfg : OtlpRetryCfg) : UInt64 :=
  cfg.initialMs.toUInt64 <<< (shiftCount attempt).toUInt64

/-- The exponential under the cap, before it is narrowed. -/
def cappedMs (attempt : UInt32) (cfg : OtlpRetryCfg) : UInt64 :=
  if cfg.maxMs.toUInt64 < expMs attempt cfg then cfg.maxMs.toUInt64 else expMs attempt cfg

def otlpRetryBaseDelayMs (attempt : UInt32) (cfg : OtlpRetryCfg) : UInt32 :=
  (cappedMs attempt cfg).toUInt32

/-- How many delays there are to draw from, `0` and `base` included. -/
def jitterRange (base : UInt32) : UInt64 :=
  base.toUInt64 + 1

/-- What the generator's next number is reduced to, before it is narrowed. -/
def reducedDraw (prng : UInt64) (base : UInt32) : UInt64 :=
  (otlpJitterNext prng).2 % jitterRange base

/-- The new generator state, the delay and whether the server's floor won. -/
def otlpRetryDelayMs (prng : UInt64) (attempt serverFloorMs : UInt32) (cfg : OtlpRetryCfg) :
    UInt64 × UInt32 × Bool :=
  let base := otlpRetryBaseDelayMs attempt cfg
  if base = 0 then (prng, 0, false)
  else
    let drawn : UInt64 := (reducedDraw prng base).toUInt32.toUInt64
    let delay := drawn.toUInt32
    let delay := if delay < serverFloorMs then serverFloorMs else delay
    let delay := if cfg.maxMs < delay then cfg.maxMs else delay
    ((otlpJitterNext prng).1, delay, decide (drawn < serverFloorMs.toUInt64))

/-! ### Each operation is exact -/

theorem toNat_shiftCount {attempt : UInt32} (hattempt : 1 ≤ attempt) :
    (shiftCount attempt).toNat = min (attempt.toNat - 1) 31 := by
  have hone : 1 ≤ attempt.toNat := by simpa using UInt32.le_iff_toNat_le.1 hattempt
  have hsub : (attempt - 1).toNat = attempt.toNat - 1 := by
    rw [UInt32.toNat_sub_of_le _ _ hattempt]
    rfl
  unfold shiftCount
  dsimp only
  split_ifs with h
  · have : 31 < attempt.toNat - 1 := by simpa [hsub] using UInt32.lt_iff_toNat_lt.1 h
    rw [min_eq_right this.le]
    rfl
  · have : ¬ 31 < attempt.toNat - 1 := fun hlt => h (UInt32.lt_iff_toNat_lt.2 (by simpa [hsub] using hlt))
    rw [hsub, min_eq_left (by omega)]

theorem shiftCount_le (attempt : UInt32) : (shiftCount attempt).toNat ≤ 31 := by
  unfold shiftCount
  dsimp only
  split_ifs with h
  · decide
  · have : ¬ 31 < (attempt - 1).toNat := fun hlt => h (UInt32.lt_iff_toNat_lt.2 (by simpa using hlt))
    omega

theorem toNat_expMs (attempt : UInt32) (cfg : OtlpRetryCfg) :
    (expMs attempt cfg).toNat = cfg.initialMs.toNat * 2 ^ (shiftCount attempt).toNat := by
  have hshift := shiftCount_le attempt
  have hfits : cfg.initialMs.toNat * 2 ^ (shiftCount attempt).toNat < 2 ^ 64 :=
    calc cfg.initialMs.toNat * 2 ^ (shiftCount attempt).toNat
        ≤ cfg.initialMs.toNat * 2 ^ 31 :=
          Nat.mul_le_mul_left _ (Nat.pow_le_pow_right (by decide) hshift)
      _ < 2 ^ 32 * 2 ^ 31 := Nat.mul_lt_mul_of_pos_right cfg.initialMs.toNat_lt (by decide)
      _ < 2 ^ 64 := by decide
  unfold expMs
  rw [UInt64.toNat_shiftLeft, UInt32.toNat_toUInt64, UInt32.toNat_toUInt64, Nat.shiftLeft_eq,
    Nat.mod_eq_of_lt (by omega : (shiftCount attempt).toNat < 64), Nat.mod_eq_of_lt hfits]

theorem toNat_cappedMs (attempt : UInt32) (cfg : OtlpRetryCfg) :
    (cappedMs attempt cfg).toNat = min (expMs attempt cfg).toNat cfg.maxMs.toNat := by
  unfold cappedMs
  split_ifs with h
  · rw [UInt64.lt_iff_toNat_lt, UInt32.toNat_toUInt64] at h
    rw [UInt32.toNat_toUInt64, min_eq_right h.le]
  · rw [UInt64.lt_iff_toNat_lt, UInt32.toNat_toUInt64] at h
    rw [min_eq_left (by omega)]

theorem toNat_otlpRetryBaseDelayMs (attempt : UInt32) (cfg : OtlpRetryCfg) :
    (otlpRetryBaseDelayMs attempt cfg).toNat = (cappedMs attempt cfg).toNat := by
  have hmax := cfg.maxMs.toNat_lt
  unfold otlpRetryBaseDelayMs
  rw [UInt64.toNat_toUInt32, Nat.mod_eq_of_lt]
  rw [toNat_cappedMs]
  omega

/-- Why the sum is made in 64 bits: a base of `2 ^ 32 - 1` has `2 ^ 32` delays below it. -/
theorem toNat_jitterRange (base : UInt32) : (jitterRange base).toNat = base.toNat + 1 := by
  have hbase := base.toNat_lt
  unfold jitterRange
  rw [UInt64.toNat_add, UInt32.toNat_toUInt64]
  simp only [UInt64.reduceToNat]
  omega

theorem toNat_reducedDraw (prng : UInt64) (base : UInt32) :
    (reducedDraw prng base).toNat = (otlpJitterNext prng).2.toNat % (base.toNat + 1) := by
  unfold reducedDraw
  rw [UInt64.toNat_mod, toNat_jitterRange]

theorem reducedDraw_le (prng : UInt64) (base : UInt32) : (reducedDraw prng base).toNat ≤ base.toNat := by
  rw [toNat_reducedDraw]
  exact Nat.lt_succ_iff.1 (Nat.mod_lt _ (Nat.succ_pos _))

theorem toNat_narrow_reducedDraw (prng : UInt64) (base : UInt32) :
    (reducedDraw prng base).toUInt32.toNat = (reducedDraw prng base).toNat := by
  have hle := reducedDraw_le prng base
  have hbase := base.toNat_lt
  rw [UInt64.toNat_toUInt32, Nat.mod_eq_of_lt (by omega)]

/-! ### The words agree with the numbers -/

theorem otlpRetryBaseDelayMs_exact {attempt : UInt32} (hattempt : 1 ≤ attempt) (cfg : OtlpRetryCfg) :
    (otlpRetryBaseDelayMs attempt cfg).toNat = Retry.otlpRetryBaseDelayMs attempt.toNat cfg.exact := by
  have hone : 1 ≤ attempt.toNat := by simpa using UInt32.le_iff_toNat_le.1 hattempt
  rw [toNat_otlpRetryBaseDelayMs, toNat_cappedMs, toNat_expMs, toNat_shiftCount hattempt,
    Retry.otlpRetryBaseDelayMs_eq_min (by omega)]
  rfl

theorem otlpRetryDelayMs_of_base {attempt : UInt32} {cfg : OtlpRetryCfg}
    (hbase : otlpRetryBaseDelayMs attempt cfg ≠ 0) (prng : UInt64) (serverFloorMs : UInt32) :
    (otlpRetryDelayMs prng attempt serverFloorMs cfg).2.1.toNat =
      min (max (reducedDraw prng (otlpRetryBaseDelayMs attempt cfg)).toNat serverFloorMs.toNat)
        cfg.maxMs.toNat := by
  have hdrawn := toNat_narrow_reducedDraw prng (otlpRetryBaseDelayMs attempt cfg)
  unfold otlpRetryDelayMs
  dsimp only
  rw [if_neg hbase]
  simp only [UInt32.toUInt32_toUInt64, UInt32.lt_iff_toNat_lt, apply_ite UInt32.toNat, hdrawn]
  split_ifs <;> omega

theorem otlpRetryBaseDelayMs_ne_zero {attempt : UInt32} (hattempt : 1 ≤ attempt) {cfg : OtlpRetryCfg}
    (hinitial : 0 < cfg.initialMs) (hmax : 0 < cfg.maxMs) : otlpRetryBaseDelayMs attempt cfg ≠ 0 := by
  intro hzero
  have hpos := @otlpRetryBaseDelayMs_pos cfg.exact (UInt32.lt_iff_toNat_lt.1 hinitial)
    (UInt32.lt_iff_toNat_lt.1 hmax) attempt.toNat
  rw [← otlpRetryBaseDelayMs_exact hattempt, hzero] at hpos
  exact absurd hpos (by decide)

theorem otlpRetryDelayMs_exact {attempt : UInt32} (hattempt : 1 ≤ attempt) {cfg : OtlpRetryCfg}
    (hinitial : 0 < cfg.initialMs) (hmax : 0 < cfg.maxMs) (prng : UInt64) (serverFloorMs : UInt32) :
    Retry.otlpRetryDelayMs prng attempt.toNat serverFloorMs.toNat cfg.exact =
      let out := otlpRetryDelayMs prng attempt serverFloorMs cfg
      (out.1, out.2.1.toNat, out.2.2) := by
  have hbase := otlpRetryBaseDelayMs_ne_zero hattempt hinitial hmax
  have hdelay := otlpRetryDelayMs_of_base hbase prng serverFloorMs
  have hnonzero : Retry.otlpRetryBaseDelayMs attempt.toNat cfg.exact ≠ 0 := by
    rw [← otlpRetryBaseDelayMs_exact hattempt]
    exact fun h => hbase (UInt32.toNat_inj.1 h)
  dsimp only
  rw [hdelay, toNat_reducedDraw, otlpRetryBaseDelayMs_exact hattempt]
  unfold Retry.otlpRetryDelayMs otlpRetryDelayMs
  dsimp only
  rw [if_neg hnonzero, if_neg hbase]
  simp only [UInt64.lt_iff_toNat_lt, UInt32.toNat_toUInt64, toNat_narrow_reducedDraw, toNat_reducedDraw,
    otlpRetryBaseDelayMs_exact hattempt]
  rfl

/-! ### Bounds -/

/-- What every operation of the two functions gives is the number it stands for. -/
structure Exact (prng : UInt64) (attempt : UInt32) (cfg : OtlpRetryCfg) : Prop where
  shift : (attempt - 1).toNat = attempt.toNat - 1
  exp : (expMs attempt cfg).toNat = cfg.initialMs.toNat * 2 ^ min (attempt.toNat - 1) 31
  base : (otlpRetryBaseDelayMs attempt cfg).toNat = (cappedMs attempt cfg).toNat
  range : (jitterRange (otlpRetryBaseDelayMs attempt cfg)).toNat =
    (otlpRetryBaseDelayMs attempt cfg).toNat + 1
  drawn : (reducedDraw prng (otlpRetryBaseDelayMs attempt cfg)).toUInt32.toNat =
    (reducedDraw prng (otlpRetryBaseDelayMs attempt cfg)).toNat

theorem exact_of_one_le {attempt : UInt32} (hattempt : 1 ≤ attempt) (prng : UInt64) (cfg : OtlpRetryCfg) :
    Exact prng attempt cfg where
  shift := by
    rw [UInt32.toNat_sub_of_le _ _ hattempt]
    rfl
  exp := by rw [toNat_expMs, toNat_shiftCount hattempt]
  base := toNat_otlpRetryBaseDelayMs attempt cfg
  range := toNat_jitterRange _
  drawn := toNat_narrow_reducedDraw prng _

/-- The base and the delay stay in their bounds for all words, and no operation on the way loses a bit: the words
that come out are what the same function gives over the natural numbers. -/
theorem retry_delay_bounds (prng : UInt64) {attempt : UInt32} (serverFloorMs : UInt32) {cfg : OtlpRetryCfg}
    (hattempt : 1 ≤ attempt) (hinitial : 0 < cfg.initialMs) (hmax : 0 < cfg.maxMs) :
    let base := (otlpRetryBaseDelayMs attempt cfg).toNat
    let bound := min (cfg.initialMs.toNat * 2 ^ (attempt.toNat - 1)) cfg.maxMs.toNat
    let delay := (otlpRetryDelayMs prng attempt serverFloorMs cfg).2.1.toNat
    (1 ≤ base ∧ base ≤ bound) ∧
      (cfg.maxMs.toNat < 2 ^ 31 → base = bound) ∧
      (∀ later : UInt32, attempt ≤ later → base ≤ (otlpRetryBaseDelayMs later cfg).toNat) ∧
      (min serverFloorMs.toNat cfg.maxMs.toNat ≤ delay ∧ delay ≤ cfg.maxMs.toNat ∧
        delay ≤ max base serverFloorMs.toNat) ∧
      Exact prng attempt cfg ∧
      Retry.otlpRetryDelayMs prng attempt.toNat serverFloorMs.toNat cfg.exact =
        ((otlpRetryDelayMs prng attempt serverFloorMs cfg).1, delay,
          (otlpRetryDelayMs prng attempt serverFloorMs cfg).2.2) := by
  dsimp only
  have hone : 1 ≤ attempt.toNat := by simpa using UInt32.le_iff_toNat_le.1 hattempt
  have hinitial' : 0 < cfg.exact.initialMs := UInt32.lt_iff_toNat_lt.1 hinitial
  have hmax' : 0 < cfg.exact.maxMs := UInt32.lt_iff_toNat_lt.1 hmax
  have hbase := otlpRetryBaseDelayMs_exact hattempt cfg
  have hdelay := otlpRetryDelayMs_of_base (otlpRetryBaseDelayMs_ne_zero hattempt hinitial hmax) prng
    serverFloorMs
  have hdrawn := reducedDraw_le prng (otlpRetryBaseDelayMs attempt cfg)
  refine ⟨⟨?_, ?_⟩, ?_, ?_, ⟨?_, ?_, ?_⟩, exact_of_one_le hattempt prng cfg,
    otlpRetryDelayMs_exact hattempt hinitial hmax prng serverFloorMs⟩
  · rw [hbase]
    exact otlpRetryBaseDelayMs_pos hinitial' hmax' _
  · rw [hbase]
    exact otlpRetryBaseDelayMs_le hone cfg.exact
  · intro hcap
    rw [hbase]
    exact otlpRetryBaseDelayMs_of_lt hone hinitial' hcap
  · intro later hlater
    rw [hbase, otlpRetryBaseDelayMs_exact (UInt32.le_trans hattempt hlater)]
    exact otlpRetryBaseDelayMs_mono hone (UInt32.le_iff_toNat_le.1 hlater) cfg.exact
  · rw [hdelay]
    exact min_le_min_right _ (le_max_right _ _)
  · rw [hdelay]
    exact min_le_right _ _
  · rw [hdelay]
    exact (min_le_left _ _).trans (max_le_max_right _ hdrawn)

/-- The largest settings: the exponential needs 63 bits and the jitter range 33. -/
theorem retry_delay_bounds_largest :
    (1 ≤ (otlpRetryBaseDelayMs 40 ⟨4294967295, 4294967295⟩).toNat) ∧
      (otlpRetryDelayMs 1 40 5 ⟨4294967295, 4294967295⟩).2.1.toNat ≤ 4294967295 := by
  have h := @retry_delay_bounds 1 40 5 ⟨4294967295, 4294967295⟩ (by decide) (by decide) (by decide)
  exact ⟨h.1.1, h.2.2.2.1.2.1⟩

end OtlpC.Retry.Word
