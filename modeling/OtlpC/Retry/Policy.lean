import Mathlib.Algebra.Group.Nat.Defs
import Mathlib.Data.Nat.Basic
import Mathlib.Order.MinMax

/-!
# Retry timing

`retry_policy.c`: the jitter generator and the delay before the next attempt.
-/

namespace OtlpC.Retry

structure OtlpRetryCfg where
  initialMs : ℕ
  maxMs : ℕ
deriving Repr, DecidableEq

/-- One xorshift64s step: the new state and the number drawn. -/
def otlpJitterNext (s : UInt64) : UInt64 × UInt64 :=
  let v := s ^^^ (s <<< 13)
  let v := v ^^^ (v >>> 7)
  let v := v ^^^ (v <<< 17)
  (v, v * 0x2545F4914F6CDD1D)

/-- `min(initial << (attempt - 1), max)` with the shift clamped at 31. -/
def otlpRetryBaseDelayMs (attempt : ℕ) (cfg : OtlpRetryCfg) : ℕ :=
  -- `attempt - 1` wraps for attempt 0
  let shift := if attempt = 0 then 31 else min (attempt - 1) 31
  let exp := cfg.initialMs * 2 ^ shift
  if cfg.maxMs < exp then cfg.maxMs else exp

/-- The new generator state, the delay and whether the server's floor won. -/
def otlpRetryDelayMs (prng : UInt64) (attempt serverFloorMs : ℕ) (cfg : OtlpRetryCfg) :
    UInt64 × ℕ × Bool :=
  let base := otlpRetryBaseDelayMs attempt cfg
  if base = 0 then (prng, 0, false)
  else
    let (prng, next) := otlpJitterNext prng
    let drawn := next.toNat % (base + 1)
    (prng, min (max drawn serverFloorMs) cfg.maxMs, decide (drawn < serverFloorMs))

/-! ### Bounds -/

theorem otlpRetryBaseDelayMs_pos {cfg : OtlpRetryCfg} (hinitial : 0 < cfg.initialMs)
    (hmax : 0 < cfg.maxMs) (attempt : ℕ) : 0 < otlpRetryBaseDelayMs attempt cfg := by
  have hexp (shift : ℕ) : 0 < cfg.initialMs * 2 ^ shift := Nat.mul_pos hinitial (Nat.pow_pos (by decide))
  unfold otlpRetryBaseDelayMs
  dsimp only
  split_ifs
  all_goals first | exact hmax | exact hexp _

theorem otlpRetryBaseDelayMs_eq_min {attempt : ℕ} (hattempt : attempt ≠ 0) (cfg : OtlpRetryCfg) :
    otlpRetryBaseDelayMs attempt cfg = min (cfg.initialMs * 2 ^ min (attempt - 1) 31) cfg.maxMs := by
  unfold otlpRetryBaseDelayMs
  dsimp only
  rw [if_neg hattempt]
  split_ifs with h
  · exact (min_eq_right h.le).symm
  · exact (min_eq_left (Nat.not_lt.1 h)).symm

theorem otlpRetryBaseDelayMs_le {attempt : ℕ} (hattempt : 1 ≤ attempt) (cfg : OtlpRetryCfg) :
    otlpRetryBaseDelayMs attempt cfg ≤ min (cfg.initialMs * 2 ^ (attempt - 1)) cfg.maxMs := by
  rw [otlpRetryBaseDelayMs_eq_min (Nat.one_le_iff_ne_zero.1 hattempt)]
  exact min_le_min_right _ (Nat.mul_le_mul_left _ (Nat.pow_le_pow_right (by decide) (min_le_left _ _)))

/-- Where the shift is clamped a cap below `2 ^ 31` has already been reached. -/
theorem otlpRetryBaseDelayMs_of_lt {attempt : ℕ} (hattempt : 1 ≤ attempt) {cfg : OtlpRetryCfg}
    (hinitial : 0 < cfg.initialMs) (hmax : cfg.maxMs < 2 ^ 31) :
    otlpRetryBaseDelayMs attempt cfg = min (cfg.initialMs * 2 ^ (attempt - 1)) cfg.maxMs := by
  rw [otlpRetryBaseDelayMs_eq_min (Nat.one_le_iff_ne_zero.1 hattempt)]
  rcases Nat.le_total (attempt - 1) 31 with h | h
  · rw [min_eq_left h]
  · have hclamped : cfg.maxMs ≤ cfg.initialMs * 2 ^ 31 :=
      hmax.le.trans (Nat.le_mul_of_pos_left _ hinitial)
    have hunclamped : cfg.maxMs ≤ cfg.initialMs * 2 ^ (attempt - 1) :=
      hclamped.trans (Nat.mul_le_mul_left _ (Nat.pow_le_pow_right (by decide) h))
    rw [min_eq_right h, min_eq_right hclamped, min_eq_right hunclamped]

theorem otlpRetryBaseDelayMs_mono {attempt later : ℕ} (hattempt : 1 ≤ attempt) (hle : attempt ≤ later)
    (cfg : OtlpRetryCfg) : otlpRetryBaseDelayMs attempt cfg ≤ otlpRetryBaseDelayMs later cfg := by
  have hlater : 1 ≤ later := hattempt.trans hle
  rw [otlpRetryBaseDelayMs_eq_min (Nat.one_le_iff_ne_zero.1 hattempt),
    otlpRetryBaseDelayMs_eq_min (Nat.one_le_iff_ne_zero.1 hlater)]
  have hshift : min (attempt - 1) 31 ≤ min (later - 1) 31 := min_le_min_right _ (Nat.sub_le_sub_right hle 1)
  exact min_le_min_right _ (Nat.mul_le_mul_left _ (Nat.pow_le_pow_right (by decide) hshift))

theorem otlpRetryDelayMs_le (prng : UInt64) (attempt serverFloorMs : ℕ) (cfg : OtlpRetryCfg) :
    (otlpRetryDelayMs prng attempt serverFloorMs cfg).2.1 ≤ cfg.maxMs := by
  unfold otlpRetryDelayMs
  dsimp only
  split
  · exact Nat.zero_le _
  · exact min_le_right _ _

theorem le_otlpRetryDelayMs {cfg : OtlpRetryCfg} (hinitial : 0 < cfg.initialMs) (hmax : 0 < cfg.maxMs)
    (prng : UInt64) (attempt serverFloorMs : ℕ) :
    min serverFloorMs cfg.maxMs ≤ (otlpRetryDelayMs prng attempt serverFloorMs cfg).2.1 := by
  have hbase := otlpRetryBaseDelayMs_pos hinitial hmax attempt
  unfold otlpRetryDelayMs
  dsimp only
  rw [if_neg hbase.ne']
  exact min_le_min_right _ (le_max_right _ _)

end OtlpC.Retry
