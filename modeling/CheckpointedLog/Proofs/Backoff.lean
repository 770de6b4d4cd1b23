import CheckpointedLog.Backoff
import Mathlib.Algebra.Group.Nat.Defs

namespace CheckpointedLog

namespace BackoffGrowth

/-- What the initial waiting time is multiplied by, in exact numbers up to the greatest one of 32 bits. -/
def exactFactor (attempt : Nat) : BackoffGrowth → Nat
  | constant => 1
  | linear => min (attempt + 1) (2 ^ 32 - 1)
  | exponential => min (2 ^ attempt) (2 ^ 32 - 1)

theorem toNat_successor (n : UInt32) : (successor n).toNat = min (n.toNat + 1) (2 ^ 32 - 1) := by
  have hlt : n.toNat < 2 ^ 32 := n.toNat_lt
  unfold successor
  split
  next hfits =>
    change n.toNat + 1 < 2 ^ 32 at hfits
    have hsum : (n + 1).toNat = n.toNat + 1 := by
      rw [UInt32.toNat_add]
      exact Nat.mod_eq_of_lt hfits
    omega
  next hlast =>
    change ¬ n.toNat + 1 < 2 ^ 32 at hlast
    omega

theorem toNat_powerOfTwo (n : UInt32) : (powerOfTwo n).toNat = min (2 ^ n.toNat) (2 ^ 32 - 1) := by
  unfold powerOfTwo
  split
  next hsmall =>
    have hlt : n.toNat < 32 := hsmall
    have hpower : 2 ^ n.toNat < 2 ^ 32 := Nat.pow_lt_pow_right (by decide) hlt
    have hshift : (1 <<< n : UInt32).toNat = 2 ^ n.toNat := by
      rw [UInt32.toNat_shiftLeft, Nat.mod_eq_of_lt hlt]
      change (1 <<< n.toNat) % 2 ^ 32 = _
      rw [Nat.one_shiftLeft, Nat.mod_eq_of_lt hpower]
    omega
  next hlarge =>
    have hle : 32 ≤ n.toNat := Nat.not_lt.mp hlarge
    have hpower : 2 ^ 32 ≤ 2 ^ n.toNat := Nat.pow_le_pow_right (by decide) hle
    change 2 ^ 32 - 1 = _
    omega

theorem toNat_factor (g : BackoffGrowth) (attempt : UInt32) :
    (g.factor attempt).toNat = g.exactFactor attempt.toNat := by
  cases g with
  | constant => rfl
  | linear => exact toNat_successor attempt
  | exponential => exact toNat_powerOfTwo attempt

theorem exactFactor_pos (g : BackoffGrowth) (attempt : Nat) : 1 ≤ g.exactFactor attempt := by
  cases g with
  | constant => exact Nat.le_refl 1
  | linear =>
    simp only [exactFactor]
    omega
  | exponential =>
    have hpower : 1 ≤ 2 ^ attempt := Nat.one_le_two_pow
    simp only [exactFactor]
    omega

theorem exactFactor_mono (g : BackoffGrowth) {earlier later : Nat} (h : earlier ≤ later) :
    g.exactFactor earlier ≤ g.exactFactor later := by
  cases g with
  | constant => exact Nat.le_refl 1
  | linear =>
    simp only [exactFactor]
    omega
  | exponential =>
    have hpower : 2 ^ earlier ≤ 2 ^ later := Nat.pow_le_pow_right (by decide) h
    simp only [exactFactor]
    omega

end BackoffGrowth

namespace Interval

/-- No interval of whole milliseconds is as long as the longest one. -/
theorem ofMillis_le_longest (ms : UInt64) : ofMillis ms ≤ longest := by
  have hlt : ms.toNat < 2 ^ 64 := ms.toNat_lt
  change ms.toNat * 1000000 ≤ 2 ^ 64 * 1000000000 - 1
  omega

/-- Under a limit of whole milliseconds, it cannot be seen that products stop. -/
theorem min_times_ofMillis (ms limit : UInt64) (k : UInt32) :
    min (times (ofMillis ms) k) (ofMillis limit) =
      min limit.toNat (ms.toNat * k.toNat) * 1000000 := by
  have hlimit := ofMillis_le_longest limit
  calc min (times (ofMillis ms) k) (ofMillis limit)
      = min (min longest (ofMillis ms * k.toNat)) (ofMillis limit) := by rw [times]
    _ = min (ofMillis limit) (ofMillis ms * k.toNat) := by omega
    _ = min (limit.toNat * 1000000) (ms.toNat * k.toNat * 1000000) := by
        rw [ofMillis, ofMillis, Nat.mul_right_comm]
    _ = min limit.toNat (ms.toNat * k.toNat) * 1000000 := by omega

end Interval

namespace Backoff

/-- The waiting time after attempt number `attempt`, in nanoseconds. -/
def interval (b : Backoff) (attempt : UInt32) : Nat :=
  min (Interval.times (Interval.ofMillis b.initialMs) (b.growth.factor attempt))
    (Interval.ofMillis b.maxMs)

theorem interval_eq (b : Backoff) (attempt : UInt32) : b.interval attempt =
    min b.maxMs.toNat (b.initialMs.toNat * b.growth.exactFactor attempt.toNat) * 1000000 := by
  rw [interval, Interval.min_times_ofMillis, BackoffGrowth.toNat_factor]

theorem delay_eq (b : Backoff) (attempt : UInt32) : b.delay attempt =
    min b.maxMs.toNat (b.initialMs.toNat * b.growth.exactFactor attempt.toNat) := by
  change Interval.toMillis (b.interval attempt) = _
  rw [interval_eq]
  exact Nat.mul_div_cancel _ (by decide)

/-- A waiting time is the initial one times the factor of the attempt, or the limit if that is less. It has
no fraction of a millisecond, it never exceeds the limit, does not become shorter from one attempt to a
later one, and falls below the initial waiting time only where the limit does. -/
theorem delay_exact_capped_monotone (b : Backoff) :
    (∀ attempt : UInt32,
      b.delay attempt = min b.maxMs.toNat (b.initialMs.toNat * b.growth.exactFactor attempt.toNat) ∧
      b.interval attempt = b.delay attempt * 1000000 ∧
      b.delay attempt ≤ b.maxMs.toNat ∧
      min b.initialMs.toNat b.maxMs.toNat ≤ b.delay attempt) ∧
    ∀ earlier later : UInt32, earlier ≤ later → b.delay earlier ≤ b.delay later := by
  refine ⟨fun attempt => ⟨b.delay_eq attempt, ?_, ?_, ?_⟩, ?_⟩
  · rw [interval_eq, delay_eq]
  · rw [delay_eq]
    exact Nat.min_le_left _ _
  · have hfactor := b.growth.exactFactor_pos attempt.toNat
    have hinitial : b.initialMs.toNat ≤ b.initialMs.toNat * b.growth.exactFactor attempt.toNat :=
      Nat.le_mul_of_pos_right _ hfactor
    rw [delay_eq]
    omega
  · intro earlier later hle
    have hfactor := b.growth.exactFactor_mono (UInt32.le_iff_toNat_le.mp hle)
    have hproduct := Nat.mul_le_mul_left b.initialMs.toNat hfactor
    rw [delay_eq, delay_eq]
    omega

/-- A millisecond that is doubled forty times is longer than the factor can tell. -/
theorem delay_exact_after_forty_doublings :
    let b : Backoff := ⟨.exponential, 1, 18446744073709551615⟩
    b.delay 40 = 2 ^ 32 - 1 ∧ b.interval 40 = b.delay 40 * 1000000 ∧ (40 : UInt32) ≤ 41 ∧
      b.delay 40 ≤ b.delay 41 := by
  intro b
  obtain ⟨hexact, hmono⟩ := b.delay_exact_capped_monotone
  obtain ⟨hdelay, hinterval, -⟩ := hexact 40
  exact ⟨hdelay.trans (by decide), hinterval, by decide, hmono 40 41 (by decide)⟩

end Backoff

end CheckpointedLog
