import Mathlib
import LiveHls.Settings
/-! The timing values in exact arithmetic. The part target is rounded twice, to the nearest
microsecond and then up to a millisecond. What the first rounding takes away is less than half of what
a rounding to the nearest millisecond does, so that no part within the nominal duration is written as
lasting longer than the target. -/
namespace LiveHls

instance : Rounding ℚ := ⟨fun x => ⌈x⌉, fun x => ⌊x + 1 / 2⌋⟩

namespace Settings

/-- A duration in whole microseconds, the nearest; a half goes up. -/
def micros (duration : ℚ) : ℤ := ⌊10 ^ 6 * duration + 1 / 2⌋

/-- The part target in whole milliseconds. -/
def exactMillis (partDuration : ℚ) : ℤ := ⌈(micros partDuration : ℚ) / 10 ^ 3⌉

variable {segmentDuration partDuration : ℚ}

theorem partTargetMillis_eq (partDuration : ℚ) :
    partTargetMillis partDuration = exactMillis partDuration := by
  have million : partDuration * 1e6 = 10 ^ 6 * partDuration := by norm_num [mul_comm]
  have thousand : (1e3 : ℚ) = 10 ^ 3 := by norm_num
  simp only [partTargetMillis, exactMillis, micros, Rounding.ceil, Rounding.round, million, thousand]

theorem limitOf_eq (millis : ℤ) :
    limitOf (millis : ℚ) = if millis < 1000 then (⌈(3000 : ℚ) / millis⌉ : ℚ) else 3 := by
  have second : (millis : ℚ) < 1000.0 ↔ millis < 1000 := by
    norm_num
    norm_cast
  have seconds : (3000.0 : ℚ) = 3000 := by norm_num
  have three : (3.0 : ℚ) = 3 := by norm_num
  simp only [limitOf, second, seconds, three, Rounding.ceil]

theorem derive_targets (segmentDuration partDuration : ℚ) :
    (derive segmentDuration partDuration).partTargetDuration = exactMillis partDuration / 1000 ∧
    (derive segmentDuration partDuration).targetDuration = ⌈segmentDuration⌉ := by
  have thousand : (1e3 : ℚ) = 1000 := by norm_num
  refine ⟨?_, rfl⟩
  simp only [derive, partTargetMillis_eq, thousand]

/-- Rounding twice does not come out below rounding to the nearest millisecond at once. -/
theorem nearest_le_exactMillis {d : ℚ} (within : d ≤ partDuration) :
    ⌊1000 * d + 1 / 2⌋ ≤ exactMillis partDuration := by
  have nearest : (⌊1000 * d + 1 / 2⌋ : ℚ) ≤ 1000 * d + 1 / 2 := Int.floor_le _
  have noise : 10 ^ 6 * partDuration + 1 / 2 < micros partDuration + 1 := Int.lt_floor_add_one _
  have up : (micros partDuration : ℚ) / 10 ^ 3 ≤ exactMillis partDuration := Int.le_ceil _
  have less : (⌊1000 * d + 1 / 2⌋ : ℚ) < exactMillis partDuration + 1 := by linarith
  exact Int.lt_add_one_iff.mp (by exact_mod_cast less)

/-- Both roundings together add less than a millisecond. -/
theorem exactMillis_lt (partDuration : ℚ) :
    (exactMillis partDuration : ℚ) < 1000 * partDuration + 1 := by
  have noise : (micros partDuration : ℚ) ≤ 10 ^ 6 * partDuration + 1 / 2 := Int.floor_le _
  have up : (exactMillis partDuration : ℚ) < micros partDuration / 10 ^ 3 + 1 :=
    Int.ceil_lt_add_one _
  -- a whole number of microseconds is at most 999 of them short of the next millisecond
  have short : 1000 * (exactMillis partDuration - 1) < micros partDuration := by
    have scaled : (1000 * (exactMillis partDuration - 1) : ℚ) < micros partDuration := by linarith
    exact_mod_cast scaled
  have whole : (1000 * (exactMillis partDuration - 1) : ℚ) ≤ micros partDuration - 1 := by
    exact_mod_cast Int.le_sub_one_of_lt short
  linarith

theorem exactMillis_le {seconds : ℤ} (within : partDuration ≤ seconds) :
    exactMillis partDuration ≤ 1000 * seconds := by
  have noise : (micros partDuration : ℚ) ≤ 10 ^ 6 * partDuration + 1 / 2 := Int.floor_le _
  have fewer : micros partDuration < 10 ^ 6 * seconds + 1 := by
    have scaled : (micros partDuration : ℚ) < 10 ^ 6 * seconds + 1 := by linarith
    exact_mod_cast scaled
  have whole : (micros partDuration : ℚ) ≤ 10 ^ 6 * seconds := by
    exact_mod_cast Int.lt_add_one_iff.mp fewer
  refine Int.ceil_le.mpr ?_
  push_cast
  linarith

/-- Below a second the limit is the least number of part targets that make three seconds. -/
theorem limitOf_isLeast {millis : ℤ} (least : 1 ≤ millis) (short : millis < 1000) :
    ∃ n : ℤ, limitOf (millis : ℚ) = n ∧ IsLeast {n : ℤ | 3000 ≤ n * millis} n ∧ 4 ≤ n := by
  have positive : (0 : ℚ) < millis := by exact_mod_cast least
  refine ⟨⌈(3000 : ℚ) / millis⌉, by rw [limitOf_eq, if_pos short], ⟨?_, ?_⟩, ?_⟩
  · have enough := (div_le_iff₀ positive).mp (Int.le_ceil ((3000 : ℚ) / millis))
    exact_mod_cast enough
  · intro n enough
    refine Int.ceil_le.mpr ((div_le_iff₀ positive).mpr ?_)
    exact_mod_cast enough
  · have few : 3 * millis < 3000 := by omega
    have more : 3 < ⌈(3000 : ℚ) / millis⌉ :=
      Int.lt_ceil.mpr ((lt_div_iff₀ positive).mpr (by exact_mod_cast few))
    omega

/-- With the arithmetic read exactly: no duration up to the nominal one is written, in the nearest
milliseconds, as more than the part target, which is less than a millisecond above the nominal
duration and never above the target duration. The limit is the least number of parts that make three
seconds as long as parts are shorter than a second, and three from then on. -/
theorem part_target_bounds (positive : 0 < partDuration) (fits : partDuration ≤ segmentDuration) :
    let settings : Settings ℚ := derive segmentDuration partDuration
    let millis : ℤ := ⌈(⌊10 ^ 6 * partDuration + 1 / 2⌋ : ℚ) / 10 ^ 3⌉
    0 ≤ millis ∧ settings.partTargetDuration = millis / 1000 ∧
    (∀ d ≤ partDuration, ⌊1000 * d + 1 / 2⌋ ≤ millis) ∧
    millis < 1000 * partDuration + 1 ∧
    millis ≤ 1000 * settings.targetDuration ∧
    settings.partTargetDuration ≤ settings.targetDuration ∧
    (1 ≤ millis → millis < 1000 → ∃ n : ℤ, settings.advancePartLimit = n ∧
      IsLeast {n : ℤ | 3000 ≤ n * millis} n ∧ 4 ≤ n) ∧
    (1000 ≤ millis → settings.advancePartLimit = 3) := by
  intro settings millis
  obtain ⟨partTarget, target⟩ := derive_targets segmentDuration partDuration
  have limit : settings.advancePartLimit = limitOf (millis : ℚ) :=
    congrArg limitOf (partTargetMillis_eq partDuration)
  have nonneg : 0 ≤ millis := by
    have nothing : ⌊1000 * (0 : ℚ) + 1 / 2⌋ = 0 := by norm_num
    exact nothing ▸ nearest_le_exactMillis (le_of_lt positive)
  have within : (millis : ℚ) ≤ 1000 * settings.targetDuration := by
    have seconds := exactMillis_le (le_trans fits (Int.le_ceil segmentDuration))
    rw [target]
    exact_mod_cast seconds
  refine ⟨nonneg, partTarget, fun d => nearest_le_exactMillis, exactMillis_lt partDuration, within,
    ?_, ?_, ?_⟩
  · rw [partTarget, div_le_iff₀ (by norm_num), mul_comm]
    exact within
  · intro least short
    rw [limit]
    exact limitOf_isLeast least short
  · intro long
    rw [limit, limitOf_eq, if_neg (Int.not_lt.mpr long)]

/-- Parts of a third of a second: the target is 334 milliseconds, nine of which make three seconds. -/
theorem part_target_bounds_of_third :
    let settings : Settings ℚ := derive 2 (1 / 3)
    (0 : ℚ) < 1 / 3 ∧ (1 / 3 : ℚ) ≤ 2 ∧ settings.partTargetDuration = 334 / 1000 ∧
    settings.partTargetDuration ≤ settings.targetDuration ∧ settings.advancePartLimit = 9 := by
  intro settings
  have positive : (0 : ℚ) < 1 / 3 := by norm_num
  have fits : (1 / 3 : ℚ) ≤ 2 := by norm_num
  have millis : ⌈(⌊10 ^ 6 * (1 / 3 : ℚ) + 1 / 2⌋ : ℚ) / 10 ^ 3⌉ = 334 := by norm_num
  obtain ⟨-, partTarget, -, -, -, within, least, -⟩ := part_target_bounds positive fits
  rw [millis] at partTarget least
  obtain ⟨n, limit, ⟨enough, lower⟩, -⟩ := least (by decide) (by decide)
  have nine : n = 9 := by
    have atMost : n ≤ 9 := lower (by decide)
    have enough : 3000 ≤ n * 334 := enough
    omega
  exact ⟨positive, fits, partTarget.trans (by norm_num), within, by rw [limit, nine]; rfl⟩

end Settings
end LiveHls
