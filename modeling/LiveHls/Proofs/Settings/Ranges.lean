import Mathlib
import LiveHls.Proofs.AdvanceLimit
import LiveHls.Proofs.Binary64.Arithmetic
/-! The part target over the range of part durations. The nominal duration is multiplied by a million,
and is lost at both ends of the range: below half a microsecond the part target is zero, and where the
product overflows it is infinite. -/
namespace LiveHls.Settings

open Float.Model (UnpackedFloat)
open Binary64

variable {x y partDuration segmentDuration : Float} {p q r : ℚ} {m n : Nat} {e k : Int}

/-! ### Microseconds -/

/-- The mantissa from which on a product with a million has one bit more. -/
def turn : Nat := 4722366482869645

theorem reads_low : Reads 5e-7 (scaled turn (-73)) :=
  reads_of_beq (by decide) (by decide +kernel)

theorem reads_high : Reads 1.797693134862316e302 (scaled turn 952) :=
  reads_of_beq (by decide) (by decide +kernel)

theorem reads_million : Reads 1e6 (10 ^ 6) := by
  have value : scaled (15625 * 2 ^ 39) (-33) = 10 ^ 6 := by norm_num [scaled]
  exact value ▸ reads_of_beq (by decide) (by rfl)

theorem scaled_thousand : scaled (1000 * 2 ^ 43) (-43) = 1000 := by norm_num [scaled]

theorem reads_thousand : Reads 1e3 1000 := scaled_thousand ▸ reads_of_beq (by decide) (by rfl)

theorem canonical_turn (least : -1074 ≤ k) : Canonical turn k :=
  ⟨by decide, least, .inl (by decide)⟩

/-- Multiplies numbers of one exponent with a million, which is 15625 times 64. -/
theorem scaled_million (m : Nat) (k : Int) : scaled m k * 10 ^ 6 = scaled (m * 15625) (k + 6) := by
  rw [scaled, scaled, power_add, Nat.cast_mul]
  norm_num
  ring

/-- Below the turn a product with a million stays two units below the next power of two. -/
theorem product_of_lt (canonical : Canonical m e) (least : -1074 ≤ k)
    (less : scaled m e < scaled turn k) :
    scaled m e * 10 ^ 6 ≤ scaled (2 ^ 53 - 2) (k + 19) := by
  have atMost : scaled m e ≤ scaled (turn - 1) k :=
    scaled_le_pred canonical (canonical_turn least) (by decide) less
  calc
    scaled m e * 10 ^ 6 ≤ scaled (turn - 1) k * 10 ^ 6 :=
      mul_le_mul_of_nonneg_right atMost (by norm_num)
    _ = scaled ((turn - 1) * 15625) (k + 6) := scaled_million _ k
    _ ≤ scaled ((2 ^ 53 - 2) * 2 ^ 13) (k + 6) := scaled_le (by decide) _
    _ = scaled (2 ^ 53 - 2) (k + 19) := by
      rw [scaled_eq (show k + 6 ≤ k + 19 by omega), show (k + 19 - (k + 6)).toNat = 13 by omega]

/-- Above the turn a product with a million reaches the power of two. -/
theorem product_of_gt (canonical : Canonical m e) (least : -1074 ≤ k)
    (less : scaled turn k < scaled m e) : 2 ^ (k + 72) ≤ scaled m e * 10 ^ 6 := by
  have atLeast : scaled (turn + 1) k ≤ scaled m e :=
    succ_le_scaled canonical (canonical_turn least) (by decide) less
  calc
    (2 : ℚ) ^ (k + 72) = scaled (2 ^ 66) (k + 6) := by
      rw [scaled_two_pow]
      congr 1
      omega
    _ ≤ scaled ((turn + 1) * 15625) (k + 6) := scaled_le (by decide) _
    _ = scaled (turn + 1) k * 10 ^ 6 := (scaled_million _ k).symm
    _ ≤ scaled m e * 10 ^ 6 := mul_le_mul_of_nonneg_right atLeast (by norm_num)

theorem micros_of_within (reads : Reads x p) (positive : 0 < p) (low : ¬ x < 5e-7)
    (high : x < 1.797693134862316e302) :
    ∃ r, Reads (x * 1e6) r ∧ 1 / 2 ≤ r ∧ r ≤ scaled (2 ^ 53 - 2) 971 := by
  obtain ⟨m, e, _, _, canonical, rfl⟩ := reads.positive positive
  rw [reads.lt_iff reads_low, not_lt] at low
  rw [reads.lt_iff reads_high] at high
  have below := product_of_lt canonical (by decide) high
  have stored : Stored (scaled (2 ^ 53 - 2) 971) :=
    ⟨2 ^ 53 - 2, 971, ⟨by decide, by decide, .inl (by decide)⟩, rfl⟩
  obtain ⟨r, product, rounds⟩ := reads.mul reads_million positive (by norm_num)
    (below.trans (scaled_le (by decide) 971))
  refine ⟨r, product, ?_, rounds.le stored below⟩
  rcases low.eq_or_lt with same | more
  · -- the product is less than a half, and is rounded up to it
    have least : x = 5e-7 := reads.eq (same ▸ reads_low) positive
    have half : Reads (x * 1e6) (scaled (2 ^ 52) (-53)) := by
      rw [least]
      exact reads_of_beq (by decide) (by decide +kernel)
    rw [product.unique half, scaled_two_pow]
    norm_num
  · have above := product_of_gt canonical (by decide) more
    have half : (1 / 2 : ℚ) = 2 ^ ((-73 : Int) + 72) := by norm_num
    rw [half]
    exact rounds.ge (stored_two_zpow (by decide)) above

theorem micros_of_low (reads : Reads x p) (positive : 0 < p) (low : x < 5e-7) :
    ∃ r, Reads (x * 1e6) r ∧ r < 1 / 2 := by
  obtain ⟨m, e, _, _, canonical, rfl⟩ := reads.positive positive
  rw [reads.lt_iff reads_low] at low
  have below := product_of_lt canonical (by decide) low
  have stored : Stored (scaled (2 ^ 53 - 2) (-54)) :=
    ⟨2 ^ 53 - 2, -54, ⟨by decide, by decide, .inl (by decide)⟩, rfl⟩
  have small : scaled (2 ^ 53 - 2) (-54) < 1 / 2 := by norm_num [scaled]
  obtain ⟨r, product, rounds⟩ := reads.mul reads_million positive (by norm_num)
    (below.trans (scaled_le_largest (by decide) (by decide)))
  exact ⟨r, product, (rounds.le stored below).trans_lt small⟩

theorem micros_of_high (reads : Reads x p) (positive : 0 < p)
    (high : ¬ x < 1.797693134862316e302) : unpack (x * 1e6) = .infinity .positive := by
  obtain ⟨m, e, _, _, canonical, rfl⟩ := reads.positive positive
  rw [reads.lt_iff reads_high, not_lt] at high
  rcases high.eq_or_lt with same | more
  · have least : x = 1.797693134862316e302 := reads.eq (same ▸ reads_high) positive
    rw [least]
    exact unpack_of_beq (by decide +kernel) nofun
  · exact reads.mul_infinite reads_million positive (by norm_num)
      (product_of_gt canonical (by decide) more)

/-! ### The part target -/

theorem natCast_two_pow (k : Nat) : ((2 ^ k : Nat) : ℚ) = 2 ^ (k : Int) := by
  rw [zpow_natCast, Nat.cast_pow, Nat.cast_ofNat]

/-- Below half a microsecond nothing is left of the duration. -/
theorem partTarget_of_low (reads : Reads (partDuration * 1e6) r) (less : r < 1 / 2) :
    Reads (partTargetMillis partDuration / 1e3) 0 := by
  have nothing : ⌊r + 1 / 2⌋₊ = 0 := Nat.floor_eq_zero.mpr (by linarith)
  have zero {q : ℚ} (rounds : Rounds 0 q) : q = 0 := rounds.eq stored_zero
  have thousandth {x : Float} (reads : Reads x 0) : Reads (x / 1e3) 0 := by
    obtain ⟨q, result, rounds⟩ := reads.div reads_thousand (by norm_num)
      (by rw [zero_div]; exact scaled_nonneg _ _)
    rw [zero_div] at rounds
    exact zero rounds ▸ result
  obtain ⟨micros, rounded, rounds⟩ := reads.round (by rw [nothing]; exact scaled_nonneg _ _)
  rw [nothing, Nat.cast_zero] at rounds
  rw [zero rounds] at rounded
  obtain ⟨millis, up, rounds⟩ := (thousandth rounded).ceil
    (by rw [Nat.ceil_zero]; exact scaled_nonneg _ _)
  rw [Nat.ceil_zero, Nat.cast_zero] at rounds
  rw [zero rounds] at up
  exact thousandth up

theorem roundBy_infinite {round : Int → Nat → Int} {sign : UnpackedFloat.Sign}
    (infinite : unpack x = .infinity sign) : roundBy round x = x := by
  rw [roundBy, infinite]

/-- An infinite product stays infinite. -/
theorem partTarget_of_high (infinite : unpack (partDuration * 1e6) = .infinity .positive) :
    unpack (partTargetMillis partDuration / 1e3) = .infinity .positive := by
  have quotient := div_infinite infinite reads_thousand (by norm_num)
  have millis : partTargetMillis partDuration = partDuration * 1e6 / 1e3 := by
    show ceil (round (partDuration * 1e6) / 1e3) = _
    rw [Binary64.round, roundBy_infinite infinite, Binary64.ceil, roundBy_infinite quotient]
  rw [millis]
  exact div_infinite quotient reads_thousand (by norm_num)

theorem thousandth_le (le : q ≤ 2 ^ (1024 : Int)) : q / 1000 ≤ 2 ^ (1015 : Int) := by
  rw [div_le_iff₀ (by norm_num)]
  calc
    q ≤ 2 ^ (1024 : Int) := le
    _ = 2 ^ (1015 : Int) * 2 ^ (9 : Int) := power_add 1015 9
    _ ≤ 2 ^ (1015 : Int) * 1000 := mul_le_mul_of_nonneg_left (by norm_num) (power_pos 1015).le

theorem power_le_largest : (2 : ℚ) ^ (1015 : Int) ≤ largest := by
  have power := scaled_two_pow 52 963
  exact power ▸ scaled_le_largest (by decide) (by decide)

/-- The thousandth of something that is at least one and not too large. -/
theorem thousandth_of_within (reads : Reads x q) (low : 1 ≤ q) (high : q ≤ 2 ^ (1024 : Int)) :
    ∃ r, Reads (x / 1e3) r ∧ 2 ^ (-10 : Int) ≤ r ∧ r ≤ 2 ^ (1015 : Int) := by
  have small := thousandth_le high
  obtain ⟨r, result, rounds⟩ := reads.div reads_thousand (by norm_num)
    (small.trans power_le_largest)
  refine ⟨r, result, rounds.ge (stored_two_zpow (by decide)) ?_,
    rounds.le (stored_two_zpow (by decide)) small⟩
  rw [le_div_iff₀ (by norm_num)]
  exact le_trans (by norm_num) low

/-- In between there is at least a millisecond. -/
theorem millis_of_within (reads : Reads (partDuration * 1e6) r) (low : 1 / 2 ≤ r)
    (high : r ≤ scaled (2 ^ 53 - 2) 971) :
    ∃ millis, Reads (partTargetMillis partDuration) millis ∧
      1 ≤ millis ∧ millis ≤ 2 ^ (1015 : Int) := by
  have micro : 0 < ⌊r + 1 / 2⌋₊ := Nat.floor_pos.mpr (by linarith)
  have fits : (⌊r + 1 / 2⌋₊ : ℚ) ≤ largest := by
    have step : scaled (2 ^ 53 - 2) 971 + scaled 1 971 = largest := by
      rw [largest, scaled, scaled, scaled, ← add_mul, ← Nat.cast_add]
      rfl
    have unit : (1 / 2 : ℚ) ≤ scaled 1 971 := by
      rw [scaled, Nat.cast_one, one_mul]
      exact le_trans (by norm_num) (power_le (show (-1 : Int) ≤ 971 by decide))
    have floor := Nat.floor_le (show 0 ≤ r + 1 / 2 by linarith)
    linarith
  obtain ⟨micros, rounded, rounds⟩ := reads.round fits
  have atMost := (rounds.le stored_largest fits).trans largest_lt.le
  obtain ⟨share, quotient, positive, small⟩ :=
    thousandth_of_within rounded (rounds.one_le micro) atMost
  have up : (⌈share⌉₊ : ℚ) ≤ 2 ^ (1015 : Int) := by
    have bound : ⌈share⌉₊ ≤ 2 ^ 1015 := Nat.ceil_le.mpr (small.trans (natCast_two_pow 1015).ge)
    exact (Nat.cast_le.mpr bound).trans (natCast_two_pow 1015).le
  obtain ⟨millis, result, rounds⟩ := quotient.ceil (up.trans power_le_largest)
  have one := rounds.one_le (Nat.ceil_pos.mpr ((power_pos (-10)).trans_le positive))
  exact ⟨millis, result, one, rounds.le (stored_two_zpow (by decide)) up⟩

/-! ### The limit and the target duration -/

theorem limitOf_of_within (reads : Reads x q) (low : 1 ≤ q) :
    ∃ n : Nat, integer? (limitOf x) = some (n : Int) ∧ 3 ≤ n := by
  have second : Reads 1000.0 1000 := scaled_thousand ▸ .finite unpack_thousand
  have seconds : Reads 3000.0 3000 := by
    have value : scaled (3000 * 2 ^ 41) (-41) = 3000 := by norm_num [scaled]
    exact value ▸ .finite unpack_threeThousand
  unfold limitOf
  split
  · rename_i less
    rw [reads.lt_iff second] at less
    have positive : 0 < q := by linarith
    have low' : 3 ≤ 3000 / q := (le_div_iff₀ positive).mpr (by linarith)
    have high' : 3000 / q ≤ 3000 := (div_le_iff₀ positive).mpr (by linarith)
    have small : (3000 : ℚ) ≤ largest := natCast_le_largest (n := 3000) (by decide)
    obtain ⟨share, quotient, rounds⟩ := seconds.div reads positive (high'.trans small)
    have least := rounds.ge (stored_natCast (n := 3) (by decide)) low'
    have most := rounds.le (stored_natCast (n := 3000) (by decide)) high'
    have few : ⌈share⌉₊ ≤ 3000 := Nat.ceil_le.mpr most
    obtain ⟨limit, result, rounds⟩ := quotient.ceil (natCast_le_largest (by omega))
    obtain rfl := rounds.eq (stored_natCast (by omega))
    exact ⟨_, result.integer?, Nat.cast_le.mp (least.trans (Nat.le_ceil share))⟩
  · exact ⟨3, by rfl, Nat.le_refl 3⟩

theorem targetDuration_of_positive (reads : Reads x q) (positive : 0 < q) :
    ∃ n : Nat, integer? (ceil x) = some (n : Int) ∧ 1 ≤ n := by
  have fits : (⌈q⌉₊ : ℚ) ≤ largest := by
    obtain ⟨n, whole⟩ : ∃ n : Nat, largest = n :=
      ⟨_, (scaled_eq (show (0 : Int) ≤ 971 by decide)).trans (scaled_zero _)⟩
    rw [whole]
    exact Nat.cast_le.mpr (Nat.ceil_le.mpr (whole ▸ reads.le_largest))
  obtain ⟨r, result, rounds⟩ := reads.ceil fits
  have one := rounds.one_le (Nat.ceil_pos.mpr positive)
  obtain ⟨n, rfl⟩ := rounds.whole result.stored
  exact ⟨n, result.integer?, by exact_mod_cast one⟩

end LiveHls.Settings
