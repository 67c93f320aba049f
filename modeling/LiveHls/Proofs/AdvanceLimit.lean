import LiveHls.Proofs.Binary64.Bounds
import LiveHls.Settings
/-! How far past the live edge a playlist request may reach. -/
namespace LiveHls.Settings

open Float.Model Float.Model.UnpackedFloat Binary64

theorem unpack_thousand : unpack 1000.0 = .finite .positive (1000 * 2 ^ 43) (-43) (by decide) := by
  rfl

theorem unpack_threeThousand :
    unpack 3000.0 = .finite .positive (3000 * 2 ^ 41) (-41) (by decide) := by
  rfl

variable {x : Float} {mantissa : Nat} {exponent : Int} {positive : 0 < mantissa}

theorem below_thousand (unpacked : unpack x = .finite .positive mantissa exponent positive)
    (less : x < 1000.0) : exponent < -43 ∨ exponent = -43 ∧ mantissa < 1000 * 2 ^ 43 := by
  have compared : (unpack x).lt (unpack 1000.0) = true := of_decide_eq_true less
  rw [unpacked, unpack_thousand] at compared
  have order : (compare exponent (-43)).then (compare mantissa (1000 * 2 ^ 43)) = .lt := by
    simpa [UnpackedFloat.lt, UnpackedFloat.compare] using compared
  rw [Ordering.then_eq_lt, compare_lt_iff_lt, compare_eq_iff_eq, compare_lt_iff_lt] at order
  exact order

/-- The first digits of 3000 divided by a number with this mantissa. -/
def share (mantissa : Nat) : Nat := 3000 * 2 ^ 41 * 2 ^ (mantissa.log2 + 1) / mantissa

theorem le_share (positive : 0 < mantissa) : 3000 * 2 ^ 41 ≤ share mantissa := by
  have power : mantissa < 2 ^ (mantissa.log2 + 1) := Nat.lt_log2_self
  exact (Nat.le_div_iff_mul_le positive).mpr (Nat.mul_le_mul_left _ (Nat.le_of_lt power))

theorem divCore_threeThousand (short : mantissa.log2 ≤ 52) (low : exponent ≤ -43) :
    divCore Format.binary64 (3000 * 2 ^ 41) (-41) mantissa exponent =
      (share mantissa, -42 - mantissa.log2 - exponent,
        accuracyOfFraction (3000 * 2 ^ 41 * 2 ^ (mantissa.log2 + 1) % mantissa) mantissa) := by
  have own : (3000 * 2 ^ 41 : Nat).log2 = 52 := by decide
  have target : Format.binary64.targetExponent
      (totalExponent (3000 * 2 ^ 41) (-41) - totalExponent mantissa exponent) =
        -42 - mantissa.log2 - exponent := by
    simp only [Format.targetExponent, totalExponent, Format.mantissaBits, Format.minExponent, own]
    norm_num
    omega
  have smaller : min (-41 - exponent) (-42 - mantissa.log2 - exponent) =
      -42 - mantissa.log2 - exponent := by omega
  have shift : (-41 - exponent - (-42 - mantissa.log2 - exponent)).toNat = mantissa.log2 + 1 := by
    omega
  simp only [divCore, target, smaller, shift, Nat.shiftLeft_eq, share]

theorem share_reaches (positive : 0 < mantissa)
    (below : exponent < -43 ∨ exponent = -43 ∧ mantissa < 1000 * 2 ^ 43)
    (bits : mantissa < 2 ^ 53) :
    Reaches 3 (share mantissa) (-42 - mantissa.log2 - exponent) := by
  rcases Int.lt_or_le (-42 - mantissa.log2 - exponent) 0 with large | small
  · obtain ⟨k, whole⟩ := Int.eq_ofNat_of_zero_le (show 0 ≤ 42 + mantissa.log2 + exponent by omega)
    have fits : 2 ^ k * mantissa ≤ 2 ^ (mantissa.log2 - 1) * (1000 * 2 ^ 43) := by
      rcases below with apart | ⟨same, less⟩
      · calc
          2 ^ k * mantissa ≤ 2 ^ k * (2 * (1000 * 2 ^ 43)) := Nat.mul_le_mul_left _ (by omega)
          _ = 2 ^ (k + 1) * (1000 * 2 ^ 43) := (Nat.mul_assoc ..).symm
          _ ≤ _ := Nat.mul_le_mul_right _ (Nat.pow_le_pow_right (by decide) (by omega))
      · rw [show k = mantissa.log2 - 1 by omega]
        exact Nat.mul_le_mul_left _ (Nat.le_of_lt less)
    refine (reaches_iff (k := k) (by omega)).mpr ?_
    rw [show (-42 - (mantissa.log2 : Int) - exponent + k).toNat = 0 by omega, Nat.pow_zero,
      Nat.mul_one, share, Nat.le_div_iff_mul_le positive, Nat.mul_assoc]
    calc
      3 * (2 ^ k * mantissa) ≤ 3 * (2 ^ (mantissa.log2 - 1) * (1000 * 2 ^ 43)) :=
        Nat.mul_le_mul_left _ fits
      _ = 3000 * 2 ^ 41 * 2 ^ (mantissa.log2 - 1 + 2) := by
        rw [Nat.pow_add]
        ring
      _ ≤ _ := Nat.mul_le_mul_left _ (Nat.pow_le_pow_right (by decide) (by omega))
  · have least := le_share positive
    have power := Nat.two_pow_pos (-42 - (mantissa.log2 : Int) - exponent + (0 : Nat)).toNat
    refine (reaches_iff (k := 0) (by omega)).mpr ?_
    exact Nat.le_trans (by omega) (Nat.le_mul_of_pos_right _ power)

/-- A part of less than a second fits at least three times into three seconds. -/
theorem limit_atLeast (unpacked : unpack x = .finite .positive mantissa exponent positive)
    (less : x < 1000.0) : AtLeast 3 (3000.0 / x) := by
  have bits := mantissa_lt unpacked
  have short : mantissa.log2 ≤ 52 := Nat.lt_succ_iff.mp ((Nat.log2_lt (by omega)).mpr bits)
  have below := below_thousand unpacked less
  have least := le_share positive
  refine atLeast_of_rounded (share mantissa) (-42 - mantissa.log2 - exponent)
    (accuracyOfFraction (3000 * 2 ^ 41 * 2 ^ (mantissa.log2 + 1) % mantissa) mantissa)
    (by decide) (by decide) ?_ ?_ (share_reaches positive below bits)
  · change Float.Model.pack (UnpackedFloat.div Format.binary64 (unpack 3000.0) (unpack x)) = _
    rw [unpacked, unpack_threeThousand]
    simp only [UnpackedFloat.div, divCore_threeThousand short (by omega : exponent ≤ -43)]
    rfl
  · exact (Nat.le_log2 (by omega)).mpr (by omega)

variable {segmentDuration partDuration : Float}

theorem partTargetMillis_notNegative (positive : 0.0 < partDuration) :
    NotNegative (partTargetMillis partDuration) := by
  have own : NotNegative partDuration := notNegative_of_positive positive
  have million : sign? (unpack 1e6) = some .positive := by rfl
  have thousand : sign? (unpack 1e3) = some .positive := by rfl
  have micros := (own.mul (y := 1e6) (by simp [NotNegative, million])).roundBy
    fun n d _ => nearestQuotient_nonneg n d
  exact (micros.div (y := 1e3) (by simp [NotNegative, thousand])).roundBy
    fun n d positive => le_ceilQuotient (c := 0) positive (by simp)

theorem limitOf_atLeast {millis : Float} (sign : NotNegative millis) :
    AtLeast 3 (limitOf millis) := by
  have three : unpack 3.0 = .finite .positive (3 * 2 ^ 51) (-51) (by decide) := by rfl
  unfold limitOf
  split_ifs with less
  · refine AtLeast.ceil ?_ (by decide) (by decide)
    have compared : (unpack millis).lt (unpack 1000.0) = true := of_decide_eq_true less
    rw [unpack_thousand] at compared
    cases unpacked : unpack millis with
    | notANumber =>
        rw [unpacked] at compared
        cases compared
    | infinity s =>
        rw [unpacked] at compared
        cases s with
        | positive => cases compared
        | negative => exact absurd (congrArg sign? unpacked) sign
    | zero s =>
        cases s with
        | positive =>
            refine .infinite ?_
            change (Float.Model.pack
              (UnpackedFloat.div Format.binary64 (unpack 3000.0) (unpack millis))).unpack = _
            rw [unpacked, unpack_threeThousand]
            exact unpack_packedInfinity .positive
        | negative => exact absurd (congrArg sign? unpacked) sign
    | finite s mantissa exponent positive =>
        cases s with
        | positive => exact limit_atLeast unpacked less
        | negative => exact absurd (congrArg sign? unpacked) sign
  · exact .finite three (by decide)

theorem derive_partLimit (segmentDuration : Float) (positive : 0.0 < partDuration) :
    (derive segmentDuration partDuration).partLimit = .unlimited ∨
      ∃ n, (derive segmentDuration partDuration).partLimit = .count n ∧ 3 ≤ n := by
  have atLeast := limitOf_atLeast (partTargetMillis_notNegative positive)
  change PartLimit.ofFloat (limitOf (partTargetMillis partDuration)) = _ ∨ ∃ n,
    PartLimit.ofFloat (limitOf (partTargetMillis partDuration)) = _ ∧ _
  unfold PartLimit.ofFloat
  rcases atLeast.integer? with infinite | ⟨n, whole, least⟩
  · rw [infinite]
    exact .inl (if_neg atLeast.not_negative)
  · rw [whole]
    exact .inr ⟨n, rfl, least⟩

/-- The part behind the newest is never too far ahead. -/
theorem derive_admits_next (segmentDuration : Float) (positive : 0.0 < partDuration)
    (newest : Int) :
    (derive segmentDuration partDuration).partLimit.refuses newest (newest + 1) = false := by
  rcases derive_partLimit segmentDuration positive with unlimited | ⟨n, limit, least⟩
  · rw [unlimited]
    rfl
  · rw [limit, PartLimit.refuses]
    exact decide_eq_false (by omega)

end LiveHls.Settings
