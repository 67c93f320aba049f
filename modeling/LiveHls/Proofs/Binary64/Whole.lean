import LiveHls.Proofs.Binary64.Sums
/-! Whole numbers. Rounding keeps a number whole: either no bit is dropped, or the last bit that is
left stands for a whole number by itself. -/
namespace LiveHls.Binary64

open Float.Model Float.Model.UnpackedFloat

variable {mantissa : Nat} {exponent : Int} {x y : Float}

/-- The magnitude `mantissa * 2 ^ exponent` is whole. -/
def Whole (mantissa : Nat) (exponent : Int) : Prop := 2 ^ (-exponent).toNat ∣ mantissa

theorem Whole.log2 (whole : Whole mantissa exponent) (positive : 0 < mantissa) :
    0 ≤ mantissa.log2 + exponent := by
  have bits := (Nat.le_log2 (Nat.ne_of_gt positive)).mpr (Nat.le_of_dvd positive whole)
  omega

theorem whole_of_nonneg (nonneg : 0 ≤ exponent) : Whole mantissa exponent := by
  rw [Whole, show (-exponent).toNat = 0 by omega, Nat.pow_zero]
  exact Nat.one_dvd mantissa

theorem whole_shift (n k : Nat) : Whole (n * 2 ^ k) (-k) := by
  rw [Whole, Int.neg_neg, Int.toNat_natCast]
  exact Nat.dvd_mul_left _ _

/-- The bits that stand for less than one are zeros, so they can be dropped. -/
theorem Whole.truncated (whole : Whole mantissa exponent)
    (below : mantissa.log2 - 52 + exponent < 0) (long : 52 ≤ mantissa.log2) :
    2 ^ (mantissa.log2 - 52) ∣ mantissa ∧
      Whole (truncated mantissa) (mantissa.log2 - 52 + exponent) := by
  have split : (-exponent).toNat =
      mantissa.log2 - 52 + (-(mantissa.log2 - 52 + exponent)).toNat := by omega
  rw [Whole, split, Nat.pow_add] at whole
  exact ⟨Nat.dvd_trans (Nat.dvd_mul_right _ _) whole, Nat.dvd_div_of_mul_dvd whole⟩

theorem StoredAs.whole {sign : Sign} {m : Nat} {e : Int} {positive : 0 < m}
    (stored : StoredAs sign mantissa exponent (.finite sign m e positive))
    (whole : Whole mantissa exponent) : Whole m e := by
  cases stored with
  | same => exact whole
  | halved =>
      have few := (Nat.pow_dvd_pow_iff_le_right (by decide)).mp whole
      exact Nat.pow_dvd_pow 2 (by omega)

/-- What is left of a whole number is whole: either only zeros are cut off, or the last bit that is
left stands for a whole number. -/
theorem Whole.shortened (whole : Whole mantissa exponent) (long : 52 ≤ mantissa.log2)
    (normal : -1074 ≤ mantissa.log2 - 52 + exponent) :
    Whole (shortened mantissa exponent .exact).roundedMantissa
      (exponent + excess mantissa exponent) := by
  rw [Binary64.shortened, excess_of_normal long normal]
  rcases Int.lt_or_le (mantissa.log2 - 52 + exponent) 0 with below | above
  · obtain ⟨zeros, rest⟩ := whole.truncated below long
    rw [shiftRight_exact zeros, show exponent + (mantissa.log2 - 52 : Nat) =
      mantissa.log2 - 52 + exponent by omega]
    exact rest
  · exact whole_of_nonneg (by omega)

/-- Rounding a whole number of enough bits gives a whole number. -/
theorem Whole.round (whole : Whole mantissa exponent) (long : 52 ≤ mantissa.log2) (sign : Sign) :
    ∃ m e positive, roundWithAccuracy Format.binary64 sign mantissa exponent .exact =
        .finite sign m e positive ∧ Canonical m e ∧ Whole m e := by
  have nonzero : 0 < mantissa := Nat.pos_of_ne_zero (by rintro rfl; cases long)
  have normal : -1074 ≤ mantissa.log2 - 52 + exponent := by
    have log := whole.log2 nonzero
    omega
  have stored := @roundWithAccuracy_storedAs mantissa exponent (.inl long) sign .exact
  obtain ⟨least, -⟩ := truncated_bounds long
  obtain ⟨lower, -⟩ := rounded_bounds mantissa exponent .exact
  rw [excess_of_normal long normal] at lower
  have positive := Nat.lt_of_lt_of_le (Nat.two_pow_pos 52) (least.trans lower)
  obtain ⟨m, e, positive, same, canonical⟩ := stored.exists_finite positive
  rw [same] at stored
  exact ⟨m, e, positive, same, canonical, stored.whole (whole.shortened long normal)⟩

/-! ### Whole numbers -/

/-- The number is whole and positive, or is none at all, or has become infinite. -/
inductive IsWhole (x : Float) : Prop
  | notANumber (unpacked : unpack x = .notANumber)
  | infinite (unpacked : unpack x = .infinity .positive)
  | zero {sign : Sign} (unpacked : unpack x = .zero sign)
  | finite {mantissa : Nat} {exponent : Int} {positive : 0 < mantissa}
      (unpacked : unpack x = .finite .positive mantissa exponent positive)
      (whole : Whole mantissa exponent)

theorem isWhole_of_rounded (whole : Whole mantissa exponent) (long : 52 ≤ mantissa.log2)
    (rounded : x.toModel = Float.Model.pack
      (roundWithAccuracy Format.binary64 .positive mantissa exponent .exact)) : IsWhole x := by
  obtain ⟨m, e, positive, same, canonical, rest⟩ := whole.round long .positive
  have unpacked := congrArg Float.Model.unpack rounded
  rw [same] at unpacked
  rcases unpack_pack_canonical positive canonical with finite | infinite
  · exact .finite (unpacked.trans finite) rest
  · exact .infinite (unpacked.trans infinite)

theorem isWhole_ofNat {n : Nat} (nonzero : 0 < n) : IsWhole (Float.ofNat n) := by
  obtain ⟨k, enough, rounded⟩ := toModel_ofNat nonzero
  exact isWhole_of_rounded (whole_shift n k) (le_log2_shift nonzero enough) rounded

/-- A number that is not negative is whole once it is rounded. -/
theorem NotNegative.isWhole_round (sign : NotNegative x) : IsWhole (round x) := by
  unfold Binary64.round Binary64.roundBy
  rw [NotNegative] at sign
  cases unpacked : unpack x with
  | notANumber => exact .notANumber unpacked
  | infinity s =>
      rw [unpacked] at sign
      cases s with
      | positive => exact .infinite unpacked
      | negative => exact absurd rfl sign
  | zero s => exact .zero unpacked
  | finite s mantissa exponent positive =>
      rw [unpacked] at sign
      cases s with
      | negative => exact absurd rfl sign
      | positive =>
          simp only [isNegative, signed, Bool.false_eq_true, if_false]
          split_ifs with zero
          · exact .zero unpack_zero
          · obtain ⟨n, same⟩ := Int.eq_ofNat_of_zero_le (nearestQuotient_nonneg
              (quotient mantissa exponent).1 (quotient mantissa exponent).2)
            rw [same] at zero ⊢
            exact isWhole_ofNat (by omega)

end LiveHls.Binary64
