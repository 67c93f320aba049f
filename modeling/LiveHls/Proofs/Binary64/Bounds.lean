import LiveHls.Proofs.Binary64.Packing
/-! Bounds of binary64 numbers through arithmetic: the least size of positive ones and the sign. -/
namespace LiveHls.Binary64

open Float.Model Float.Model.UnpackedFloat

variable {c mantissa : Nat} {exponent : Int}

/-- The number is positive and not less than `c`. -/
inductive AtLeast (c : Nat) (x : Float) : Prop
  | infinite (unpacked : unpack x = .infinity .positive)
  | finite {mantissa : Nat} {exponent : Int} {positive : 0 < mantissa}
      (unpacked : unpack x = .finite .positive mantissa exponent positive)
      (reaches : Reaches c mantissa exponent)

theorem atLeast_of_rounded {x : Float} (mantissa : Nat) (exponent : Int) (accuracy : Accuracy)
    (positive : 0 < c) (small : c ≤ 2 ^ 53)
    (rounded : x.toModel = Float.Model.pack
      (roundWithAccuracy Format.binary64 .positive mantissa exponent accuracy))
    (long : 52 ≤ mantissa.log2) (reaches : Reaches c mantissa exponent) : AtLeast c x := by
  have log := reaches.log2 positive
  obtain ⟨m, e, positive, same, canonical, keeps⟩ :=
    @roundWithAccuracy_normal mantissa exponent .positive accuracy long (by omega)
  have unpacked := congrArg Float.Model.unpack rounded
  rw [same] at unpacked
  rcases unpack_pack_canonical positive canonical with finite | infinite
  · exact .finite (unpacked.trans finite) (keeps c small reaches)
  · exact .infinite (unpacked.trans infinite)

/-- The conversion of a machine word. -/
theorem toModel_toFloat {n : Nat} (nonzero : 0 < n) (word : n < 2 ^ 53) :
    n.toUInt64.toFloat.toModel = Float.Model.pack (roundWithAccuracy Format.binary64 .positive
      (n * 2 ^ (52 - n.log2)) (-(52 - n.log2 : Nat)) .exact) := by
  have value : n.toUInt64.toNat = n := Nat.mod_eq_of_lt (by omega)
  have sign : compare (n : Int) 0 = .gt := Int.compare_eq_gt.mpr (by omega)
  have target : Format.binary64.targetExponent (totalExponent n 0) = n.log2 - 52 := by
    rw [targetExponent_eq]
    omega
  have bits : n.log2 < 53 := (Nat.log2_lt (by omega)).mpr word
  change Float.Model.pack (UnpackedFloat.ofUInt64 Format.binary64 n.toUInt64) = _
  unfold UnpackedFloat.ofUInt64 UnpackedFloat.ofNat UnpackedFloat.ofInt UnpackedFloat.normalize
  simp only [value, sign, Int.toNat_natCast, UnpackedFloat.round, target, decreaseExponent]
  rw [show (0 - ((n.log2 : Int) - 52)).toNat = 52 - n.log2 by omega, Nat.shiftLeft_eq, Int.zero_sub]

/-- The conversion of a natural number: as a machine word if it is small, which is then multiplied by
one. -/
theorem toModel_ofNat {n : Nat} (nonzero : 0 < n) : ∃ k : Nat, 52 ≤ n.log2 + k ∧
    (Float.ofNat n).toModel = Float.Model.pack
      (roundWithAccuracy Format.binary64 .positive (n * 2 ^ k) (-k) .exact) := by
  change ∃ k : Nat, _ ∧ (Float.ofScientific n false 0).toModel = _
  unfold Float.ofScientific
  split
  · rename_i short
    refine ⟨52 - n.log2, by omega, ?_⟩
    have unit : unpack Float.exactlyRepresentablePowersOfTen[0] =
        .finite .positive (2 ^ 52) (-52) (by decide) := rfl
    exact (congrArg Float.toModel (mul_one_eq unit)).trans (toModel_toFloat nonzero short.1)
  · refine ⟨53, by omega, ?_⟩
    change Float.Model.pack (UnpackedFloat.ofScientific Format.binary64 n 0) = _
    unfold UnpackedFloat.ofScientific
    rw [dif_neg (Nat.ne_of_gt nonzero), if_neg (by decide), if_neg (by norm_num), if_pos (by decide)]
    change Float.Model.pack
      (roundWithAccuracy Format.binary64 .positive (n <<< 53 * 1) (-53 + 0) .exact) = _
    rw [Nat.mul_one, Nat.shiftLeft_eq]
    rfl

theorem atLeast_ofNat {n : Nat} (positive : 0 < c) (small : c ≤ 2 ^ 53) (le : c ≤ n) :
    AtLeast c (Float.ofNat n) := by
  have nonzero : 0 < n := Nat.lt_of_lt_of_le positive le
  obtain ⟨k, enough, rounded⟩ := toModel_ofNat nonzero
  exact atLeast_of_rounded _ _ .exact positive small rounded (le_log2_shift nonzero enough)
    (reaches_shift le k)

theorem le_ceilQuotient {n d : Nat} (positive : 0 < d) (le : c * d ≤ n) :
    (c : Int) ≤ ceilQuotient n d := by
  have below : -(n : Int) ≤ -(c : Int) * d := by
    rw [Int.neg_mul]
    exact Int.neg_le_neg (by exact_mod_cast le)
  rw [ceilQuotient, Int.fdiv_eq_ediv_of_nonneg _ (Int.natCast_nonneg d)]
  have least := Int.ediv_le_of_le_mul (by exact_mod_cast positive) below
  omega

theorem AtLeast.ceil {x : Float} (atLeast : AtLeast c x) (positive : 0 < c) (small : c ≤ 2 ^ 53) :
    AtLeast c (ceil x) := by
  cases atLeast with
  | infinite unpacked =>
      refine .infinite ?_
      rw [Binary64.ceil, roundBy, unpacked]
      exact unpacked
  | @finite mantissa exponent nonzero unpacked reaches =>
      have whole := le_ceilQuotient (denominator_pos mantissa exponent) reaches
      obtain ⟨n, same⟩ := Int.eq_ofNat_of_zero_le (Int.le_trans (Int.natCast_nonneg c) whole)
      rw [same] at whole
      rw [Binary64.ceil, roundBy, unpacked]
      simp only [isNegative, signed, Bool.false_eq_true, if_false, same]
      rw [if_neg (by omega)]
      exact atLeast_ofNat positive small (Int.ofNat_le.mp whole)

theorem AtLeast.integer? {x : Float} (atLeast : AtLeast c x) :
    integer? x = none ∨ ∃ n : Int, integer? x = some n ∧ c ≤ n := by
  cases atLeast with
  | infinite unpacked =>
      left
      rw [Binary64.integer?, unpacked]
  | @finite mantissa exponent nonzero unpacked reaches =>
      rw [Binary64.integer?, unpacked]
      simp only [isNegative, signed, Bool.false_eq_true, if_false]
      split_ifs with whole
      · refine .inr ⟨_, rfl, Int.ofNat_le.mpr ?_⟩
        exact (Nat.le_div_iff_mul_le (Nat.two_pow_pos _)).mpr reaches
      · exact .inl rfl

theorem unpack_zero : unpack 0.0 = .zero .positive := by rfl

theorem AtLeast.not_negative {x : Float} (atLeast : AtLeast c x) : ¬ x < 0.0 := by
  intro negative
  have less : (unpack x).lt (unpack 0.0) = true := of_decide_eq_true negative
  cases atLeast with
  | infinite unpacked =>
      rw [unpacked, unpack_zero] at less
      cases less
  | finite unpacked reaches =>
      rw [unpacked, unpack_zero] at less
      cases less

/-! ### Signs -/

def NotNegative (x : Float) : Prop := sign? (unpack x) ≠ some .negative

theorem notNegative_of_pack {x : Float} {f : UnpackedFloat}
    (packed : x.toModel = Float.Model.pack f) (sign : sign? f ≠ some .negative) :
    NotNegative x := by
  rw [NotNegative, unpack, packed]
  rcases sign_pack f with unsigned | same
  · rw [unsigned]
    exact nofun
  · rw [same]
    exact sign

theorem NotNegative.mul {x y : Float} (left : NotNegative x) (right : NotNegative y) :
    NotNegative (x * y) :=
  notNegative_of_pack rfl (sign_ne_negative (sign_mul (unpack x) (unpack y)) rfl left right)

theorem NotNegative.div {x y : Float} (left : NotNegative x) (right : NotNegative y) :
    NotNegative (x / y) :=
  notNegative_of_pack rfl (sign_ne_negative (sign_div (unpack x) (unpack y)) rfl left right)

theorem AtLeast.notNegative {c : Nat} {x : Float} (atLeast : AtLeast c x) : NotNegative x := by
  cases atLeast with
  | infinite unpacked =>
      rw [NotNegative, unpacked]
      exact nofun
  | finite unpacked reaches =>
      rw [NotNegative, unpacked]
      exact nofun

theorem nearestQuotient_nonneg (n d : Nat) : 0 ≤ nearestQuotient n d := by
  rw [nearestQuotient, Int.fdiv_eq_ediv_of_nonneg _ (by omega)]
  exact Int.ediv_nonneg (by omega) (by omega)

theorem NotNegative.roundBy {x : Float} {round : Int → Nat → Int} (sign : NotNegative x)
    (keeps : ∀ n d : Nat, 0 < d → 0 ≤ round n d) : NotNegative (roundBy round x) := by
  unfold Binary64.roundBy
  cases unpacked : unpack x with
  | finite s mantissa exponent positive =>
      rw [NotNegative, unpacked] at sign
      obtain rfl : s = .positive := by
        cases s with
        | positive => rfl
        | negative => exact absurd rfl sign
      simp only [isNegative, signed, Bool.false_eq_true, if_false]
      split_ifs with zero
      · exact nofun
      · obtain ⟨n, same⟩ := Int.eq_ofNat_of_zero_le (keeps _ _ (denominator_pos mantissa exponent))
        rw [same] at zero ⊢
        exact (atLeast_ofNat (c := 1) (by decide) (by decide) (by omega)).notNegative
  | _ => exact sign

theorem notNegative_of_positive {x : Float} (positive : 0.0 < x) : NotNegative x := by
  have less : (unpack 0.0).lt (unpack x) = true := of_decide_eq_true positive
  rw [unpack_zero] at less
  intro negative
  cases unpacked : unpack x with
  | notANumber =>
      rw [unpacked] at negative
      cases negative
  | _ =>
      rw [unpacked] at negative less
      cases negative
      cases less

end LiveHls.Binary64
