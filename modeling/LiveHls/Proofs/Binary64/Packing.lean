import LiveHls.Proofs.Binary64.Rounding
/-! Packing. A stored number reads as what it is, unless its exponent is too large, and is not changed
by what is exact. Products and quotients have the sign of their operands, or none. -/
namespace LiveHls.Binary64

open Float.Model Float.Model.UnpackedFloat

variable {mantissa : Nat} {exponent : Int} {x y : Float}

/-! ### Packing -/

theorem implicit_toNat {n : Nat} (m : BitVec n) : (1#1 ++ m).toNat = 2 ^ n + m.toNat := by
  rw [BitVec.toNat_append, ← Nat.shiftLeft_add_eq_or_of_lt m.isLt]
  simp [Nat.shiftLeft_eq]

theorem unpackSign_packComponents (spec : Format) (sign : Sign) (e : BitVec spec.exponentBits)
    (m : BitVec spec.mantissaBitsWithoutImplicit) :
    Sign.ofBitVec (unpackSign (packComponents spec sign e m)) = sign := by
  have bits : unpackSign (packComponents spec sign e m) = sign.toBitVec := by
    apply BitVec.eq_of_getLsbD_eq
    intro i inside
    obtain rfl : i = 0 := by omega
    simp [unpackSign, packComponents, BitVec.getLsbD_append, BitVec.getElem_append]
  rw [bits]
  cases sign <;> rfl

theorem unpack_packedInfinity (sign : Sign) :
    UnpackedFloat.unpack Format.binary64 (packedInfinity Format.binary64 sign) =
      .infinity sign := by
  unfold UnpackedFloat.unpack packedInfinity
  simp only [unpackExponent_packComponents, unpackMantissa_packComponents,
    unpackSign_packComponents]
  rfl

theorem unpack_packComponents_normal (sign : Sign) {b m : Nat} (positive : 0 < m) (low : 0 < b)
    (high : b < 2047) (least : 2 ^ 52 ≤ m) (bits : m < 2 ^ 53) :
    UnpackedFloat.unpack Format.binary64 (packComponents Format.binary64 sign
      (BitVec.ofNat 11 b) (BitVec.ofNat 52 m)) = .finite sign m (b - 1075) positive := by
  have biased : (BitVec.ofNat 11 b).toNat = b :=
    (BitVec.toNat_ofNat _ _).trans (Nat.mod_eq_of_lt (by omega))
  have mantissa : (1#1 ++ BitVec.ofNat 52 m).toNat = m := by
    rw [implicit_toNat, BitVec.toNat_ofNat]
    omega
  have finite : BitVec.ofNat 11 b ≠ -1#11 := by
    intro same
    rw [same] at biased
    change 2047 = b at biased
    omega
  have implicit : BitVec.ofNat 11 b ≠ 0#11 := by
    intro same
    rw [same] at biased
    change 0 = b at biased
    omega
  unfold UnpackedFloat.unpack
  simp only [unpackExponent_packComponents, unpackMantissa_packComponents,
    unpackSign_packComponents]
  rw [if_neg finite, if_neg implicit]
  congr 1
  rw [biased]
  rfl

/-- A normal number is kept as it is, unless its exponent is too large. -/
theorem unpack_pack_normal_eq {sign : Sign} {m : Nat} {e : Int} (positive : 0 < m)
    (normal : Normal m e) :
    (Float.Model.pack (.finite sign m e positive)).unpack =
      if e ≤ 971 then .finite sign m e positive else .infinity sign := by
  obtain ⟨least, bits, low⟩ := normal
  have log : m.log2 = 52 := (Nat.log2_eq_iff (by omega)).mpr ⟨least, bits⟩
  unfold Float.Model.unpack Float.Model.pack
  simp only [UnpackedFloat.pack]
  split_ifs with large fits exact fits fits
  · change 2 ^ 11 ≤ (e + 1023 + 52).toNat + 1 at large
    omega
  · exact unpack_packedInfinity sign
  · change ¬ 2 ^ 11 ≤ (e + 1023 + 52).toNat + 1 at large
    have exponent : ((e + 1023 + 52).toNat : Int) - 1075 = e := by omega
    have kept := unpack_packComponents_normal sign positive (b := (e + 1023 + 52).toNat) (by omega)
      (by omega) least bits
    simp only [exponent] at kept
    exact kept
  · change ¬ 2 ^ 11 ≤ (e + 1023 + 52).toNat + 1 at large
    omega
  · exact absurd (congrArg (· + 1) log) exact
  · exact absurd (congrArg (· + 1) log) exact

theorem unpack_pack_subnormal {sign : Sign} {m : Nat} (positive : 0 < m) (small : m < 2 ^ 52) :
    (Float.Model.pack (.finite sign m (-1074) positive)).unpack =
      .finite sign m (-1074) positive := by
  have short : m.log2 + 1 ≠ Format.binary64.mantissaBits := by
    have bits := (Nat.log2_lt (Nat.ne_of_gt positive)).mpr small
    show m.log2 + 1 ≠ 53
    omega
  have kept : (BitVec.ofNat 52 m).toNat = m :=
    (BitVec.toNat_ofNat _ _).trans (Nat.mod_eq_of_lt small)
  have nonzero : BitVec.ofNat 52 m ≠ 0#52 := by
    intro zero
    rw [zero] at kept
    exact absurd kept (by simp; omega)
  change UnpackedFloat.unpack Format.binary64 (UnpackedFloat.pack Format.binary64 _) = _
  simp only [UnpackedFloat.pack]
  rw [if_neg (by decide), if_neg short]
  unfold UnpackedFloat.unpack
  simp only [unpackExponent_packComponents, unpackMantissa_packComponents,
    unpackSign_packComponents]
  rw [if_neg (by decide), if_pos trivial, dif_neg nonzero]
  congr 1

/-- A stored number is kept as it is, unless it is too large and becomes infinite. -/
theorem unpack_pack_canonical_eq {sign : Sign} {m : Nat} {e : Int} (positive : 0 < m)
    (canonical : Canonical m e) :
    (Float.Model.pack (.finite sign m e positive)).unpack =
      if e ≤ 971 then .finite sign m e positive else .infinity sign := by
  obtain ⟨bits, least, long⟩ := canonical
  by_cases normal : 2 ^ 52 ≤ m
  · exact unpack_pack_normal_eq positive ⟨normal, bits, least⟩
  · obtain rfl := long.resolve_left normal
    exact unpack_pack_subnormal positive (Nat.lt_of_not_le normal)

theorem unpack_pack_canonical {sign : Sign} {m : Nat} {e : Int} (positive : 0 < m)
    (canonical : Canonical m e) :
    (Float.Model.pack (.finite sign m e positive)).unpack = .finite sign m e positive ∨
      (Float.Model.pack (.finite sign m e positive)).unpack = .infinity sign := by
  rw [unpack_pack_canonical_eq positive canonical]
  split
  · exact .inl rfl
  · exact .inr rfl

/-! ### Stored numbers -/

theorem mantissa_lt {x : Float} {sign : Sign} {positive : 0 < mantissa}
    (unpacked : unpack x = .finite sign mantissa exponent positive) : mantissa < 2 ^ 53 := by
  change UnpackedFloat.unpack Format.binary64 x.toModel.toBits.toBitVec = _ at unpacked
  unfold UnpackedFloat.unpack at unpacked
  simp only at unpacked
  split_ifs at unpacked
  · cases unpacked
    exact Nat.lt_trans (BitVec.isLt _) (by decide)
  · cases unpacked
    exact BitVec.isLt _

theorem canonical_of_unpack {sign : Sign} {positive : 0 < mantissa}
    (unpacked : unpack x = .finite sign mantissa exponent positive) :
    Canonical mantissa exponent := by
  change UnpackedFloat.unpack Format.binary64 x.toModel.toBits.toBitVec = _ at unpacked
  unfold UnpackedFloat.unpack at unpacked
  simp only at unpacked
  split_ifs at unpacked
  · rename_i _ least _
    cases unpacked
    have bits := (@unpackMantissa Format.binary64 x.toModel.toBits.toBitVec).isLt
    refine ⟨Nat.lt_trans bits (by decide), ?_, .inr ?_⟩
    · rw [least]
      decide
    · rw [least]
      rfl
  · rename_i _ least
    cases unpacked
    have nonzero : (@unpackExponent Format.binary64 x.toModel.toBits.toBitVec).toNat ≠ 0 :=
      fun zero => least (BitVec.eq_of_toNat_eq zero)
    refine ⟨BitVec.isLt _, ?_, .inl ?_⟩
    · show (-1074 : Int) ≤ _ - 1075
      omega
    · rw [implicit_toNat]
      exact Nat.le_add_right _ _

/-- A number is what it reads as. -/
theorem pack_unpack (x : Float) : Float.Model.pack (unpack x) = x.toModel := by
  have kept := pack_unpack_of_valid x.toModel.valid
  show (⟨⟨UnpackedFloat.pack Format.binary64
    (UnpackedFloat.unpack Format.binary64 x.toModel.toBits.toBitVec)⟩, _⟩ : Float.Model) = x.toModel
  simp only [kept]

theorem eq_of_unpack (same : unpack x = unpack y) : x = y := by
  have stored : x.toModel = y.toModel := by rw [← pack_unpack, same, pack_unpack]
  exact congrArg Float.ofModel stored

/-! ### Exact results -/

/-- Nothing is lost where only zeros are dropped. -/
theorem shiftRight_exact {n k : Nat} (multiple : 2 ^ k ∣ n) :
    ExtendedMantissa.ofMantissaAndAccuracy n .exact >>> k = ⟨n / 2 ^ k, false, false⟩ := by
  induction k with
  | zero => simp [HShiftRight.hShiftRight, Nat.repeat, ExtendedMantissa.ofMantissaAndAccuracy]
  | succ k ih =>
      have half : 2 ^ k ∣ n := Nat.dvd_trans (Nat.pow_dvd_pow 2 (Nat.le_succ k)) multiple
      have even : n / 2 ^ k % 2 = 0 := by
        obtain ⟨j, rfl⟩ := multiple
        rw [Nat.pow_succ, Nat.mul_assoc, Nat.mul_div_cancel_left _ (Nat.two_pow_pos k),
          Nat.mul_mod_right]
      change (ExtendedMantissa.ofMantissaAndAccuracy n .exact >>> k).shiftRightOne = _
      rw [ih half]
      simp only [ExtendedMantissa.shiftRightOne, even, Nat.div_div_eq_div_mul, Nat.pow_succ]
      rfl

/-- A stored number that is written with more bits is rounded to itself. -/
theorem roundWithAccuracy_of_stored (positive : 0 < mantissa)
    (canonical : Canonical mantissa exponent) (sign : Sign) (k : Nat) :
    roundWithAccuracy Format.binary64 sign (mantissa * 2 ^ k) (exponent - k) .exact =
      .finite sign mantissa exponent positive := by
  have kept := excess_of_canonical canonical
  obtain ⟨bits, least, long⟩ := canonical
  have log := log2_shift positive k
  have enough : 52 ≤ mantissa.log2 ∨ exponent = -1074 :=
    long.imp_left (Nat.le_log2 (Nat.ne_of_gt positive)).mpr
  have zeros : excess (mantissa * 2 ^ k) (exponent - k) = k := by
    rw [excess, targetExponent_eq] at kept ⊢
    omega
  have ample : Ample (mantissa * 2 ^ k) (exponent - k) := by
    rw [Ample]
    omega
  have stored := roundWithAccuracy_storedAs ample sign .exact
  have same : (shortened (mantissa * 2 ^ k) (exponent - k) .exact).roundedMantissa = mantissa := by
    rw [shortened, zeros, shiftRight_exact (Nat.dvd_mul_left _ _),
      Nat.mul_div_cancel _ (Nat.two_pow_pos k)]
    rfl
  rw [same, zeros, Int.sub_add_cancel] at stored
  generalize roundWithAccuracy Format.binary64 sign (mantissa * 2 ^ k) (exponent - k) .exact = result
    at stored ⊢
  cases stored with
  | zero => cases positive
  | same => rfl
  | halved => exact absurd bits (Nat.lt_irrefl _)

theorem mul_one_eq (one : unpack y = .finite .positive (2 ^ 52) (-52) (by decide)) : x * y = x := by
  have product : unpack (x * y) =
      (Float.Model.pack (UnpackedFloat.mul Format.binary64 (unpack x) (unpack y))).unpack := rfl
  have kept := congrArg Float.Model.unpack (pack_unpack x)
  suffices same : UnpackedFloat.mul Format.binary64 (unpack x) (unpack y) = unpack x by
    rw [← same, ← product] at kept
    exact eq_of_unpack kept
  rw [one]
  cases unpacked : unpack x with
  | notANumber => rfl
  | infinity sign | zero sign => cases sign <;> rfl
  | finite sign m e positive =>
      have stored :=
        roundWithAccuracy_of_stored positive (canonical_of_unpack unpacked) sign 52
      cases sign with
      | positive => exact stored
      | negative => exact stored

/-! ### Signs -/

/-- The sign, if the number has one. -/
def sign? : UnpackedFloat → Option Sign
  | .infinity sign | .zero sign | .finite sign .. => some sign
  | .notANumber => none

@[simp] theorem sign_notANumber : sign? .notANumber = none := rfl

@[simp] theorem sign_infinity (sign : Sign) : sign? (.infinity sign) = some sign := rfl

@[simp] theorem sign_zero (sign : Sign) : sign? (.zero sign) = some sign := rfl

@[simp] theorem sign_finite (sign : Sign) (mantissa : Nat) (exponent : Int)
    (positive : 0 < mantissa) : sign? (.finite sign mantissa exponent positive) = some sign := rfl

theorem sign_packComponents (sign : Sign) (e : BitVec 11) (m : BitVec 52) :
    sign? (UnpackedFloat.unpack Format.binary64 (packComponents Format.binary64 sign e m)) = none ∨
      sign? (UnpackedFloat.unpack Format.binary64 (packComponents Format.binary64 sign e m)) =
        some sign := by
  unfold UnpackedFloat.unpack
  simp only [unpackSign_packComponents]
  split_ifs <;> simp

theorem sign_pack (f : UnpackedFloat) :
    sign? (Float.Model.pack f).unpack = none ∨ sign? (Float.Model.pack f).unpack = sign? f := by
  change
    sign? (UnpackedFloat.unpack Format.binary64 (UnpackedFloat.pack Format.binary64 f)) = none ∨
    sign? (UnpackedFloat.unpack Format.binary64 (UnpackedFloat.pack Format.binary64 f)) = _
  unfold UnpackedFloat.pack
  cases f with
  | notANumber => exact .inl (by decide)
  | infinity sign => exact sign_packComponents sign _ _
  | zero sign => exact sign_packComponents sign _ _
  | finite sign m e positive =>
      simp only
      split_ifs
      · exact sign_packComponents sign _ _
      · exact sign_packComponents sign _ _
      · exact sign_packComponents sign _ _

@[simp] theorem sign_roundWithAccuracy (sign : Sign) (mantissa : Nat) (exponent : Int)
    (accuracy : Accuracy) :
    sign? (roundWithAccuracy Format.binary64 sign mantissa exponent accuracy) = some sign := by
  unfold roundWithAccuracy
  simp only
  split <;> rfl

/-- A product or quotient has the sign of its factors, or none. -/
theorem sign_mul (f g : UnpackedFloat) :
    sign? (UnpackedFloat.mul Format.binary64 f g) = none ∨
      ∃ s t, sign? f = some s ∧ sign? g = some t ∧
        sign? (UnpackedFloat.mul Format.binary64 f g) = some (s * t) := by
  cases f <;> cases g <;> simp [UnpackedFloat.mul]

theorem sign_div (f g : UnpackedFloat) :
    sign? (UnpackedFloat.div Format.binary64 f g) = none ∨
      ∃ s t, sign? f = some s ∧ sign? g = some t ∧
        sign? (UnpackedFloat.div Format.binary64 f g) = some (s / t) := by
  cases f <;> cases g <;> simp [UnpackedFloat.div]

/-- What is made of two numbers that are not negative is not negative. -/
theorem sign_ne_negative {f g result : UnpackedFloat} {op : Sign → Sign → Sign}
    (signs : sign? result = none ∨
      ∃ s t, sign? f = some s ∧ sign? g = some t ∧ sign? result = some (op s t))
    (keeps : op .positive .positive = .positive) (left : sign? f ≠ some .negative)
    (right : sign? g ≠ some .negative) : sign? result ≠ some .negative := by
  rcases signs with unfit | ⟨s, t, first, second, same⟩
  · rw [unfit]
    exact nofun
  · cases s with
    | negative => exact absurd first left
    | positive =>
        cases t with
        | negative => exact absurd second right
        | positive =>
            rw [same, keeps]
            exact nofun

end LiveHls.Binary64
