import Mathlib
import LiveHls.Decimal.Binary64
/-! Rounding to binary64. The bits that are left after one shift decide what is stored. A lower bound
of a magnitude that needs no more than the precision survives the truncation of the mantissa, and so
it survives rounding. -/
namespace LiveHls.Binary64

open Float.Model Float.Model.UnpackedFloat

/-- The magnitude `mantissa * 2 ^ exponent` is at least `c`. -/
def Reaches (c mantissa : Nat) (exponent : Int) : Prop :=
  c * (quotient mantissa exponent).2 ≤ (quotient mantissa exponent).1

instance (c mantissa : Nat) (exponent : Int) : Decidable (Reaches c mantissa exponent) :=
  inferInstanceAs (Decidable (_ ≤ _))

variable {c mantissa : Nat} {exponent : Int}

theorem denominator_pos (mantissa : Nat) (exponent : Int) : 0 < (quotient mantissa exponent).2 :=
  Nat.two_pow_pos _

/-- The comparison may be made at any power of two that makes both sides whole. -/
theorem reaches_iff {k : Nat} (whole : 0 ≤ exponent + k) :
    Reaches c mantissa exponent ↔ c * 2 ^ k ≤ mantissa * 2 ^ (exponent + k).toNat := by
  obtain ⟨j, rfl⟩ := Nat.exists_eq_add_of_le (show (-exponent).toNat ≤ k by omega)
  have power : (exponent + ((-exponent).toNat + j : Nat)).toNat = exponent.toNat + j := by omega
  rw [power, Nat.pow_add, Nat.pow_add, ← Nat.mul_assoc, ← Nat.mul_assoc,
    Nat.mul_le_mul_right_iff (Nat.two_pow_pos j)]
  rfl

theorem Reaches.mono {larger : Nat} (reaches : Reaches c mantissa exponent)
    (le : mantissa ≤ larger) : Reaches c larger exponent :=
  Nat.le_trans reaches (Nat.mul_le_mul_right _ le)

theorem Reaches.of_le {less : Nat} (reaches : Reaches c mantissa exponent) (le : less ≤ c) :
    Reaches less mantissa exponent :=
  Nat.le_trans (Nat.mul_le_mul_right _ le) reaches

theorem Reaches.log2 (reaches : Reaches c mantissa exponent) (positive : 0 < c) :
    0 ≤ mantissa.log2 + exponent := by
  rcases Int.lt_or_le exponent 0 with below | above
  · have whole := (reaches_iff (k := (-exponent).toNat) (by omega)).mp (reaches.of_le positive)
    rw [show (exponent + (-exponent).toNat).toNat = 0 by omega, Nat.one_mul, Nat.pow_zero,
      Nat.mul_one] at whole
    have power := Nat.two_pow_pos (-exponent).toNat
    have bits := (Nat.le_log2 (by omega)).mpr whole
    omega
  · omega

theorem reaches_shift {n : Nat} (le : c ≤ n) (k : Nat) : Reaches c (n * 2 ^ k) (-k) := by
  refine (reaches_iff (k := k) (by omega)).mpr ?_
  rw [show (-(k : Int) + k).toNat = 0 by omega, Nat.pow_zero, Nat.mul_one]
  exact Nat.mul_le_mul_right _ le

theorem log2_shift {n : Nat} (positive : 0 < n) (k : Nat) : (n * 2 ^ k).log2 = n.log2 + k := by
  have nonzero := Nat.mul_pos positive (Nat.two_pow_pos k)
  refine (Nat.log2_eq_iff (Nat.ne_of_gt nonzero)).mpr ⟨?_, ?_⟩
  · rw [Nat.pow_add]
    exact Nat.mul_le_mul_right _ (Nat.log2_self_le (Nat.ne_of_gt positive))
  · rw [Nat.add_right_comm, Nat.pow_add]
    exact Nat.mul_lt_mul_of_pos_right Nat.lt_log2_self (Nat.two_pow_pos k)

theorem le_log2_shift {n k : Nat} (positive : 0 < n) (enough : 52 ≤ n.log2 + k) :
    52 ≤ (n * 2 ^ k).log2 :=
  Nat.le_trans enough (Nat.le_of_eq (log2_shift positive k).symm)

/-- A mantissa of 53 bits, at an exponent that a normal number can have. -/
structure Normal (mantissa : Nat) (exponent : Int) : Prop where
  least : 2 ^ 52 ≤ mantissa
  bits : mantissa < 2 ^ 53
  exponent : -1074 ≤ exponent

/-- Cuts a mantissa down to its first 53 bits. -/
def truncated (mantissa : Nat) : Nat := mantissa / 2 ^ (mantissa.log2 - 52)

theorem truncated_bounds (long : 52 ≤ mantissa.log2) :
    2 ^ 52 ≤ truncated mantissa ∧ truncated mantissa < 2 ^ 53 := by
  have positive : mantissa ≠ 0 := by
    rintro rfl
    cases long
  have power := Nat.two_pow_pos (mantissa.log2 - 52)
  constructor
  · rw [truncated, Nat.le_div_iff_mul_le power, ← Nat.pow_add, Nat.add_sub_cancel' long]
    exact Nat.log2_self_le positive
  · rw [truncated, Nat.div_lt_iff_lt_mul power, ← Nat.pow_add]
    exact Nat.lt_of_lt_of_eq Nat.lt_log2_self (congrArg _ (by omega))

theorem Reaches.truncated (reaches : Reaches c mantissa exponent) (small : c ≤ 2 ^ 53)
    (long : 52 ≤ mantissa.log2) :
    Reaches c (truncated mantissa) (mantissa.log2 - 52 + exponent) := by
  obtain ⟨least, -⟩ := truncated_bounds long
  rcases Int.lt_or_le 0 (mantissa.log2 - 52 + exponent) with above | below
  · -- the truncated mantissa alone has 53 bits, and there is a bit more
    refine (reaches_iff (k := 0) (by omega)).mpr ?_
    calc
      c * 2 ^ 0 ≤ 2 ^ 52 * 2 ^ 1 := by omega
      _ ≤ _ := Nat.mul_le_mul least (Nat.pow_le_pow_right (by decide) (by omega))
  · obtain ⟨k, power⟩ := Int.exists_eq_neg_ofNat below
    have whole := (reaches_iff (k := k + (mantissa.log2 - 52)) (by omega)).mp reaches
    refine (reaches_iff (k := k) (by omega)).mpr ?_
    rw [show (exponent + (k + (mantissa.log2 - 52) : Nat)).toNat = 0 by omega] at whole
    rw [show (mantissa.log2 - 52 + exponent + k).toNat = 0 by omega, Nat.pow_zero, Nat.mul_one,
      Binary64.truncated, Nat.le_div_iff_mul_le (Nat.two_pow_pos _), Nat.mul_assoc, ← Nat.pow_add]
    simpa using whole

theorem shiftRight_mantissa (em : ExtendedMantissa) (k : Nat) :
    (em >>> k).mantissa = em.mantissa / 2 ^ k := by
  induction k with
  | zero => simp [HShiftRight.hShiftRight, Nat.repeat]
  | succ k ih =>
      change (em >>> k).mantissa / 2 = _
      rw [ih, Nat.div_div_eq_div_mul, Nat.pow_succ]

theorem roundedMantissa_bounds (em : ExtendedMantissa) :
    em.mantissa ≤ em.roundedMantissa ∧ em.roundedMantissa ≤ em.mantissa + 1 := by
  obtain ⟨mantissa, round, sticky⟩ := em
  cases round <;> cases sticky <;>
    simp [ExtendedMantissa.roundedMantissa, ExtendedMantissa.accuracy, Accuracy.roundToNearestEven]
  omega

theorem mantissa_ofAccuracy (mantissa : Nat) (accuracy : Accuracy) :
    (ExtendedMantissa.ofMantissaAndAccuracy mantissa accuracy).mantissa = mantissa := by
  cases accuracy with
  | exact => rfl
  | inexact order => cases order <;> rfl

theorem targetExponent_eq (mantissa : Nat) (exponent : Int) :
    Format.binary64.targetExponent (totalExponent mantissa exponent) =
      max (mantissa.log2 - 52 + exponent) (-1074) := by
  simp only [Format.targetExponent, totalExponent, Format.mantissaBits, Format.minExponent]
  norm_num
  omega

/-! ### Rounding -/

/-- Mantissa and exponent as they are stored: 53 bits, or fewer at the least exponent. -/
structure Canonical (mantissa : Nat) (exponent : Int) : Prop where
  bits : mantissa < 2 ^ 53
  least : -1074 ≤ exponent
  long : 2 ^ 52 ≤ mantissa ∨ exponent = -1074

/-- There are bits enough, or the last one is not above the last that can be stored. -/
def Ample (mantissa : Nat) (exponent : Int) : Prop := 52 ≤ mantissa.log2 ∨ exponent ≤ -1074

/-- How many bits are cut off before rounding. -/
def excess (mantissa : Nat) (exponent : Int) : Nat :=
  (Format.binary64.targetExponent (totalExponent mantissa exponent) - exponent).toNat

theorem excess_of_normal (long : 52 ≤ mantissa.log2)
    (normal : -1074 ≤ mantissa.log2 - 52 + exponent) :
    excess mantissa exponent = mantissa.log2 - 52 := by
  rw [excess, targetExponent_eq]
  omega

theorem excess_of_canonical (canonical : Canonical mantissa exponent) :
    excess mantissa exponent = 0 := by
  obtain ⟨bits, least, -⟩ := canonical
  rw [excess, targetExponent_eq]
  rcases Nat.eq_zero_or_pos mantissa with rfl | positive
  · rw [Nat.log2_zero]
    omega
  · have log := (Nat.log2_lt (Nat.ne_of_gt positive)).mpr bits
    omega

/-- The mantissa that is left to be rounded, with what is known of the bits that are cut off. -/
def shortened (mantissa : Nat) (exponent : Int) (accuracy : Accuracy) : ExtendedMantissa :=
  ExtendedMantissa.ofMantissaAndAccuracy mantissa accuracy >>> excess mantissa exponent

theorem shortened_mantissa (mantissa : Nat) (exponent : Int) (accuracy : Accuracy) :
    (shortened mantissa exponent accuracy).mantissa = mantissa / 2 ^ excess mantissa exponent :=
  (shiftRight_mantissa _ _).trans (congrArg (· / _) (mantissa_ofAccuracy _ _))

theorem rounded_bounds (mantissa : Nat) (exponent : Int) (accuracy : Accuracy) :
    mantissa / 2 ^ excess mantissa exponent ≤
        (shortened mantissa exponent accuracy).roundedMantissa ∧
      (shortened mantissa exponent accuracy).roundedMantissa ≤
        mantissa / 2 ^ excess mantissa exponent + 1 :=
  shortened_mantissa mantissa exponent accuracy ▸ roundedMantissa_bounds _

theorem Ample.shortened (ample : Ample mantissa exponent) :
    Canonical (mantissa / 2 ^ excess mantissa exponent) (exponent + excess mantissa exponent) := by
  by_cases normal : -1074 ≤ mantissa.log2 - 52 + exponent
  · have long : 52 ≤ mantissa.log2 := by
      rcases ample with long | low
      · exact long
      · omega
    obtain ⟨low, high⟩ := truncated_bounds long
    rw [excess_of_normal long normal]
    exact ⟨high, by omega, .inl low⟩
  · have low : exponent ≤ -1074 := by
      rcases ample with long | low
      · omega
      · exact low
    rw [excess, targetExponent_eq, max_eq_right (by omega), Int.toNat_of_nonneg (by omega)]
    refine ⟨?_, by omega, .inr (by omega)⟩
    rw [Nat.div_lt_iff_lt_mul (Nat.two_pow_pos _), ← Nat.pow_add]
    exact Nat.lt_log2_self.trans_le (Nat.pow_le_pow_right (by decide) (by omega))

/-- The number that a mantissa of at most 53 bits is stored as, or the next power of two. -/
inductive StoredAs (sign : Sign) : Nat → Int → UnpackedFloat → Prop
  | zero {e : Int} : StoredAs sign 0 e (.zero sign)
  | same {m : Nat} {e : Int} {positive : 0 < m} (canonical : Canonical m e) :
      StoredAs sign m e (.finite sign m e positive)
  | halved {e : Int} {positive : 0 < 2 ^ 52} (least : -1074 ≤ e) :
      StoredAs sign (2 ^ 53) e (.finite sign (2 ^ 52) (e + 1) positive)

theorem StoredAs.exists_finite {sign : Sign} {f : UnpackedFloat}
    (stored : StoredAs sign mantissa exponent f) (nonzero : 0 < mantissa) :
    ∃ m e positive, f = .finite sign m e positive ∧ Canonical m e := by
  cases stored with
  | zero => cases nonzero
  | same canonical => exact ⟨_, _, _, rfl, canonical⟩
  | halved least => exact ⟨_, _, _, rfl, by decide, by omega, .inl (Nat.le_refl _)⟩

/-- Shifting once more loses nothing of a mantissa that fits, nor of the one above those. -/
theorem storedAs_of_shift (high : mantissa ≤ 2 ^ 53) (least : -1074 ≤ exponent)
    (long : 2 ^ 52 ≤ mantissa ∨ exponent = -1074) (sign : Sign) :
    let shifted := shiftToTargetExponent Format.binary64 mantissa exponent .exact
    StoredAs sign mantissa exponent
      (if zero : shifted.1.mantissa = 0 then .zero sign
        else .finite sign shifted.1.mantissa shifted.2 (Nat.pos_of_ne_zero zero)) := by
  intro shifted
  have cut : shifted.1.mantissa = mantissa / 2 ^ excess mantissa exponent :=
    shortened_mantissa mantissa exponent .exact
  have power : shifted.2 = exponent + excess mantissa exponent := rfl
  rcases Nat.lt_or_eq_of_le high with bits | rfl
  · have canonical : Canonical mantissa exponent := ⟨bits, least, long⟩
    rw [excess_of_canonical canonical] at cut power
    rw [Nat.pow_zero, Nat.div_one] at cut
    rw [Nat.cast_zero, Int.add_zero] at power
    simp only [cut, power]
    split
    · rename_i zero
      exact zero ▸ .zero
    · exact .same canonical
  · have log : (2 ^ 53).log2 = 53 := Nat.log2_two_pow
    have one : excess (2 ^ 53) exponent = 1 := by
      rw [excess_of_normal (by omega) (by omega), log]
    rw [one] at cut power
    simp only [cut, power]
    exact .halved least

/-- The first shift alone decides about the result. -/
theorem roundWithAccuracy_storedAs (ample : Ample mantissa exponent) (sign : Sign)
    (accuracy : Accuracy) :
    StoredAs sign (shortened mantissa exponent accuracy).roundedMantissa
      (exponent + excess mantissa exponent)
      (roundWithAccuracy Format.binary64 sign mantissa exponent accuracy) := by
  obtain ⟨bits, least, long⟩ := ample.shortened
  obtain ⟨lower, upper⟩ := rounded_bounds mantissa exponent accuracy
  exact storedAs_of_shift (Nat.le_trans upper bits) least (long.imp_left fun low => low.trans lower)
    sign

theorem Reaches.halved (reaches : Reaches c (mantissa * 2) exponent) :
    Reaches c mantissa (exponent + 1) := by
  have whole := (reaches_iff (k := (-exponent).toNat) (by omega)).mp reaches
  refine (reaches_iff (k := (-exponent).toNat) (by omega)).mpr ?_
  rw [show (exponent + 1 + (-exponent).toNat).toNat = (exponent + (-exponent).toNat).toNat + 1 by
    omega, Nat.pow_succ', ← Nat.mul_assoc]
  exact whole

/-- Rounding a mantissa that is long enough keeps the lower bounds it has. -/
theorem roundWithAccuracy_normal (sign : Sign) (accuracy : Accuracy) (long : 52 ≤ mantissa.log2)
    (normal : -1074 ≤ mantissa.log2 - 52 + exponent) :
    ∃ m e positive, roundWithAccuracy Format.binary64 sign mantissa exponent accuracy =
        .finite sign m e positive ∧
      Canonical m e ∧ ∀ c, c ≤ 2 ^ 53 → Reaches c mantissa exponent → Reaches c m e := by
  have stored := @roundWithAccuracy_storedAs mantissa exponent (.inl long) sign accuracy
  obtain ⟨lower, -⟩ := rounded_bounds mantissa exponent accuracy
  obtain ⟨least, -⟩ := truncated_bounds long
  have power : exponent + excess mantissa exponent = mantissa.log2 - 52 + exponent := by
    rw [excess_of_normal long normal]
    omega
  rw [excess_of_normal long normal] at lower
  have kept (c : Nat) (small : c ≤ 2 ^ 53) (reaches : Reaches c mantissa exponent) :
      Reaches c (shortened mantissa exponent accuracy).roundedMantissa
        (exponent + excess mantissa exponent) :=
    power ▸ (reaches.truncated small long).mono lower
  have nonzero : 2 ^ 52 ≤ (shortened mantissa exponent accuracy).roundedMantissa := least.trans lower
  generalize (shortened mantissa exponent accuracy).roundedMantissa = rounded at stored kept nonzero
  generalize roundWithAccuracy Format.binary64 sign mantissa exponent accuracy = result at stored ⊢
  cases stored with
  | zero => cases nonzero
  | same canonical => exact ⟨_, _, _, rfl, canonical, kept⟩
  | halved low =>
      exact ⟨_, _, _, rfl, ⟨by decide, by omega, .inl (Nat.le_refl _)⟩, fun c small reaches =>
        (kept c small reaches).halved⟩

end LiveHls.Binary64
