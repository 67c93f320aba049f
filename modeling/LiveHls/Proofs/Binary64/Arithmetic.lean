import Mathlib
import LiveHls.Proofs.Binary64.Rational
/-! Binary64 arithmetic over the rationals. As long as it is not too large, a product, a quotient or a
whole number is the exact one, rounded. -/
namespace LiveHls.Binary64

open Float.Model Float.Model.UnpackedFloat

variable {m n : Nat} {e : Int} {v r p q : ℚ} {x y : Float} {f : UnpackedFloat} {accuracy : Accuracy}

/-! ### Numbers that are read -/

/-- The number is finite, not negative, and this rational. -/
inductive Reads (x : Float) : ℚ → Prop
  | zero {sign : Sign} (unpacked : unpack x = .zero sign) : Reads x 0
  | finite {m : Nat} {e : Int} {positive : 0 < m}
      (unpacked : unpack x = .finite .positive m e positive) : Reads x (scaled m e)

/-- The greatest finite number. -/
def largest : ℚ := scaled (2 ^ 53 - 1) 971

theorem stored_largest : Stored largest :=
  ⟨2 ^ 53 - 1, 971, ⟨by decide, by decide, .inl (by decide)⟩, rfl⟩

theorem scaled_le_largest (bits : m < 2 ^ 53) (fits : e ≤ 971) : scaled m e ≤ largest :=
  (scaled_le (Nat.le_sub_one_of_lt bits) e).trans
    (mul_le_mul_of_nonneg_left (power_le fits) (Nat.cast_nonneg _))

theorem natCast_le_largest (small : n < 2 ^ 53) : (n : ℚ) ≤ largest :=
  scaled_zero n ▸ scaled_le_largest small (by decide)

theorem largest_lt : largest < 2 ^ (1024 : Int) :=
  scaled_lt_two_pow (by decide) 971

theorem exponent_le (canonical : Canonical m e) (le : scaled m e ≤ largest) : e ≤ 971 := by
  by_contra large
  have long : 2 ^ 52 ≤ m := canonical.long.resolve_right (by omega)
  exact absurd le (scaled_lt_of_exponent (by decide) long (Int.not_le.mp large)).not_ge

theorem exponent_ge (canonical : Canonical m e) (ge : 2 ^ (1024 : Int) ≤ scaled m e) : 972 ≤ e := by
  have less := ge.trans_lt (scaled_lt_two_pow canonical.bits e)
  have exponents := (zpow_lt_zpow_iff_right₀ (by norm_num)).mp less
  omega

theorem reads_of_packed (packed : x.toModel = Float.Model.pack f) (shape : Shape .positive f)
    (fits : size f ≤ largest) : Reads x (size f) := by
  have unpacked := congrArg Float.Model.unpack packed
  cases shape with
  | zero => exact .zero unpacked
  | @finite m e positive canonical =>
      rw [unpack_pack_canonical_eq positive canonical,
        if_pos (exponent_le canonical fits)] at unpacked
      exact .finite unpacked

theorem infinite_of_packed (packed : x.toModel = Float.Model.pack f) (shape : Shape .positive f)
    (large : 2 ^ (1024 : Int) ≤ size f) : unpack x = .infinity .positive := by
  have unpacked := congrArg Float.Model.unpack packed
  cases shape with
  | zero => exact absurd large (not_le.mpr (power_pos 1024))
  | @finite m e positive canonical =>
      have high := exponent_ge canonical large
      rwa [unpack_pack_canonical_eq positive canonical, if_neg (by omega)] at unpacked

theorem reads_of_rounded (ample : Ample m e)
    (part : WholePart (.ofMantissaAndAccuracy m accuracy) v) (nonneg : 0 ≤ v)
    (rounded : x.toModel =
      Float.Model.pack (roundWithAccuracy Format.binary64 .positive m e accuracy))
    (fits : v * 2 ^ e ≤ largest) : ∃ r, Reads x r ∧ Rounds (v * 2 ^ e) r := by
  obtain ⟨shape, rounds⟩ := roundWithAccuracy_rounds ample part nonneg .positive
  exact ⟨_, reads_of_packed rounded shape (rounds.le stored_largest fits), rounds⟩

theorem infinite_of_rounded (ample : Ample m e)
    (part : WholePart (.ofMantissaAndAccuracy m accuracy) v) (nonneg : 0 ≤ v)
    (rounded : x.toModel =
      Float.Model.pack (roundWithAccuracy Format.binary64 .positive m e accuracy))
    (large : 2 ^ (1024 : Int) ≤ v * 2 ^ e) : unpack x = .infinity .positive := by
  obtain ⟨shape, rounds⟩ := roundWithAccuracy_rounds ample part nonneg .positive
  exact infinite_of_packed rounded shape (rounds.ge (stored_two_zpow (by decide)) large)

/-! ### Products and quotients -/

theorem ample_mul {n : Nat} {k : Int} (positive : 0 < m) (other : 0 < n) (first : Canonical m e)
    (second : Canonical n k) : Ample (m * n) (e + k) := by
  have nonzero : m * n ≠ 0 := (Nat.mul_pos positive other).ne'
  rcases first.long with long | rfl
  · exact .inl ((Nat.le_log2 nonzero).mpr (long.trans (Nat.le_mul_of_pos_right m other)))
  · rcases second.long with long | rfl
    · exact .inl ((Nat.le_log2 nonzero).mpr (long.trans (Nat.le_mul_of_pos_left n positive)))
    · exact .inr (by decide)

theorem scaled_mul (m n : Nat) (e k : Int) :
    scaled m e * scaled n k = ((m * n : Nat) : ℚ) * 2 ^ (e + k) := by
  rw [scaled, scaled, power_add, Nat.cast_mul]
  ring

theorem Reads.positive (reads : Reads x p) (positive : 0 < p) :
    ∃ m e nonzero, unpack x = .finite .positive m e nonzero ∧ Canonical m e ∧ p = scaled m e := by
  cases reads with
  | zero => exact absurd positive (lt_irrefl 0)
  | finite unpacked => exact ⟨_, _, _, unpacked, canonical_of_unpack unpacked, rfl⟩

theorem toModel_mul (x y : Float) : (x * y).toModel =
    Float.Model.pack (UnpackedFloat.mul Format.binary64 (unpack x) (unpack y)) := rfl

theorem toModel_div (x y : Float) : (x / y).toModel =
    Float.Model.pack (UnpackedFloat.div Format.binary64 (unpack x) (unpack y)) := rfl

/-- The product of two positive numbers is the exact one, rounded. -/
theorem mul_rounded (first : Reads x p) (second : Reads y q) (positive : 0 < p) (other : 0 < q) :
    ∃ m e, Ample m e ∧ p * q = m * 2 ^ e ∧
      (x * y).toModel =
        Float.Model.pack (roundWithAccuracy Format.binary64 .positive m e .exact) := by
  obtain ⟨m, e, nonzero, left, canonical, rfl⟩ := first.positive positive
  obtain ⟨n, k, more, right, canonical', rfl⟩ := second.positive other
  refine ⟨m * n, e + k, ample_mul nonzero more canonical canonical', scaled_mul m n e k, ?_⟩
  rw [toModel_mul, left, right]
  rfl

theorem Reads.mul (first : Reads x p) (second : Reads y q) (positive : 0 < p) (other : 0 < q)
    (fits : p * q ≤ largest) : ∃ r, Reads (x * y) r ∧ Rounds (p * q) r := by
  obtain ⟨m, e, ample, exact, rounded⟩ := mul_rounded first second positive other
  rw [exact] at fits ⊢
  exact reads_of_rounded ample (wholePart_exact m) (Nat.cast_nonneg m) rounded fits

theorem Reads.mul_infinite (first : Reads x p) (second : Reads y q) (positive : 0 < p)
    (other : 0 < q) (large : 2 ^ (1024 : Int) ≤ p * q) : unpack (x * y) = .infinity .positive := by
  obtain ⟨m, e, ample, exact, rounded⟩ := mul_rounded first second positive other
  rw [exact] at large
  exact infinite_of_rounded ample (wholePart_exact m) (Nat.cast_nonneg m) rounded large

/-- The exponent of a quotient before rounding. -/
def quotientExponent (m : Nat) (e : Int) (n : Nat) (k : Int) : Int :=
  min (e - k) (max (m.log2 + e - (n.log2 + k) - 53) (-1074))

theorem divCore_eq (m : Nat) (e : Int) (n : Nat) (k : Int) :
    divCore Format.binary64 m e n k =
      (m * 2 ^ (e - k - quotientExponent m e n k).toNat / n, quotientExponent m e n k,
        accuracyOfFraction (m * 2 ^ (e - k - quotientExponent m e n k).toNat % n) n) := by
  have target : min (e - k) (Format.binary64.targetExponent
      (totalExponent m e - totalExponent n k)) = quotientExponent m e n k := by
    simp only [quotientExponent, Format.targetExponent, totalExponent, Format.mantissaBits,
      Format.minExponent]
    norm_num
    omega
  simp only [divCore, target, Nat.shiftLeft_eq]

/-- The mantissa is shifted until the quotient has bits enough. -/
theorem ample_div {n : Nat} {k : Int} (positive : 0 < m) (other : 0 < n) :
    Ample (m * 2 ^ (e - k - quotientExponent m e n k).toNat / n) (quotientExponent m e n k) := by
  by_cases low : quotientExponent m e n k ≤ -1074
  · exact .inr low
  · left
    have enough : 52 + (n.log2 + 1) ≤ m.log2 + (e - k - quotientExponent m e n k).toNat := by
      unfold quotientExponent at low ⊢
      omega
    have long : 2 ^ 52 ≤ m * 2 ^ (e - k - quotientExponent m e n k).toNat / n := by
      rw [Nat.le_div_iff_mul_le other]
      calc
        2 ^ 52 * n ≤ 2 ^ 52 * 2 ^ (n.log2 + 1) := Nat.mul_le_mul_left _ Nat.lt_log2_self.le
        _ = 2 ^ (52 + (n.log2 + 1)) := (Nat.pow_add ..).symm
        _ ≤ 2 ^ (m.log2 + (e - k - quotientExponent m e n k).toNat) :=
          Nat.pow_le_pow_right (by decide) enough
        _ = 2 ^ m.log2 * 2 ^ (e - k - quotientExponent m e n k).toNat := Nat.pow_add ..
        _ ≤ _ := Nat.mul_le_mul_right _ (Nat.log2_self_le positive.ne')
    exact (Nat.le_log2 (by omega)).mpr long

theorem scaled_div (m n : Nat) (e k : Int) : scaled m e / scaled n k =
    ((m * 2 ^ (e - k - quotientExponent m e n k).toNat : Nat) : ℚ) / n *
      2 ^ quotientExponent m e n k := by
  have power : (2 : ℚ) ^ (e - k) =
      2 ^ (e - k - quotientExponent m e n k).toNat * 2 ^ quotientExponent m e n k := by
    have low : quotientExponent m e n k ≤ e - k := min_le_left _ _
    rw [← zpow_natCast, ← power_add]
    congr 1
    omega
  rw [scaled, scaled, mul_div_mul_comm, ← zpow_sub₀ (by norm_num), power, Nat.cast_mul, Nat.cast_pow,
    Nat.cast_ofNat]
  ring

theorem unpack_pack_zero (sign : Sign) : (Float.Model.pack (.zero sign)).unpack = .zero sign := by
  cases sign <;> rfl

theorem Reads.div (first : Reads x p) (second : Reads y q) (other : 0 < q)
    (fits : p / q ≤ largest) : ∃ r, Reads (x / y) r ∧ Rounds (p / q) r := by
  obtain ⟨n, k, more, right, -, rfl⟩ := second.positive other
  have quotient := toModel_div x y
  rw [right] at quotient
  cases first with
  | @zero sign left =>
      have zero : UnpackedFloat.div Format.binary64 (.zero sign) (.finite .positive n k more) =
          .zero sign := by
        cases sign <;> rfl
      rw [left, zero] at quotient
      have unpacked := (congrArg Float.Model.unpack quotient).trans (unpack_pack_zero sign)
      rw [zero_div]
      exact ⟨0, .zero unpacked, .refl 0⟩
  | @finite m e nonzero left =>
      rw [left] at quotient
      simp only [UnpackedFloat.div, divCore_eq] at quotient
      rw [scaled_div] at fits ⊢
      exact reads_of_rounded (ample_div nonzero more) (wholePart_fraction more)
        (div_nonneg (Nat.cast_nonneg _) (Nat.cast_nonneg n)) quotient fits

theorem div_infinite (infinite : unpack x = .infinity .positive) (reads : Reads y q)
    (positive : 0 < q) : unpack (x / y) = .infinity .positive := by
  obtain ⟨m, e, _, unpacked, -⟩ := reads.positive positive
  refine (congrArg Float.Model.unpack (toModel_div x y)).trans ?_
  rw [infinite, unpacked]
  exact unpack_packedInfinity .positive

/-! ### Whole numbers -/

theorem reads_ofNat (positive : 0 < n) (fits : (n : ℚ) ≤ largest) :
    ∃ r, Reads (Float.ofNat n) r ∧ Rounds n r := by
  obtain ⟨k, enough, rounded⟩ := toModel_ofNat positive
  have shifted : ((n * 2 ^ k : Nat) : ℚ) * 2 ^ (-(k : Int)) = n := by
    rw [zpow_neg, zpow_natCast, Nat.cast_mul, Nat.cast_pow, Nat.cast_ofNat]
    exact mul_inv_cancel_right₀ (by positivity) _
  have result := reads_of_rounded (.inl (le_log2_shift positive enough)) (wholePart_exact _)
    (Nat.cast_nonneg _) rounded (shifted.trans_le fits)
  rwa [shifted] at result

theorem quotient_eq (m : Nat) (e : Int) :
    ((quotient m e).1 : ℚ) / (quotient m e).2 = scaled m e := by
  simp only [quotient, Nat.pow_eq]
  rw [div_eq_iff (by positivity), scaled, mul_assoc, Nat.cast_mul, Nat.cast_pow, Nat.cast_pow,
    Nat.cast_ofNat, ← zpow_natCast, ← zpow_natCast, ← power_add]
  congr 2
  omega

theorem nearestQuotient_eq (m : Nat) (e : Int) :
    nearestQuotient (quotient m e).1 (quotient m e).2 = ⌊scaled m e + 1 / 2⌋₊ := by
  have positive : ((quotient m e).2 : ℚ) ≠ 0 := Nat.cast_ne_zero.mpr (denominator_pos m e).ne'
  have half : scaled m e + 1 / 2 =
      ((2 * (quotient m e).1 + (quotient m e).2 : Nat) : ℚ) / (2 * (quotient m e).2 : Nat) := by
    rw [← quotient_eq]
    push_cast
    field_simp
  rw [half, Nat.floor_div_eq_div, nearestQuotient, Int.fdiv_eq_ediv_of_nonneg _ (by omega)]
  push_cast
  rfl

theorem ceilQuotient_eq (m : Nat) (e : Int) :
    ceilQuotient (quotient m e).1 (quotient m e).2 = ⌈scaled m e⌉₊ := by
  have exact := Rat.ceil_intCast_div_natCast (quotient m e).1 (quotient m e).2
  rw [Int.cast_natCast, quotient_eq] at exact
  rw [Int.natCast_ceil_eq_ceil (scaled_nonneg m e), exact, ceilQuotient,
    Int.fdiv_eq_ediv_of_nonneg _ (Int.natCast_nonneg _)]

/-- Rounding to a whole number. -/
theorem Reads.roundBy {round : Int → Nat → Int} (whole : ℚ → Nat) (reads : Reads x p)
    (zero : whole 0 = 0)
    (same : ∀ (m : Nat) (e : Int), round (quotient m e).1 (quotient m e).2 = whole (scaled m e))
    (fits : whole p ≤ largest) : ∃ r, Reads (roundBy round x) r ∧ Rounds (whole p) r := by
  unfold Binary64.roundBy
  cases reads with
  | zero unpacked =>
      rw [unpacked, zero, Nat.cast_zero]
      exact ⟨0, .zero unpacked, .refl 0⟩
  | @finite m e nonzero unpacked =>
      rw [unpacked]
      simp only [isNegative, signed, Bool.false_eq_true, if_false, same]
      split
      · rename_i zero
        rw [Int.natCast_eq_zero.mp zero, Nat.cast_zero]
        exact ⟨0, .zero unpack_zero, .refl 0⟩
      · rename_i positive
        exact reads_ofNat (by omega) fits

theorem Reads.round (reads : Reads x p) (fits : ⌊p + 1 / 2⌋₊ ≤ largest) :
    ∃ r, Reads (round x) r ∧ Rounds ⌊p + 1 / 2⌋₊ r :=
  reads.roundBy (fun p => ⌊p + 1 / 2⌋₊) (by norm_num) nearestQuotient_eq fits

theorem Reads.ceil (reads : Reads x p) (fits : ⌈p⌉₊ ≤ largest) :
    ∃ r, Reads (ceil x) r ∧ Rounds ⌈p⌉₊ r :=
  reads.roundBy (fun p => ⌈p⌉₊) Nat.ceil_zero ceilQuotient_eq fits

/-- A whole number stays whole when it is rounded. -/
theorem Rounds.whole (rounds : Rounds n r) (stored : Stored r) : ∃ k : Nat, r = k := by
  obtain ⟨m, e, canonical, rfl⟩ := stored
  rcases Int.lt_or_le e 0 with below | above
  · have less : scaled m e < ((2 ^ 53 : Nat) : ℚ) := by
      calc
        scaled m e < scaled (2 ^ 53) e :=
          mul_lt_mul_of_pos_right (Nat.cast_lt.mpr canonical.bits) (power_pos e)
        _ ≤ scaled (2 ^ 53) 0 :=
          mul_le_mul_of_nonneg_left (power_le below.le) (Nat.cast_nonneg _)
        _ = ((2 ^ 53 : Nat) : ℚ) := scaled_zero _
    have small : n ≤ 2 ^ 53 := by
      by_contra large
      have more := rounds.ge (stored_natCast le_rfl) (Nat.cast_le.mpr (Nat.le_of_not_le large))
      exact absurd less more.not_gt
    exact ⟨n, rounds.eq (stored_natCast small)⟩
  · refine ⟨m * 2 ^ e.toNat, ?_⟩
    rw [scaled_eq above, Int.sub_zero, scaled_zero]

/-! ### Comparisons -/

theorem scaled_lt_iff {k : Int} (first : Canonical m e) (second : Canonical n k) :
    scaled m e < scaled n k ↔ e < k ∨ e = k ∧ m < n := by
  have ordered {m n : Nat} {e k : Int} (first : Canonical m e) (second : Canonical n k)
      (less : e < k) : scaled m e < scaled n k := by
    have least := first.least
    exact scaled_lt_of_exponent first.bits (second.long.resolve_right (by omega)) less
  rcases lt_trichotomy e k with less | rfl | greater
  · exact iff_of_true (ordered first second less) (.inl less)
  · rw [scaled, scaled, mul_lt_mul_iff_left₀ (power_pos e), Nat.cast_lt]
    omega
  · exact iff_of_false (ordered second first greater).not_gt (by omega)

/-- What is below a number is not above its neighbour below, if that has the same exponent. -/
theorem scaled_le_pred {k : Int} (first : Canonical m e) (second : Canonical n k) (long : 2 ^ 52 < n)
    (less : scaled m e < scaled n k) : scaled m e ≤ scaled (n - 1) k := by
  have bits := second.bits
  have before : Canonical (n - 1) k := ⟨by omega, second.least, .inl (by omega)⟩
  rw [scaled_lt_iff first second] at less
  rcases less with lower | ⟨rfl, fewer⟩
  · exact ((scaled_lt_iff first before).mpr (.inl lower)).le
  · exact scaled_le (Nat.le_sub_one_of_lt fewer) e

/-- What is above a number is not below its neighbour above, if that has the same exponent. -/
theorem succ_le_scaled {k : Int} (first : Canonical m e) (second : Canonical n k)
    (bits : n + 1 < 2 ^ 53) (less : scaled n k < scaled m e) : scaled (n + 1) k ≤ scaled m e := by
  have after : Canonical (n + 1) k := ⟨bits, second.least, second.long.imp_left (by omega)⟩
  rw [scaled_lt_iff second first] at less
  rcases less with higher | ⟨rfl, more⟩
  · exact ((scaled_lt_iff after first).mpr (.inl higher)).le
  · exact scaled_le more k

/-- Numbers are ordered as the rationals are. -/
theorem Reads.lt_iff (first : Reads x p) (second : Reads y q) : x < y ↔ p < q := by
  have less : x < y ↔ (unpack x).lt (unpack y) = true := ⟨of_decide_eq_true, decide_eq_true⟩
  rw [less]
  cases first with
  | zero left =>
      cases second with
      | zero right =>
          rw [left, right]
          exact iff_of_false nofun (lt_irrefl 0)
      | @finite n k other right =>
          rw [left, right]
          exact iff_of_true rfl (scaled_pos other k)
  | @finite m e _ left =>
      cases second with
      | zero right =>
          rw [left, right]
          exact iff_of_false nofun (scaled_nonneg m e).not_gt
      | @finite n k other right =>
          rw [scaled_lt_iff (canonical_of_unpack left) (canonical_of_unpack right), left, right]
          show (some ((compare e k).then (compare m n)) == some .lt) = true ↔ _
          rw [beq_iff_eq, Option.some_inj, Ordering.then_eq_lt, compare_lt_iff_lt, compare_eq_iff_eq,
            compare_lt_iff_lt]

theorem Reads.nonneg (reads : Reads x p) : 0 ≤ p := by
  cases reads with
  | zero => exact le_rfl
  | finite => exact scaled_nonneg _ _

theorem le_infinite (infinite : unpack x = .infinity .positive) (reads : Reads y q) : y ≤ x := by
  have least : y ≤ x ↔ (unpack y).le (unpack x) = true := ⟨of_decide_eq_true, decide_eq_true⟩
  rw [least, infinite]
  cases reads with
  | zero unpacked | finite unpacked =>
      rw [unpacked]
      rfl

theorem not_infinite_lt (infinite : unpack x = .infinity .positive) (y : Float) : ¬ x < y := by
  have less : x < y ↔ (unpack x).lt (unpack y) = true := ⟨of_decide_eq_true, decide_eq_true⟩
  rw [less, infinite]
  cases unpack y with
  | infinity sign => cases sign <;> decide
  | notANumber | zero | finite => exact nofun

theorem Reads.unique (first : Reads x p) (second : Reads x q) : p = q := by
  cases first with
  | zero left =>
      cases second with
      | zero => rfl
      | finite right => cases left.symm.trans right
  | finite left =>
      cases second with
      | zero right => cases left.symm.trans right
      | finite right =>
          cases left.symm.trans right
          rfl

/-- A positive number is stored in one way only. -/
theorem Reads.eq (first : Reads x p) (second : Reads y p) (positive : 0 < p) : x = y := by
  obtain ⟨m, e, _, left, canonical, same⟩ := first.positive positive
  obtain ⟨n, k, _, right, canonical', same'⟩ := second.positive positive
  have less := (scaled_lt_iff canonical canonical').not.mp (same ▸ same' ▸ lt_irrefl p)
  have greater := (scaled_lt_iff canonical' canonical).not.mp (same ▸ same' ▸ lt_irrefl p)
  obtain rfl : e = k := by omega
  obtain rfl : m = n := by omega
  exact eq_of_unpack (left.trans right.symm)

theorem Reads.le_largest (reads : Reads x p) : p ≤ largest := by
  cases reads with
  | zero => exact scaled_nonneg _ _
  | @finite m e positive unpacked =>
      have canonical := canonical_of_unpack unpacked
      have kept := congrArg Float.Model.unpack (pack_unpack x)
      rw [unpacked, unpack_pack_canonical_eq positive canonical] at kept
      refine scaled_le_largest canonical.bits ?_
      -- with a greater exponent the number would have been packed as infinite
      by_contra large
      rw [if_neg large] at kept
      cases kept.trans unpacked

theorem Reads.stored (reads : Reads x p) : Stored p := by
  cases reads with
  | zero => exact stored_zero
  | finite unpacked => exact ⟨_, _, canonical_of_unpack unpacked, rfl⟩

theorem Reads.isFinite (reads : Reads x p) : isFinite x = true := by
  cases reads with
  | zero unpacked | finite unpacked => rw [Binary64.isFinite, unpacked]

theorem Reads.le_iff (first : Reads x p) (second : Reads y q) : x ≤ y ↔ p ≤ q :=
  (not_lt_iff second.isFinite first.isFinite).symm.trans ((second.lt_iff first).not.trans not_lt)

theorem Reads.positive_iff (reads : Reads x p) : 0.0 < x ↔ 0 < p :=
  (Reads.zero unpack_zero).lt_iff reads

theorem exists_reads (positive : 0.0 < x) (finite : isFinite x = true) :
    ∃ p, Reads x p ∧ 0 < p := by
  rcases positive_cases positive with infinite | ⟨m, e, nonzero, unpacked, -⟩
  · rw [isFinite, infinite] at finite
    cases finite
  · exact ⟨scaled m e, .finite unpacked, scaled_pos nonzero e⟩

theorem infinite_or_reads (nonneg : 0.0 ≤ x) :
    unpack x = .infinity .positive ∨ ∃ p, Reads x p := by
  rcases nonneg_iff.mp nonneg with ⟨sign, zero⟩ | positive
  · exact .inr ⟨0, .zero zero⟩
  · rcases positive_cases positive with infinite | ⟨m, e, nonzero, unpacked, -⟩
    · exact .inl infinite
    · exact .inr ⟨_, .finite unpacked⟩

/-- A count is converted as it is, or to a number far above all bounds. -/
theorem ofNat_cases (n : Nat) : Reads (Float.ofNat n) n ∨
    2 ^ 53 ≤ n ∧ (unpack (Float.ofNat n) = .infinity .positive ∨
      ∃ p, Reads (Float.ofNat n) p ∧ 2 ^ 53 ≤ p) := by
  rcases Nat.lt_or_ge n (2 ^ 53) with small | large
  · left
    rcases Nat.eq_zero_or_pos n with rfl | positive
    · rw [Nat.cast_zero]
      exact .zero unpack_zero
    · obtain ⟨r, reads, rounds⟩ := reads_ofNat positive (natCast_le_largest small)
      exact rounds.eq (stored_natCast small.le) ▸ reads
  · refine .inr ⟨large, ?_⟩
    cases atLeast_ofNat (by decide) le_rfl large with
    | infinite unpacked => exact .inl unpacked
    | @finite m e positive unpacked reaches =>
        refine .inr ⟨_, .finite unpacked, ?_⟩
        rw [← quotient_eq, le_div_iff₀ (Nat.cast_pos.mpr (denominator_pos m e))]
        exact_mod_cast reaches

theorem Reads.integer? (reads : Reads x n) : integer? x = some (n : Int) := by
  generalize value : (n : ℚ) = p at reads
  cases reads with
  | zero unpacked =>
      rw [Binary64.integer?, unpacked, Nat.cast_eq_zero.mp value]
      rfl
  | @finite m e nonzero unpacked =>
      rw [← quotient_eq, eq_div_iff (Nat.cast_ne_zero.mpr (denominator_pos m e).ne')] at value
      have whole : (quotient m e).1 = n * (quotient m e).2 := by exact_mod_cast value.symm
      rw [Binary64.integer?, unpacked]
      simp only [isNegative, signed, Bool.false_eq_true, if_false, whole, Nat.mul_mod_left, if_true,
        Nat.mul_div_cancel _ (denominator_pos m e)]

/-! ### Literals -/

theorem unpack_of_beq {f : UnpackedFloat} (same : (unpack x).beq f = true)
    (nonzero : ∀ sign, f ≠ .zero sign) : unpack x = f := by
  obtain ⟨-, -, same | ⟨-, zero⟩ | ⟨-, zero⟩⟩ :=
    (UnpackedFloat.beq_iff_ne_notANumber_and_eq _ _).mp same
  · exact same
  · exact absurd zero (nonzero _)
  · exact absurd zero (nonzero _)

theorem reads_of_beq (positive : 0 < m)
    (same : (unpack x).beq (.finite .positive m e positive) = true) : Reads x (scaled m e) :=
  .finite (unpack_of_beq same nofun)

end LiveHls.Binary64
