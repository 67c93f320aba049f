import Mathlib
import LiveHls.Proofs.Binary64.Sums
/-! Rounding over the rationals. It does not pass a stored number: what is not below the exact value
is not below the result, and what is not above it is not above the result. -/
namespace LiveHls.Binary64

open Float.Model Float.Model.UnpackedFloat

variable {m n : Nat} {e : Int} {v : ℚ} {x y : Float}

/-! ### Stored numbers as rationals -/

/-- The number `mantissa * 2 ^ exponent`. -/
def scaled (mantissa : Nat) (exponent : Int) : ℚ := mantissa * 2 ^ exponent

theorem power_pos (e : Int) : (0 : ℚ) < 2 ^ e := zpow_pos (by norm_num) e

theorem power_add (e k : Int) : (2 : ℚ) ^ (e + k) = 2 ^ e * 2 ^ k := zpow_add₀ (by norm_num) e k

theorem power_le {e k : Int} (le : e ≤ k) : (2 : ℚ) ^ e ≤ 2 ^ k :=
  zpow_le_zpow_right₀ (by norm_num) le

theorem scaled_nonneg (m : Nat) (e : Int) : 0 ≤ scaled m e :=
  mul_nonneg (Nat.cast_nonneg m) (power_pos e).le

theorem scaled_pos (positive : 0 < m) (e : Int) : 0 < scaled m e :=
  mul_pos (Nat.cast_pos.mpr positive) (power_pos e)

theorem scaled_le (le : m ≤ n) (e : Int) : scaled m e ≤ scaled n e :=
  mul_le_mul_of_nonneg_right (Nat.cast_le.mpr le) (power_pos e).le

/-- A number at a greater exponent is a multiple at a lesser one. -/
theorem scaled_eq {k : Int} (le : e ≤ k) : scaled m k = scaled (m * 2 ^ (k - e).toNat) e := by
  have power : (2 : ℚ) ^ k = 2 ^ (k - e).toNat * 2 ^ e := by
    rw [← zpow_natCast, ← power_add]
    congr 1
    omega
  rw [scaled, scaled, power, Nat.cast_mul, Nat.cast_pow, Nat.cast_ofNat, mul_assoc]

theorem scaled_zero (m : Nat) : scaled m 0 = m := by rw [scaled, zpow_zero, mul_one]

theorem scaled_two_pow (k : Nat) (e : Int) : scaled (2 ^ k) e = 2 ^ (k + e) := by
  rw [scaled, power_add, zpow_natCast, Nat.cast_pow, Nat.cast_ofNat]

theorem scaled_lt_two_pow (bits : m < 2 ^ 53) (e : Int) : scaled m e < 2 ^ (53 + e) :=
  (mul_lt_mul_of_pos_right (Nat.cast_lt.mpr bits) (power_pos e)).trans_eq (scaled_two_pow 53 e)

theorem two_pow_le_scaled (long : 2 ^ 52 ≤ m) (e : Int) : 2 ^ (52 + e) ≤ scaled m e :=
  (scaled_two_pow 52 e).ge.trans (scaled_le long e)

/-- Where the mantissa is long, the exponent decides. -/
theorem scaled_lt_of_exponent {k : Int} (bits : m < 2 ^ 53) (long : 2 ^ 52 ≤ n) (less : e < k) :
    scaled m e < scaled n k := by
  calc
    scaled m e < 2 ^ (53 + e) := scaled_lt_two_pow bits e
    _ ≤ 2 ^ (52 + k) := power_le (by omega)
    _ ≤ scaled n k := two_pow_le_scaled long k

/-- The number can be stored, if it is not too large. -/
def Stored (q : ℚ) : Prop := ∃ b k, Canonical b k ∧ q = scaled b k

theorem stored_two_zpow {k : Int} (least : -1022 ≤ k) : Stored (2 ^ k) := by
  refine ⟨2 ^ 52, k - 52, ⟨by decide, by omega, .inl (Nat.le_refl _)⟩, ?_⟩
  rw [scaled_two_pow]
  congr 1
  omega

theorem stored_zero : Stored 0 :=
  ⟨0, -1074, ⟨by decide, by decide, .inr rfl⟩, by rw [scaled, Nat.cast_zero, zero_mul]⟩

theorem stored_natCast (small : n ≤ 2 ^ 53) : Stored n := by
  rcases Nat.eq_zero_or_pos n with rfl | positive
  · rw [Nat.cast_zero]
    exact stored_zero
  · rcases Nat.lt_or_eq_of_le small with bits | rfl
    · have log : n.log2 < 53 := (Nat.log2_lt (Nat.ne_of_gt positive)).mpr bits
      have high : n * 2 ^ (52 - n.log2) < 2 ^ 53 := by
        calc
          n * 2 ^ (52 - n.log2) < 2 ^ (n.log2 + 1) * 2 ^ (52 - n.log2) :=
            Nat.mul_lt_mul_of_pos_right Nat.lt_log2_self (Nat.two_pow_pos _)
          _ = 2 ^ 53 := by
            rw [← Nat.pow_add]
            congr 1
            omega
      have low := le_log2_shift positive (k := 52 - n.log2) (by omega)
      refine ⟨n * 2 ^ (52 - n.log2), n.log2 - 52, ⟨high, by omega, .inl ?_⟩, ?_⟩
      · exact (Nat.le_log2 (Nat.mul_pos positive (Nat.two_pow_pos _)).ne').mp low
      · have same := scaled_eq (m := n) (e := n.log2 - 52) (k := 0) (by omega)
        rw [show (0 - ((n.log2 : Int) - 52)).toNat = 52 - n.log2 by omega] at same
        rw [← same, scaled, zpow_zero, mul_one]
    · have power := stored_two_zpow (k := 53) (by decide)
      rwa [show ((2 ^ 53 : Nat) : ℚ) = 2 ^ (53 : Int) by norm_num]

/-! ### Rounding -/

/-- `r` is on the side of `v` of every stored number. -/
def Rounds (v r : ℚ) : Prop := ∀ q, Stored q → (q ≤ v → q ≤ r) ∧ (v ≤ q → r ≤ q)

theorem Rounds.refl (v : ℚ) : Rounds v v := fun _ _ => ⟨id, id⟩

variable {r q : ℚ}

theorem Rounds.le (rounds : Rounds v r) (stored : Stored q) (le : v ≤ q) : r ≤ q :=
  (rounds q stored).2 le

theorem Rounds.ge (rounds : Rounds v r) (stored : Stored q) (le : q ≤ v) : q ≤ r :=
  (rounds q stored).1 le

theorem Rounds.eq (rounds : Rounds v r) (stored : Stored v) : r = v :=
  le_antisymm (rounds.le stored le_rfl) (rounds.ge stored le_rfl)

theorem Rounds.one_le (rounds : Rounds n r) (positive : 0 < n) : 1 ≤ r := by
  have one := rounds.ge (stored_natCast (n := 1) (by decide)) (Nat.cast_le.mpr positive)
  rwa [Nat.cast_one] at one

/-- The mantissa is the whole part of a number, and the bits tell whether it is all of it. -/
structure WholePart (em : ExtendedMantissa) (v : ℚ) : Prop where
  floor : ⌊v⌋₊ = em.mantissa
  exact : v = em.mantissa → em.roundBit = false ∧ em.stickyBit = false

variable {em : ExtendedMantissa}

theorem wholePart_exact (m : Nat) : WholePart (.ofMantissaAndAccuracy m .exact) m :=
  ⟨Nat.floor_natCast m, fun _ => ⟨rfl, rfl⟩⟩

theorem wholePart_fraction (positive : 0 < n) :
    WholePart (.ofMantissaAndAccuracy (m / n) (accuracyOfFraction (m % n) n)) (m / n) := by
  have mantissa := mantissa_ofAccuracy (m / n) (accuracyOfFraction (m % n) n)
  refine ⟨(Nat.floor_div_eq_div m n).trans mantissa.symm, fun same => ?_⟩
  have nonzero : (n : ℚ) ≠ 0 := Nat.cast_ne_zero.mpr positive.ne'
  rw [mantissa, div_eq_iff nonzero] at same
  have whole : m = m / n * n := by exact_mod_cast same
  have rest : m % n = 0 := by
    rw [whole]
    exact Nat.mul_mod_left _ _
  rw [accuracyOfFraction, if_pos rest]
  exact ⟨rfl, rfl⟩

theorem WholePart.shiftRightOne (part : WholePart em v) (nonneg : 0 ≤ v) :
    WholePart em.shiftRightOne (v / 2) := by
  have half : ⌊v / 2⌋₊ = em.mantissa / 2 := by
    rw [← part.floor]
    exact_mod_cast Nat.floor_div_natCast v 2
  refine ⟨half, fun same => ?_⟩
  have below : (em.mantissa : ℚ) ≤ v := part.floor ▸ Nat.floor_le nonneg
  have double : v = ((em.mantissa / 2 * 2 : Nat) : ℚ) := by
    push_cast
    exact (div_eq_iff (by norm_num)).mp same
  have even : em.mantissa / 2 * 2 = em.mantissa := by
    refine Nat.le_antisymm (Nat.div_mul_le_self _ _) ?_
    rw [double] at below
    exact_mod_cast below
  obtain ⟨round, sticky⟩ := part.exact (even ▸ double)
  refine ⟨?_, ?_⟩
  · show (em.mantissa % 2 != 0) = false
    rw [bne_eq_false_iff_eq]
    omega
  · show (em.roundBit || em.stickyBit) = false
    rw [round, sticky]
    rfl

theorem WholePart.shiftRight (part : WholePart em v) (nonneg : 0 ≤ v) (k : Nat) :
    WholePart (em >>> k) (v / 2 ^ k) := by
  induction k with
  | zero => rwa [pow_zero, div_one]
  | succ k ih =>
      rw [pow_succ, ← div_div]
      exact ih.shiftRightOne (div_nonneg nonneg (by positivity))

theorem WholePart.rounded_le (part : WholePart em v) (nonneg : 0 ≤ v) {b : Nat} (le : v ≤ b) :
    em.roundedMantissa ≤ b := by
  have floor : em.mantissa ≤ v := part.floor ▸ Nat.floor_le nonneg
  by_cases same : v = em.mantissa
  · obtain ⟨round, sticky⟩ := part.exact same
    have kept : em.roundedMantissa = em.mantissa := by
      obtain ⟨mantissa, _, _⟩ := em
      cases round
      cases sticky
      rfl
    rw [kept]
    exact_mod_cast floor.trans le
  · have less : em.mantissa < b := by exact_mod_cast (floor.lt_of_ne (Ne.symm same)).trans_le le
    exact (roundedMantissa_bounds em).2.trans less

/-- A stored number that is not above another number is not above its whole part either. -/
theorem le_wholePart {b : Nat} {k : Int} (cut : Canonical m e) (stored : Canonical b k)
    (floor : ⌊v⌋₊ = m) (le : scaled b k ≤ v * 2 ^ e) : scaled b k ≤ scaled m e := by
  rcases Int.lt_or_le k e with below | multiple
  · have least := stored.least
    have long : 2 ^ 52 ≤ m := cut.long.resolve_right (by omega)
    exact (scaled_lt_of_exponent stored.bits long below).le
  · rw [scaled_eq multiple] at le ⊢
    refine scaled_le ?_ e
    rw [← floor]
    exact Nat.le_floor (le_of_mul_le_mul_right le (power_pos e))

/-- A stored number that is not below another number is a multiple of the last bit of its whole
part. -/
theorem exists_multiple {b : Nat} {k : Int} (cut : Canonical m e) (stored : Canonical b k)
    (floor : m ≤ v) (le : v * 2 ^ e ≤ scaled b k) :
    ∃ n : Nat, scaled b k = scaled n e ∧ v ≤ n := by
  have multiple : e ≤ k := by
    by_contra below
    have least := stored.least
    have long : 2 ^ 52 ≤ m := cut.long.resolve_right (by omega)
    have less := scaled_lt_of_exponent stored.bits long (Int.not_le.mp below)
    exact absurd ((mul_le_mul_of_nonneg_right floor (power_pos e).le).trans le) less.not_ge
  rw [scaled_eq multiple] at le ⊢
  exact ⟨_, rfl, le_of_mul_le_mul_right le (power_pos e)⟩

/-- The magnitude; zero for what is not finite. -/
def size : UnpackedFloat → ℚ
  | .finite _ m e _ => scaled m e
  | _ => 0

/-- A zero, or a number as it is stored, of a given sign. -/
inductive Shape (sign : Sign) : UnpackedFloat → Prop
  | zero : Shape sign (.zero sign)
  | finite {m : Nat} {e : Int} {positive : 0 < m} (canonical : Canonical m e) :
      Shape sign (.finite sign m e positive)

variable {sign : Sign} {f : UnpackedFloat}

theorem StoredAs.shape (stored : StoredAs sign m e f) : Shape sign f := by
  cases stored with
  | zero => exact .zero
  | same canonical => exact .finite canonical
  | halved least => exact .finite ⟨by decide, by omega, .inl (Nat.le_refl _)⟩

theorem StoredAs.size (stored : StoredAs sign m e f) : size f = scaled m e := by
  cases stored with
  | zero =>
      rw [scaled, Nat.cast_zero, zero_mul]
      rfl
  | same => rfl
  | halved =>
      rw [Binary64.size, scaled_two_pow, scaled_two_pow]
      congr 1
      omega

/-- Rounding gives a stored number, and passes none on the way. -/
theorem roundWithAccuracy_rounds {accuracy : Accuracy} (ample : Ample m e)
    (part : WholePart (.ofMantissaAndAccuracy m accuracy) v) (nonneg : 0 ≤ v) (sign : Sign) :
    Shape sign (roundWithAccuracy Format.binary64 sign m e accuracy) ∧
      Rounds (v * 2 ^ e) (size (roundWithAccuracy Format.binary64 sign m e accuracy)) := by
  have result := roundWithAccuracy_storedAs ample sign accuracy
  refine ⟨result.shape, ?_⟩
  rw [result.size]
  have shifted := part.shiftRight nonneg (excess m e)
  have rest : 0 ≤ v / 2 ^ excess m e := div_nonneg nonneg (by positivity)
  have cut := ample.shortened
  have floor : ⌊v / 2 ^ excess m e⌋₊ = m / 2 ^ excess m e :=
    shifted.floor.trans (shortened_mantissa m e accuracy)
  have split : v * 2 ^ e = v / 2 ^ excess m e * 2 ^ (e + excess m e) := by
    rw [power_add, zpow_natCast]
    field_simp
  rw [split]
  rintro _ ⟨b, k, stored, rfl⟩
  refine ⟨fun below => ?_, fun above => ?_⟩
  · have lower := (rounded_bounds m e accuracy).1
    exact (le_wholePart cut stored floor below).trans (scaled_le lower _)
  · have le : ((m / 2 ^ excess m e : Nat) : ℚ) ≤ v / 2 ^ excess m e := floor ▸ Nat.floor_le rest
    obtain ⟨n, same, bound⟩ := exists_multiple cut stored le above
    rw [same]
    exact scaled_le (shifted.rounded_le rest bound) _

end LiveHls.Binary64
