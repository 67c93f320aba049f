import LiveHls.Proofs.Binary64.Bounds
/-! Signs, the order, and sums of numbers that are not negative. Rounding never takes a positive number
to zero as long as its last bit is not below the last that can be stored, and no sum has such a bit. -/
namespace LiveHls.Binary64

open Float.Model Float.Model.UnpackedFloat

variable {mantissa : Nat} {exponent : Int} {x y : Float}

/-! ### Rounding -/

/-- There are bits enough for a stored number. -/
structure Aligned (mantissa : Nat) (exponent : Int) : Prop where
  positive : 0 < mantissa
  least : -1074 ≤ exponent
  enough : 52 ≤ mantissa.log2 ∨ exponent = -1074

theorem Aligned.shortened_pos (aligned : Aligned mantissa exponent) :
    0 < mantissa / 2 ^ excess mantissa exponent := by
  obtain ⟨positive, least, enough⟩ := aligned
  by_cases long : 52 ≤ mantissa.log2
  · rw [excess_of_normal long (by omega)]
    exact Nat.lt_of_lt_of_le (Nat.two_pow_pos 52) (truncated_bounds long).1
  · have bits : mantissa < 2 ^ 52 := (Nat.log2_lt (Nat.ne_of_gt positive)).mp (by omega)
    rw [excess_of_canonical ⟨by omega, least, .inr (enough.resolve_left long)⟩, Nat.pow_zero,
      Nat.div_one]
    exact positive

/-- Rounding gives a number that can be stored, and not zero. -/
theorem Aligned.round (aligned : Aligned mantissa exponent) (sign : Sign) (accuracy : Accuracy) :
    ∃ m e positive, roundWithAccuracy Format.binary64 sign mantissa exponent accuracy =
        .finite sign m e positive ∧ Canonical m e :=
  (roundWithAccuracy_storedAs (aligned.enough.imp_right Int.le_of_eq) sign accuracy).exists_finite
    (Nat.lt_of_lt_of_le aligned.shortened_pos (rounded_bounds mantissa exponent accuracy).1)

/-- A whole multiple of the last bit that can be stored. -/
theorem aligned_decrease {n : Nat} {e : Int} (positive : 0 < n) (least : -1074 ≤ e) :
    let shifted := decreaseExponent n e (Format.binary64.targetExponent (totalExponent n e))
    Aligned shifted.1 shifted.2 := by
  simp only [decreaseExponent, targetExponent_eq, Nat.shiftLeft_eq]
  refine ⟨Nat.mul_pos positive (Nat.two_pow_pos _), by omega, ?_⟩
  by_cases low : n.log2 - 52 + e ≤ -1074
  · exact .inr (by omega)
  · exact .inl (le_log2_shift positive (by omega))

theorem round_canonical {n : Nat} {e : Int} (positive : 0 < n) (least : -1074 ≤ e) (sign : Sign) :
    ∃ m e' positive, UnpackedFloat.round Format.binary64 sign n e = .finite sign m e' positive ∧
      Canonical m e' :=
  (aligned_decrease positive least).round sign .exact

/-! ### Signs -/

/-- The number is positive, infinite or not. -/
inductive IsPositive : UnpackedFloat → Prop
  | infinity : IsPositive (.infinity .positive)
  | finite {m : Nat} {e : Int} {positive : 0 < m} : IsPositive (.finite .positive m e positive)

theorem positive_iff : 0.0 < x ↔ IsPositive (unpack x) := by
  have less : 0.0 < x ↔ (unpack 0.0).lt (unpack x) = true := ⟨of_decide_eq_true, decide_eq_true⟩
  rw [less, unpack_zero]
  generalize unpack x = f
  constructor
  · rcases f with (_ | _) | _ | _ | ⟨_ | _, _, _, _⟩ <;> intro less
    all_goals first | exact .infinity | exact .finite | cases less
  · rintro (_ | _)
    · rfl
    · rfl

theorem nonneg_iff : 0.0 ≤ x ↔ (∃ sign, unpack x = .zero sign) ∨ 0.0 < x := by
  have less : 0.0 ≤ x ↔ (unpack 0.0).le (unpack x) = true := ⟨of_decide_eq_true, decide_eq_true⟩
  rw [less, positive_iff, unpack_zero]
  generalize unpack x = f
  constructor
  · rcases f with (_ | _) | _ | sign | ⟨_ | _, _, _, _⟩ <;> intro less
    all_goals first | exact .inr .infinity | exact .inr .finite | exact .inl ⟨_, rfl⟩ | cases less
  · rintro (⟨sign, rfl⟩ | (_ | _))
    · rfl
    · rfl
    · rfl

/-- Two numbers that are finite compare, and the other way round with the opposite result. -/
theorem exists_compare {f g : UnpackedFloat} (finite : f.isFinite = true)
    (other : g.isFinite = true) :
    ∃ order, f.compare g = some order ∧ g.compare f = some order.swap := by
  cases f with
  | notANumber | infinity => cases finite
  | zero s =>
      cases g with
      | notANumber | infinity => cases other
      | zero t => exact ⟨.eq, rfl, rfl⟩
      | finite t n k positive => cases t <;> exact ⟨_, rfl, rfl⟩
  | finite s m e positive =>
      cases g with
      | notANumber | infinity => cases other
      | zero t => cases s <;> exact ⟨_, rfl, rfl⟩
      | finite t n k positive =>
          have swapped : (compare k e).then (compare n m) =
              ((compare e k).then (compare m n)).swap := by
            rw [Ordering.swap_then, ← Std.OrientedCmp.eq_swap, ← Std.OrientedCmp.eq_swap]
          cases s <;> cases t
          · exact ⟨_, rfl, congrArg (fun order : Ordering => some order.swap) swapped⟩
          · exact ⟨_, rfl, rfl⟩
          · exact ⟨_, rfl, rfl⟩
          · exact ⟨_, rfl, congrArg some swapped⟩

theorem isFinite_unpack (finite : isFinite x = true) : (unpack x).isFinite = true := by
  unfold isFinite at finite
  generalize unpack x = f at finite ⊢
  cases f with
  | notANumber | infinity => cases finite
  | zero | finite => rfl

/-- The order is total among numbers that are finite. -/
theorem not_lt_iff (finite : isFinite x = true) (other : isFinite y = true) : ¬ x < y ↔ y ≤ x := by
  have less : x < y ↔ (unpack x).lt (unpack y) = true := ⟨of_decide_eq_true, decide_eq_true⟩
  have least : y ≤ x ↔ (unpack y).le (unpack x) = true := ⟨of_decide_eq_true, decide_eq_true⟩
  obtain ⟨order, forward, back⟩ := exists_compare (isFinite_unpack finite) (isFinite_unpack other)
  rw [less, least, UnpackedFloat.lt, UnpackedFloat.le, forward, back]
  cases order <;> decide

theorem nonneg_of_finite (finite : isFinite x = true) (sign : ¬ x < 0.0) : 0.0 ≤ x :=
  (not_lt_iff finite rfl).mp sign

theorem positive_cases (positive : 0.0 < x) : unpack x = .infinity .positive ∨
    ∃ m e nonzero, unpack x = .finite .positive m e nonzero ∧ Canonical m e := by
  have given := positive_iff.mp positive
  cases unpacked : unpack x with
  | infinity s =>
      rw [unpacked] at given
      cases given
      exact .inl rfl
  | finite s m e nonzero =>
      rw [unpacked] at given
      cases given
      exact .inr ⟨m, e, nonzero, rfl, canonical_of_unpack unpacked⟩
  | notANumber | zero s =>
      rw [unpacked] at given
      cases given

/-! ### Sums -/

theorem unpack_add (x y : Float) : unpack (x + y) =
    (Float.Model.pack (UnpackedFloat.add Format.binary64 (unpack x) (unpack y))).unpack := rfl

theorem isPositive_pack {m : Nat} {e : Int} {positive : 0 < m} (canonical : Canonical m e) :
    IsPositive (Float.Model.pack (.finite .positive m e positive)).unpack := by
  rcases unpack_pack_canonical positive canonical with same | infinite
  · rw [same]
    exact .finite
  · rw [infinite]
    exact .infinity

theorem isPositive_packInfinity : IsPositive (Float.Model.pack (.infinity .positive)).unpack := by
  show IsPositive (UnpackedFloat.unpack Format.binary64 (packedInfinity Format.binary64 .positive))
  rw [unpack_packedInfinity]
  exact .infinity

theorem isPositive_addFinite {m n : Nat} {e f : Int} {nonzero : 0 < m} {other : 0 < n}
    (first : Canonical m e) (second : Canonical n f) :
    IsPositive (Float.Model.pack (UnpackedFloat.add Format.binary64 (.finite .positive m e nonzero)
      (.finite .positive n f other))).unpack := by
  have total : 0 < m <<< (e - min e f).toNat + n <<< (f - min e f).toNat := by
    rw [Nat.shiftLeft_eq]
    exact Nat.add_pos_left (Nat.mul_pos nonzero (Nat.two_pow_pos _)) _
  obtain ⟨r, g, positive, rounded, canonical⟩ := round_canonical total
    (show -1074 ≤ min e f from Int.le_min.mpr ⟨first.least, second.least⟩) .positive
  have sum : UnpackedFloat.add Format.binary64 (.finite .positive m e nonzero)
      (.finite .positive n f other) = .finite .positive r g positive := by
    rw [← rounded]
    simp only [UnpackedFloat.add, decreaseExponent, Sign.apply, UnpackedFloat.normalize,
      ← Int.natCast_add, Int.toNat_natCast]
    rw [Int.compare_eq_gt.mpr (by exact_mod_cast total)]
  rw [sum]
  exact isPositive_pack canonical

/-- A positive number stays what it is when either zero is added. -/
theorem add_zero_eq {sign : Sign} (positive : 0.0 < x) (zero : unpack y = .zero sign) :
    x + y = x ∧ y + x = x := by
  have kept := congrArg Float.Model.unpack (pack_unpack x)
  have same : UnpackedFloat.add Format.binary64 (unpack x) (.zero sign) = unpack x ∧
      UnpackedFloat.add Format.binary64 (.zero sign) (unpack x) = unpack x := by
    rcases positive_cases positive with infinite | ⟨m, e, nonzero, finite, -⟩
    · rw [infinite]
      exact ⟨rfl, rfl⟩
    · rw [finite]
      exact ⟨rfl, rfl⟩
  refine ⟨eq_of_unpack ?_, eq_of_unpack ?_⟩
  · rw [unpack_add, zero, same.1]
    exact kept
  · rw [unpack_add, zero, same.2]
    exact kept

/-- A sum is positive if one of its terms is positive and the other is not negative. -/
theorem add_positive (nonneg : 0.0 ≤ x) (positive : 0.0 < y) : 0.0 < x + y := by
  rcases nonneg_iff.mp nonneg with ⟨sign, zero⟩ | addend
  · exact (add_zero_eq positive zero).2.symm ▸ positive
  · rw [positive_iff, unpack_add]
    rcases positive_cases addend with infinite | ⟨m, e, more, first, canonical⟩
    · rw [infinite]
      rcases positive_cases positive with both | ⟨n, f, other, second, -⟩
      · rw [both]
        exact isPositive_packInfinity
      · rw [second]
        exact isPositive_packInfinity
    · rw [first]
      rcases positive_cases positive with infinite | ⟨n, f, other, second, stored⟩
      · rw [infinite]
        exact isPositive_packInfinity
      · rw [second]
        exact isPositive_addFinite canonical stored

/-- A sum so far: nothing, or something positive. -/
def Summed (x : Float) : Prop := x = 0.0 ∨ 0.0 < x

/-- Either zero leaves a sum as it is. -/
theorem Summed.add_zero {sign : Sign} (summed : Summed x) (zero : unpack y = .zero sign) :
    x + y = x := by
  rcases summed with rfl | positive
  · refine eq_of_unpack ?_
    rw [unpack_add, zero, unpack_zero]
    cases sign <;> rfl
  · exact (add_zero_eq positive zero).1

theorem Summed.add_positive (summed : Summed x) (positive : 0.0 < y) : Summed (x + y) := by
  refine .inr (Binary64.add_positive (nonneg_iff.mpr ?_) positive)
  rcases summed with rfl | larger
  · exact .inl ⟨_, unpack_zero⟩
  · exact .inr larger

theorem add_nonneg (nonneg : 0.0 ≤ x) (other : 0.0 ≤ y) : 0.0 ≤ x + y := by
  rcases nonneg_iff.mp other with ⟨s, zero⟩ | positive
  · rcases nonneg_iff.mp nonneg with ⟨t, both⟩ | addend
    · refine nonneg_iff.mpr (.inl ?_)
      rw [unpack_add, zero, both]
      cases s <;> cases t <;> exact ⟨_, rfl⟩
    · exact (add_zero_eq addend zero).1.symm ▸ nonneg
  · exact nonneg_iff.mpr (.inr (add_positive nonneg positive))

/-- Sums of numbers that are not negative are not negative. -/
theorem foldl_nonneg {α : Type} {f : Float → α → Float} {items : List α}
    (each : ∀ x, ∀ a ∈ items, 0.0 ≤ x → 0.0 ≤ f x a) (nonneg : 0.0 ≤ x) :
    0.0 ≤ items.foldl f x := by
  induction items generalizing x with
  | nil => exact nonneg
  | cons a rest ih =>
      exact ih (fun y b member => each y b (List.mem_cons_of_mem a member))
        (each x a List.mem_cons_self nonneg)

end LiveHls.Binary64
