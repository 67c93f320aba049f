import LiveHls.Decimal.Fixed
import LiveHls.Proofs.Binary64.Whole
/-! The notation of numbers. Below `10 ^ 21` whole numbers are written with digits alone, and numbers
with a fixed count of places with digits and a point; from there on neither is. -/
namespace LiveHls.Decimal

open Float.Model Float.Model.UnpackedFloat
open Binary64 (quotient unpack Canonical Whole)

variable {mantissa : Nat} {exponent : Int} {x : Float}

/-! ### The bound -/

/-- The magnitude `mantissa * 2 ^ exponent` is below the numbers that are written with an exponent. -/
def Small (mantissa : Nat) (exponent : Int) : Prop :=
  (quotient mantissa exponent).1 < 10 ^ 21 * (quotient mantissa exponent).2

theorem unpack_bound : unpack 1e21 = .finite .positive (10 ^ 21 / 2 ^ 17) 17 (by decide) := by rfl

/-- Numbers of less than the bound are those with a lesser exponent, or a lesser mantissa at the same. -/
theorem small_iff (canonical : Canonical mantissa exponent) :
    Small mantissa exponent ↔ exponent < 17 ∨ exponent = 17 ∧ mantissa < 10 ^ 21 / 2 ^ 17 := by
  obtain ⟨bits, least, long⟩ := canonical
  rw [Small]
  simp only [quotient, Nat.pow_eq]
  rcases Int.lt_trichotomy exponent 17 with below | rfl | above
  · refine iff_of_true ?_ (.inl below)
    calc
      mantissa * 2 ^ exponent.toNat < 2 ^ 53 * 2 ^ exponent.toNat :=
        Nat.mul_lt_mul_of_pos_right bits (Nat.two_pow_pos _)
      _ ≤ 2 ^ 53 * 2 ^ 16 := Nat.mul_le_mul_left _ (Nat.pow_le_pow_right (by decide) (by omega))
      _ ≤ 10 ^ 21 := by decide
      _ ≤ 10 ^ 21 * 2 ^ (-exponent).toNat := Nat.le_mul_of_pos_right _ (Nat.two_pow_pos _)
  · show mantissa * 2 ^ 17 < 10 ^ 21 * 2 ^ 0 ↔ _
    norm_num
    omega
  · refine iff_of_false ?_ (by omega)
    have many := long.resolve_right (by omega)
    rw [show (-exponent).toNat = 0 by omega]
    refine Nat.not_lt.mpr ?_
    calc
      10 ^ 21 * 2 ^ 0 ≤ 2 ^ 52 * 2 ^ 18 := by decide
      _ ≤ mantissa * 2 ^ exponent.toNat :=
        Nat.mul_le_mul many (Nat.pow_le_pow_right (by decide) (by omega))

theorem lt_bound : x < 1e21 ↔ (unpack x).lt (unpack 1e21) = true :=
  ⟨of_decide_eq_true, decide_eq_true⟩

theorem lt_bound_iff {positive : 0 < mantissa}
    (unpacked : unpack x = .finite .positive mantissa exponent positive) :
    x < 1e21 ↔ Small mantissa exponent := by
  rw [small_iff (Binary64.canonical_of_unpack unpacked), lt_bound, unpacked, unpack_bound]
  show (some ((compare exponent 17).then (compare mantissa (10 ^ 21 / 2 ^ 17))) == some .lt) = true ↔ _
  rw [beq_iff_eq, Option.some.injEq, Ordering.then_eq_lt, compare_lt_iff_lt, compare_eq_iff_eq,
    compare_lt_iff_lt]

/-- Half a step up from a number below the bound is still below it. -/
theorem Small.step (canonical : Canonical mantissa exponent) (small : Small mantissa exponent) :
    (4 * mantissa + 2) * 2 ^ (exponent - 2).toNat < 10 ^ 21 * 2 ^ (2 - exponent).toNat := by
  have bits := canonical.bits
  rcases (small_iff canonical).mp small with below | ⟨rfl, less⟩
  · calc
      (4 * mantissa + 2) * 2 ^ (exponent - 2).toNat ≤ 2 ^ 55 * 2 ^ 14 :=
        Nat.mul_le_mul (by omega) (Nat.pow_le_pow_right (by decide) (by omega))
      _ < 10 ^ 21 := by decide
      _ ≤ 10 ^ 21 * 2 ^ (2 - exponent).toNat := Nat.le_mul_of_pos_right _ (Nat.two_pow_pos _)
  · show (4 * mantissa + 2) * 2 ^ 15 < 10 ^ 21 * 2 ^ 0
    norm_num at less ⊢
    omega

/-! ### Shortest digits -/

theorem digitCount_le_iff {n k : Nat} (positive : 0 < k) : digitCount n ≤ k ↔ n < 10 ^ k :=
  Nat.length_toDigits_le_iff (by decide) positive

theorem digitCount_pos (n : Nat) : 0 < digitCount n := Nat.length_toDigits_pos

theorem lt_digitCount {n k : Nat} (le : 10 ^ k ≤ n) : k < digitCount n := by
  rcases Nat.eq_zero_or_pos k with rfl | above
  · exact digitCount_pos n
  · exact Nat.lt_of_not_le fun few => Nat.not_lt.mpr le ((digitCount_le_iff above).mp few)

theorem nearestOnGrid_eq {c r : Nat} {s : Int}
    (near : nearestOnGrid mantissa exponent c s = some r) :
    readsBack mantissa exponent r s = true ∧ (r = c ∨ r = c + 1) := by
  unfold nearestOnGrid at near
  split at near
  · cases near
  · rename_i low high
    cases near
    exact ⟨low, .inl rfl⟩
  · rename_i low high
    cases near
    exact ⟨high, .inr rfl⟩
  · rename_i low high
    split_ifs at near
    · cases near
      exact ⟨low, .inl rfl⟩
    · cases near
      exact ⟨high, .inr rfl⟩
    · cases near
      exact ⟨low, .inl rfl⟩
    · cases near
      exact ⟨high, .inr rfl⟩

/-- What stands before the point. -/
def wholePart (mantissa : Nat) (exponent : Int) : Nat :=
  (quotient mantissa exponent).1 / (quotient mantissa exponent).2

/-- The power of ten of the last of `p + 1` digits. -/
def gridPower (mantissa : Nat) (exponent : Int) (p : Nat) : Int :=
  magnitude (quotient mantissa exponent).1 (quotient mantissa exponent).2 - p - 1

/-- The first `p + 1` digits. -/
def gridFloor (mantissa : Nat) (exponent : Int) (p : Nat) : Nat :=
  (quotient mantissa exponent).1 * 10 ^ (-gridPower mantissa exponent p).toNat /
    ((quotient mantissa exponent).2 * 10 ^ (gridPower mantissa exponent p).toNat)

/-- The digits of which there are `p + 1`, if they read back. -/
def onGrid (mantissa : Nat) (exponent : Int) (p : Nat) : Option Nat :=
  nearestOnGrid mantissa exponent (gridFloor mantissa exponent p) (gridPower mantissa exponent p)

/-- The shortest digits are the first that read back. -/
theorem shortest_cases (mantissa : Nat) (exponent : Int) :
    (∃ p < 17, ∃ c, shortest mantissa exponent = (c, gridPower mantissa exponent p) ∧
      onGrid mantissa exponent p = some c ∧ ∀ q < p, onGrid mantissa exponent q = none) ∨
    shortest mantissa exponent = ((quotient mantissa exponent).1, 0) ∧
      ∀ q < 17, onGrid mantissa exponent q = none := by
  have found : shortest mantissa exponent =
      ((List.range 17).findSome? fun p => (onGrid mantissa exponent p).map fun c =>
        (c, gridPower mantissa exponent p)).getD ((quotient mantissa exponent).1, 0) := rfl
  rw [found]
  cases first : (List.range 17).findSome? fun p => (onGrid mantissa exponent p).map fun c =>
      (c, gridPower mantissa exponent p) with
  | none =>
      refine .inr ⟨rfl, fun q less => ?_⟩
      have missed := List.findSome?_eq_none_iff.mp first q (List.mem_range.mpr less)
      exact Option.map_eq_none_iff.mp missed
  | some digits =>
      obtain ⟨before, p, after, range, given, earlier⟩ := List.findSome?_eq_some_iff.mp first
      obtain ⟨c, own, rfl⟩ := Option.map_eq_some_iff.mp given
      have sorted : (before ++ p :: after).Pairwise (· < ·) := range ▸ List.pairwise_lt_range
      have member (q : Nat) : q < 17 ↔ q ∈ before ++ p :: after := by
        rw [← range, List.mem_range]
      refine .inl ⟨p, (member p).mpr (by simp), c, rfl, own, fun q less => ?_⟩
      have front : q ∈ before := by
        have there := (member q).mp (Nat.lt_trans less ((member p).mpr (by simp)))
        rcases List.mem_append.mp there with front | rest
        · exact front
        · -- what stands from `p` on is not less
          rcases List.mem_cons.mp rest with rfl | behind
          · omega
          · have more := (List.pairwise_cons.mp (List.pairwise_append.mp sorted).2.1).1 q behind
            omega
      exact Option.map_eq_none_iff.mp (earlier q front)

theorem denominator_pos (mantissa : Nat) (exponent : Int) :
    0 < (quotient mantissa exponent).2 := Nat.two_pow_pos _

/-- A number that is at least one has as many digits before its point as its whole part. -/
theorem gridPower_eq (one : (quotient mantissa exponent).2 ≤ (quotient mantissa exponent).1)
    (p : Nat) : gridPower mantissa exponent p = digitCount (wholePart mantissa exponent) - p - 1 := by
  rw [gridPower, magnitude, if_pos one]
  rfl

theorem gridFloor_eq {p k : Nat} (natural : gridPower mantissa exponent p = k) :
    gridFloor mantissa exponent p = wholePart mantissa exponent / 10 ^ k := by
  simp only [gridFloor, wholePart, natural, Int.toNat_neg_natCast, Int.toNat_natCast, Nat.pow_zero,
    Nat.mul_one, Nat.div_div_eq_div_mul]

/-! ### From the bound on -/

theorem wholePart_of_large (large : ¬ Small mantissa exponent) :
    10 ^ 21 ≤ wholePart mantissa exponent :=
  (Nat.le_div_iff_mul_le (denominator_pos mantissa exponent)).mpr (Nat.not_lt.mp large)

/-- From the bound on the shortest digits end before the point, and there are more than 21 digits before
it. -/
theorem shortest_of_large (large : ¬ Small mantissa exponent) :
    0 < (shortest mantissa exponent).1 ∧ 0 ≤ (shortest mantissa exponent).2 ∧
      22 ≤ (digitCount (shortest mantissa exponent).1 : Int) + (shortest mantissa exponent).2 := by
  have reaches := wholePart_of_large large
  have many := lt_digitCount reaches
  rw [Small, Nat.not_lt] at large
  rcases shortest_cases mantissa exponent with ⟨p, less, c, same, grid, -⟩ | ⟨same, -⟩
  · have power := gridPower_eq (Nat.le_trans (Nat.le_mul_of_pos_left _ (by decide)) large) p
    obtain ⟨k, natural⟩ := Int.eq_ofNat_of_zero_le
      (show 0 ≤ gridPower mantissa exponent p by omega)
    have leading : 10 ^ (p + k) ≤ wholePart mantissa exponent := by
      refine Nat.le_of_not_lt fun less => ?_
      have short := (digitCount_le_iff (by omega)).mpr less
      omega
    have least : 10 ^ p ≤ gridFloor mantissa exponent p := by
      rw [gridFloor_eq natural, Nat.le_div_iff_mul_le (Nat.pow_pos (by decide)), ← Nat.pow_add]
      exact leading
    have first : 10 ^ p ≤ c := by
      refine Nat.le_trans least ?_
      rcases (nearestOnGrid_eq grid).2 with same | same <;> omega
    have digits := lt_digitCount first
    rw [same, power]
    exact ⟨Nat.lt_of_lt_of_le (Nat.pow_pos (by decide)) first, by simp only; omega, by simp only; omega⟩
  · have first := Nat.le_trans (Nat.le_mul_of_pos_right _ (denominator_pos mantissa exponent)) large
    have digits := lt_digitCount first
    rw [same]
    exact ⟨Nat.lt_of_lt_of_le (by decide) first, Int.le_refl 0, by simp only; omega⟩

theorem point_of_large (large : ¬ Small mantissa exponent) :
    22 ≤ (digitCount (shortest mantissa exponent).1 : Int) + (shortest mantissa exponent).2 :=
  (shortest_of_large large).2.2

/-! ### Whole numbers below the bound -/

theorem one_le_of_whole (positive : 0 < mantissa) (whole : Whole mantissa exponent) :
    (quotient mantissa exponent).2 ≤ (quotient mantissa exponent).1 := by
  simp only [quotient, Nat.pow_eq]
  exact Nat.le_trans (Nat.le_of_dvd positive whole) (Nat.le_mul_of_pos_right _ (Nat.two_pow_pos _))

/-- A whole number reads back from its own digits. -/
theorem readsBack_whole (positive : 0 < mantissa) (whole : Whole mantissa exponent) :
    readsBack mantissa exponent (wholePart mantissa exponent) 0 = true := by
  have same : wholePart mantissa exponent *
      2 ^ (2 - exponent).toNat = 4 * mantissa * 2 ^ (exponent - 2).toNat := by
    simp only [wholePart, quotient, Nat.pow_eq]
    rcases Int.lt_or_le exponent 0 with below | above
    · obtain ⟨n, rfl⟩ := whole
      rw [show exponent.toNat = 0 by omega, show (exponent - 2).toNat = 0 by omega,
        show (2 - exponent).toNat = 2 + (-exponent).toNat by omega, Nat.pow_zero, Nat.mul_one,
        Nat.mul_one, Nat.mul_div_cancel_left _ (Nat.two_pow_pos _), Nat.pow_add]
      ring
    · rw [show (-exponent).toNat = 0 by omega, Nat.pow_zero, Nat.div_one]
      rcases Int.lt_or_le exponent 2 with small | large
      · rw [show (exponent - 2).toNat = 0 by omega, Nat.pow_zero, Nat.mul_one, Nat.mul_assoc,
          ← Nat.pow_add, show exponent.toNat + (2 - exponent).toNat = 2 by omega]
        omega
      · rw [show (2 - exponent).toNat = 0 by omega, Nat.pow_zero, Nat.mul_one,
          show exponent.toNat = 2 + (exponent - 2).toNat by omega, Nat.pow_add]
        ring
  have power := Nat.two_pow_pos (exponent - 2).toNat
  unfold readsBack comparePowers
  simp only [Nat.pow_eq, Int.neg_zero, Int.toNat_zero, Nat.pow_zero, Nat.mul_one, Int.neg_sub, same,
    Nat.mul_le_mul_right_iff power, Nat.mul_lt_mul_right power]
  split <;> split <;> simp <;> omega

/-- So all its digits before the point are enough, and no digit behind it is tried. -/
theorem onGrid_whole (positive : 0 < mantissa) (whole : Whole mantissa exponent) :
    onGrid mantissa exponent (digitCount (wholePart mantissa exponent) - 1) ≠ none := by
  have digits := digitCount_pos (wholePart mantissa exponent)
  have all : gridPower mantissa exponent (digitCount (wholePart mantissa exponent) - 1) =
      (0 : Nat) := by
    rw [gridPower_eq (one_le_of_whole positive whole)]
    omega
  rw [onGrid, nearestOnGrid, gridFloor_eq all, all, Nat.pow_zero, Nat.div_one, Int.natCast_zero,
    readsBack_whole positive whole]
  split
  · rename_i missed _
    cases missed
  · rintro ⟨⟩
  · rintro ⟨⟩
  · split_ifs <;> rintro ⟨⟩

/-- What reads back as a number below the bound is itself below the bound. -/
theorem below_of_readsBack (canonical : Canonical mantissa exponent)
    (small : Small mantissa exponent) {c k : Nat}
    (back : readsBack mantissa exponent c k = true) : c * 10 ^ k < 10 ^ 21 := by
  have power := Nat.two_pow_pos (2 - exponent).toNat
  have high : c * 10 ^ k * 2 ^ (2 - exponent).toNat ≤
      (4 * mantissa + 2) * 2 ^ (exponent - 2).toNat := by
    unfold readsBack comparePowers at back
    simp only [Nat.pow_eq, Int.toNat_neg_natCast, Int.toNat_natCast, Nat.pow_zero, Nat.mul_one,
      Int.neg_sub] at back
    split at back
    · exact of_decide_eq_true ((Bool.and_eq_true _ _).mp back).2
    · exact Nat.le_of_lt (of_decide_eq_true ((Bool.and_eq_true _ _).mp back).2)
  exact (Nat.mul_lt_mul_right power).mp (Nat.lt_of_le_of_lt high (small.step canonical))

/-- More than 17 digits before the point are more than the mantissa has, so nothing lies behind it. -/
theorem nonneg_of_long (canonical : Canonical mantissa exponent)
    (long : 17 < digitCount (wholePart mantissa exponent)) : 0 ≤ exponent := by
  have large : 10 ^ 17 ≤ wholePart mantissa exponent := by
    refine Nat.le_of_not_lt fun less => ?_
    have short := (digitCount_le_iff (by decide)).mpr less
    omega
  by_contra below
  have bits := canonical.bits
  have most := Nat.le_trans large (Nat.div_le_self _ _)
  simp only [quotient, Nat.pow_eq, show exponent.toNat = 0 by omega] at most
  omega

/-- Below the bound the shortest digits of a whole number end before its point, and there are at most
21 digits before it. -/
theorem point_of_small (canonical : Canonical mantissa exponent) (positive : 0 < mantissa)
    (whole : Whole mantissa exponent) (small : Small mantissa exponent) :
    0 ≤ (shortest mantissa exponent).2 ∧
      (digitCount (shortest mantissa exponent).1 : Int) + (shortest mantissa exponent).2 ≤ 21 := by
  have enough := onGrid_whole positive whole
  have digits := digitCount_pos (wholePart mantissa exponent)
  have power := gridPower_eq (one_le_of_whole positive whole)
  rcases shortest_cases mantissa exponent with ⟨p, less, c, same, grid, first⟩ | ⟨same, exhausted⟩
  · have short : 0 ≤ gridPower mantissa exponent p := by
      by_contra behind
      rw [power] at behind
      exact enough (first _ (by omega))
    obtain ⟨k, natural⟩ := Int.eq_ofNat_of_zero_le short
    have places := power p
    rw [natural] at places
    have few : digitCount (wholePart mantissa exponent) ≤ 21 :=
      (digitCount_le_iff (by decide)).mpr
        ((Nat.div_lt_iff_lt_mul (denominator_pos mantissa exponent)).mpr small)
    have bound := below_of_readsBack canonical small (natural ▸ (nearestOnGrid_eq grid).1)
    rw [show 21 = 21 - k + k by omega, Nat.pow_add,
      Nat.mul_lt_mul_right (Nat.pow_pos (by decide))] at bound
    have digits := (digitCount_le_iff (show 0 < 21 - k by omega)).mpr bound
    rw [same, natural]
    exact ⟨by omega, by simp only; omega⟩
  · have nonneg : 0 ≤ exponent := by
      refine nonneg_of_long canonical ?_
      by_contra fits
      exact enough (exhausted _ (by omega))
    have undivided : (quotient mantissa exponent).2 = 1 := by
      simp only [quotient, Nat.pow_eq, show (-exponent).toNat = 0 by omega, Nat.pow_zero]
    rw [Small, undivided, Nat.mul_one] at small
    have few := (digitCount_le_iff (by decide)).mpr small
    rw [same]
    exact ⟨Int.le_refl 0, by simp only; omega⟩

/-! ### Texts -/

/-- Digits and nothing else. -/
def Digits (cs : List Char) : Prop := ∀ c ∈ cs, c.isDigit = true

/-- A whole number in decimal notation. -/
def IsInteger (s : String) : Prop := s.toList ≠ [] ∧ Digits s.toList

/-- A number in decimal notation with so many places. -/
def IsFixed (places : Nat) (s : String) : Prop :=
  ∃ whole fraction, s.toList = whole ++ '.' :: fraction ∧ whole ≠ [] ∧ Digits whole ∧
    fraction.length = places ∧ Digits fraction

theorem digits_toDigits (n : Nat) : Digits (Nat.toDigits 10 n) :=
  fun _ member => Nat.isDigit_of_mem_toDigits (by decide) (by decide) member

theorem digits_zeros (n : Nat) : Digits (zeros n) := by
  intro c member
  rw [List.eq_of_mem_replicate member]
  rfl

theorem Digits.append {cs ds : List Char} (first : Digits cs) (second : Digits ds) :
    Digits (cs ++ ds) := List.forall_mem_append.mpr ⟨first, second⟩

theorem digits_significant (n : Nat) : Digits (significant n) := fun _ member =>
  digits_toDigits n _ (List.mem_reverse.mp
    ((List.dropWhile_sublist _).subset (List.mem_reverse.mp member)))

theorem significant_length (n : Nat) : (significant n).length ≤ digitCount n := by
  rw [significant, List.length_reverse]
  refine Nat.le_trans (List.dropWhile_sublist _).length_le ?_
  rw [List.length_reverse, digitCount]

/-- Up to 21 digits that end before the point are written out. -/
theorem layout_digits {digits : List Char} {point : Int} (all : Digits digits)
    (ends : digits.length ≤ point) (above : 0 < point) (few : point ≤ 21) :
    layout digits point ≠ [] ∧ Digits (layout digits point) := by
  rw [layout, if_pos ⟨ends, few⟩]
  refine ⟨fun empty => ?_, all.append (digits_zeros _)⟩
  have length := congrArg List.length empty
  simp only [List.length_append, zeros, List.length_replicate, List.length_nil] at length
  omega

/-- With more digits than that before the point there is an exponent. -/
theorem layout_exponent {digits : List Char} {point : Int} (many : 22 ≤ point) :
    'e' ∈ layout digits point := by
  unfold layout
  simp only
  rw [if_neg (by omega), if_neg (by omega), if_neg (by omega)]
  split <;> simp

theorem text_finite {positive : 0 < mantissa}
    (unpacked : unpack x = .finite .positive mantissa exponent positive) :
    (text x).toList = layout (significant (shortest mantissa exponent).1)
      (digitCount (shortest mantissa exponent).1 + (shortest mantissa exponent).2) := by
  rw [text, unpacked, String.toList_ofList]
  rfl

theorem IsInteger.isDigit {s : String} (integer : IsInteger s) {c : Char} (member : c ∈ s.toList) :
    c.isDigit = true := integer.2 c member

theorem IsFixed.isDigit_or_point {places : Nat} {s : String} (fixed : IsFixed places s) {c : Char}
    (member : c ∈ s.toList) : c.isDigit = true ∨ c = '.' := by
  obtain ⟨whole, fraction, same, -, digits, -, rest⟩ := fixed
  rw [same] at member
  rcases List.mem_append.mp member with front | behind
  · exact .inl (digits c front)
  · rcases List.mem_cons.mp behind with point | back
    · exact .inr point
    · exact .inl (rest c back)

/-- What is not below the bound, and not negative, has a letter in its text. -/
theorem letter_of_large (large : ¬ x < 1e21)
    (sign : ∀ m e positive, unpack x ≠ .finite .negative m e positive) :
    'e' ∈ (text x).toList ∨ 'N' ∈ (text x).toList ∨ 'I' ∈ (text x).toList := by
  cases unpacked : unpack x with
  | notANumber =>
      rw [text, unpacked]
      exact .inr (.inl (by decide))
  | infinity s =>
      rw [text, unpacked]
      cases s with
      | positive => exact .inr (.inr (by decide))
      | negative => exact .inr (.inr (by decide))
  | zero s =>
      rw [lt_bound, unpacked, unpack_bound] at large
      exact absurd rfl large
  | finite s m e positive =>
      cases s with
      | negative => exact absurd unpacked (sign m e positive)
      | positive =>
          rw [lt_bound_iff unpacked] at large
          rw [text_finite unpacked]
          exact .inl (layout_exponent (point_of_large large))

/-- A whole number is written with digits alone exactly below the bound. -/
theorem text_isInteger_iff (isWhole : Binary64.IsWhole x) : IsInteger (text x) ↔ x < 1e21 := by
  constructor
  · intro integer
    by_contra large
    have sign : ∀ m e positive, unpack x ≠ .finite .negative m e positive := by
      intro m e positive negative
      cases isWhole with
      | notANumber unpacked | infinite unpacked | zero unpacked | finite unpacked whole =>
          rw [unpacked] at negative
          cases negative
    rcases letter_of_large large sign with letter | letter | letter
    all_goals exact absurd (integer.isDigit letter) (by decide)
  · intro small
    cases isWhole with
    | notANumber unpacked =>
        rw [lt_bound, unpacked] at small
        cases small
    | infinite unpacked =>
        rw [lt_bound, unpacked, unpack_bound] at small
        cases small
    | zero unpacked =>
        have same : (text x).toList = Nat.toDigits 10 0 := by
          rw [text, unpacked]
          change "0".toList = _
          decide
        rw [IsInteger, same]
        exact ⟨Nat.toDigits_ne_nil, digits_toDigits 0⟩
    | @finite m e positive unpacked whole =>
        obtain ⟨ends, few⟩ := point_of_small (Binary64.canonical_of_unpack unpacked) positive whole
          ((lt_bound_iff unpacked).mp small)
        have digits := digitCount_pos (shortest m e).1
        have short := significant_length (shortest m e).1
        rw [IsInteger, text_finite unpacked]
        exact layout_digits (digits_significant _) (by omega) (by omega) few

theorem placed_isFixed {places : Nat} (behind : 0 < places) (units : Nat) :
    IsFixed places (String.ofList (placed places units)) := by
  have short : (Nat.toDigits 10 (units % 10 ^ places)).length ≤ places :=
    (digitCount_le_iff behind).mpr (Nat.mod_lt _ (Nat.pow_pos (by decide)))
  refine ⟨Nat.toDigits 10 (units / 10 ^ places),
    zeros (places - (Nat.toDigits 10 (units % 10 ^ places)).length) ++
      Nat.toDigits 10 (units % 10 ^ places), ?_, Nat.toDigits_ne_nil, digits_toDigits _, ?_,
    (digits_zeros _).append (digits_toDigits _)⟩
  · rw [String.toList_ofList, placed]
    simp only [Nat.pow_eq]
    rw [if_neg (by omega), List.append_assoc, List.cons_append]
  · rw [List.length_append, zeros, List.length_replicate]
    omega

theorem ofDigitChars_zeros {cs : List Char} (all : ∀ c ∈ cs, c = '0') :
    Nat.ofDigitChars 10 cs 0 = 0 := by
  induction cs with
  | nil => exact Nat.ofDigitChars_nil
  | cons c rest ih =>
      obtain ⟨rfl, zeros⟩ := List.forall_mem_cons.mp all
      rw [Nat.ofDigitChars_cons]
      exact ih zeros

theorem eq_zero_of_digits {n : Nat} (all : ∀ c ∈ Nat.toDigits 10 n, c = '0' ∨ c = '.') : n = 0 := by
  rw [← Nat.ofDigitChars_toDigits (b := 10) (n := n) (by decide) (by decide)]
  refine ofDigitChars_zeros fun c member => (all c member).resolve_right ?_
  rintro rfl
  exact absurd (digits_toDigits n _ member) (by decide)

/-- Only zero is written with zeros alone. -/
theorem eq_zero_of_placed {places units : Nat}
    (all : ∀ c ∈ placed places units, c = '0' ∨ c = '.') : units = 0 := by
  unfold placed at all
  simp only [Nat.pow_eq] at all
  split at all
  · rename_i unplaced
    have whole := eq_zero_of_digits all
    rwa [unplaced, Nat.pow_zero, Nat.div_one] at whole
  · obtain ⟨front, back⟩ := List.forall_mem_append.mp all
    have rest := eq_zero_of_digits back
    have whole := eq_zero_of_digits (List.forall_mem_append.mp front).1
    rw [← Nat.div_add_mod units (10 ^ places), whole, rest, Nat.mul_zero]

/-- A number that is not negative is written with its places exactly below the bound. -/
theorem fixed_isFixed_iff {places : Nat} (behind : 0 < places) (nonneg : 0.0 ≤ x) :
    IsFixed places (fixed places x) ↔ x < 1e21 := by
  rcases Binary64.nonneg_iff.mp nonneg with ⟨sign, zero⟩ | positive
  · refine iff_of_true ?_ ?_
    · rw [fixed, zero]
      exact placed_isFixed behind 0
    · rw [lt_bound, zero, unpack_bound]
      rfl
  · constructor
    · intro written
      by_contra large
      have same : fixed places x = text x := by
        rcases Binary64.positive_cases positive with infinite | ⟨m, e, more, finite, canonical⟩
        · rw [fixed, infinite]
        · rw [lt_bound_iff finite, Small, Nat.not_lt] at large
          simp only [fixed, finite]
          exact if_pos large
      rw [same] at written
      have sign : ∀ m e positive, unpack x ≠ .finite .negative m e positive := by
        intro m e more negative
        have given := Binary64.notNegative_of_positive positive
        rw [Binary64.NotNegative, negative] at given
        exact given rfl
      rcases letter_of_large large sign with letter | letter | letter
      all_goals exact absurd (written.isDigit_or_point letter) (by decide)
    · intro small
      rcases Binary64.positive_cases positive with infinite | ⟨m, e, more, finite, canonical⟩
      · rw [lt_bound, infinite, unpack_bound] at small
        cases small
      · rw [lt_bound_iff finite, Small, ← Nat.not_le] at small
        simp only [fixed, finite, Nat.pow_eq]
        rw [if_neg small]
        exact placed_isFixed behind _

end LiveHls.Decimal
