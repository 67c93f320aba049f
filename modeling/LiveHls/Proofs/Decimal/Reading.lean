import Mathlib
import LiveHls.Proofs.Binary64.Arithmetic
import LiveHls.Proofs.Decimal.Leading
/-! Texts of numbers, read. What is written with a fixed count of places reads as that multiple of a
power of ten, and what is written with an exponent as a number above all those. -/
namespace LiveHls.Decimal

open Float.Model (UnpackedFloat)
open Binary64 (AtLeast Canonical Reaches Reads quotient unpack scaled)

variable {cs whole fraction rest digits : List Char} {x : Float} {q : ℚ} {places mantissa : Nat}
  {exponent : Int}

/-! ### Digits alone -/

theorem isBlank_of_isDigit {c : Char} (digit : c.isDigit = true) : Text.isBlank c = false := by
  have low : 48 ≤ c.toNat := by
    simp only [Char.isDigit, Bool.and_eq_true, decide_eq_true_eq] at digit
    exact UInt32.le_iff_toNat_le.mp digit.1
  have high : c.toNat ≤ 57 := by
    simp only [Char.isDigit, Bool.and_eq_true, decide_eq_true_eq] at digit
    exact UInt32.le_iff_toNat_le.mp digit.2
  simp only [Text.isBlank, Bool.or_eq_false_iff, Bool.and_eq_false_iff, decide_eq_false_iff_not]
  omega

theorem Digits.trimLeft (digits : Digits cs) : Text.trimLeft cs = cs := by
  cases cs with
  | nil => rfl
  | cons c rest =>
      exact List.dropWhile_cons_of_neg
        (Bool.eq_false_iff.mp (isBlank_of_isDigit (digits c List.mem_cons_self)))

theorem Digits.reverse (digits : Digits cs) : Digits cs.reverse :=
  fun c member => digits c (List.mem_reverse.mp member)

theorem Digits.trim (digits : Digits cs) : Text.trim cs = cs := by
  rw [Text.trim, digits.trimLeft, digits.reverse.trimLeft, List.reverse_reverse]

theorem Digits.splitSign (digits : Digits cs) : splitSign cs = (false, cs) := by
  unfold Decimal.splitSign
  split
  · exact absurd (digits '-' List.mem_cons_self) (by decide)
  · exact absurd (digits '+' List.mem_cons_self) (by decide)
  · rfl

theorem Digits.radix? (digits : Digits cs) : radix? cs = none := by
  unfold Decimal.radix?
  split
  · rename_i mark rest
    have digit := digits mark (List.mem_cons_of_mem _ List.mem_cons_self)
    have other : ∀ c : Char, c.isDigit = false → mark ≠ c := by
      rintro c letter rfl
      rw [digit] at letter
      cases letter
    simp [other 'x' rfl, other 'X' rfl, other 'o' rfl, other 'O' rfl, other 'b' rfl, other 'B' rfl]
  · rfl

theorem Digits.readDecimal? (digits : Digits cs) (present : cs ≠ []) :
    readDecimal? cs = .some (Nat.ofDigitChars 10 cs 0, 0, []) := by
  have read := readDecimal?_whole digits present ends_nil nofun
  rwa [List.append_nil] at read

/-- A text of digits is converted by rounding what is written. -/
theorem number_digits {s : String} (integer : IsInteger s) :
    number s = rounded (Nat.ofDigitChars 10 s.toList 0) 0 := by
  obtain ⟨present, digits⟩ := integer
  have word := isPrefixOf_digits digits present []
  rw [List.append_nil] at word
  simp only [number, digits.trim, List.isEmpty_eq_false_iff.mpr present, Bool.false_eq_true, if_false,
    digits.radix?, readSigned?, digits.splitSign, word, digits.readDecimal? present, Option.map_some,
    negateIf]

/-- Only numbers far above all that are finite are not computed. -/
theorem rounded_natural {n : Nat} (positive : 0 < n) :
    rounded n 0 = if 400 < digitCount n then Binary64.infinity else Float.ofNat n := by
  have length : ((Nat.toDigits 10 n).length : Int) + 0 = digitCount n := Int.add_zero _
  simp only [rounded, if_neg positive.ne', length]
  by_cases large : 400 < digitCount n
  · rw [if_pos large, if_pos (by omega)]
  · rw [if_neg large, if_neg (by omega), if_neg (by omega)]
    rfl

/-! ### Large whole numbers -/

/-- What is not significant are zeros at the end. -/
theorem toDigits_significant (n : Nat) :
    Nat.toDigits 10 n = significant n ++ zeros (digitCount n - (significant n).length) := by
  have parts : Nat.toDigits 10 n =
      significant n ++ ((Nat.toDigits 10 n).reverse.takeWhile (· = '0')).reverse := by
    rw [significant, ← List.reverse_append, List.takeWhile_append_dropWhile, List.reverse_reverse]
  have cut : ((Nat.toDigits 10 n).reverse.takeWhile (· = '0')).reverse = zeros _ :=
    List.eq_replicate_iff.mpr ⟨rfl, fun c member => by
      have last := List.mem_takeWhile_imp (List.mem_reverse.mp member)
      exact of_decide_eq_true last⟩
  rw [cut] at parts
  have length := congrArg List.length parts
  rw [List.length_append, zeros, List.length_replicate] at length
  rw [digitCount, length, Nat.add_sub_cancel_left]
  exact parts

/-- Only zero has no significant digit. -/
theorem significant_pos {n : Nat} (positive : 0 < n) : 0 < Nat.ofDigitChars 10 (significant n) 0 := by
  refine Nat.pos_of_ne_zero fun zero => positive.ne' ?_
  rw [← Nat.ofDigitChars_toDigits (b := 10) (n := n) (by decide) (by decide), toDigits_significant,
    Nat.ofDigitChars_append, zero, zeros, Nat.ofDigitChars_replicate_zero, Nat.mul_zero]

theorem layout_whole {n : Nat} {k : Nat} (few : (digitCount n : Int) + k ≤ 21) :
    layout (significant n) (digitCount n + k) = Nat.toDigits 10 n ++ zeros k := by
  have short := significant_length n
  rw [layout, if_pos ⟨by omega, few⟩, toDigits_significant, List.append_assoc, zeros, zeros, zeros,
    ← List.replicate_add]
  congr 2
  omega

/-- Shortest digits of a number from `2 ^ 53` on do not get below that. -/
theorem le_of_readsBack (long : 2 ^ 52 ≤ mantissa) (above : 1 ≤ exponent) {c k : Nat}
    (back : readsBack mantissa exponent c k = true) : 2 ^ 53 ≤ 10 ^ k * c := by
  have low : (4 * mantissa - if mantissa = 2 ^ 52 ∧ exponent > -1074 then 1 else 2) *
      2 ^ (exponent - 2).toNat ≤ c * 10 ^ k * 2 ^ (2 - exponent).toNat := by
    unfold readsBack comparePowers at back
    simp only [Nat.pow_eq, Int.toNat_neg_natCast, Int.toNat_natCast, Nat.pow_zero, Nat.mul_one,
      Int.neg_sub] at back
    split at back
    · exact of_decide_eq_true ((Bool.and_eq_true _ _).mp back).1
    · exact Nat.le_of_lt (of_decide_eq_true ((Bool.and_eq_true _ _).mp back).1)
  rw [Nat.mul_comm c] at low
  rcases Int.lt_or_le exponent 2 with one | more
  · obtain rfl : exponent = 1 := by omega
    rw [show ((1 : Int) - 2).toNat = 0 from rfl, show ((2 : Int) - 1).toNat = 1 from rfl] at low
    split_ifs at low <;> omega
  · have power := Nat.two_pow_pos (exponent - 2).toNat
    rw [show (2 - exponent).toNat = 0 by omega, Nat.pow_zero, Nat.mul_one] at low
    refine Nat.le_trans ?_ (Nat.le_trans (Nat.le_mul_of_pos_right _ power) low)
    split_ifs <;> omega

/-- A number from `2 ^ 53` on has nothing behind its point. -/
theorem exponent_pos (bits : mantissa < 2 ^ 53) (reaches : Reaches (2 ^ 53) mantissa exponent) :
    1 ≤ exponent := by
  by_contra below
  rw [Reaches, quotient] at reaches
  simp only [Nat.pow_eq, show exponent.toNat = 0 by omega, Nat.pow_zero, Nat.mul_one] at reaches
  have power := Nat.two_pow_pos (-exponent).toNat
  have more := Nat.le_trans (Nat.le_mul_of_pos_right (2 ^ 53) power) reaches
  omega

theorem le_shortest (canonical : Canonical mantissa exponent)
    (reaches : Reaches (2 ^ 53) mantissa exponent) {k : Nat}
    (ends : (shortest mantissa exponent).2 = k) :
    2 ^ 53 ≤ 10 ^ k * (shortest mantissa exponent).1 := by
  have above := exponent_pos canonical.bits reaches
  have long := canonical.long.resolve_right (by omega)
  rcases shortest_cases mantissa exponent with ⟨p, -, c, same, grid, -⟩ | ⟨same, -⟩
  · rw [same] at ends ⊢
    exact le_of_readsBack long above (ends ▸ (nearestOnGrid_eq grid).1)
  · rw [same]
    have first := Nat.le_trans
      (Nat.le_mul_of_pos_right (2 ^ 53) (denominator_pos mantissa exponent)) reaches
    exact Nat.le_trans first (Nat.le_mul_of_pos_left _ (Nat.pow_pos (by decide)))

/-- A number from `2 ^ 53` on is written with digits that come to that at least, or with a letter. -/
theorem text_of_atLeast (atLeast : AtLeast (2 ^ 53) x) :
    Digits (text x).toList ∧ 2 ^ 53 ≤ Nat.ofDigitChars 10 (text x).toList 0 ∨
      'e' ∈ (text x).toList ∨ 'I' ∈ (text x).toList := by
  cases atLeast with
  | infinite unpacked =>
      rw [text, unpacked]
      exact .inr (.inr (by decide))
  | @finite m e positive unpacked reaches =>
      have canonical := Binary64.canonical_of_unpack unpacked
      rw [text_finite unpacked]
      by_cases small : Small m e
      · have above := exponent_pos canonical.bits reaches
        have whole : Binary64.Whole m e := by
          rw [Binary64.Whole, show (-e).toNat = 0 by omega]
          exact Nat.one_dvd m
        obtain ⟨behind, few⟩ := point_of_small canonical positive whole small
        obtain ⟨k, ends⟩ := Int.eq_ofNat_of_zero_le behind
        have least := le_shortest canonical reaches ends
        rw [ends] at few ⊢
        rw [layout_whole few]
        refine .inl ⟨(digits_toDigits _).append (digits_zeros k), ?_⟩
        rwa [Nat.ofDigitChars_append, Nat.ofDigitChars_toDigits (by decide) (by decide), zeros,
          Nat.ofDigitChars_replicate_zero]
      · exact .inr (.inl (layout_exponent (point_of_large small)))

/-! ### Exact values -/

/-- The number at the front of a text, as it is written, and the rest. -/
def leadingValue? (cs : List Char) : Option (WithTop ℚ × List Char) :=
  if infinityWord.isPrefixOf cs then some (⊤, cs.drop infinityWord.length)
  else (readDecimal? cs).map fun (coefficient, exponent, rest) =>
    (((coefficient * 10 ^ exponent : ℚ) : WithTop ℚ), rest)

theorem leadingValue?_digit {c : Char} (digit : c.isDigit = true) (cs : List Char) :
    leadingValue? (c :: cs) = (readDecimal? (c :: cs)).map fun (coefficient, exponent, rest) =>
      (((coefficient * 10 ^ exponent : ℚ) : WithTop ℚ), rest) := by
  refine if_neg fun word => ?_
  have letter : 'I' = c := by
    have front := List.isPrefixOf_iff_prefix.mp word
    exact (List.cons_prefix_cons.mp front).1
  rw [← letter] at digit
  cases digit

/-- The places behind the point, filled up with zeros. -/
theorem placed_eq (behind : 0 < places) (units : Nat) : ∃ fraction, Digits fraction ∧
    fraction.length = places ∧ Nat.ofDigitChars 10 fraction 0 = units % 10 ^ places ∧
    placed places units = Nat.toDigits 10 (units / 10 ^ places) ++ '.' :: fraction := by
  have short : (Nat.toDigits 10 (units % 10 ^ places)).length ≤ places :=
    (digitCount_le_iff behind).mpr (Nat.mod_lt _ (Nat.pow_pos (by decide)))
  refine ⟨zeros (places - (Nat.toDigits 10 (units % 10 ^ places)).length) ++
    Nat.toDigits 10 (units % 10 ^ places), (digits_zeros _).append (digits_toDigits _), ?_, ?_, ?_⟩
  · rw [List.length_append, zeros, List.length_replicate]
    omega
  · rw [Nat.ofDigitChars_append, zeros, Nat.ofDigitChars_replicate_zero, Nat.mul_zero,
      Nat.ofDigitChars_toDigits (by decide) (by decide)]
  · rw [placed]
    simp only [Nat.pow_eq]
    rw [if_neg (by omega), List.append_assoc, List.cons_append]

/-- A multiple of a power of ten reads as such. -/
theorem leadingValue?_placed (decimals : 0 < places) (units : Nat) (cs : List Char) :
    leadingValue? (placed places units ++ ' ' :: cs) =
      .some (((units / 10 ^ places : ℚ) : WithTop ℚ), ' ' :: cs) := by
  obtain ⟨fraction, behind, length, rest, same⟩ := placed_eq decimals units
  have digits := digits_toDigits (units / 10 ^ places)
  have blank : Ends (' ' :: cs) := ends_cons rfl cs
  have read := readDecimal?_places digits (.inl Nat.toDigits_ne_nil) behind blank
  have value : Nat.ofDigitChars 10 (Nat.toDigits 10 (units / 10 ^ places) ++ fraction) 0 = units := by
    rw [Nat.ofDigitChars_append, Nat.ofDigitChars_toDigits (by decide) (by decide),
      Nat.ofDigitChars_eq_ofDigitChars_zero, length, rest, Nat.div_add_mod]
  have exponent : (readExponent (' ' :: cs)) = (0, ' ' :: cs) := rfl
  obtain ⟨first, tail, whole⟩ := List.exists_cons_of_ne_nil
    (Nat.toDigits_ne_nil : Nat.toDigits 10 (units / 10 ^ places) ≠ [])
  rw [value, exponent, length, whole, List.cons_append] at read
  rw [same, List.append_assoc, List.cons_append, whole, List.cons_append,
    leadingValue?_digit (digits first (whole ▸ List.mem_cons_self)), read, Option.map_some]
  simp only [Int.zero_sub, zpow_neg, zpow_natCast, div_eq_mul_inv]

theorem exponent_written (k : Nat) (ends : Ends rest) :
    Exponent k ('e' :: '+' :: Nat.toDigits 10 k) rest := by
  have power := Exponent.marked (.inl rfl) .plus (digits_toDigits k) Nat.toDigits_ne_nil ends
  rwa [Nat.ofDigitChars_toDigits (by decide) (by decide)] at power

/-- What is laid out with an exponent reads as its digits, with that exponent. -/
theorem readDecimal?_layout {first : Char} (digits : Digits (first :: rest)) {point : Int}
    (many : 22 ≤ point) (cs : List Char) :
    readDecimal? (layout (first :: rest) point ++ ' ' :: cs) =
      some (Nat.ofDigitChars 10 (first :: rest) 0, point - (first :: rest).length, ' ' :: cs) := by
  obtain ⟨k, natural⟩ := Int.eq_ofNat_of_zero_le (show 0 ≤ point - 1 by omega)
  have mark : readExponent ('e' :: '+' :: (Nat.toDigits 10 k ++ ' ' :: cs)) = ((k : Int), ' ' :: cs) :=
    (exponent_written k (ends_cons rfl cs)).read
  have letter : Ends ('e' :: '+' :: (Nat.toDigits 10 k ++ ' ' :: cs)) := ends_cons rfl _
  unfold layout
  simp only
  rw [if_neg (by omega), if_neg (by omega), if_neg (by omega), natural, if_neg (by omega),
    Int.natAbs_natCast]
  cases rest with
  | nil =>
      have read := readDecimal?_whole digits nofun letter nofun
      rw [mark] at read
      simp only [List.length_singleton, Int.natCast_one, natural]
      exact read
  | cons second more =>
      obtain ⟨one, later⟩ := List.forall_mem_cons.mp digits
      have single : Digits [first] := List.forall_mem_singleton.mpr one
      have read := readDecimal?_places single (.inl (List.cons_ne_nil _ _)) later letter
      rw [mark] at read
      have shift : (k : Int) - ((second :: more).length : Nat) =
          point - ((first :: second :: more).length : Nat) := by
        rw [List.length_cons (a := first)]
        omega
      rw [shift] at read
      simpa using read

/-- What is laid out with an exponent starts with its first digit. -/
theorem layout_cons {first : Char} {point : Int} (many : 22 ≤ point) :
    ∃ tail, layout (first :: rest) point = first :: tail := by
  unfold layout
  simp only
  rw [if_neg (by omega), if_neg (by omega), if_neg (by omega)]
  cases rest with
  | nil => exact ⟨_, rfl⟩
  | cons => exact ⟨_, rfl⟩

/-- From the bound on a number reads as one at least. -/
theorem leadingValue?_text {positive : 0 < mantissa}
    (unpacked : unpack x = .finite .positive mantissa exponent positive)
    (large : ¬ Small mantissa exponent) (cs : List Char) : ∃ q : ℚ, 1 ≤ q ∧
      leadingValue? ((text x).toList ++ ' ' :: cs) = some ((q : WithTop ℚ), ' ' :: cs) := by
  obtain ⟨coefficient, power, many⟩ := shortest_of_large large
  have value := significant_pos coefficient
  have short := significant_length (shortest mantissa exponent).1
  have digits := digits_significant (shortest mantissa exponent).1
  have before : ((significant (shortest mantissa exponent).1).length : Int) ≤
    digitCount (shortest mantissa exponent).1 + (shortest mantissa exponent).2 := by omega
  rw [text_finite unpacked]
  generalize significant (shortest mantissa exponent).1 = written at value digits before ⊢
  generalize (digitCount (shortest mantissa exponent).1 : Int) + (shortest mantissa exponent).2 =
    point at many before ⊢
  cases written with
  | nil => exact absurd value (Nat.lt_irrefl 0)
  | cons first rest =>
      have read := readDecimal?_layout digits many cs
      obtain ⟨tail, front⟩ := @layout_cons rest first _ many
      rw [front, List.cons_append] at read ⊢
      rw [leadingValue?_digit (digits first List.mem_cons_self), read, Option.map_some]
      refine ⟨_, ?_, rfl⟩
      exact one_le_mul_of_one_le_of_one_le (Nat.one_le_cast.mpr value)
        (one_le_zpow₀ (by norm_num) (by omega))

/-! ### Numbers with places -/

theorem small_iff_scaled : Small mantissa exponent ↔ scaled mantissa exponent < 10 ^ 21 := by
  have positive : (0 : ℚ) < (quotient mantissa exponent).2 :=
    Nat.cast_pos.mpr (denominator_pos mantissa exponent)
  rw [← Binary64.quotient_eq, div_lt_iff₀ positive, Small]
  norm_cast

theorem nearest_eq (n : Nat) {d : Nat} (positive : 0 < d) : nearest n d = ⌊(n / d + 1 / 2 : ℚ)⌋₊ := by
  have nonzero : (d : ℚ) ≠ 0 := Nat.cast_ne_zero.mpr positive.ne'
  have half : (n / d + 1 / 2 : ℚ) = ((2 * n + d : Nat) : ℚ) / (2 * d : Nat) := by
    push_cast
    field_simp
  rw [half, Nat.floor_div_eq_div, nearest]

/-- Below the bound the text is that of the nearest multiple. -/
theorem fixed_of_lt (reads : Reads x q) (places : Nat) (small : q < 10 ^ 21) :
    fixed places x = String.ofList (placed places ⌊q * 10 ^ places + 1 / 2⌋₊) := by
  cases reads with
  | zero unpacked =>
      rw [fixed, unpacked]
      norm_num
  | @finite m e positive unpacked =>
      have value : ((quotient m e).1 * 10 ^ places : Nat) / ((quotient m e).2 : ℚ) =
          scaled m e * 10 ^ places := by
        rw [← Binary64.quotient_eq]
        push_cast
        ring
      have below := small_iff_scaled.mpr small
      rw [Small, ← Nat.not_le] at below
      simp only [fixed, unpacked, Nat.pow_eq, if_neg below, Binary64.isNegative, Bool.false_eq_true,
        if_false]
      rw [nearest_eq _ (denominator_pos m e), value]

theorem leadingValue?_of_lt (decimals : 0 < places) (reads : Reads x q) (small : q < 10 ^ 21)
    (cs : List Char) : leadingValue? ((fixed places x).toList ++ ' ' :: cs) =
      .some (((⌊q * 10 ^ places + 1 / 2⌋₊ / 10 ^ places : ℚ) : WithTop ℚ), ' ' :: cs) := by
  rw [fixed_of_lt reads places small, String.toList_ofList, leadingValue?_placed decimals]

theorem leadingValue?_of_ge (reads : Reads x q) (large : 10 ^ 21 ≤ q) (places : Nat)
    (cs : List Char) : ∃ r : ℚ, 1 ≤ r ∧
      leadingValue? ((fixed places x).toList ++ ' ' :: cs) = some ((r : WithTop ℚ), ' ' :: cs) := by
  obtain ⟨m, e, positive, unpacked, -, rfl⟩ := reads.positive (lt_of_lt_of_le (by norm_num) large)
  have notSmall := small_iff_scaled.not.mpr large.not_gt
  have same : fixed places x = text x := by
    simp only [fixed, unpacked, Nat.pow_eq]
    exact if_pos (Nat.not_lt.mp notSmall)
  rw [same]
  exact leadingValue?_text unpacked notSmall cs

theorem leadingValue?_of_infinite (unpacked : unpack x = .infinity .positive) (places : Nat)
    (cs : List Char) :
    leadingValue? ((fixed places x).toList ++ ' ' :: cs) = some (⊤, ' ' :: cs) := by
  have word : (fixed places x).toList = infinityWord := by
    rw [fixed, unpacked, text, unpacked]
    rfl
  rw [word, leadingValue?, if_pos (List.isPrefixOf_iff_prefix.mpr (List.prefix_append _ _)),
    List.drop_left]

end LiveHls.Decimal
