import LiveHls.Http.Param
import LiveHls.Proofs.Decimal.Reading
/-! Whole numbers in parameters. The digits are converted to a binary64 number, and only that is
compared with the bound; yet no number above the bound is rounded below it, and none up to it is
changed, so the number that is read is the one that is written. -/
namespace LiveHls.Http.Param

open Binary64

/-- A number up to the bound is stored as it is. -/
theorem exactInteger?_of_le {n : Nat} (le : n ≤ largestInteger) :
    exactInteger? (Decimal.rounded n 0) = some (n : Int) := by
  rcases Nat.eq_zero_or_pos n with rfl | positive
  · rfl
  · have bits : n < 2 ^ 53 := Nat.lt_of_le_of_lt le (by decide)
    have few : Decimal.digitCount n ≤ 16 :=
      (Decimal.digitCount_le_iff (by decide)).mpr (Nat.lt_trans bits (by norm_num))
    obtain ⟨r, reads, rounds⟩ := reads_ofNat positive (natCast_le_largest bits)
    rw [rounds.eq (stored_natCast (Nat.le_of_lt bits))] at reads
    rw [Decimal.rounded_natural positive, if_neg (by omega), exactInteger?, reads.integer?]
    exact if_pos (decide_eq_true le)

/-- A number above the bound is not rounded below `2 ^ 53`, which can be stored itself. -/
theorem exactInteger?_of_lt {n : Nat} (lt : largestInteger < n) :
    exactInteger? (Decimal.rounded n 0) = none := by
  have atLeast : AtLeast (2 ^ 53) (Decimal.rounded n 0) := by
    rw [Decimal.rounded_natural (Nat.zero_lt_of_lt lt)]
    split_ifs with large
    · exact .infinite rfl
    · exact atLeast_ofNat (by decide) (Nat.le_refl _) lt
  rcases atLeast.integer? with unread | ⟨m, same, reaches⟩
  · rw [exactInteger?, unread]
    rfl
  · rw [exactInteger?, same]
    refine if_neg (Bool.eq_false_iff.mp (decide_eq_false ?_))
    have bound : largestInteger < 2 ^ 53 := by decide
    omega

theorem refused_iff (s : String) :
    (s.isEmpty || !s.toList.all Char.isDigit) = true ↔ ¬ Decimal.IsInteger s := by
  rw [Decimal.IsInteger, Decimal.Digits, not_and_or, not_not, Bool.or_eq_true, String.isEmpty_iff,
    String.toList_eq_nil_iff, Bool.not_eq_true', ← Bool.not_eq_true, List.all_eq_true]

/-- What digits are read as: the number they write, or nothing. -/
theorem integer_digits (name : String) {s : String} (integer : Decimal.IsInteger s) :
    Param.integer name (.text s) =
      if Nat.ofDigitChars 10 s.toList 0 ≤ largestInteger then
        .ok (some (Nat.ofDigitChars 10 s.toList 0))
      else .error (.integerTooLarge name) := by
  have accepted := (refused_iff s).not.mpr (not_not.mpr integer)
  simp only [Param.integer, if_neg accepted, Decimal.number_digits integer]
  split_ifs with le
  · rw [exactInteger?_of_le le]
    rfl
  · rw [exactInteger?_of_lt (Nat.not_le.mp le)]

theorem integer_other (name : String) {s : String} (other : ¬ Decimal.IsInteger s) :
    Param.integer name (.text s) = .error (.notAnInteger name) := by
  simp only [Param.integer, if_pos ((refused_iff s).mpr other)]

/-- The number in a parameter is read exactly: a text of digits whose value is at most `2 ^ 53 - 1`
gives that value, and any other value than none at all is refused. -/
theorem integer_is_exact (query : Query) (name : String) :
    let value := query.get name
    let result := value.integer name
    (∀ n, result = .ok (some n) ↔ ∃ s, value = .text s ∧ Decimal.IsInteger s ∧
      Nat.ofDigitChars 10 s.toList 0 = n ∧ n ≤ 2 ^ 53 - 1) ∧
    (result = .ok none ↔ value = .missing) ∧
    (result = .error (.integerTooLarge name) ↔ ∃ s, value = .text s ∧ Decimal.IsInteger s ∧
      2 ^ 53 - 1 < Nat.ofDigitChars 10 s.toList 0) ∧
    (result = .error (.notAnInteger name) ↔
      value ≠ .missing ∧ ∀ s, value = .text s → ¬ Decimal.IsInteger s) ∧
    ∀ fault, result = .error fault → fault = .integerTooLarge name ∨ fault = .notAnInteger name := by
  intro value result
  cases given : value with
  | missing => simp [result, given, Param.integer]
  | structured => simp [result, given, Param.integer, eq_comm]
  | text s =>
      by_cases integer : Decimal.IsInteger s
      · have read := integer_digits name integer
        generalize number : Nat.ofDigitChars 10 s.toList 0 = n at read
        by_cases le : n ≤ 2 ^ 53 - 1
        · rw [if_pos (show n ≤ largestInteger from le)] at read
          simpa [result, given, read, integer, number] using le
        · rw [if_neg (show ¬ n ≤ largestInteger from le)] at read
          simpa [result, given, read, integer, number] using le
      · have read := integer_other name integer
        simp [result, given, read, integer, eq_comm]

/-- The first number that is rounded, here down to `2 ^ 53`. -/
example : Param.integer "_HLS_msn" (.text "09007199254740993") =
    .error (.integerTooLarge "_HLS_msn") := by rfl

end LiveHls.Http.Param
