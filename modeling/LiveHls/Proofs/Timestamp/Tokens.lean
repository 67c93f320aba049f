import LiveHls.Timestamp
import LiveHls.Timestamp.Token
import LiveHls.Proofs.Decimal.Reading
/-! A calendar text, cut into tokens. A field of fixed width is one number, a sign or a letter between
two fields is a token of its own, and what follows does not matter. -/
namespace LiveHls.Timestamp

open Decimal (Digits Ends)

variable {cs digits rest : List Char} {c : Char} {width n : Nat}

theorem skipParentheses_length (depth : Nat) (cs : List Char) :
    (skipParentheses depth cs).length ≤ cs.length := by
  induction cs generalizing depth with
  | nil => exact Nat.le_refl 0
  | cons c rest ih =>
      rw [skipParentheses]
      generalize (if c = '(' then depth + 1 else if c = ')' then depth - 1 else depth) = next
      by_cases closed : next = 0
      · rw [if_pos closed]
        exact Nat.le_succ _
      · rw [if_neg closed]
        exact Nat.le_succ_of_le (ih next)

/-- A token takes at least one character. -/
theorem nextToken_length (c : Char) (rest : List Char) :
    (nextToken c rest).2.length ≤ rest.length := by
  unfold nextToken
  dsimp only
  split
  · rename_i digit
    rw [List.dropWhile_cons_of_pos digit]
    exact (List.dropWhile_sublist _).length_le
  · split
    · exact Nat.le_refl _
    · split
      · rename_i letter
        rw [List.dropWhile_cons_of_pos letter]
        exact (List.dropWhile_sublist _).length_le
      · split
        · exact Nat.le_refl _
        · split
          · exact skipParentheses_length 1 rest
          · exact Nat.le_refl _

/-- The count of tokens is no bound as soon as it is that of the characters. -/
theorem tokensWithin_enough {m : Nat} (enough : cs.length ≤ n) (more : cs.length ≤ m) :
    tokensWithin n cs = tokensWithin m cs := by
  induction n generalizing m cs with
  | zero =>
      obtain rfl := List.length_eq_zero_iff.mp (Nat.le_zero.mp enough)
      cases m <;> rfl
  | succ n ih =>
      cases cs with
      | nil => cases m <;> rfl
      | cons c rest =>
          cases m with
          | zero => exact absurd more (Nat.not_succ_le_zero _)
          | succ m =>
              have short := nextToken_length c rest
              have left := Nat.le_of_succ_le_succ enough
              have right := Nat.le_of_succ_le_succ more
              simp only [tokensWithin]
              rw [ih (Nat.le_trans short left) (Nat.le_trans short right)]

theorem tokens_cons (c : Char) (rest : List Char) :
    tokens (c :: rest) = (nextToken c rest).1 :: tokens (nextToken c rest).2 := by
  have enough := nextToken_length c rest
  simp only [tokens, List.length_cons, tokensWithin]
  rw [tokensWithin_enough enough (Nat.le_refl _)]

/-! ### Fields -/

theorem tokens_digits (digits : Digits cs) (present : cs ≠ []) (ends : Ends rest) :
    tokens (cs ++ rest) = .number (numberValue cs) cs.length :: tokens rest := by
  cases cs with
  | nil => exact absurd rfl present
  | cons c more =>
      have digit : c.isDigit = true := digits c List.mem_cons_self
      have taken := digits.takeWhile ends
      have left := digits.dropWhile ends
      rw [List.cons_append] at taken left ⊢
      rw [tokens_cons, nextToken]
      simp only [digit, if_true, taken, left]

theorem length_padded (fits : n < Nat.pow 10 width) (wide : 0 < width) :
    (padded width n).length = width := by
  have short := Nat.toDigits_length 10 n width wide fits
  rw [padded, List.length_append, Decimal.zeros, List.length_replicate]
  omega

theorem digits_padded (width n : Nat) : Digits (padded width n) :=
  (Decimal.digits_zeros _).append (Decimal.digits_toDigits n)

/-- Zeros in front do not count. -/
theorem ofDigitChars_dropWhile_zero (cs : List Char) :
    Nat.ofDigitChars 10 (cs.dropWhile (· = '0')) 0 = Nat.ofDigitChars 10 cs 0 := by
  induction cs with
  | nil => rfl
  | cons c rest ih =>
      by_cases zero : c = '0'
      · subst zero
        rw [List.dropWhile_cons_of_pos (by decide), ih]
        rfl
      · rw [List.dropWhile_cons_of_neg (by simpa using zero)]

theorem numberValue_padded (fits : n < Nat.pow 10 width) (wide : 0 < width) (few : width ≤ 9) :
    numberValue (padded width n) = n := by
  have short : ((padded width n).dropWhile (· = '0')).length ≤ 9 := by
    refine Nat.le_trans (List.dropWhile_sublist _).length_le ?_
    rw [length_padded fits wide]
    exact few
  rw [numberValue, List.take_of_length_le short]
  calc Nat.ofDigitChars 10 ((padded width n).dropWhile (· = '0')) 0
      = Nat.ofDigitChars 10 (padded width n) 0 := ofDigitChars_dropWhile_zero _
    _ = Nat.ofDigitChars 10 (Nat.toDigits 10 n) 0 := by
        rw [padded, Nat.ofDigitChars_append, Decimal.zeros, Nat.ofDigitChars_replicate_zero,
          Nat.mul_zero]
    _ = n := Nat.ofDigitChars_toDigits (by decide) (by decide)

theorem padded_ne_nil (width n : Nat) : padded width n ≠ [] := by
  intro empty
  exact Nat.toDigits_ne_nil (List.append_eq_nil_iff.mp empty).2

/-- A number of fixed width. -/
theorem tokens_padded (fits : n < Nat.pow 10 width) (wide : 0 < width) (few : width ≤ 9)
    (ends : Ends rest) : tokens (padded width n ++ rest) = .number n width :: tokens rest := by
  rw [tokens_digits (digits_padded width n) (padded_ne_nil width n) ends,
    numberValue_padded fits wide few, length_padded fits wide]

theorem tokens_sign (sign : c = '-' ∨ c = '+' ∨ c = ':' ∨ c = '.') (rest : List Char) :
    tokens (c :: rest) = .symbol c :: tokens rest := by
  rcases sign with rfl | rfl | rfl | rfl
  all_goals exact tokens_cons _ rest

theorem isLetter_of_isDigit (digit : c.isDigit = true) : isLetter c = false := by
  simp only [Char.isDigit, Bool.and_eq_true, decide_eq_true_eq] at digit
  have below : ¬ 'A' ≤ c := fun above => absurd (UInt32.le_trans above digit.2) (by decide)
  rw [isLetter, decide_eq_false below, Bool.false_and]

/-- The letter between date and time. -/
theorem tokens_separator (digits : Digits cs) (present : cs ≠ []) (rest : List Char) :
    tokens ('T' :: (cs ++ rest)) = .word .separator 1 :: tokens (cs ++ rest) := by
  obtain ⟨c, more, rfl⟩ := List.exists_cons_of_ne_nil present
  generalize whole : c :: more ++ rest = text
  have stops : text.takeWhile isLetter = [] ∧ text.dropWhile isLetter = text := by
    have digit : ¬ isLetter c = true := by
      rw [isLetter_of_isDigit (digits c List.mem_cons_self)]
      exact Bool.false_ne_true
    rw [← whole]
    exact ⟨List.takeWhile_cons_of_neg digit, List.dropWhile_cons_of_neg digit⟩
  have first : nextToken 'T' text =
      (.word (.ofLetters ('T' :: text.takeWhile isLetter)) ('T' :: text.takeWhile isLetter).length,
        text.dropWhile isLetter) := rfl
  rw [tokens_cons, first, stops.1, stops.2]
  rfl

end LiveHls.Timestamp
