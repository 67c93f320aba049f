import LiveHls.Decimal.Reader
import LiveHls.Proofs.Decimal.Notation
/-! The number at the front of a text. Blanks before it do not count and neither does what follows it.
A sign, digits, a point and an exponent count as far as they go, and a text that begins otherwise has
no number. What is written is given as relations, under which every text falls. -/
namespace LiveHls.Decimal

variable {s : String} {cs rest digits whole fraction sign mark : List Char} {negative : Bool}
  {exponent : Int} {x : Float}

/-! ### Digits -/

/-- What follows does not go on with a digit. -/
def Ends (rest : List Char) : Prop := ∀ c ∈ rest.head?, c.isDigit = false

theorem ends_nil : Ends [] := nofun

theorem ends_cons {c : Char} (other : c.isDigit = false) (rest : List Char) : Ends (c :: rest) := by
  rintro d ⟨⟩
  exact other

theorem Ends.takeWhile (ends : Ends rest) : rest.takeWhile Char.isDigit = [] := by
  cases rest with
  | nil => rfl
  | cons c tail => exact List.takeWhile_cons_of_neg (Bool.eq_false_iff.mp (ends c rfl))

theorem Ends.dropWhile (ends : Ends rest) : rest.dropWhile Char.isDigit = rest := by
  cases rest with
  | nil => rfl
  | cons c tail => exact List.dropWhile_cons_of_neg (Bool.eq_false_iff.mp (ends c rfl))

theorem Digits.takeWhile (digits : Digits cs) (ends : Ends rest) :
    (cs ++ rest).takeWhile Char.isDigit = cs := by
  rw [List.takeWhile_append_of_pos digits, ends.takeWhile, List.append_nil]

theorem Digits.dropWhile (digits : Digits cs) (ends : Ends rest) :
    (cs ++ rest).dropWhile Char.isDigit = rest := by
  rw [List.dropWhile_append_of_pos digits, ends.dropWhile]

theorem exists_digits (cs : List Char) :
    ∃ digits rest, cs = digits ++ rest ∧ Digits digits ∧ Ends rest := by
  refine ⟨cs.takeWhile Char.isDigit, cs.dropWhile Char.isDigit,
    List.takeWhile_append_dropWhile.symm, fun c member => List.mem_takeWhile_imp member, ?_⟩
  intro c first
  have stop := List.head?_dropWhile_not Char.isDigit cs
  rwa [Option.mem_def.mp first] at stop

/-! ### Fronts -/

/-- What a text holds behind its first blanks and one sign. -/
inductive Front : List Char → Bool → List Char → Prop
  | blank {c : Char} {cs : List Char} {negative : Bool} {rest : List Char}
      (blank : Text.isBlank c = true) (front : Front cs negative rest) : Front (c :: cs) negative rest
  | minus (rest : List Char) : Front ('-' :: rest) true rest
  | plus (rest : List Char) : Front ('+' :: rest) false rest
  | unsigned {rest : List Char}
      (other : ∀ c ∈ rest.head?, Text.isBlank c = false ∧ c ≠ '-' ∧ c ≠ '+') : Front rest false rest

/-- Every text has a front. -/
theorem exists_front (cs : List Char) : ∃ negative rest, Front cs negative rest := by
  induction cs with
  | nil => exact ⟨false, [], .unsigned nofun⟩
  | cons c rest ih =>
      by_cases blank : Text.isBlank c = true
      · obtain ⟨negative, behind, front⟩ := ih
        exact ⟨negative, behind, .blank blank front⟩
      · by_cases minus : c = '-'
        · exact ⟨true, rest, minus ▸ .minus rest⟩
        · by_cases plus : c = '+'
          · exact ⟨false, rest, plus ▸ .plus rest⟩
          · refine ⟨false, c :: rest, .unsigned ?_⟩
            rintro d ⟨⟩
            exact ⟨Bool.eq_false_iff.mpr blank, minus, plus⟩

theorem splitSign_unsigned {c : Char} (minus : c ≠ '-') (plus : c ≠ '+') (rest : List Char) :
    splitSign (c :: rest) = (false, c :: rest) := by
  unfold splitSign
  split
  · rename_i same
    exact absurd (List.cons.inj same).1 minus
  · rename_i same
    exact absurd (List.cons.inj same).1 plus
  · rfl

theorem Front.splitSign (front : Front cs negative rest) :
    splitSign (Text.trimLeft cs) = (negative, rest) := by
  induction front with
  | blank blank _ ih =>
      rw [Text.trimLeft, List.dropWhile_cons_of_pos blank]
      exact ih
  | minus rest => rfl
  | plus rest => rfl
  | @unsigned rest other =>
      cases rest with
      | nil => rfl
      | cons c tail =>
          obtain ⟨blank, minus, plus⟩ := other c rfl
          rw [Text.trimLeft, List.dropWhile_cons_of_neg (Bool.eq_false_iff.mp blank)]
          exact splitSign_unsigned minus plus tail

/-! ### Whole numbers -/

/-- The whole number behind a sign: digits as far as they go, or none. -/
inductive WholeAt (negative : Bool) : Float → List Char → Prop
  | digits {digits rest : List Char} (numeric : Digits digits) (present : digits ≠ [])
      (ends : Ends rest) :
      WholeAt negative (negateIf negative (rounded (Nat.ofDigitChars 10 digits 0) 0)) (digits ++ rest)
  | other {rest : List Char} (ends : Ends rest) : WholeAt negative Binary64.notANumber rest

theorem leadingInteger_eq (front : Front s.toList negative cs) (found : WholeAt negative x cs) :
    leadingInteger s = x := by
  cases found with
  | @digits digits rest numeric present ends =>
      have nonempty : digits.isEmpty = false := List.isEmpty_eq_false_iff.mpr present
      simp only [leadingInteger, front.splitSign, numeric.takeWhile ends, nonempty,
        Bool.false_eq_true, if_false]
      rfl
  | other ends =>
      simp only [leadingInteger, front.splitSign, ends.takeWhile, List.isEmpty_nil, if_true]

theorem exists_wholeAt (negative : Bool) (cs : List Char) : ∃ x, WholeAt negative x cs := by
  obtain ⟨digits, rest, rfl, numeric, ends⟩ := exists_digits cs
  cases digits with
  | nil => exact ⟨_, .other ends⟩
  | cons c more => exact ⟨_, .digits numeric (List.cons_ne_nil c more) ends⟩

theorem leadingInteger_eq_iff :
    leadingInteger s = x ↔
      ∃ negative cs, Front s.toList negative cs ∧ WholeAt negative x cs := by
  constructor
  · rintro rfl
    obtain ⟨negative, cs, front⟩ := exists_front s.toList
    obtain ⟨y, found⟩ := exists_wholeAt negative cs
    exact ⟨negative, cs, front, leadingInteger_eq front found ▸ found⟩
  · rintro ⟨negative, cs, front, found⟩
    exact leadingInteger_eq front found

/-! ### Exponents -/

/-- A sign, which may be left out. -/
inductive Sign : Bool → List Char → Prop
  | absent : Sign false []
  | plus : Sign false ['+']
  | minus : Sign true ['-']

theorem Sign.splitSign (signed : Sign negative sign) (numeric : Digits digits) (present : digits ≠ [])
    (rest : List Char) : splitSign (sign ++ (digits ++ rest)) = (negative, digits ++ rest) := by
  cases signed with
  | plus => rfl
  | minus => rfl
  | absent =>
      obtain ⟨c, more, rfl⟩ := List.exists_cons_of_ne_nil present
      have digit := numeric c List.mem_cons_self
      refine splitSign_unsigned ?_ ?_ (more ++ rest)
      · rintro rfl
        cases digit
      · rintro rfl
        cases digit

theorem exists_sign (cs : List Char) :
    ∃ sign, Sign (splitSign cs).1 sign ∧ cs = sign ++ (splitSign cs).2 := by
  unfold splitSign
  split
  · exact ⟨['-'], .minus, rfl⟩
  · exact ⟨['+'], .plus, rfl⟩
  · exact ⟨[], .absent, rfl⟩

/-- The exponent at the front of a text, its value and what follows it: a letter, a sign and digits, or
nothing where no digit comes. -/
inductive Exponent : Int → List Char → List Char → Prop
  | marked {letter : Char} {negative : Bool} {sign digits rest : List Char}
      (known : letter = 'e' ∨ letter = 'E') (signed : Sign negative sign) (numeric : Digits digits)
      (present : digits ≠ []) (ends : Ends rest) :
      Exponent (Binary64.signed negative (Nat.ofDigitChars 10 digits 0)) (letter :: (sign ++ digits))
        rest
  | absent {rest : List Char}
      (other : ∀ letter negative sign behind, letter = 'e' ∨ letter = 'E' → Sign negative sign →
        rest = letter :: (sign ++ behind) → Ends behind) :
      Exponent 0 [] rest

theorem Exponent.read (found : Exponent exponent mark rest) :
    readExponent (mark ++ rest) = (exponent, rest) := by
  cases found with
  | @marked letter negative sign digits rest known signed numeric present ends =>
      have nonempty : digits.isEmpty = false := List.isEmpty_eq_false_iff.mpr present
      have letters : (letter = 'e' || letter = 'E') = true := by simpa using known
      have value : digitsValue 0 digits = Nat.ofDigitChars 10 digits 0 := rfl
      simp only [List.cons_append, List.append_assoc, readExponent, letters, if_true,
        signed.splitSign numeric present, numeric.takeWhile ends, numeric.dropWhile ends, nonempty,
        Bool.false_eq_true, if_false, value]
  | absent other =>
      cases rest with
      | nil => rfl
      | cons letter tail =>
          rw [List.nil_append, readExponent]
          by_cases known : letter = 'e' ∨ letter = 'E'
          · have letters : (letter = 'e' || letter = 'E') = true := by simpa using known
            obtain ⟨sign, signed, split⟩ := exists_sign tail
            have ends := other letter _ sign _ known signed (congrArg (letter :: ·) split)
            simp only [letters, if_true, ends.takeWhile, List.isEmpty_nil]
          · have letters : ¬ (letter = 'e' || letter = 'E') = true := by simpa using known
            rw [if_neg letters]

theorem exists_exponent (cs : List Char) :
    ∃ exponent mark rest, cs = mark ++ rest ∧ Exponent exponent mark rest := by
  by_cases marked : ∃ letter negative sign digits rest, (letter = 'e' ∨ letter = 'E') ∧
      Sign negative sign ∧ Digits digits ∧ digits ≠ [] ∧ Ends rest ∧
        cs = letter :: (sign ++ digits) ++ rest
  · obtain ⟨letter, negative, sign, digits, rest, known, signed, numeric, present, ends, rfl⟩ := marked
    exact ⟨_, _, rest, rfl, .marked known signed numeric present ends⟩
  · refine ⟨0, [], cs, rfl, .absent fun letter negative sign behind known signed split => ?_⟩
    obtain ⟨digits, rest, rfl, numeric, ends⟩ := exists_digits behind
    by_cases present : digits = []
    · exact present ▸ ends
    · refine absurd ⟨letter, negative, sign, digits, rest, known, signed, numeric, present, ends, ?_⟩
        marked
      rw [split, List.cons_append, List.append_assoc]

/-! ### Numbers -/

/-- Digits without a point. -/
theorem readDecimal?_whole (digits : Digits whole) (present : whole ≠ []) (ends : Ends rest)
    (point : rest.head? ≠ some '.') :
    readDecimal? (whole ++ rest) =
      some (Nat.ofDigitChars 10 whole 0, (readExponent rest).1, (readExponent rest).2) := by
  have nonempty : whole.isEmpty = false := List.isEmpty_eq_false_iff.mpr present
  unfold readDecimal?
  simp only [digits.takeWhile ends, digits.dropWhile ends, nonempty, Bool.false_and,
    Bool.false_eq_true, if_false]
  split
  · exact absurd rfl point
  · simp only [List.length_nil, Int.natCast_zero, Int.sub_zero]
    rfl

/-- Digits with a point. -/
theorem readDecimal?_places (digits : Digits whole) (present : whole ≠ [] ∨ fraction ≠ [])
    (behind : Digits fraction) (ends : Ends rest) :
    readDecimal? (whole ++ '.' :: (fraction ++ rest)) =
      some (Nat.ofDigitChars 10 (whole ++ fraction) 0,
        (readExponent rest).1 - fraction.length, (readExponent rest).2) := by
  have nonempty : (whole.isEmpty && fraction.isEmpty) = false := by
    simpa [List.isEmpty_iff, or_iff_not_imp_left] using present
  have point : Ends ('.' :: (fraction ++ rest)) := ends_cons rfl _
  simp only [readDecimal?, digits.takeWhile point, digits.dropWhile point, behind.takeWhile ends,
    behind.dropWhile ends, nonempty, Bool.false_eq_true, if_false, Nat.ofDigitChars_append]
  rfl

/-- The number behind a sign: digits with or without a point and an exponent, as far as they go; the
word for infinity; or none. -/
inductive NumberAt (negative : Bool) : Float → List Char → Prop
  | whole {digits mark rest : List Char} {exponent : Int} (numeric : Digits digits)
      (present : digits ≠ []) (ends : Ends (mark ++ rest)) (point : (mark ++ rest).head? ≠ some '.')
      (power : Exponent exponent mark rest) :
      NumberAt negative (negateIf negative (rounded (Nat.ofDigitChars 10 digits 0) exponent))
        (digits ++ (mark ++ rest))
  | point {whole fraction mark rest : List Char} {exponent : Int} (numeric : Digits whole)
      (behind : Digits fraction) (present : whole ≠ [] ∨ fraction ≠ []) (ends : Ends (mark ++ rest))
      (power : Exponent exponent mark rest) :
      NumberAt negative (negateIf negative
          (rounded (Nat.ofDigitChars 10 (whole ++ fraction) 0) (exponent - fraction.length)))
        (whole ++ '.' :: (fraction ++ (mark ++ rest)))
  | infinity (rest : List Char) :
      NumberAt negative (negateIf negative Binary64.infinity) (infinityWord ++ rest)
  | other {rest : List Char} (ends : Ends rest) (point : ∀ behind, rest = '.' :: behind → Ends behind)
      (word : ∀ behind, rest ≠ infinityWord ++ behind) : NumberAt negative Binary64.notANumber rest

theorem isPrefixOf_infinity {c : Char} (other : c ≠ 'I') (rest : List Char) :
    infinityWord.isPrefixOf (c :: rest) = false := by
  refine Bool.eq_false_iff.mpr fun front => other ?_
  obtain ⟨behind, same⟩ := List.isPrefixOf_iff_prefix.mp front
  exact (List.cons.inj same).1.symm

/-- Digits are no word. -/
theorem isPrefixOf_digits (numeric : Digits digits) (present : digits ≠ []) (rest : List Char) :
    infinityWord.isPrefixOf (digits ++ rest) = false := by
  obtain ⟨c, more, rfl⟩ := List.exists_cons_of_ne_nil present
  refine isPrefixOf_infinity ?_ (more ++ rest)
  rintro rfl
  exact absurd (numeric 'I' List.mem_cons_self) (by decide)

theorem leadingNumber_of_decimal (front : Front s.toList negative cs)
    (word : infinityWord.isPrefixOf cs = false) :
    leadingNumber s = match readDecimal? cs with
      | some (coefficient, exponent, _) => negateIf negative (rounded coefficient exponent)
      | none => Binary64.notANumber := by
  simp only [leadingNumber, readSigned?, front.splitSign, word, Bool.false_eq_true, if_false]
  cases readDecimal? cs <;> rfl

theorem leadingNumber_eq (front : Front s.toList negative cs) (found : NumberAt negative x cs) :
    leadingNumber s = x := by
  cases found with
  | @whole digits mark rest exponent numeric present ends point power =>
      rw [leadingNumber_of_decimal front (isPrefixOf_digits numeric present _),
        readDecimal?_whole numeric present ends point, power.read]
  | @point whole fraction mark rest exponent numeric behind present ends power =>
      have word : infinityWord.isPrefixOf (whole ++ '.' :: (fraction ++ (mark ++ rest))) = false := by
        cases whole with
        | nil => exact isPrefixOf_infinity (by decide) _
        | cons c more => exact isPrefixOf_digits numeric (List.cons_ne_nil c more) _
      rw [leadingNumber_of_decimal front word, readDecimal?_places numeric present behind ends,
        power.read]
  | infinity rest =>
      have word : infinityWord.isPrefixOf (infinityWord ++ rest) = true :=
        List.isPrefixOf_iff_prefix.mpr (List.prefix_append _ rest)
      simp only [leadingNumber, readSigned?, front.splitSign, word, if_true]
  | other ends point word =>
      have other : infinityWord.isPrefixOf cs = false := by
        refine Bool.eq_false_iff.mpr fun front => ?_
        obtain ⟨behind, same⟩ := List.isPrefixOf_iff_prefix.mp front
        exact word behind same.symm
      have unread : readDecimal? cs = none := by
        unfold readDecimal?
        simp only [ends.takeWhile, ends.dropWhile]
        split
        · rename_i behind
          simp only [(point behind rfl).takeWhile, List.isEmpty_nil, Bool.and_self, if_true]
        · rfl
      rw [leadingNumber_of_decimal front other, unread]

theorem exists_numberAt (negative : Bool) (cs : List Char) : ∃ x, NumberAt negative x cs := by
  by_cases word : ∃ behind, cs = infinityWord ++ behind
  · obtain ⟨behind, rfl⟩ := word
    exact ⟨_, .infinity behind⟩
  · have word : ∀ behind, cs ≠ infinityWord ++ behind := fun behind same => word ⟨behind, same⟩
    obtain ⟨whole, rest, rfl, numeric, ends⟩ := exists_digits cs
    by_cases point : rest.head? = some '.'
    · obtain ⟨tail, rfl⟩ := List.head?_eq_some_iff.mp point
      obtain ⟨fraction, behind, rfl, decimal, beyond⟩ := exists_digits tail
      by_cases present : whole ≠ [] ∨ fraction ≠ []
      · obtain ⟨exponent, mark, rest, rfl, power⟩ := exists_exponent behind
        exact ⟨_, .point numeric decimal present beyond power⟩
      · obtain ⟨rfl, rfl⟩ : whole = [] ∧ fraction = [] := by simpa using present
        refine ⟨_, .other ends ?_ word⟩
        rintro other ⟨⟩
        exact beyond
    · by_cases present : whole = []
      · subst present
        exact ⟨_, .other ends (fun behind same => absurd (congrArg List.head? same) point) word⟩
      · obtain ⟨exponent, mark, rest, rfl, power⟩ := exists_exponent rest
        exact ⟨_, .whole numeric present ends point power⟩

theorem leadingNumber_eq_iff :
    leadingNumber s = x ↔
      ∃ negative cs, Front s.toList negative cs ∧ NumberAt negative x cs := by
  constructor
  · rintro rfl
    obtain ⟨negative, cs, front⟩ := exists_front s.toList
    obtain ⟨y, found⟩ := exists_numberAt negative cs
    exact ⟨negative, cs, front, leadingNumber_eq front found ▸ found⟩
  · rintro ⟨negative, cs, front, found⟩
    exact leadingNumber_eq front found

end LiveHls.Decimal
