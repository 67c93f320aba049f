import Mathlib
import LiveHls.Origin.Report
import LiveHls.Proofs.Binary64.Cuts
import LiveHls.Proofs.Decimal.Reading
/-! Numbers with units in reports. A number is divided until it is below the base of the units, and only
then rounded for its text: just below each power of the base the text reaches the base after all. -/
namespace LiveHls.Report

open Binary64

variable {base x : Float} {β p q r v : ℚ} {units : List String} {unit smallest largest : String} {n : Nat}

/-! ### The loop -/

/-- The loop, on numbers as they are read: where it starts, where it ends, and with which unit. A quotient
is the one that is computed, since it is rounded. -/
inductive Scales (base : Float) (β : ℚ) : List String → ℚ → ℚ → String → Prop
  | last {p : ℚ} {unit : String} : Scales base β [unit] p p unit
  | stop {p : ℚ} {unit larger : String} {rest : List String} (less : p < β) :
      Scales base β (unit :: larger :: rest) p p unit
  | divide {x : Float} {p r q : ℚ} {smaller larger unit : String} {rest : List String}
      (least : β ≤ p) (reads : Reads x p) (quotient : Reads (x / base) r) (rounds : Rounds (p / β) r)
      (later : Scales base β (larger :: rest) r q unit) :
      Scales base β (smaller :: larger :: rest) p q unit

theorem scale_scales (divisor : Reads base β) (one : 1 ≤ β) (present : units ≠ []) (reads : Reads x p) :
    ∃ q, Reads (scale base units x).1 q ∧ Scales base β units p q (scale base units x).2 := by
  fun_induction scale base units x generalizing p with
  | case1 => exact absurd rfl present
  | case2 x unit => exact ⟨p, reads, .last⟩
  | case3 x smaller larger long least ih =>
      obtain ⟨unit, rest, rfl⟩ := List.exists_cons_of_ne_nil long
      have positive : 0 < β := zero_lt_one.trans_le one
      have fits : p / β ≤ largest := (div_le_self reads.nonneg one).trans reads.le_largest
      obtain ⟨r, quotient, rounds⟩ := reads.div divisor positive fits
      obtain ⟨q, result, scales⟩ := ih long quotient
      exact ⟨q, result, .divide ((divisor.le_iff reads).mp least) reads quotient rounds scales⟩
  | case4 x smaller larger long above =>
      obtain ⟨unit, rest, rfl⟩ := List.exists_cons_of_ne_nil long
      exact ⟨p, reads, .stop (not_le.mp ((divisor.le_iff reads).not.mp above))⟩

/-- The loop goes on until the number is below the base. -/
theorem Scales.last_or_lt (scales : Scales base β units p q unit) :
    units.getLast? = some unit ∨ q < β := by
  induction scales with
  | last => exact .inl rfl
  | stop less => exact .inr less
  | divide _ _ _ _ _ ih => exact ih

theorem one_le_quotient (positive : 0 < β) (least : β ≤ p) (rounds : Rounds (p / β) r) : 1 ≤ r := by
  have one := rounds.ge (@stored_natCast 1 (by decide))
    (by rwa [Nat.cast_one, le_div_iff₀ positive, one_mul])
  rwa [Nat.cast_one] at one

theorem Scales.one_le (scales : Scales base β units p q unit) (positive : 0 < β) (one : 1 ≤ p) :
    1 ≤ q := by
  induction scales with
  | last | stop => exact one
  | divide least _ _ rounds _ ih => exact ih (one_le_quotient positive least rounds)

/-- A number that is divided is not below the base, so the quotient is not below one. -/
theorem Scales.head_or_one_le (scales : Scales base β units p q unit) (positive : 0 < β) :
    units.head? = some unit ∨ 1 ≤ q := by
  cases scales with
  | last | stop => exact .inl rfl
  | divide least _ _ rounds later =>
      exact .inr (later.one_le positive (one_le_quotient positive least rounds))

/-- Where the number that is left is within a rounding of the base: just below each of its powers, the
largest unit's aside. -/
theorem Scales.overstated_iff (scales : Scales base β units p q unit) (distinct : units.Nodup)
    (two : 2 ≤ β)
    (cuts : ∀ k, k + 2 < units.length → Cut base β (β ^ k * (β - 1 / 200)) ∧ Cut base β (β ^ (k + 1))) :
    units.getLast? ≠ some unit ∧ β - 1 / 200 ≤ q ↔
      ∃ k, k + 1 < units.length ∧ β ^ k * (β - 1 / 200) ≤ p ∧ p < β ^ (k + 1) := by
  have one : 1 ≤ β := by linarith
  induction scales with
  | last => simp
  | @stop p unit larger rest less =>
      have other : (unit :: larger :: rest).getLast? ≠ some unit := by
        rw [List.getLast?_cons_cons]
        intro last
        exact (List.nodup_cons.mp distinct).1 (List.mem_of_getLast? last)
      constructor
      · rintro ⟨-, high⟩
        exact ⟨0, by simp, by simpa using high, by simpa using less⟩
      · rintro ⟨k, -, high, -⟩
        refine ⟨other, le_trans ?_ high⟩
        exact le_mul_of_one_le_left (by linarith) (one_le_pow₀ one)
  | @divide x p r q smaller larger unit rest least reads quotient rounds later ih =>
      have longer : (smaller :: larger :: rest).length = (larger :: rest).length + 1 := rfl
      have found := ih (List.nodup_cons.mp distinct).2 fun k few =>
        cuts k (Nat.lt_of_lt_of_le few (Nat.le_succ _))
      have step (k : Nat) (few : k + 1 < (larger :: rest).length) :
          β ^ k * (β - 1 / 200) ≤ r ∧ r < β ^ (k + 1) ↔
            β ^ (k + 1) * (β - 1 / 200) ≤ p ∧ p < β ^ (k + 1 + 1) := by
        obtain ⟨lower, upper⟩ := cuts k (by omega)
        rw [← not_lt, lower reads quotient rounds least, upper reads quotient rounds least, not_lt,
          ← mul_assoc, ← pow_succ', ← pow_succ']
      rw [List.getLast?_cons_cons]
      refine found.trans ⟨?_, ?_⟩
      · rintro ⟨k, few, within⟩
        exact ⟨k + 1, by omega, (step k few).mp within⟩
      · rintro ⟨k, few, high, low⟩
        cases k with
        | zero =>
            rw [zero_add, pow_one] at low
            exact absurd low least.not_gt
        | succ k => exact ⟨k, by omega, (step k (by omega)).mpr ⟨high, low⟩⟩

/-- Infinity is divided until the largest unit is reached. -/
theorem scale_infinite (divisor : Reads base β) (positive : 0 < β) (long : units ≠ [])
    (infinite : unpack x = .infinity .positive) :
    unpack (scale base units x).1 = .infinity .positive ∧
      units.getLast? = some (scale base units x).2 := by
  fun_induction scale base units x with
  | case1 => exact absurd rfl long
  | case2 x unit => exact ⟨infinite, rfl⟩
  | case3 x smaller larger more least ih =>
      obtain ⟨unit, rest, rfl⟩ := List.exists_cons_of_ne_nil more
      rw [List.getLast?_cons_cons]
      exact ih more (div_infinite infinite divisor positive)
  | case4 x smaller larger more above => exact absurd (le_infinite infinite divisor) above

/-! ### Texts -/

/-- The number that a text shows, and its unit. -/
def shown? (s : String) : Option (WithTop ℚ × String) :=
  match Decimal.leadingValue? s.toList with
  | some (number, ' ' :: unit) => some (number, String.ofList unit)
  | _ => none

/-- The number is below the base unless the unit is the largest, and at least one unless it is the
smallest. -/
def Normalised (base : ℚ) (smallest largest s : String) : Prop :=
  ∃ number unit, shown? s = some (number, unit) ∧ (unit = largest ∨ number < (base : WithTop ℚ)) ∧
    (unit = smallest ∨ 1 ≤ number)

theorem normalised_iff_of_shown {s : String} {number : ℚ}
    (shown : shown? s = some ((number : WithTop ℚ), unit)) : Normalised β smallest largest s ↔
      (unit = largest ∨ number < β) ∧ (unit = smallest ∨ 1 ≤ number) := by
  rw [← WithTop.coe_lt_coe, ← WithTop.one_le_coe]
  constructor
  · rintro ⟨other, _, same, within⟩
    rw [shown] at same
    cases same
    exact within
  · exact fun within => ⟨number, unit, shown, within⟩

theorem scaled_toList (base : Float) (units : List String) (x : Float) :
    (scaled base units x).toList =
      (Decimal.fixed 2 (scale base units x).1).toList ++ ' ' :: (scale base units x).2.toList := by
  change (Decimal.fixed 2 (scale base units x).1 ++ " " ++ (scale base units x).2).toList = _
  rw [String.toList_append, String.toList_append, List.append_assoc]
  rfl

theorem shown_of_value {number : WithTop ℚ}
    (value : Decimal.leadingValue?
        ((Decimal.fixed 2 (scale base units x).1).toList ++ ' ' :: (scale base units x).2.toList) =
      some (number, ' ' :: (scale base units x).2.toList)) :
    shown? (scaled base units x) = some (number, (scale base units x).2) := by
  rw [shown?, scaled_toList, value]
  exact congrArg some (congrArg (number, ·) String.ofList_toList)

/-- The number is shown in hundredths, the nearest. -/
def hundredths (q : ℚ) : ℚ := ⌊q * 10 ^ 2 + 1 / 2⌋₊ / 10 ^ 2

theorem one_le_hundredths (one : 1 ≤ q) : 1 ≤ hundredths q := by
  have most : 100 ≤ ⌊q * 10 ^ 2 + 1 / 2⌋₊ := Nat.le_floor (by push_cast; linarith)
  rw [hundredths, le_div_iff₀ (by norm_num)]
  norm_num
  exact_mod_cast most

theorem hundredths_lt_iff (n : Nat) (nonneg : 0 ≤ q) : hundredths q < n ↔ q < n - 1 / 200 := by
  have bound : (n : ℚ) * 10 ^ 2 = (n * 100 : Nat) := by
    push_cast
    norm_num
  rw [hundredths, div_lt_iff₀ (by norm_num), bound, Nat.cast_lt, Nat.floor_lt (by positivity),
    ← bound]
  constructor <;> intro less <;> linarith

theorem hundredths_eq (high : n - 1 / 200 ≤ q) (less : q < n) : hundredths q = n := by
  have nonneg : (0 : ℚ) ≤ n := Nat.cast_nonneg n
  have same : ⌊q * 10 ^ 2 + 1 / 2⌋₊ = n * 100 := by
    refine (Nat.floor_eq_iff (by linarith)).mpr ?_
    push_cast
    constructor <;> linarith
  rw [hundredths, same]
  push_cast
  norm_num

/-- Below the bound of the notation a number is shown in hundredths; from there on at least one is shown. -/
theorem shown_of_reads (reads : Reads (scale base units x).1 q) : ∃ number : ℚ,
    shown? (scaled base units x) = some ((number : WithTop ℚ), (scale base units x).2) ∧
      (q < 10 ^ 21 ∧ number = hundredths q ∨ 10 ^ 21 ≤ q ∧ 1 ≤ number) := by
  rcases lt_or_ge q (10 ^ 21) with small | large
  · exact ⟨_, shown_of_value (Decimal.leadingValue?_of_lt (by decide) reads small _),
      .inl ⟨small, rfl⟩⟩
  · obtain ⟨number, one, value⟩ := Decimal.leadingValue?_of_ge reads large 2 _
    exact ⟨number, shown_of_value value, .inr ⟨large, one⟩⟩

/-- A number with its unit is not normalised just below the powers of the base, and there alone. It shows
the base itself there. -/
theorem scaled_normalised_iff (divisor : Reads base β) (whole : β = n) (two : 2 ≤ β)
    (small : β < 10 ^ 21) (distinct : units.Nodup) (head : units.head? = some smallest)
    (last : units.getLast? = some largest)
    (cuts : ∀ k, k + 2 < units.length → Cut base β (β ^ k * (β - 1 / 200)) ∧ Cut base β (β ^ (k + 1)))
    (reads : Reads x p) :
    (Normalised β smallest largest (scaled base units x) ↔
      ¬ ∃ k, k + 1 < units.length ∧ β ^ k * (β - 1 / 200) ≤ p ∧ p < β ^ (k + 1)) ∧
    (¬ Normalised β smallest largest (scaled base units x) →
      ∃ unit, unit ≠ largest ∧ shown? (scaled base units x) = some ((β : WithTop ℚ), unit)) := by
  subst whole
  have present : units ≠ [] := by
    rintro rfl
    cases head
  obtain ⟨q, result, scales⟩ := scale_scales divisor (by linarith) present reads
  obtain ⟨number, shown, value⟩ := shown_of_reads result
  have within := scales.overstated_iff distinct two cuts
  have first := scales.head_or_one_le (by linarith)
  have final := scales.last_or_lt
  generalize (scale base units x).2 = unit at shown within first final
  rw [last, Option.some.injEq, eq_comm] at final
  rw [head, Option.some.injEq, eq_comm] at first
  rw [last, ne_eq, Option.some.injEq, eq_comm] at within
  rw [normalised_iff_of_shown shown, ← within]
  rcases value with ⟨-, rfl⟩ | ⟨large, one⟩
  · have least := first.imp_right one_le_hundredths
    rw [hundredths_lt_iff n result.nonneg]
    refine ⟨?_, fun fails => ?_⟩
    · rw [not_and_or, not_not, not_le, and_iff_left least]
    · obtain ⟨other, high⟩ := not_or.mp fun under => fails ⟨under, least⟩
      have same := hundredths_eq (not_lt.mp high) (final.resolve_left other)
      exact ⟨unit, other, same ▸ shown⟩
  · have greatest : unit = largest := final.resolve_right (small.trans_le large).not_gt
    have normal : (unit = largest ∨ number < n) ∧ (unit = smallest ∨ 1 ≤ number) :=
      ⟨.inl greatest, .inr one⟩
    exact ⟨iff_of_true normal fun fails => fails.1 greatest, fun fails => absurd normal fails⟩

theorem scaled_normalised_of_infinite (divisor : Reads base β) (positive : 0 < β)
    (last : units.getLast? = some largest) (infinite : unpack x = .infinity .positive) :
    Normalised β smallest largest (scaled base units x) := by
  have long : units ≠ [] := by
    rintro rfl
    cases last
  obtain ⟨same, final⟩ := scale_infinite divisor positive long infinite
  rw [last, Option.some.injEq] at final
  exact ⟨⊤, _, shown_of_value (Decimal.leadingValue?_of_infinite same 2 _), .inl final.symm, .inr le_top⟩

theorem exists_of_four {P : Nat → Prop} : (∃ k, k + 1 < 4 ∧ P k) ↔ P 0 ∨ P 1 ∨ P 2 := by
  constructor
  · rintro ⟨k, few, holds⟩
    obtain rfl | rfl | rfl : k = 0 ∨ k = 1 ∨ k = 2 := by omega
    · exact .inl holds
    · exact .inr (.inl holds)
    · exact .inr (.inr holds)
  · rintro (holds | holds | holds)
    · exact ⟨0, by decide, holds⟩
    · exact ⟨1, by decide, holds⟩
    · exact ⟨2, by decide, holds⟩

/-! ### Bytes -/

theorem reads_1024 : Reads 1024.0 1024 := by
  have value : Binary64.scaled (2 ^ 52) (-42) = 1024 := by norm_num [Binary64.scaled]
  exact value ▸ reads_of_beq (by decide) (by decide +kernel)

/-- The least count that reaches a bound. -/
theorem le_natCast_iff {k : Nat} (above : (k : ℚ) < v) (le : v ≤ (k + 1 : Nat)) :
    v ≤ n ↔ k + 1 ≤ n := by
  constructor
  · exact fun reaches => Nat.cast_lt.mp (above.trans_le reaches)
  · exact fun reaches => le.trans (Nat.cast_le.mpr reaches)

theorem bytesText_normalised_iff (bytes : Nat) :
    (Normalised 1024 "B" "GB" (bytesText bytes) ↔
      ¬ ((1048571 ≤ bytes ∧ bytes < 1048576) ∨ (1073736582 ≤ bytes ∧ bytes < 1073741824))) ∧
    (¬ Normalised 1024 "B" "GB" (bytesText bytes) →
      ∃ unit, unit ≠ "GB" ∧ shown? (bytesText bytes) = some (1024, unit)) := by
  have distinct : ["B", "KB", "MB", "GB"].Nodup := by decide
  have whole : (1024 : ℚ) = (1024 : Nat) := by norm_num
  have normal {p : ℚ} (reads : Reads (Float.ofNat bytes) p) :=
    scaled_normalised_iff reads_1024 whole (by norm_num) (by norm_num) distinct rfl rfl
      (fun _ _ => ⟨cut_binary _, cut_binary _⟩) reads
  have unlisted (large : 2 ^ 53 ≤ bytes) :
      ¬ ((1048571 ≤ bytes ∧ bytes < 1048576) ∨ (1073736582 ≤ bytes ∧ bytes < 1073741824)) := by
    omega
  rcases ofNat_cases bytes with reads | ⟨large, infinite | ⟨p, reads, far⟩⟩
  · refine ⟨(normal reads).1.trans (not_congr ?_), (normal reads).2⟩
    have single : ¬ ((1024 : ℚ) ^ 0 * (1024 - 1 / 200) ≤ bytes ∧ (bytes : ℚ) < 1024 ^ (0 + 1)) := by
      rw [@le_natCast_iff _ _ 1023 (by norm_num) (by norm_num)]
      rintro ⟨reaches, less⟩
      have less : bytes < 1024 := by exact_mod_cast less
      omega
    have kilo : (1024 : ℚ) ^ 1 * (1024 - 1 / 200) ≤ bytes ↔ 1048571 ≤ bytes :=
      le_natCast_iff (by norm_num) (by norm_num)
    have mega : (1024 : ℚ) ^ 2 * (1024 - 1 / 200) ≤ bytes ↔ 1073736582 ≤ bytes :=
      le_natCast_iff (by norm_num) (by norm_num)
    refine exists_of_four.trans ?_
    rw [or_iff_right single, kilo, mega]
    norm_num
  · have last : ["B", "KB", "MB", "GB"].getLast? = some "GB" := rfl
    have shown : Normalised 1024 "B" "GB" (bytesText bytes) :=
      scaled_normalised_of_infinite reads_1024 (by norm_num) last infinite
    exact ⟨iff_of_true shown (unlisted large), fun fails => absurd shown fails⟩
  · refine ⟨(normal reads).1.trans (not_congr (iff_of_false ?_ ?_)), (normal reads).2⟩
    · rintro ⟨k, few, -, less⟩
      have few : k + 1 < 4 := few
      have bound : (1024 : ℚ) ^ (k + 1) ≤ 1024 ^ 3 := pow_le_pow_right₀ (by norm_num) (by omega)
      norm_num at bound far
      linarith
    · exact unlisted large

/-! ### Rates -/

/-- The mantissa of the least number that is shown as a thousand. -/
def edge : Nat := 8796049041742889

/-- From these numbers on a rate is shown as a thousand, in each unit but the largest. -/
theorem leastFrom_edges :
    LeastFrom 999.995 ((1000 : ℚ) ^ 0 * (1000 - 1 / 200)) edge (-43) ∧
    LeastFrom 999995.0 ((1000 : ℚ) ^ 1 * (1000 - 1 / 200)) (999995 * 2 ^ 33) (-33) ∧
    LeastFrom 999995000.0 ((1000 : ℚ) ^ 2 * (1000 - 1 / 200)) (999995000 * 2 ^ 23) (-23) := by
  refine ⟨?_, ?_, ?_⟩
  all_goals exact ⟨by decide, by decide, by decide, reads_of_beq (by decide) (by decide +kernel),
    by norm_num [Binary64.scaled, edge], by norm_num [Binary64.scaled, edge]⟩

/-- From these numbers on a rate is divided once more. -/
theorem leastFrom_powers :
    LeastFrom 1000.0 ((1000 : ℚ) ^ 1) (1000 * 2 ^ 43) (-43) ∧
    LeastFrom 1000000.0 ((1000 : ℚ) ^ 2) (1000000 * 2 ^ 33) (-33) ∧
    LeastFrom 1000000000.0 ((1000 : ℚ) ^ 3) (1000000000 * 2 ^ 23) (-23) := by
  refine ⟨?_, ?_, ?_⟩
  all_goals exact ⟨by decide, by decide, by decide, reads_of_beq (by decide) (by decide +kernel),
    by norm_num [Binary64.scaled], by norm_num [Binary64.scaled]⟩

theorem cuts_thousand (k : Nat) (few : k + 2 < 4) :
    Cut 1000.0 1000 ((1000 : ℚ) ^ k * (1000 - 1 / 200)) ∧ Cut 1000.0 1000 ((1000 : ℚ) ^ (k + 1)) := by
  obtain ⟨edge₀, edge₁, edge₂⟩ := leastFrom_edges
  obtain ⟨power₁, power₂, power₃⟩ := leastFrom_powers
  have next (k : Nat) (v : ℚ) : (1000 : ℚ) ^ (k + 1) * v = 1000 * (1000 ^ k * v) := by ring
  have next' (k : Nat) : (1000 : ℚ) ^ (k + 1) = 1000 * 1000 ^ k := by ring
  obtain rfl | rfl : k = 0 ∨ k = 1 := by omega
  · rw [next] at edge₁
    rw [next'] at power₂
    refine ⟨edge₀.cut edge₁ ?_ ?_ ?_ ?_ ?_, power₁.cut power₂ ?_ ?_ ?_ ?_ ?_⟩
    all_goals decide +kernel
  · rw [next] at edge₂
    rw [next'] at power₃
    refine ⟨edge₁.cut edge₂ ?_ ?_ ?_ ?_ ?_, power₂.cut power₃ ?_ ?_ ?_ ?_ ?_⟩
    all_goals decide +kernel

theorem reads_1000 : Reads 1000.0 1000 := by
  have value : Binary64.scaled (1000 * 2 ^ 43) (-43) = 1000 := by norm_num [Binary64.scaled]
  exact value ▸ leastFrom_powers.1.reads

theorem bitrateText_normalised_iff {rate : Float} (nonneg : 0.0 ≤ rate) :
    (Normalised 1000 "bps" "Gbps" (bitrateText rate) ↔
      ¬ ((999.995 ≤ rate ∧ rate < 1000.0) ∨ (999995.0 ≤ rate ∧ rate < 1000000.0) ∨
        (999995000.0 ≤ rate ∧ rate < 1000000000.0))) ∧
    (¬ Normalised 1000 "bps" "Gbps" (bitrateText rate) →
      ∃ unit, unit ≠ "Gbps" ∧ shown? (bitrateText rate) = some (1000, unit)) := by
  have distinct : ["bps", "Kbps", "Mbps", "Gbps"].Nodup := by decide
  have last : ["bps", "Kbps", "Mbps", "Gbps"].getLast? = some "Gbps" := rfl
  rcases infinite_or_reads nonneg with infinite | ⟨p, reads⟩
  · have shown : Normalised 1000 "bps" "Gbps" (bitrateText rate) :=
      scaled_normalised_of_infinite reads_1000 (by norm_num) last infinite
    refine ⟨iff_of_true shown ?_, fun fails => absurd shown fails⟩
    rintro (⟨-, less⟩ | ⟨-, less⟩ | ⟨-, less⟩)
    all_goals exact not_infinite_lt infinite _ less
  · have whole : (1000 : ℚ) = (1000 : Nat) := by norm_num
    have normal := scaled_normalised_iff reads_1000 whole (by norm_num) (by norm_num) distinct rfl last
      cuts_thousand reads
    obtain ⟨edge₀, edge₁, edge₂⟩ := leastFrom_edges
    obtain ⟨power₁, power₂, power₃⟩ := leastFrom_powers
    refine ⟨normal.1.trans (not_congr (exists_of_four.trans ?_)), normal.2⟩
    rw [edge₀.le_iff reads, edge₁.le_iff reads, edge₂.le_iff reads, power₁.lt_iff reads,
      power₂.lt_iff reads, power₃.lt_iff reads]

/-! ### Reports -/

/-- Byte counts and bit rates are shown below the base of their units, and at least as one, exactly where
they are not within half a hundredth of the next unit. There the base itself is shown, with the unit
before. -/
theorem units_normalised_iff (bytes : Nat) (rate : Float) (nonneg : 0.0 ≤ rate) :
    ((Normalised 1024 "B" "GB" (bytesText bytes) ↔
        ¬ ((1048571 ≤ bytes ∧ bytes < 1048576) ∨ (1073736582 ≤ bytes ∧ bytes < 1073741824))) ∧
      (¬ Normalised 1024 "B" "GB" (bytesText bytes) →
        ∃ unit, unit ≠ "GB" ∧ shown? (bytesText bytes) = some (1024, unit))) ∧
    (Normalised 1000 "bps" "Gbps" (bitrateText rate) ↔
      ¬ ((999.995 ≤ rate ∧ rate < 1000.0) ∨ (999995.0 ≤ rate ∧ rate < 1000000.0) ∨
        (999995000.0 ≤ rate ∧ rate < 1000000000.0))) ∧
    (¬ Normalised 1000 "bps" "Gbps" (bitrateText rate) →
      ∃ unit, unit ≠ "Gbps" ∧ shown? (bitrateText rate) = some (1000, unit)) :=
  ⟨bytesText_normalised_iff bytes, bitrateText_normalised_iff nonneg⟩

/-- The greatest count that is shown below 1024 kilobytes, and the greatest rate below 1000 bits. -/
theorem units_normalised_below_edges : 0.0 ≤ (999.9949999999999 : Float) ∧
    Normalised 1024 "B" "GB" (bytesText 1048570) ∧
    Normalised 1000 "bps" "Gbps" (bitrateText 999.9949999999999) :=
  have nonneg : 0.0 ≤ (999.9949999999999 : Float) := by decide +kernel
  have within := units_normalised_iff 1048570 999.9949999999999 nonneg
  ⟨nonneg, within.1.1.mpr (by decide), within.2.1.mpr (by decide +kernel)⟩

/-- One byte less than a megabyte is shown as 1024 kilobytes, and somewhat less than a thousand bits as a
thousand. -/
theorem units_reach_base : bytesText 1048575 = "1024.00 KB" ∧
    ¬ Normalised 1024 "B" "GB" (bytesText 1048575) ∧
    bitrateText 999.999 = "1000.00 bps" ∧
    ¬ Normalised 1000 "bps" "Gbps" (bitrateText 999.999) := by
  refine ⟨by decide +kernel, ?_, by decide +kernel, ?_⟩
  · exact (bytesText_normalised_iff 1048575).1.not.mpr (by decide)
  · have nonneg : 0.0 ≤ (999.999 : Float) := by decide +kernel
    exact (bitrateText_normalised_iff nonneg).1.not.mpr (by decide +kernel)

end LiveHls.Report
