import Mathlib.Data.List.Forall2
import LiveHls.Http.RangeHeader
/-! How range headers are written: a unit and a list of specs, each of them digits, a dash and digits.
The reader takes exactly what is written so. -/
namespace LiveHls.Http

theorem not_blank_of_digit {c : Char} (digit : c.isDigit = true) : Text.isBlank c = false := by
  have value : c.toNat = c.val.toNat := rfl
  simp only [Char.isDigit, Bool.and_eq_true, decide_eq_true_eq, ge_iff_le, UInt32.le_iff_toNat_le,
    ← value] at digit
  simp only [Text.isBlank, Bool.or_eq_false_iff, Bool.and_eq_false_iff, decide_eq_false_iff_not]
  have least : '0'.val.toNat = 48 := rfl
  have most : '9'.val.toNat = 57 := rfl
  omega

namespace RangeSpec

/-- Digits, as many as there may be. -/
def Digits (cs : List Char) : Prop := ∀ c ∈ cs, c.isDigit = true

/-- The number that digits write; without digits none is written. -/
def numeral? (digits : List Char) : Option Nat :=
  if digits = [] then none else some (Nat.ofDigitChars 10 digits 0)

/-- A spec as it is written: a dash, with digits before and behind it or not. -/
inductive Written : List Char → RangeSpec → Prop
  | dash {before behind : List Char} (first : Digits before) (last : Digits behind) :
      Written (before ++ '-' :: behind) ⟨numeral? before, numeral? behind⟩

theorem digits?_eq_numeral? (digits : List Char) : digits? digits = numeral? digits := by
  cases digits <;> rfl

theorem read?_eq_some_iff (cs : List Char) (spec : RangeSpec) :
    read? cs = some spec ↔ Written cs spec := by
  unfold read?
  constructor
  · intro read
    split at read
    · rename_i behind rest
      split at read
      · rename_i last
        cases read
        have whole := List.takeWhile_append_dropWhile (p := Char.isDigit) (l := cs)
        rw [rest] at whole
        rw [digits?_eq_numeral?, digits?_eq_numeral?]
        have front : Digits (cs.takeWhile Char.isDigit) := List.all_eq_true.mp List.all_takeWhile
        have written := Written.dash front (List.all_eq_true.mp last)
        rwa [whole] at written
      · cases read
    · cases read
  · rintro ⟨first, last⟩
    rename_i before behind
    have rest : (before ++ '-' :: behind).dropWhile Char.isDigit = '-' :: behind := by
      rw [List.dropWhile_append_of_pos first]
      rfl
    have front : (before ++ '-' :: behind).takeWhile Char.isDigit = before := by
      rw [List.takeWhile_append_of_pos first]
      exact List.append_nil _
    simp only [rest, front, digits?_eq_numeral?, List.all_eq_true.mpr last, if_true]

theorem Written.trimLeft {cs : List Char} {spec : RangeSpec} (written : Written cs spec) :
    Text.trimLeft cs = cs := by
  obtain ⟨first, last⟩ := written
  rename_i before behind
  cases before with
  | nil => rfl
  | cons c before =>
      have solid := not_blank_of_digit (first c List.mem_cons_self)
      rw [Text.trimLeft, List.cons_append, List.dropWhile_cons, solid]
      rfl

theorem Written.comma {cs : List Char} {spec : RangeSpec} (written : Written cs spec) :
    ',' ∉ cs := by
  obtain ⟨first, last⟩ := written
  intro comma
  rcases List.mem_append.mp comma with before | dash | behind
  · exact absurd (first ',' before) (by decide)
  · rename_i behind
    exact absurd (last ',' behind) (by decide)

end RangeSpec

namespace RangeHeader

open RangeSpec (Written)

/-- A spec behind a comma, where blanks may come first. -/
def AfterBlanks (piece : List Char) (spec : RangeSpec) : Prop :=
  ∃ blanks body, piece = blanks ++ body ∧ (∀ c ∈ blanks, Text.isBlank c = true) ∧ Written body spec

/-- A set of ranges as it is written: the unit, and specs with commas between them. -/
inductive RangeSet (cs : List Char) : List RangeSpec → Prop
  | list {piece : List Char} {pieces : List (List Char)} {first : RangeSpec}
      {rest : List RangeSpec} (text : cs = unit ++ [','].intercalate (piece :: pieces))
      (head : Written piece first) (others : List.Forall₂ AfterBlanks pieces rest) :
      RangeSet cs (first :: rest)

theorem read?_trimLeft_iff (piece : List Char) (spec : RangeSpec) :
    RangeSpec.read? (Text.trimLeft piece) = some spec ↔ AfterBlanks piece spec := by
  rw [RangeSpec.read?_eq_some_iff]
  constructor
  · intro written
    exact ⟨piece.takeWhile Text.isBlank, _, List.takeWhile_append_dropWhile.symm,
      List.all_eq_true.mp List.all_takeWhile, written⟩
  · rintro ⟨blanks, body, rfl, blank, written⟩
    have same : body.dropWhile Text.isBlank = body := written.trimLeft
    rw [Text.trimLeft, List.dropWhile_append_of_pos blank, same]
    exact written

theorem specs?_eq_some_iff (pieces : List (List Char)) (specs : List RangeSpec) :
    specs? pieces = some specs ↔ List.Forall₂ AfterBlanks pieces specs := by
  induction pieces generalizing specs with
  | nil => simp [specs?, eq_comm]
  | cons piece pieces ih =>
      simp only [specs?, bind, Option.bind_eq_some_iff, read?_trimLeft_iff, ih, pure,
        Option.some.injEq]
      constructor
      · rintro ⟨spec, written, rest, others, rfl⟩
        exact .cons written others
      · intro all
        cases all with
        | cons written others => exact ⟨_, written, _, others, rfl⟩

theorem AfterBlanks.comma {piece : List Char} {spec : RangeSpec} (after : AfterBlanks piece spec) :
    ',' ∉ piece := by
  obtain ⟨blanks, body, rfl, blank, written⟩ := after
  intro comma
  rcases List.mem_append.mp comma with front | back
  · exact absurd (blank ',' front) (by decide)
  · exact written.comma back

/-- The reader takes what is written as a set of ranges, and nothing else. -/
theorem read?_eq_some_iff (cs : List Char) (specs : List RangeSpec) :
    read? cs = some specs ↔ RangeSet cs specs := by
  unfold read?
  constructor
  · intro read
    split at read
    · rename_i begins
      obtain ⟨rest, rfl⟩ := List.isPrefixOf_iff_prefix.mp begins
      rw [List.drop_left] at read
      split at read
      · cases read
      · rename_i piece pieces split
        simp only [bind, Option.bind_eq_some_iff, RangeSpec.read?_eq_some_iff, specs?_eq_some_iff,
          pure, Option.some.injEq] at read
        obtain ⟨first, head, more, others, rfl⟩ := read
        refine .list ?_ head others
        rw [← split, List.intercalate_splitOn]
    · cases read
  · rintro ⟨rfl, head, others⟩
    rename_i piece pieces first rest
    have commas : ∀ field ∈ piece :: pieces, ',' ∉ field := by
      intro field member
      rcases List.mem_cons.mp member with rfl | later
      · exact head.comma
      · obtain ⟨i, hi, rfl⟩ := List.getElem_of_mem later
        exact (others.get hi (others.length_eq ▸ hi)).comma
    rw [if_pos (List.isPrefixOf_iff_prefix.mpr (List.prefix_append _ _)), List.drop_left,
      List.splitOn_intercalate ',' commas (List.cons_ne_nil _ _)]
    simp only [(RangeSpec.read?_eq_some_iff _ _).mpr head, (specs?_eq_some_iff _ _).mpr others]
    rfl

theorem intercalate_cons (piece : List Char) (pieces : List (List Char)) :
    ∃ tail, [','].intercalate (piece :: pieces) = piece ++ tail := by
  cases pieces with
  | nil => exact ⟨[], by rw [List.intercalate_singleton, List.append_nil]⟩
  | cons next pieces => exact ⟨_, by rw [List.intercalate_cons_cons, List.append_assoc]⟩

theorem RangeSet.suffix {cs : List Char} {specs : List RangeSpec} (set : RangeSet cs specs) :
    (unit ++ ['-']).isPrefixOf cs = specs.head?.any (·.first.isNone) := by
  obtain ⟨rfl, head, others⟩ := set
  rename_i piece pieces first rest
  obtain ⟨tail, joined⟩ := intercalate_cons piece pieces
  rw [joined, Bool.eq_iff_iff, List.isPrefixOf_iff_prefix, List.prefix_append_right_inj]
  obtain ⟨digits, -⟩ := head
  rename_i before behind
  cases before with
  | nil => exact iff_of_true (List.prefix_append ['-'] (behind ++ tail)) rfl
  | cons c before =>
      refine iff_of_false ?_ nofun
      intro dash
      have same : '-' = c := (List.cons_prefix_cons.mp dash).1
      exact absurd (digits c List.mem_cons_self) (by rw [← same]; decide)

theorem RangeSet.filled {cs : List Char} {specs : List RangeSpec} (set : RangeSet cs specs) :
    specs ≠ [] := by
  cases set
  exact List.cons_ne_nil _ _

end RangeHeader
end LiveHls.Http
