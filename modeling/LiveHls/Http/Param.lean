import LiveHls.Decimal.Reader
import LiveHls.Fault
/-! Values of path and query parameters, and how numbers and flags are read from them. -/
namespace LiveHls.Http

inductive Param where
  | missing
  | text (s : String)
  /-- A repeated or nested parameter, or a value that is no text. -/
  | structured
  deriving DecidableEq, Repr

namespace Param

/-- Whole numbers are exact up to here. -/
def largestInteger : Nat := Nat.pow 2 53 - 1

/-- The whole number that `x` is, if no other one is rounded to it. -/
def exactInteger? (x : Float) : Option Int :=
  (Binary64.integer? x).filter fun n => n.natAbs ≤ largestInteger

/-- The digits are converted first, and what comes out of that is judged. -/
def integer (name : String) : Param → Except Fault (Option Nat)
  | .missing => .ok none
  | .structured => .error (.notAnInteger name)
  | .text s =>
      if s.isEmpty || !s.toList.all Char.isDigit then .error (.notAnInteger name)
      else
        match exactInteger? (Decimal.number s) with
        | some n => .ok (some n.toNat)
        | none => .error (.integerTooLarge name)

def duration (name : String) : Param → Except Fault (Option Float)
  | .missing => .ok none
  | .structured => .error (.notADuration name)
  | .text s =>
      let seconds :=
        if (Text.trim s.toList).isEmpty then Binary64.notANumber else Decimal.number s
      if Binary64.isFinite seconds && !(seconds < 0.0) then .ok (some seconds)
      else .error (.notADuration name)

/-- A flag is set by three words. -/
def boolean : Param → Bool
  | .text s => s = "1" || s = "true" || s = "yes"
  | _ => false

def required {α : Type} (name : String) : Except Fault (Option α) → Except Fault α
  | .ok (some a) => .ok a
  | .ok none => .error (.missing name)
  | .error fault => .error fault

end Param

abbrev Query := List (String × Param)

def Query.get (query : Query) (name : String) : Param := (query.lookup name).getD .missing

end LiveHls.Http
