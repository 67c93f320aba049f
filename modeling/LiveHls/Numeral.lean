import LiveHls.Decimal.Shortest
/-! Numbers offered where a segment is to be named. Segments are counted in whole numbers, so a
fraction names none; negative zero names the segment zero and is listed with its sign. -/
namespace LiveHls

inductive Numeral where
  | whole (n : Int)
  | negativeZero
  | other (x : Float)

namespace Numeral

def ofFloat (x : Float) : Numeral :=
  if Binary64.isNegativeZero x then .negativeZero
  else
    match Binary64.integer? x with
    | some n => .whole n
    | none => .other x

def toInt? : Numeral → Option Int
  | .whole n => some n
  | .negativeZero => some 0
  | .other _ => none

def toNat? (number : Numeral) : Option Nat :=
  number.toInt?.bind fun n => if 0 ≤ n then some n.toNat else none

def isBelow (number : Numeral) (n : Int) : Bool :=
  match number with
  | .whole m => m < n
  | .negativeZero => 0 < n
  | .other x => x < Float.ofInt n

end Numeral

/-- Whole numbers are written in full while they are exact as binary64 numbers; larger ones are
written with the digits that a binary64 number carries. -/
def integerText (n : Int) : String :=
  if n.natAbs < Nat.pow 2 53 then toString n else Decimal.text (Float.ofInt n)

def Numeral.text : Numeral → String
  | .whole n => integerText n
  | .negativeZero => "0"
  | .other x => Decimal.text x

end LiveHls
