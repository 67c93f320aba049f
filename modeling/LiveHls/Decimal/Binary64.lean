/-! Exact readings of binary64 numbers. A finite number is a sign and a quotient of natural
numbers; everything that rounds, prints or compares it works on that quotient. -/
namespace LiveHls

open Float.Model (UnpackedFloat)

namespace Binary64

/-- Sign, mantissa and power of two, or what stands in for them. -/
def unpack (x : Float) : UnpackedFloat := x.toModel.unpack

/-- The magnitude `mantissa * 2 ^ exponent` as numerator and denominator. -/
def quotient (mantissa : Nat) (exponent : Int) : Nat × Nat :=
  (mantissa * Nat.pow 2 exponent.toNat, Nat.pow 2 (-exponent).toNat)

def isNegative : UnpackedFloat.Sign → Bool
  | .negative => true
  | .positive => false

def signed (negative : Bool) (n : Nat) : Int := if negative then -(n : Int) else n

/-- Applies `round`, a map from numerator and denominator to an integer, and keeps the sign of
a result that is zero. Numbers that are not finite stay as they are. -/
def roundBy (round : Int → Nat → Int) (x : Float) : Float :=
  match unpack x with
  | .finite sign mantissa exponent _ =>
      let (numerator, denominator) := quotient mantissa exponent
      let n := round (signed (isNegative sign) numerator) denominator
      if n = 0 then (if isNegative sign then -0.0 else 0.0) else Float.ofInt n
  | _ => x

def ceilQuotient (n : Int) (d : Nat) : Int := -Int.fdiv (-n) d

def nearestQuotient (n : Int) (d : Nat) : Int := Int.fdiv (2 * n + d) (2 * d)

def ceil (x : Float) : Float := roundBy ceilQuotient x

def round (x : Float) : Float := roundBy nearestQuotient x

/-- The integer that `x` is, if it is one. Both zeros are zero. -/
def integer? (x : Float) : Option Int :=
  match unpack x with
  | .zero _ => some 0
  | .finite sign mantissa exponent _ =>
      let (numerator, denominator) := quotient mantissa exponent
      if numerator % denominator = 0 then
        some (signed (isNegative sign) (numerator / denominator))
      else none
  | _ => none

/-- The integer part, if `x` is finite. -/
def truncate? (x : Float) : Option Int :=
  match unpack x with
  | .zero _ => some 0
  | .finite sign mantissa exponent _ =>
      let (numerator, denominator) := quotient mantissa exponent
      some (signed (isNegative sign) (numerator / denominator))
  | _ => none

def isFinite (x : Float) : Bool :=
  match unpack x with
  | .zero _ | .finite .. => true
  | _ => false

/-- Whether `x` is the zero that carries a minus sign. -/
def isNegativeZero (x : Float) : Bool :=
  match unpack x with
  | .zero sign => isNegative sign
  | _ => false

def notANumber : Float := 0.0 / 0.0

def infinity : Float := 1.0 / 0.0

end Binary64

end LiveHls
