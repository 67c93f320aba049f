import LiveHls.Decimal.Binary64
/-! The decimal text of a binary64 number: the fewest digits that read back as the same number,
and of those the nearest to it. Numbers from `10 ^ -6` up to, but not including, `10 ^ 21` are
written positionally, all others with an exponent. -/
namespace LiveHls.Decimal

open Binary64 (quotient)

def digitCount (n : Nat) : Nat := (Nat.toDigits 10 n).length

/-- The least `k` with `n / d < 10 ^ k`, for positive `n` and `d`. -/
def magnitude (n d : Nat) : Int :=
  if d ≤ n then digitCount (n / d)
  else
    let c := digitCount (d / n)
    if d ≤ n * Nat.pow 10 (c - 1) then 2 - (c : Int) else 1 - (c : Int)

/-- Whether `a * 2 ^ p` and `b * 10 ^ s` stand in the relation `r`, decided on naturals. -/
def comparePowers (r : Nat → Nat → Bool) (a : Nat) (p : Int) (b : Nat) (s : Int) : Bool :=
  r (a * Nat.pow 2 p.toNat * Nat.pow 10 (-s).toNat) (b * Nat.pow 10 s.toNat * Nat.pow 2 (-p).toNat)

/-- Whether `c * 10 ^ s` rounds to `mantissa * 2 ^ exponent`. The reals that do so reach half way
to either neighbour, a quarter way down at a power of two, and include the ends of that interval
for an even mantissa. -/
def readsBack (mantissa : Nat) (exponent : Int) (c : Nat) (s : Int) : Bool :=
  let low := 4 * mantissa - (if mantissa = Nat.pow 2 52 ∧ exponent > -1074 then 1 else 2)
  let high := 4 * mantissa + 2
  if mantissa % 2 = 0 then
    comparePowers (fun a b => a ≤ b) low (exponent - 2) c s
      && comparePowers (fun a b => b ≤ a) high (exponent - 2) c s
  else
    comparePowers (fun a b => a < b) low (exponent - 2) c s
      && comparePowers (fun a b => b < a) high (exponent - 2) c s

/-- The better of the two grid points `c * 10 ^ s` and `(c + 1) * 10 ^ s` around the number,
among those that read back. -/
def nearestOnGrid (mantissa : Nat) (exponent : Int) (c : Nat) (s : Int) : Option Nat :=
  match readsBack mantissa exponent c s, readsBack mantissa exponent (c + 1) s with
  | false, false => none
  | true, false => some c
  | false, true => some (c + 1)
  | true, true =>
      if comparePowers (fun a b => a < b) (2 * mantissa) exponent (2 * c + 1) s then some c
      else if comparePowers (fun a b => b < a) (2 * mantissa) exponent (2 * c + 1) s then
        some (c + 1)
      else some (if c % 2 = 0 then c else c + 1)

/-- Coefficient and power of ten of the shortest decimal that reads back. -/
def shortest (mantissa : Nat) (exponent : Int) : Nat × Int :=
  let (n, d) := quotient mantissa exponent
  let top := magnitude n d
  let onGrid (p : Nat) : Option (Nat × Int) :=
    let s := top - (p : Int) - 1
    let c := (n * Nat.pow 10 (-s).toNat) / (d * Nat.pow 10 s.toNat)
    (nearestOnGrid mantissa exponent c s).map fun c => (c, s)
  ((List.range 17).findSome? onGrid).getD (n, 0)

def significant (coefficient : Nat) : List Char :=
  ((Nat.toDigits 10 coefficient).reverse.dropWhile (· = '0')).reverse

def zeros (n : Nat) : List Char := List.replicate n '0'

/-- Lays out `0.d₁d₂… * 10 ^ point`. -/
def layout (digits : List Char) (point : Int) : List Char :=
  let count : Int := digits.length
  if count ≤ point ∧ point ≤ 21 then digits ++ zeros (point - count).toNat
  else if 0 < point ∧ point ≤ 21 then
    digits.take point.toNat ++ '.' :: digits.drop point.toNat
  else if -6 < point ∧ point ≤ 0 then '0' :: '.' :: zeros (-point).toNat ++ digits
  else
    let e := point - 1
    let mark := 'e' :: (if e < 0 then '-' else '+') :: Nat.toDigits 10 e.natAbs
    match digits with
    | [] => mark
    | [d] => d :: mark
    | d :: rest => d :: '.' :: rest ++ mark

/-- The text of a number. The sign of zero is not written. -/
def text (x : Float) : String :=
  match Binary64.unpack x with
  | .notANumber => "NaN"
  | .infinity sign => if Binary64.isNegative sign then "-Infinity" else "Infinity"
  | .zero _ => "0"
  | .finite sign mantissa exponent _ =>
      let (coefficient, power) := shortest mantissa exponent
      let point := (digitCount coefficient : Int) + power
      let body := layout (significant coefficient) point
      String.ofList (if Binary64.isNegative sign then '-' :: body else body)

end LiveHls.Decimal
