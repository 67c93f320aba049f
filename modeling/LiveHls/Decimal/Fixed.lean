import LiveHls.Decimal.Shortest
/-! Numbers with a fixed count of decimal places: the exact value is rounded to the nearest
multiple of `10 ^ -places`, a half away from zero. -/
namespace LiveHls.Decimal

/-- The nearest natural number to `n / d`; a half goes up. -/
def nearest (n d : Nat) : Nat := (2 * n + d) / (2 * d)

/-- `units * 10 ^ -places` in positional notation. -/
def placed (places units : Nat) : List Char :=
  let whole := Nat.toDigits 10 (units / Nat.pow 10 places)
  let rest := Nat.toDigits 10 (units % Nat.pow 10 places)
  if places = 0 then whole else whole ++ '.' :: zeros (places - rest.length) ++ rest

/-- The text of `x` with `places` decimals. A magnitude of `10 ^ 21` or more has its shortest
text instead; a negative number keeps its sign even when it rounds to zero. -/
def fixed (places : Nat) (x : Float) : String :=
  match Binary64.unpack x with
  | .zero _ => String.ofList (placed places 0)
  | .finite sign mantissa exponent _ =>
      let (n, d) := Binary64.quotient mantissa exponent
      if Nat.pow 10 21 * d ≤ n then text x
      else
        let body := placed places (nearest (n * Nat.pow 10 places) d)
        String.ofList (if Binary64.isNegative sign then '-' :: body else body)
  | _ => text x

end LiveHls.Decimal
