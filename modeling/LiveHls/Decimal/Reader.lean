import LiveHls.Decimal.Binary64
import LiveHls.Text.Blank
/-! Numbers read from text. The decimal grammar is
`digits ["." [digits]] | "." digits`, then optionally `("e" | "E") ["+" | "-"] digits`;
the value is rounded once, to the nearest binary64 number. -/
namespace LiveHls.Decimal

def digitsValue (start : Nat) (digits : List Char) : Nat :=
  digits.foldl (fun n c => 10 * n + (c.toNat - '0'.toNat)) start

/-- `coefficient * 10 ^ exponent`, rounded to nearest. Exponents so large that the result is
zero or infinite in any case are settled without computing a power of ten. -/
def rounded (coefficient : Nat) (exponent : Int) : Float :=
  if coefficient = 0 then 0.0
  else
    let top := (Nat.toDigits 10 coefficient).length + exponent
    if 400 < top then Binary64.infinity
    else if top < -400 then 0.0
    else Float.ofScientific coefficient (decide (exponent < 0)) exponent.natAbs

def splitSign : List Char → Bool × List Char
  | '-' :: rest => (true, rest)
  | '+' :: rest => (false, rest)
  | cs => (false, cs)

/-- An exponent mark with its digits, or exponent zero with nothing consumed. -/
def readExponent (cs : List Char) : Int × List Char :=
  match cs with
  | mark :: rest =>
      if mark = 'e' || mark = 'E' then
        let (negative, rest) := splitSign rest
        let digits := rest.takeWhile Char.isDigit
        if digits.isEmpty then (0, cs)
        else (Binary64.signed negative (digitsValue 0 digits), rest.dropWhile Char.isDigit)
      else (0, cs)
  | [] => (0, [])

/-- The longest decimal at the front of the text, as coefficient and power of ten, and the rest. -/
def readDecimal? (cs : List Char) : Option (Nat × Int × List Char) :=
  let whole := cs.takeWhile Char.isDigit
  let rest := cs.dropWhile Char.isDigit
  let (fraction, rest) :=
    match rest with
    | '.' :: tail => (tail.takeWhile Char.isDigit, tail.dropWhile Char.isDigit)
    | _ => ([], rest)
  if whole.isEmpty && fraction.isEmpty then none
  else
    let (exponent, rest) := readExponent rest
    some (digitsValue (digitsValue 0 whole) fraction, exponent - fraction.length, rest)

def negateIf (negative : Bool) (x : Float) : Float := if negative then -x else x

def infinityWord : List Char := "Infinity".toList

/-- The longest number at the front of the text, signed, and the rest. -/
def readSigned? (cs : List Char) : Option (Float × List Char) :=
  let (negative, rest) := splitSign cs
  if infinityWord.isPrefixOf rest then
    some (negateIf negative Binary64.infinity, rest.drop infinityWord.length)
  else
    (readDecimal? rest).map fun (coefficient, exponent, rest) =>
      (negateIf negative (rounded coefficient exponent), rest)

def digitIn? (base : Nat) (c : Char) : Option Nat :=
  let value? :=
    if '0' ≤ c && c ≤ '9' then some (c.toNat - '0'.toNat)
    else if 'a' ≤ c && c ≤ 'f' then some (c.toNat - 'a'.toNat + 10)
    else if 'A' ≤ c && c ≤ 'F' then some (c.toNat - 'A'.toNat + 10)
    else none
  value?.filter (· < base)

/-- The value of a text that consists of digits in `base` alone. -/
def digitsIn? (base : Nat) : List Char → Option Nat
  | [] => none
  | cs => cs.foldl (fun n c => n.bind fun n => (digitIn? base c).map (base * n + ·)) (some 0)

/-- The base that `0x`, `0o` or `0b` announces, and the digits after it. -/
def radix? : List Char → Option (Nat × List Char)
  | '0' :: mark :: rest =>
      if mark = 'x' || mark = 'X' then some (16, rest)
      else if mark = 'o' || mark = 'O' then some (8, rest)
      else if mark = 'b' || mark = 'B' then some (2, rest)
      else none
  | _ => none

/-- The number that the whole text names, blanks at its ends aside. A blank text names zero. -/
def number (s : String) : Float :=
  let cs := Text.trim s.toList
  if cs.isEmpty then 0.0
  else
    match radix? cs with
    | some (base, digits) =>
        match digitsIn? base digits with
        | some n => rounded n 0
        | none => Binary64.notANumber
    | none =>
        match readSigned? cs with
        | some (x, []) => x
        | _ => Binary64.notANumber

/-- The longest number at the front of the text; what follows it is ignored. -/
def leadingNumber (s : String) : Float :=
  match readSigned? (Text.trimLeft s.toList) with
  | some (x, _) => x
  | none => Binary64.notANumber

/-- The longest signed whole number at the front of the text; what follows it is ignored. -/
def leadingInteger (s : String) : Float :=
  let (negative, rest) := splitSign (Text.trimLeft s.toList)
  let digits := rest.takeWhile Char.isDigit
  if digits.isEmpty then Binary64.notANumber
  else negateIf negative (rounded (digitsValue 0 digits) 0)

end LiveHls.Decimal
