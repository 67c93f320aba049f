import LiveHls.Yaml.Value
import LiveHls.Decimal.Reader
/-! What a plain scalar stands for: null, a truth value, a number, a point in time, or a text. Bytes
are written in base 64, under a tag. -/
namespace LiveHls.Yaml.Scalar

def nullWords : List String := ["~", "null", "Null", "NULL"]

def trueWords : List String := ["true", "True", "TRUE"]

def falseWords : List String := ["false", "False", "FALSE"]

def withoutUnderscores (cs : List Char) : List Char := cs.filter (· ≠ '_')

def endsInUnderscore (cs : List Char) : Bool := cs.getLast? = some '_'

/-- Digits in a base, underscores between them. -/
def digits? (base : Nat) (cs : List Char) : Option Nat :=
  if endsInUnderscore cs then none else Decimal.digitsIn? base (withoutUnderscores cs)

/-- An integer: binary, octal, hexadecimal or decimal. -/
def integer? (cs : List Char) : Option Float :=
  let (negative, rest) := Decimal.splitSign cs
  let value :=
    match rest with
    | ['0'] => some 0
    | '0' :: 'b' :: digits => digits? 2 digits
    | '0' :: 'o' :: digits => digits? 8 digits
    | '0' :: 'x' :: digits => digits? 16 digits
    | '_' :: _ => none
    | digits => digits? 10 digits
  value.map fun n => if n = 0 then 0.0 else Decimal.negateIf negative (Decimal.rounded n 0)

def isExponent : List Char → Bool
  | [] => true
  | mark :: rest =>
      (mark = 'e' || mark = 'E')
        && (Decimal.splitSign rest).2.all Char.isDigit && !(Decimal.splitSign rest).2.isEmpty

def isDigitOrUnderscore (c : Char) : Bool := c.isDigit || c = '_'

def isDecimal : List Char → Bool
  | '.' :: rest =>
      (rest.head?.any isDigitOrUnderscore) && isExponent (rest.dropWhile isDigitOrUnderscore)
  | c :: rest =>
      c.isDigit
        && match rest.dropWhile isDigitOrUnderscore with
          | '.' :: rest => isExponent (rest.dropWhile isDigitOrUnderscore)
          | rest => isExponent rest
  | [] => false

/-- A decimal number, an infinity or no number at all. -/
def float? (cs : List Char) : Option Float :=
  let (negative, rest) := Decimal.splitSign cs
  let signed := cs.length ≠ rest.length
  let word := String.ofList rest
  if word = ".inf" || word = ".Inf" || word = ".INF" then
    some (Decimal.negateIf negative Binary64.infinity)
  else if !signed && (word = ".nan" || word = ".NaN" || word = ".NAN") then
    some Binary64.notANumber
  else if isDecimal rest && !endsInUnderscore cs && !(signed && rest.head? = some '.') then
    let digits := String.ofList (withoutUnderscores rest)
    some (Decimal.negateIf negative (Decimal.leadingNumber digits))
  else none

/-- Digits of an exact or bounded count, and the rest. -/
def take? (least most : Nat) (cs : List Char) : Option (Nat × List Char) :=
  let digits := (cs.takeWhile Char.isDigit).take most
  if digits.length < least then none
  else some (Decimal.digitsValue 0 digits, cs.drop digits.length)

def skip? (c : Char) : List Char → Option (List Char)
  | d :: rest => if d = c then some rest else none
  | [] => none

/-- The offset of a zone in minutes. -/
def zone? (cs : List Char) : Option Int :=
  match cs.dropWhile fun c => c = ' ' || c = '\t' with
  | [] => if cs.isEmpty then some 0 else none
  | ['Z'] => some 0
  | sign :: rest =>
      if sign ≠ '+' && sign ≠ '-' then none
      else do
        let (hours, rest) ← take? 1 2 rest
        let minutes ← match rest with
          | [] => some 0
          | rest => (skip? ':' rest).bind fun rest =>
              (take? 2 2 rest).bind fun (minutes, rest) =>
                if rest.isEmpty then some minutes else none
        return Binary64.signed (sign = '-') (hours * 60 + minutes)

def timestamp (year : Int) (month day seconds millis : Nat) (zone : Int) : Timestamp :=
  let months : Int := month - 1
  let first := Timestamp.firstOfMonth (year + Int.fdiv months 12) ((months % 12).toNat + 1)
  .ofMillis ((first + (day : Int) - 1) * Timestamp.millisPerDay + seconds * 1000 + millis
    - zone * 60000)

/-- The time behind a date: hours, minutes, seconds with a fraction, and the zone. -/
def clock? (cs : List Char) : Option (Nat × Nat × Int) := do
  let rest ← match cs with
    | 'T' :: rest | 't' :: rest => some rest
    | ' ' :: rest | '\t' :: rest => some (rest.dropWhile fun c => c = ' ' || c = '\t')
    | _ => none
  let (hour, rest) ← take? 1 2 rest
  let (minute, rest) ← (skip? ':' rest).bind (take? 2 2)
  let (second, rest) ← (skip? ':' rest).bind (take? 2 2)
  let (millis, rest) := match rest with
    | '.' :: rest =>
        let digits := rest.takeWhile Char.isDigit
        (Decimal.digitsValue 0 ((digits ++ Decimal.zeros 3).take 3), rest.dropWhile Char.isDigit)
    | rest => (0, rest)
  return ((hour * 60 + minute) * 60 + second, millis, ← zone? rest)

def time? (cs : List Char) : Option Timestamp := do
  let (year, rest) ← take? 4 4 cs
  let (month, rest) ← (skip? '-' rest).bind (take? 1 2)
  let (day, tail) ← (skip? '-' rest).bind (take? 1 2)
  if tail.isEmpty then
    if cs.length = 10 then some (timestamp year month day 0 0 0) else none
  else
    let (seconds, millis, zone) ← clock? tail
    return timestamp year month day seconds millis zone

/-- The digits of base 64, in the order of their values. -/
def sextets : List Char :=
  "ABCDEFGHIJKLMNOPQRSTUVWXYZabcdefghijklmnopqrstuvwxyz0123456789+/".toList

/-- The bytes that digits of base 64 stand for, four digits to three bytes. -/
def packed : List Nat → List UInt8
  | a :: b :: c :: d :: rest =>
      UInt8.ofNat (a * 4 + b / 16) :: UInt8.ofNat (b * 16 + c / 4) :: UInt8.ofNat (c * 64 + d)
        :: packed rest
  | [a, b, c] => [UInt8.ofNat (a * 4 + b / 16), UInt8.ofNat (b * 16 + c / 4)]
  | [a, b] => [UInt8.ofNat (a * 4 + b / 16)]
  | _ => []

/-- Bytes in base 64, whose digits and fillers come in fours. An empty text stands for three zeros. -/
def bytes? (cs : List Char) : Option (List UInt8) :=
  let cs := cs.filter fun c => c ≠ '\n' && c ≠ '\r'
  let digits := cs.filter (· ≠ '=')
  if cs.length % 4 ≠ 0 || !digits.all sextets.contains then none
  else if digits.isEmpty then some [0, 0, 0]
  else some (packed (digits.map sextets.idxOf))

def resolve (s : String) : Yaml :=
  let cs := s.toList
  if nullWords.contains s then .null
  else if trueWords.contains s then .bool true
  else if falseWords.contains s then .bool false
  else
    match integer? cs, float? cs, time? cs with
    | some x, _, _ | none, some x, _ => .number x
    | none, none, some t => .time t
    | none, none, none => .text s

end LiveHls.Yaml.Scalar
