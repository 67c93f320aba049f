import LiveHls.Text.Blank
import LiveHls.Decimal.Reader
/-! Words, numbers and signs of a calendar text. -/
namespace LiveHls.Timestamp

inductive Word where
  | month (n : Nat)
  /-- Hours that the second half of a day adds. -/
  | halfDay (hours : Nat)
  /-- A time zone, in hours ahead of universal time. -/
  | zone (hours : Int)
  /-- The letter between date and time. -/
  | separator
  | unknown
  deriving DecidableEq, Repr

inductive Token where
  /-- A number keeps the count of its digits, leading zeros included. -/
  | number (n length : Nat)
  | symbol (c : Char)
  | word (w : Word) (length : Nat)
  | space
  | other
  deriving DecidableEq, Repr

namespace Word

/-- Names of which the first three letters count. -/
def months : List String :=
  ["jan", "feb", "mar", "apr", "may", "jun", "jul", "aug", "sep", "oct", "nov", "dec"]

/-- Names that stand alone. -/
def names : List (String × Word) :=
  [ ("am", .halfDay 0), ("pm", .halfDay 12), ("ut", .zone 0), ("utc", .zone 0), ("z", .zone 0),
    ("gmt", .zone 0), ("cdt", .zone (-5)), ("cst", .zone (-6)), ("edt", .zone (-4)),
    ("est", .zone (-5)), ("mdt", .zone (-6)), ("mst", .zone (-7)), ("pdt", .zone (-7)),
    ("pst", .zone (-8)), ("t", .separator) ]

def ofLetters (letters : List Char) : Word :=
  let lower := letters.map Char.toLower
  match months.findIdx? (fun m => m.toList = lower.take 3) with
  | some i => .month (i + 1)
  | none => (names.lookup (String.ofList lower)).getD .unknown

end Word

/-- Letters and everything above them, blanks aside. -/
def isLetter (c : Char) : Bool := 'A' ≤ c && !Text.isBlank c

/-- Digits up to the ninth that counts; leading zeros do not count. -/
def numberValue (digits : List Char) : Nat :=
  Decimal.digitsValue 0 ((digits.dropWhile (· = '0')).take 9)

/-- What follows a parenthesis that is open to the given depth. -/
def skipParentheses : Nat → List Char → List Char
  | _, [] => []
  | depth, c :: rest =>
      let depth := if c = '(' then depth + 1 else if c = ')' then depth - 1 else depth
      if depth = 0 then rest else skipParentheses depth rest

/-- The first token of a text that is not empty, and what follows it. -/
def nextToken (c : Char) (rest : List Char) : Token × List Char :=
  let cs := c :: rest
  if c.isDigit then
    let digits := cs.takeWhile Char.isDigit
    (.number (numberValue digits) digits.length, cs.dropWhile Char.isDigit)
  else if c = ':' || c = '-' || c = '+' || c = '.' || c = ')' then (.symbol c, rest)
  else if isLetter c then
    let letters := cs.takeWhile isLetter
    (.word (.ofLetters letters) letters.length, cs.dropWhile isLetter)
  else if Text.isBlank c then (.space, rest)
  else if c = '(' then (.other, skipParentheses 1 rest)
  else (.other, rest)

/-- At most so many tokens. -/
def tokensWithin : Nat → List Char → List Token
  | 0, _ | _, [] => []
  | n + 1, c :: rest =>
      let (token, rest) := nextToken c rest
      token :: tokensWithin n rest

def tokens (cs : List Char) : List Token := tokensWithin cs.length cs

end LiveHls.Timestamp
