import LiveHls.SegmentRequest
import LiveHls.Text.Blank
import LiveHls.Decimal.Reader
/-! Range headers, read for a resource whose length is not known yet. The header is `bytes=` and a
list of specs, each of them optional digits, a dash and optional digits, after commas that blanks
may follow. Of several ranges the first that is not inverted counts. -/
namespace LiveHls.Http

/-- The numbers written before and behind the dash. -/
structure RangeSpec where
  first : Option Nat
  last : Option Nat
  deriving DecidableEq, Repr

namespace RangeSpec

def digits? (digits : List Char) : Option Nat :=
  if digits.isEmpty then none else some (Decimal.digitsValue 0 digits)

def read? (cs : List Char) : Option RangeSpec :=
  match cs.dropWhile Char.isDigit with
  | '-' :: behind =>
      if behind.all Char.isDigit then
        some ⟨digits? (cs.takeWhile Char.isDigit), digits? behind⟩
      else none
  | _ => none

def isEmpty (spec : RangeSpec) : Bool := spec.first.isNone && spec.last.isNone

/-- First and last position, if the spec is not inverted. Ends are cut off at the last position
there can be. A suffix counts back from the end of a resource of `2 ^ 53` bytes. -/
def range? (spec : RangeSpec) : Option (Nat × Nat) :=
  match spec.first, spec.last with
  | some first, last? =>
      let last := min (last?.getD openEnd.toNat) openEnd.toNat
      if first ≤ last then some (first, last) else none
  | none, some length =>
      if 1 ≤ length ∧ length ≤ Nat.pow 2 53 + 1 then
        some (Nat.pow 2 53 - length, openEnd.toNat)
      else none
  | none, none => none

end RangeSpec

inductive RangeHeader where
  /-- The header is ignored. -/
  | none
  | unsatisfiable
  | range (first last : Nat)
  deriving DecidableEq, Repr

namespace RangeHeader

def unit : List Char := "bytes=".toList

def specs? : List (List Char) → Option (List RangeSpec)
  | [] => some []
  | piece :: rest => do
      let spec ← RangeSpec.read? (Text.trimLeft piece)
      return spec :: (← specs? rest)

/-- The specs of a trimmed header. No blank stands before the first. -/
def read? (cs : List Char) : Option (List RangeSpec) :=
  if unit.isPrefixOf cs then
    match (cs.drop unit.length).splitOn ',' with
    | [] => Option.none
    | first :: rest => do
        let spec ← RangeSpec.read? first
        return spec :: (← specs? rest)
  else Option.none

def choose (specs : List RangeSpec) : RangeHeader :=
  if specs.head?.any (·.first.isNone) then .unsatisfiable
  else if specs.any (·.isEmpty) then .none
  else
    match specs.findSome? RangeSpec.range? with
    | some (first, last) => .range first last
    | Option.none => .unsatisfiable

def parse (header : Option String) : RangeHeader :=
  match header.bind fun text => read? (Text.trim text.toList) with
  | some specs => choose specs
  | Option.none => .none

end RangeHeader

end LiveHls.Http
