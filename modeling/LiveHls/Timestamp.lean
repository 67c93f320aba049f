import LiveHls.Decimal.Fixed
/-! Points in time, in milliseconds since the start of 1970, and their calendar text. -/
namespace LiveHls

/-- Times reach 100 million days to either side of the start of 1970. -/
def Timestamp.limit : Nat := 8640000000000000

inductive Timestamp where
  | at (millis : Int) {within : millis.natAbs ≤ Timestamp.limit}
  | invalid

namespace Timestamp

def ofMillis (millis : Int) : Timestamp :=
  if within : millis.natAbs ≤ limit then @.at millis within else .invalid

/-- Fractions of a millisecond are dropped. -/
def ofFloat (x : Float) : Timestamp :=
  match Binary64.truncate? x with
  | some millis => ofMillis millis
  | none => .invalid

def millisPerDay : Int := 86400000

/-- Year, month and day of a day counted from the start of 1970, in the Gregorian calendar.
Years are counted from a first of March and in eras of 400 years, which all have 146097 days. -/
def civil (day : Int) : Int × Nat × Nat :=
  let shifted := day + 719468
  let era := Int.fdiv shifted 146097
  let dayOfEra := (shifted - era * 146097).toNat
  let yearOfEra := (dayOfEra - dayOfEra / 1460 + dayOfEra / 36524 - dayOfEra / 146096) / 365
  let dayOfYear := dayOfEra - (365 * yearOfEra + yearOfEra / 4 - yearOfEra / 100)
  let march := (5 * dayOfYear + 2) / 153
  let dayOfMonth := dayOfYear - (153 * march + 2) / 5 + 1
  let month := if march < 10 then march + 3 else march - 9
  let year : Int := yearOfEra + era * 400
  (if month ≤ 2 then year + 1 else year, month, dayOfMonth)

/-- The day, counted from the start of 1970, of the first of a month. -/
def firstOfMonth (year : Int) (month : Nat) : Int :=
  let shifted := if month ≤ 2 then year - 1 else year
  let era := Int.fdiv shifted 400
  let yearOfEra := shifted - era * 400
  let march : Nat := if month ≤ 2 then month + 9 else month - 3
  let dayOfYear : Int := ((153 * march + 2) / 5 : Nat)
  era * 146097 + yearOfEra * 365 + Int.fdiv yearOfEra 4 - Int.fdiv yearOfEra 100 + dayOfYear
    - 719468

/-- At least `width` digits. -/
def padded (width n : Nat) : List Char :=
  let digits := Nat.toDigits 10 n
  Decimal.zeros (width - digits.length) ++ digits

/-- Four digits for the years 0 to 9999, else a sign and six digits. -/
def yearText (year : Int) : List Char :=
  if 0 ≤ year ∧ year ≤ 9999 then padded 4 year.toNat
  else (if year < 0 then '-' else '+') :: padded 6 year.natAbs

/-- The text `YYYY-MM-DDThh:mm:ss.sssZ`, if the time is valid. -/
def text? : Timestamp → Option String
  | .invalid => none
  | .at millis =>
      let day := Int.fdiv millis millisPerDay
      let rest := (millis - day * millisPerDay).toNat
      let (year, month, dayOfMonth) := civil day
      some (String.ofList (
        yearText year ++ '-' :: padded 2 month ++ '-' :: padded 2 dayOfMonth
          ++ 'T' :: padded 2 (rest / 3600000) ++ ':' :: padded 2 (rest / 60000 % 60)
          ++ ':' :: padded 2 (rest / 1000 % 60) ++ '.' :: padded 3 (rest % 1000) ++ ['Z']))

end Timestamp

end LiveHls
