import LiveHls.Timestamp
import LiveHls.Timestamp.Token
/-! Points in time read from text. The first form is the calendar text
`[+-YY]YYYY[-MM[-DD]][Thh:mm[:ss[.sss]][Z|(+|-)hh[:]mm]]`. A text that leaves this form before the
letter `T` is read freely: numbers are taken for the time when a colon follows and for the date
otherwise, months may be named, and words before the first number are passed over. Without a zone
the time is universal time. -/
namespace LiveHls.Timestamp

/-- What has been read so far. -/
structure Draft where
  /-- Up to three numbers of the date. -/
  date : List Int
  month : Option Nat
  /-- Whether the date is in the order year, month, day. -/
  ordered : Bool
  /-- Hours, minutes, seconds and milliseconds, as far as known. -/
  time : List Nat
  halfDay : Option Nat
  /-- Whether the zone lies behind universal time. -/
  behind : Option Bool
  zoneHours : Option Nat
  zoneMinutes : Option Nat
  sawNumber : Bool

namespace Draft

def blank : Draft := ⟨[], none, false, [], none, none, none, none, false⟩

def addDate? (d : Draft) (n : Int) : Option Draft :=
  if d.date.length < 3 then some { d with date := d.date ++ [n] } else none

def addTime? (d : Draft) (n : Nat) : Option Draft :=
  if d.time.length < 4 then some { d with time := d.time ++ [n] } else none

/-- Adds the last number of the time; what is missing is zero. -/
def endTime (d : Draft) (n : Nat) : Draft :=
  let time := if d.time.length < 4 then d.time ++ [n] else d.time
  { d with time := time ++ List.replicate (4 - time.length) 0 }

/-- Whether a number can be the next one of the time. -/
def expectsTime (d : Draft) (n : Nat) : Bool :=
  match d.time.length with
  | 1 | 2 => n < 60
  | 3 => n < 1000
  | _ => false

def expectsZoneMinutes (d : Draft) (n : Nat) : Bool :=
  d.zoneHours.isSome && d.zoneMinutes.isNone && n < 60

def isUniversal (d : Draft) : Bool := d.zoneHours = some 0 && d.zoneMinutes = some 0

def setZone (d : Draft) (hours : Int) : Draft :=
  { d with
    behind := some (hours < 0)
    zoneHours := some hours.natAbs
    zoneMinutes := some 0 }

/-- Year, month and day. Two-digit years lie between 1950 and 2049. -/
def day? (d : Draft) : Option (Int × Nat × Nat) :=
  if d.date.isEmpty then none
  else
    let a := d.date.getD 0 1
    let b := d.date.getD 1 1
    let c := d.date.getD 2 1
    let isDay (n : Int) : Bool := 1 ≤ n && n ≤ 31
    let (year, month, day) : Int × Int × Int :=
      match d.month with
      | none => if d.ordered || !isDay a then (a, b, c) else (c, a, b)
      | some month => if isDay a then (b, month, a) else (a, month, b)
    let year :=
      if d.ordered then year
      else if 0 ≤ year && year ≤ 49 then year + 2000
      else if 50 ≤ year && year ≤ 99 then year + 1900
      else year
    if 1 ≤ month && month ≤ 12 && isDay day then some (year, month.toNat, day.toNat) else none

/-- The time of the day in milliseconds. Midnight at the end of the day is hour 24. -/
def millis? (d : Draft) : Option Nat :=
  let minute := d.time.getD 1 0
  let second := d.time.getD 2 0
  let milli := d.time.getD 3 0
  let hour? :=
    match d.halfDay with
    | none => some (d.time.getD 0 0)
    | some offset => if d.time.getD 0 0 ≤ 12 then some (d.time.getD 0 0 % 12 + offset) else none
  hour?.bind fun hour =>
    let inDay := hour < 24 && minute < 60 && second < 60 && milli < 1000
    if inDay || (hour = 24 && minute = 0 && second = 0 && milli = 0) then
      some (((hour * 60 + minute) * 60 + second) * 1000 + milli)
    else none

/-- How far the zone is ahead of universal time, in milliseconds. -/
def offset (d : Draft) : Int :=
  let size : Int := (d.zoneHours.getD 0 * 60 + d.zoneMinutes.getD 0) * 60000
  match d.behind with
  | some true => -size
  | some false => size
  | none => 0

def timestamp (d : Draft) : Timestamp :=
  match d.day?, d.millis? with
  | some (year, month, day), some millis =>
      ofMillis ((firstOfMonth year month + (day - 1 : Nat)) * millisPerDay + millis - d.offset)
  | _, _ => .invalid

end Draft

/-- A fraction of a second in milliseconds: the first three digits of its number. -/
def fraction (n length : Nat) : Nat :=
  if length = 1 then n * 100 else if length = 2 then n * 10 else n / Nat.pow 10 (min length 9 - 3)

/-- Drops a symbol at the front. -/
def skipSymbol (c : Char) : List Token → Bool × List Token
  | .symbol s :: rest => if s = c then (true, rest) else (false, .symbol s :: rest)
  | tokens => (false, tokens)

/-! ### The calendar form -/

/-- How reading the calendar form ends. -/
inductive Form where
  | complete (d : Draft)
  | invalid
  /-- The text is to be read freely from these tokens on. -/
  | free (d : Draft) (tokens : List Token)

/-- The zone behind a time. -/
def readZone? (d : Draft) : List Token → Option Draft
  | [] => some d
  | [.word (.zone _) 1] => some (d.setZone 0)
  | .symbol sign :: rest =>
      let d := { d with behind := some (sign = '-') }
      if sign ≠ '+' && sign ≠ '-' then none
      else
        match rest with
        | [.number n 4] =>
            if n / 100 < 24 && n % 100 < 60 then
              some { d with zoneHours := some (n / 100), zoneMinutes := some (n % 100) }
            else none
        | [.number hours 2, .symbol ':', .number minutes 2] =>
            if hours < 24 && minutes < 60 then
              some { d with zoneHours := some hours, zoneMinutes := some minutes }
            else none
        | _ => none
  | _ => none

/-- Seconds, their fraction and the zone. -/
def readSeconds? (d : Draft) (endOfDay : Bool) : List Token → Option Draft
  | .symbol ':' :: .number second 2 :: rest =>
      if 60 ≤ second || (endOfDay && 0 < second) then none
      else
        let d := { d with time := d.time ++ [second] }
        match rest with
        | .symbol '.' :: .number n length :: rest =>
            if endOfDay && 0 < n then none
            else readZone? { d with time := d.time ++ [fraction n length] } rest
        | .symbol '.' :: _ => none
        | rest => readZone? d rest
  | .symbol ':' :: _ => none
  | rest => readZone? d rest

/-- What follows the letter between date and time. -/
def readTime? (d : Draft) : List Token → Option Draft
  | .number hour 2 :: .symbol ':' :: .number minute 2 :: rest =>
      let endOfDay : Bool := hour = 24
      if 24 < hour || 60 ≤ minute || (endOfDay && 0 < minute) then none
      else readSeconds? { d with time := [hour, minute] } endOfDay rest
  | _ => none

/-- What follows the date. -/
def readRest (d : Draft) (tokens : List Token) : Form :=
  match tokens with
  | [] => .complete { d.setZone 0 with ordered := true }
  | .word .separator _ :: rest =>
      match readTime? d rest with
      | some d => .complete { d with ordered := true }
      | none => .invalid
  | _ => .free d tokens

/-- What follows the year. -/
def readMonth (d : Draft) (tokens : List Token) : Form :=
  match skipSymbol '-' tokens with
  | (false, tokens) => readRest d tokens
  | (true, .number month 2 :: rest) =>
      if 1 ≤ month && month ≤ 12 then
        let d := { d with date := d.date ++ [(month : Int)] }
        match skipSymbol '-' rest with
        | (false, rest) => readRest d rest
        | (true, .number day 2 :: rest) =>
            if 1 ≤ day && day ≤ 31 then readRest { d with date := d.date ++ [(day : Int)] } rest
            else .free d (.number day 2 :: rest)
        | (true, rest) => .free d rest
      else .free d (.number month 2 :: rest)
  | (true, tokens) => .free d tokens

def readForm (tokens : List Token) : Form :=
  match tokens with
  | .symbol sign :: rest =>
      if sign = '+' || sign = '-' then
        match rest with
        | .number year 6 :: rest' =>
            if sign = '-' && year = 0 then .free .blank (.symbol sign :: rest')
            else readMonth { Draft.blank with date := [Binary64.signed (sign = '-') year] } rest'
        | _ => .free .blank tokens
      else .free .blank tokens
  | .number year 4 :: rest => readMonth { Draft.blank with date := [(year : Int)] } rest
  | _ => .free .blank tokens

/-! ### The free form -/

/-- A number and what follows it. -/
def freeNumber? (d : Draft) (n : Nat) (rest : List Token) : Option (Draft × List Token) :=
  let d := { d with sawNumber := true }
  match skipSymbol ':' rest with
  | (true, rest) =>
      match skipSymbol ':' rest with
      | (true, rest) => if d.time.isEmpty then some ({ d with time := [n, 0] }, rest) else none
      | (false, rest) => (d.addTime? n).map fun d => (d, (skipSymbol '.' rest).2)
  | (false, _) =>
      let (dotted, rest) := skipSymbol '.' rest
      if dotted && d.expectsTime n then
        match rest with
        | .number m length :: rest =>
            (d.addTime? n).map fun d => (d.endTime (fraction m length), rest)
        | _ => none
      else if d.expectsZoneMinutes n then some ({ d with zoneMinutes := some n }, rest)
      else if d.expectsTime n then
        let ends := match rest with
          | [] | .space :: _ | .word (.zone _) 1 :: _ | .symbol '+' :: _ | .symbol '-' :: _ => true
          | _ => false
        if ends then some (d.endTime n, rest) else none
      else (d.addDate? n).map fun d => (d, (skipSymbol '-' rest).2)

def startsWithNumber : List Token → Bool
  | .number _ _ :: _ => true
  | _ => false

def freeWord? (d : Draft) (w : Word) (rest : List Token) : Option (Draft × List Token) :=
  let pass := if d.sawNumber || startsWithNumber rest then none else some (d, rest)
  match w with
  | .halfDay hours => if d.time.isEmpty then pass else some ({ d with halfDay := some hours }, rest)
  | .month n => some ({ d with month := some n }, (skipSymbol '-' rest).2)
  | .zone hours => if d.sawNumber then some (d.setZone hours, rest) else pass
  | .separator | .unknown => pass

/-- A sign behind a time or behind universal time starts the offset of a zone. -/
def freeSign? (d : Draft) (sign : Char) (rest : List Token) : Option (Draft × List Token) :=
  if d.isUniversal || !d.time.isEmpty then
    let (n, length, rest) := match rest with
      | .number n length :: rest => (n, length, rest)
      | rest => (0, 0, rest)
    let d := { d with behind := some (sign = '-'), sawNumber := true }
    if (skipSymbol ':' rest).1 then
      some ({ d with zoneHours := some n, zoneMinutes := none }, rest)
    else if length = 1 || length = 2 then
      some ({ d with zoneHours := some n, zoneMinutes := some 0 }, rest)
    else if length = 3 || length = 4 then
      some ({ d with zoneHours := some (n / 100), zoneMinutes := some (n % 100) }, rest)
    else none
  else if d.sawNumber then none
  else some (d, rest)

def freeStep? (d : Draft) (token : Token) (rest : List Token) : Option (Draft × List Token) :=
  match token with
  | .number n _ => freeNumber? d n rest
  | .word w _ => freeWord? d w rest
  | .symbol c =>
      if c = '+' || c = '-' then freeSign? d c rest
      else if c = ')' && d.sawNumber then none
      else some (d, rest)
  | .space | .other => some (d, rest)

/-- At most so many steps. -/
def readFree? : Nat → Draft → List Token → Option Draft
  | 0, _, _ => none
  | _, d, [] => some d
  | n + 1, d, token :: rest => (freeStep? d token rest).bind fun (d, rest) => readFree? n d rest

/-- The point in time that a text names. -/
def parse (s : String) : Timestamp :=
  match readForm (tokens s.toList) with
  | .complete d => d.timestamp
  | .invalid => .invalid
  | .free d rest =>
      match readFree? (rest.length + 1) { d with sawNumber := !d.date.isEmpty } rest with
      | some d => d.timestamp
      | none => .invalid

end LiveHls.Timestamp
