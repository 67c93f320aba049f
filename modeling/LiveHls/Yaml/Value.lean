import LiveHls.Timestamp
/-! Values of YAML documents, and the text that one has where a text is asked for. -/
namespace LiveHls

inductive Yaml where
  | null
  | bool (b : Bool)
  | number (x : Float)
  | time (t : Timestamp)
  | text (s : String)
  | bytes (bs : List UInt8)
  | list (items : List Yaml)
  /-- Each key once, in order of appearance. -/
  | mapping (entries : List (String × Yaml))

namespace Timestamp

def weekdays : List String := ["Thu", "Fri", "Sat", "Sun", "Mon", "Tue", "Wed"]

def monthNames : List String :=
  ["Jan", "Feb", "Mar", "Apr", "May", "Jun", "Jul", "Aug", "Sep", "Oct", "Nov", "Dec"]

def longText : Timestamp → String
  | .invalid => "Invalid Date"
  | .at millis =>
      let day := Int.fdiv millis millisPerDay
      let seconds := (millis - day * millisPerDay).toNat / 1000
      let (year, month, dayOfMonth) := civil day
      let sign := if year < 0 then "-" else ""
      let two (n : Nat) := String.ofList (padded 2 n)
      let weekday := weekdays.getD (day % 7).toNat ""
      let monthName := monthNames.getD (month - 1) ""
      let date := s!"{weekday} {monthName} {two dayOfMonth}"
      let clock := s!"{two (seconds / 3600)}:{two (seconds / 60 % 60)}:{two (seconds % 60)}"
      s!"{date} {sign}{String.ofList (padded 4 year.natAbs)} {clock}"
        ++ " GMT+0000 (Coordinated Universal Time)"

end Timestamp

namespace Yaml

mutual

/-- The text of a value. A list is its texts between commas, as are bytes; a mapping has no text of
its own, and none at all if it redefines how its text is made. -/
def text? : Yaml → Option String
  | .null => some "null"
  | .bool b => some (if b then "true" else "false")
  | .number x => some (Decimal.text x)
  | .time t => some t.longText
  | .text s => some s
  | .bytes bs => some (",".intercalate (bs.map fun byte => toString byte.toNat))
  | .list items => (texts? items).map (",".intercalate ·)
  | .mapping entries =>
      if (entries.lookup "toString").isSome then none else some "[object Object]"

/-- The texts of the items of a list; null has an empty one. -/
def texts? : List Yaml → Option (List String)
  | [] => some []
  | .null :: rest => (texts? rest).map ("" :: ·)
  | item :: rest => do
      let s ← text? item
      return s :: (← texts? rest)

end

/-- Whether a value counts as given where a text is optional. -/
def isGiven : Yaml → Bool
  | .null => false
  | .bool b => b
  | .number x => x < 0.0 || 0.0 < x
  | .text s => !s.isEmpty
  | .time _ | .bytes _ | .list _ | .mapping _ => true

/-- Bytes as the entries of a record: each under its index. -/
def indexed (bs : List UInt8) : List (String × Yaml) :=
  bs.zipIdx.map fun (byte, index) => (toString index, .number (Float.ofNat byte.toNat))

/-- The entries of a value that is a record. Bytes are one too, and a time is one without entries. -/
def entries? : Yaml → Option (List (String × Yaml))
  | .mapping entries => some entries
  | .bytes bs => some (indexed bs)
  | .time _ => some []
  | _ => none

end Yaml

end LiveHls
