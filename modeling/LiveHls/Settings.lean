import LiveHls.Numeral
/-! Timing values of a stream, derived from the nominal durations of its segments and parts. -/
namespace LiveHls

/-- How many parts past the live edge a playlist request may name. -/
inductive PartLimit where
  | count (n : Int)
  | unlimited
  | refuseAll

namespace PartLimit

/-- Whether part `part` lies `limit` or more past `base`. -/
def refuses (limit : PartLimit) (base part : Int) : Bool :=
  match limit with
  | .count n => base + n ≤ part
  | .unlimited => false
  | .refuseAll => true

def text : PartLimit → String
  | .count n => integerText n
  | .unlimited => "Infinity"
  | .refuseAll => "-Infinity"

/-- The limit that a derived value stands for: a whole number or an infinity of either sign. -/
def ofFloat (x : Float) : PartLimit :=
  match Binary64.integer? x with
  | some n => .count n
  | none => if x < 0.0 then .refuseAll else .unlimited

end PartLimit

/-- Numbers that can be rounded to whole ones: upwards, or to the nearest, where a half goes up. -/
class Rounding (α : Type) where
  ceil : α → α
  round : α → α

instance : Rounding Float := ⟨Binary64.ceil, Binary64.round⟩

/-- Durations are in seconds. A stream has them as binary64 numbers. -/
structure Settings (α : Type := Float) where
  segmentDuration : α
  partDuration : α
  partTargetDuration : α
  targetDuration : α
  advancePartLimit : α
  partHoldBack : α
  startTimeOffset : α

namespace Settings

section
variable {α : Type} [Mul α] [Div α] [LT α] [DecidableLT α] [OfScientific α] [Rounding α]

/-- The nominal part duration in whole milliseconds, rounded up after noise below a microsecond
has been rounded away. -/
def partTargetMillis (partDuration : α) : α :=
  Rounding.ceil (Rounding.round (partDuration * 1e6) / 1e3)

/-- Below a second the limit covers at least three seconds of parts; from a second on it is
three parts. -/
def limitOf (millis : α) : α :=
  if millis < 1000.0 then Rounding.ceil (3000.0 / millis) else 3.0

def derive (segmentDuration partDuration : α) : Settings α :=
  let millis := partTargetMillis partDuration
  let partTarget := millis / 1e3
  { segmentDuration
    partDuration
    partTargetDuration := partTarget
    targetDuration := Rounding.ceil segmentDuration
    advancePartLimit := limitOf millis
    partHoldBack := 2.0 * partTarget
    startTimeOffset := 2.0 * partTarget }

end

def partLimit (settings : Settings) : PartLimit := .ofFloat settings.advancePartLimit

end Settings

end LiveHls
