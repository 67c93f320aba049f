import LiveHls.Window
import LiveHls.Log
/-! What a producer does to a window: it starts segments, appends parts and seals. Starting a
segment seals the previous one if need be and drops the oldest segments beyond the capacity.
Each operation that succeeds raises the version by one; one that fails changes nothing. -/
namespace LiveHls

/-- The kinds of change that waiting requests are told about. -/
inductive Production where
  | put | part | seal
  deriving DecidableEq, Repr

namespace Window

/-- Drops segments from the front until at most `capacity` are left, and counts the
discontinuities among them. -/
def evict (capacity : Nat) (w : Window) : Window :=
  let excess := w.segments.length - capacity
  { w with
    segments := w.segments.drop excess
    discontinuitySequence := w.discontinuitySequence
      + (w.segments.take excess).countP (·.discontinuity) }

def closeLast (w : Window) : Window :=
  match w.last? with
  | some last => { w with segments := w.segments.dropLast ++ [last.closeIfOpen] }
  | none => w

/-- The sequence that a new segment takes, or why it cannot be started. -/
def accept (w : Window) (number : Numeral) : Except Fault Nat :=
  match number.toNat? with
  | none => .error (.invalidSequence number)
  | some sequence =>
      match w.last? with
      | some last =>
          if sequence = last.sequence + 1 then .ok sequence
          else .error (.outOfSequence sequence last.sequence)
      | none => .ok sequence

def put (capacity : Nat) (w : Window) (new : NewSegment) (now : Int) : Except Fault Window :=
  (w.accept new.number).map fun sequence =>
    let w := w.closeLast
    let w := { w with segments := w.segments ++ [Segment.start sequence new now] }
    { w.evict capacity with version := w.version + 1 }

def locate (w : Window) (stream : String) (number : Numeral) : Except Fault (Nat × Segment) :=
  match number.toInt?.bind w.place? with
  | some i =>
      match w.segments[i]? with
      | some segment => .ok (i, segment)
      | none => .error (.notInWindow number stream)
  | none => .error (.notInWindow number stream)

def append (stream : String) (w : Window) (number : Numeral) (part : Part)
    (discontinuity : Bool) : Except Fault Window := do
  let (i, segment) ← w.locate stream number
  return w.setAt i (← segment.append part discontinuity)

/-- Seals the segment named; without a duration it gets the sum of its part durations. -/
def close (stream : String) (w : Window) (number : Numeral) (duration : Option Float) :
    Except Fault Window := do
  let (i, segment) ← w.locate stream number
  return w.setAt i (← segment.close (duration.getD segment.partsDuration))

end Window

end LiveHls
