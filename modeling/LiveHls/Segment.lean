import LiveHls.Fault
import LiveHls.Timestamp
/-! Segments and the parts they are made of. Parts lie one behind the other and are keyed by
their byte offset; the duration is set once, when the segment is sealed. -/
namespace LiveHls

abbrev Bytes := List UInt8

structure Part where
  /-- In seconds. -/
  duration : Float
  /-- Whether decoding can start here. -/
  independent : Bool
  data : Bytes

structure PlacedPart where
  offset : Nat
  part : Part

namespace PlacedPart

/-- The offset behind the part. -/
def finish (p : PlacedPart) : Nat := p.offset + p.part.data.length

end PlacedPart

/-- A segment as a producer announces it. Without a start time the current time is taken. -/
structure NewSegment where
  number : Numeral
  init : Bytes
  startTime : Option Timestamp
  discontinuity : Bool

structure Segment where
  sequence : Nat
  /-- The sequence as the producer wrote it. -/
  number : Numeral
  init : Bytes
  startTime : Timestamp
  discontinuity : Bool
  parts : List PlacedPart
  dataSize : Nat
  /-- Set when the segment is sealed. -/
  duration : Option Float

namespace Segment

def start (sequence : Nat) (new : NewSegment) (now : Int) : Segment :=
  { sequence
    number := new.number
    init := new.init
    startTime := new.startTime.getD (.ofMillis now)
    discontinuity := new.discontinuity
    parts := []
    dataSize := 0
    duration := none }

def complete (segment : Segment) : Bool := segment.duration.isSome

def partCount (segment : Segment) : Nat := segment.parts.length

/-- The durations of the listed parts, added from the first to the last. -/
def partsDuration (segment : Segment) : Float :=
  segment.parts.foldl (fun total p => total + p.part.duration) 0.0

/-- Puts a part at an offset. A part that lies there already is replaced in its place. -/
def placeAt (offset : Nat) (part : Part) : List PlacedPart → List PlacedPart
  | [] => [⟨offset, part⟩]
  | p :: rest =>
      if p.offset = offset then ⟨offset, part⟩ :: rest else p :: placeAt offset part rest

/-- Appends a part behind the data. An empty part takes no room, so the next one replaces it. -/
def append (segment : Segment) (part : Part) (discontinuity : Bool) : Except Fault Segment :=
  if segment.complete then .error (.sealed segment.sequence)
  else .ok
    { segment with
      parts := placeAt segment.dataSize part segment.parts
      dataSize := segment.dataSize + part.data.length
      discontinuity := segment.discontinuity || discontinuity }

def close (segment : Segment) (duration : Float) : Except Fault Segment :=
  if segment.complete then .error (.sealed segment.sequence)
  else .ok { segment with duration := some duration }

/-- Seals an open segment with the sum of its part durations; a sealed one stays as it is. -/
def closeIfOpen (segment : Segment) : Segment :=
  if segment.complete then segment else { segment with duration := some segment.partsDuration }

end Segment

end LiveHls
