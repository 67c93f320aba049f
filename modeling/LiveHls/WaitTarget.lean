import LiveHls.Window.Production
/-! What a request can wait for, and when it holds. A part past the end of a sealed segment is
the first part of the next one, so a part has several names; the canonical one is the last. -/
namespace LiveHls

inductive WaitTarget where
  /-- The window holds a segment. -/
  | live
  /-- A segment is started or a part is appended. -/
  | production
  /-- The segment is in the window. -/
  | segment (sequence : Int)
  /-- The segment is sealed. -/
  | complete (sequence : Int)
  /-- The part exists. -/
  | part (sequence index : Int)
  /-- The segment reaches past the offset, or is sealed. -/
  | bytes (sequence offset : Int)
  deriving DecidableEq, Repr

/-- Moves a part number that lies past the end of a sealed segment to the start of the next
segment, as often as needed. The segments listed are those from `sequence` on. -/
def rollOver : List Segment → Int → Int → Int × Int
  | [], sequence, index => (sequence, index)
  | segment :: rest, sequence, index =>
      if segment.complete && decide ((segment.partCount : Int) ≤ index) then
        rollOver rest (sequence + 1) 0
      else (sequence, index)

/-- The last of the names of a part. -/
def canonicalPart (w : Window) (sequence index : Int) : Int × Int :=
  rollOver (w.segmentsFrom sequence) sequence index

inductive Verdict where
  | pending
  | ready
  | rejected (fault : Fault)

namespace Verdict

def readyIf (condition : Bool) : Verdict := if condition then .ready else .pending

end Verdict

namespace WaitTarget

/-- The text under which waiting requests with one condition are counted. -/
def key (w : Window) : WaitTarget → String
  | .live => "live"
  | .production => "production"
  | .segment sequence => s!"segment:{integerText sequence}"
  | .complete sequence => s!"complete:{integerText sequence}"
  | .part sequence index =>
      let (sequence, index) := canonicalPart w sequence index
      s!"part:{integerText sequence}.{integerText index}"
  | .bytes sequence offset => s!"bytes:{integerText sequence}@{integerText offset}"

/-- Judges a segment by `holds`; before the window it is rejected, and it is pending while it is
not there yet. -/
def evaluateSegment (w : Window) (sequence : Int) (holds : Segment → Bool) : Verdict :=
  if w.isEvicted sequence then .rejected (.evicted (.whole sequence))
  else .readyIf ((w.find? sequence).any holds)

/-- Whether the target holds in a window, which the given change led to, if any. -/
def evaluate (w : Window) (event : Option Production) : WaitTarget → Verdict
  | .live => .readyIf (!w.segments.isEmpty)
  | .production => .readyIf (event = some .put || event = some .part)
  | .segment sequence => evaluateSegment w sequence fun _ => true
  | .complete sequence => evaluateSegment w sequence (·.complete)
  | .part sequence index =>
      let (sequence, index) := canonicalPart w sequence index
      evaluateSegment w sequence fun segment => decide (index < segment.partCount)
  | .bytes sequence offset =>
      evaluateSegment w sequence fun segment =>
        segment.complete || decide (offset < segment.dataSize)

end WaitTarget

end LiveHls
