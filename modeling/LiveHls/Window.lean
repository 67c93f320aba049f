import LiveHls.Segment
/-! The rolling window of segments. Sequences are contiguous, so the place of a segment is the
distance of its sequence from that of the first. -/
namespace LiveHls

structure Window where
  segments : List Segment
  /-- How many segments that left the window carried a discontinuity. -/
  discontinuitySequence : Nat
  /-- How many times the window has changed. -/
  version : Nat

namespace Window

def empty : Window := ⟨[], 0, 0⟩

def first? (w : Window) : Option Segment := w.segments.head?

def last? (w : Window) : Option Segment := w.segments.getLast?

/-- The newest sequence, or -1 before the first segment. -/
def lastSequence (w : Window) : Int :=
  match w.last? with
  | some segment => segment.sequence
  | none => -1

/-- The place at which the segment of a sequence would stand, counted from the first. -/
def place? (w : Window) (sequence : Int) : Option Nat :=
  match w.first? with
  | some first => if sequence < first.sequence then none else some (sequence - first.sequence).toNat
  | none => none

/-- The segments from a sequence on; none if the sequence is not in the window. -/
def segmentsFrom (w : Window) (sequence : Int) : List Segment :=
  match w.place? sequence with
  | some i => w.segments.drop i
  | none => []

def find? (w : Window) (sequence : Int) : Option Segment := (w.segmentsFrom sequence).head?

def named? (w : Window) (number : Numeral) : Option Segment := number.toInt?.bind w.find?

def isEvicted (w : Window) (sequence : Int) : Bool :=
  match w.first? with
  | some first => sequence < first.sequence
  | none => false

def isPast (w : Window) (number : Numeral) : Bool :=
  match w.first? with
  | some first => number.isBelow first.sequence
  | none => false

def get (w : Window) (number : Numeral) : Except Fault Segment :=
  match w.named? number with
  | some segment => .ok segment
  | none => .error (.evicted number)

def setAt (w : Window) (i : Nat) (segment : Segment) : Window :=
  { w with segments := w.segments.set i segment, version := w.version + 1 }

end Window

end LiveHls
