import LiveHls.Waiters
/-! The window of one stream together with the requests that wait for it. Every change of the
window is told to the waiters before anything else happens. -/
namespace LiveHls

structure LiveBuffer (τ : Type) where
  stream : String
  /-- How many segments the window holds at most. -/
  capacity : Nat
  window : Window
  waiters : Waiters τ

namespace LiveBuffer

variable {τ : Type}

def capacity? (size : Float) : Except Fault Nat :=
  match Binary64.integer? size with
  | some n => if 1 ≤ n then .ok n.toNat else .error (.windowSize size)
  | none => .error (.windowSize size)

def create (stream : String) (size : Float) : Except Fault (LiveBuffer τ) :=
  (capacity? size).map fun capacity => ⟨stream, capacity, .empty, .start stream⟩

/-- Takes over a changed window and tells the waiters. The lines in `log` come first. -/
def signal (b : LiveBuffer τ) (w : Window) (event : Production) (log : Log) :
    LiveBuffer τ × Effects τ :=
  let (waiters, effects) := b.waiters.broadcast w event
  ({ b with window := w, waiters }, { effects with log := log ++ effects.log })

def implicitSealLog (b : LiveBuffer τ) (number : Numeral) : Log :=
  match b.window.last? with
  | some last =>
      if last.complete then []
      else
        let seconds := Decimal.fixed 3 last.partsDuration
        [logWarn (s!"[{b.stream}] Segment {integerText last.sequence} was still open"
          ++ s!" when {number.text} arrived; sealed at {seconds}s")]
  | none => []

def evictionLog (b : LiveBuffer τ) : Log :=
  let kept := b.capacity - 1
  (b.window.segments.take (b.window.segments.length - kept)).map fun segment =>
    logDebug s!"[{b.stream}] Evicted segment {integerText segment.sequence}"

def startLog (b : LiveBuffer τ) (new : NewSegment) : LogLine :=
  let note := if new.discontinuity then " (discontinuity)" else ""
  logInfo s!"[{b.stream}] Segment {new.number.text} started{note}"

def put (b : LiveBuffer τ) (new : NewSegment) (now : Int) :
    Except Fault (LiveBuffer τ × Effects τ) :=
  (b.window.put b.capacity new now).map fun w =>
    b.signal w .put (b.implicitSealLog new.number ++ b.evictionLog ++ [b.startLog new])

def partLog (b : LiveBuffer τ) (number : Numeral) (segment : Segment) (part : Part) : LogLine :=
  let index := (Segment.placeAt segment.dataSize part segment.parts).length - 1
  let note := if part.independent then " (independent)" else ""
  logDebug (s!"[{b.stream}] Part {index} of segment {number.text}:"
    ++ s!" {part.data.length} bytes @{segment.dataSize}{note}")

/-- Appends a part and tells at which offset it lies. -/
def append (b : LiveBuffer τ) (number : Numeral) (part : Part) (discontinuity : Bool) :
    Except Fault (Nat × LiveBuffer τ × Effects τ) := do
  let (_, segment) ← b.window.locate b.stream number
  let w ← b.window.append b.stream number part discontinuity
  return (segment.dataSize, b.signal w .part [b.partLog number segment part])

def sealLog (b : LiveBuffer τ) (number : Numeral) (segment : Segment) (duration : Float) :
    LogLine :=
  let seconds := Decimal.fixed 3 duration
  logInfo (s!"[{b.stream}] Segment {number.text} sealed: {segment.partCount} parts,"
    ++ s!" {segment.dataSize} bytes, {seconds}s")

def close (b : LiveBuffer τ) (number : Numeral) (duration : Option Float) :
    Except Fault (LiveBuffer τ × Effects τ) := do
  let (_, segment) ← b.window.locate b.stream number
  let w ← b.window.close b.stream number duration
  return b.signal w .seal [b.sealLog number segment (duration.getD segment.partsDuration)]

end LiveBuffer

end LiveHls
