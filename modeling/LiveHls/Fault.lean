import LiveHls.Settings
/-! Causes of failure, with their texts and the status codes that readers and producers see. -/
namespace LiveHls

inductive Fault where
  /-- A part is requested without its segment. -/
  | partWithoutSequence
  | notAnInteger (name : String)
  | integerTooLarge (name : String)
  | notADuration (name : String)
  | missing (name : String)
  | notATimestamp (name : String)
  /-- A playlist request lies past the next segment. -/
  | beyondNextSegment (sequence next : Int)
  /-- A playlist request lies too far into the segment that is to come. -/
  | beyondFirstParts (part : Int) (limit : PartLimit)
  /-- A playlist request lies too far past the newest part. -/
  | beyondLastPart (part last : Int) (limit : PartLimit)
  | evicted (number : Numeral)
  | noSuchSegment (number : Numeral)
  | stopped (stream : String)
  | rangeStart (start : Int) (dataSize : Nat)
  /-- No range of a range header can be satisfied. -/
  | rangeSet (dataSize : Nat)
  | sealed (sequence : Nat)
  | invalidSequence (number : Numeral)
  | outOfSequence (offered last : Int)
  | notInWindow (number : Numeral) (stream : String)
  /-- The client left while its request was waiting. -/
  | abandoned
  | windowSize (size : Float)
  | invalidTime
  | emptyWindow
  | nothingSealed

namespace Fault

def message : Fault → String
  | .partWithoutSequence => "_HLS_part requires _HLS_msn"
  | .notAnInteger name => s!"{name} must be a non-negative integer"
  | .integerTooLarge name => s!"{name} is out of range"
  | .notADuration name => s!"{name} must be a non-negative number of seconds"
  | .missing name => s!"{name} is required"
  | .notATimestamp name => s!"{name} must be an ISO-8601 timestamp"
  | .beyondNextSegment sequence next =>
      s!"_HLS_msn={integerText sequence} is beyond the next segment {integerText next}"
  | .beyondFirstParts part limit =>
      s!"_HLS_part={integerText part} exceeds the advance part limit of {limit.text}"
  | .beyondLastPart part last limit =>
      s!"_HLS_part={integerText part} exceeds the last part {integerText last}"
        ++ s!" by the advance part limit of {limit.text}"
  | .evicted number => s!"Segment {number.text} is no longer in the window"
  | .noSuchSegment number => s!"Segment {number.text} does not exist"
  | .stopped stream => s!"Stream {stream} has stopped"
  | .rangeStart start dataSize =>
      s!"Range start {integerText start} is beyond the {dataSize} available bytes"
  | .rangeSet _ => "Requested range not satisfiable"
  | .sealed sequence => s!"Segment {integerText sequence} is already sealed"
  | .invalidSequence number => s!"Invalid segment sequence {number.text}"
  | .outOfSequence offered last =>
      s!"Segment {integerText offered} does not follow segment {integerText last}"
  | .notInWindow number stream =>
      s!"Segment {number.text} is not in the window of stream {stream}"
  | .abandoned => "Request abandoned by client"
  | .windowSize size => s!"Window size must be a positive integer, got {Decimal.text size}"
  | .invalidTime => "Invalid time value"
  | .emptyWindow => "Cannot render a playlist for an empty window"
  | .nothingSealed => "Cannot render a master playlist before a segment is sealed"

/-- The status code with which a fault is answered. A fault without one is not the client's. -/
def status? : Fault → Option Nat
  | .partWithoutSequence | .notAnInteger _ | .integerTooLarge _ | .notADuration _ | .missing _
  | .notATimestamp _ | .beyondNextSegment .. | .beyondFirstParts .. | .beyondLastPart .. =>
      some 400
  | .evicted _ | .noSuchSegment _ | .stopped _ => some 404
  | .sealed _ | .invalidSequence _ | .outOfSequence .. | .notInWindow .. => some 409
  | .rangeStart .. | .rangeSet _ => some 416
  | .abandoned | .windowSize _ | .invalidTime | .emptyWindow | .nothingSealed => none

/-- The size of the data that a range request was judged against. -/
def dataSize? : Fault → Option Nat
  | .rangeStart _ dataSize | .rangeSet dataSize => some dataSize
  | _ => none

end Fault

end LiveHls
