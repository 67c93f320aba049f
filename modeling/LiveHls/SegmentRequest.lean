import LiveHls.Segment.Bytes
import LiveHls.WaitTarget
/-! Requests for the bytes of a segment that may still grow. A request that starts where the data
ends is held until there is more, or until the segment is sealed. -/
namespace LiveHls

/-- First and last byte position. -/
structure ByteRange where
  first : Int
  last : Int

/-- The last position of a range without an end. -/
def openEnd : Int := Int.ofNat (Nat.pow 2 53 - 1)

def segmentContentType : String := "video/mp4"

structure SegmentResponse where
  status : Nat
  headers : List (String × String)
  body : Bytes

/-- How long, in seconds, an answer that cannot change any more may be kept. -/
def longAge (targetDuration : Float) : String :=
  s!"max-age={Decimal.text (6.0 * targetDuration)}"

namespace SegmentRequest

inductive Judgement where
  | answer (outcome : Except Fault SegmentResponse)
  /-- Held until the segment reaches past this offset. -/
  | hold (offset : Int)

def startOf (range : Option ByteRange) : Int :=
  match range with
  | some range => range.first
  | none => 0

def respond (segment : Segment) (range : Option ByteRange) (settings : Settings) :
    SegmentResponse :=
  let headers :=
    [("Content-Type", segmentContentType), ("Cache-Control", longAge settings.targetDuration)]
  match range with
  | none => ⟨200, headers, segment.read 0 segment.dataSize⟩
  | some range =>
      let last := min range.last (segment.dataSize - 1)
      let total := if segment.complete then toString segment.dataSize else "*"
      let positions := s!"bytes {integerText range.first}-{integerText last}/{total}"
      ⟨206, headers ++ [("Content-Range", positions)], segment.read range.first (last + 1)⟩

def judge (segment : Segment) (range : Option ByteRange) (settings : Settings) : Judgement :=
  let start := startOf range
  if start > segment.dataSize
      || (range.isSome && segment.complete && start = segment.dataSize) then
    .answer (.error (.rangeStart start segment.dataSize))
  else if start = segment.dataSize && !segment.complete then .hold start
  else .answer (.ok (respond segment range settings))

/-- Answers a held request from the window that released it. -/
def conclude (w : Window) (sequence : Int) (range : Option ByteRange) (settings : Settings) :
    Except Fault SegmentResponse :=
  match w.find? sequence with
  | none => .error (.evicted (.whole sequence))
  | some segment =>
      if range.isSome && decide ((segment.dataSize : Int) ≤ startOf range) then
        .error (.rangeStart (startOf range) segment.dataSize)
      else .ok (respond segment range settings)

end SegmentRequest

end LiveHls
