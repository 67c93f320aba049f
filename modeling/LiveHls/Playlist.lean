import LiveHls.Window
/-! Media playlists. A playlist is a list of lines; each kind of line has one text. Sealed
segments are listed whole, the open one by its parts, and one hint names the part to come. -/
namespace LiveHls

def segmentUri (number : Numeral) : String := s!"./segment/{number.text}.m4s"

def initUri : String := "init.mp4"

def mediaPlaylistUri : String := "playlist.m3u8"

namespace Playlist

inductive Line where
  | header
  | version
  | independentSegments
  | map
  | targetDuration (seconds : Float)
  | mediaSequence (sequence : Nat)
  | discontinuitySequence (n : Nat)
  | partTarget (seconds : Float)
  | serverControl (holdBack : Float)
  | startOffset (seconds : Float)
  | discontinuity
  | programDateTime (time : String)
  | duration (seconds : Float)
  | uri (sequence : Nat)
  | part (seconds : Float) (sequence length offset : Nat) (independent : Bool)
  | preloadHint (sequence start : Nat)

def quoted (s : String) : String := s!"\"{s}\""

def Line.text : Line → String
  | .header => "#EXTM3U"
  | .version => "#EXT-X-VERSION:6"
  | .independentSegments => "#EXT-X-INDEPENDENT-SEGMENTS"
  | .map => s!"#EXT-X-MAP:URI={quoted initUri}"
  | .targetDuration seconds => s!"#EXT-X-TARGETDURATION:{Decimal.text seconds}"
  | .mediaSequence sequence => s!"#EXT-X-MEDIA-SEQUENCE:{integerText sequence}"
  | .discontinuitySequence n => s!"#EXT-X-DISCONTINUITY-SEQUENCE:{n}"
  | .partTarget seconds => s!"#EXT-X-PART-INF:PART-TARGET={Decimal.fixed 3 seconds}"
  | .serverControl holdBack =>
      s!"#EXT-X-SERVER-CONTROL:CAN-BLOCK-RELOAD=YES,PART-HOLD-BACK={Decimal.fixed 3 holdBack}"
  | .startOffset seconds => s!"#EXT-X-START:TIME-OFFSET=-{Decimal.fixed 3 seconds},PRECISE=YES"
  | .discontinuity => "#EXT-X-DISCONTINUITY"
  | .programDateTime time => s!"#EXT-X-PROGRAM-DATE-TIME:{time}"
  | .duration seconds => s!"#EXTINF:{Decimal.fixed 3 seconds},"
  | .uri sequence => segmentUri (.whole sequence)
  | .part seconds sequence length offset independent =>
      let uri := quoted (segmentUri (.whole sequence))
      let range := quoted s!"{length}@{offset}"
      let note := if independent then ",INDEPENDENT=YES" else ""
      s!"#EXT-X-PART:DURATION={Decimal.fixed 3 seconds},URI={uri},BYTERANGE={range}{note}"
  | .preloadHint sequence start =>
      let uri := quoted (segmentUri (.whole sequence))
      s!"#EXT-X-PRELOAD-HINT:TYPE=PART,URI={uri},BYTERANGE-START={start}"

def discontinuityLines (segment : Segment) : List Line :=
  if segment.discontinuity then [.discontinuity] else []

def partLines (segment : Segment) : List Line :=
  segment.parts.map fun p =>
    .part p.part.duration segment.sequence p.part.data.length p.offset p.part.independent

/-- The lines of a segment. Those of a sealed one need a valid start time. -/
def segmentLines (segment : Segment) : Except Fault (List Line) :=
  match segment.duration with
  | some duration =>
      match segment.startTime.text? with
      | some time =>
          .ok (discontinuityLines segment
            ++ [.programDateTime time, .duration duration, .uri segment.sequence])
      | none => .error .invalidTime
  | none => .ok (discontinuityLines segment ++ partLines segment)

/-- The next part lies behind the data of an open segment, or starts the segment after a sealed
one. -/
def hintLine (last : Segment) : Line :=
  if last.complete then .preloadHint (last.sequence + 1) 0
  else .preloadHint last.sequence last.dataSize

def headLines (first : Segment) (w : Window) (settings : Settings) : List Line :=
  [ .header, .version, .independentSegments, .map,
    .targetDuration settings.targetDuration,
    .mediaSequence first.sequence,
    .discontinuitySequence w.discontinuitySequence,
    .partTarget settings.partTargetDuration,
    .serverControl settings.partHoldBack,
    .startOffset settings.startTimeOffset ]

def bodyLines : List Segment → Except Fault (List Line)
  | [] => .ok []
  | segment :: rest => do
      let lines ← segmentLines segment
      return lines ++ (← bodyLines rest)

def lines (w : Window) (settings : Settings) : Except Fault (List Line) :=
  match w.first?, w.last? with
  | some first, some last =>
      (bodyLines w.segments).map fun body => headLines first w settings ++ body ++ [hintLine last]
  | _, _ => .error .emptyWindow

def joined (texts : List String) : String := String.join (texts.map (· ++ "\n"))

def render (w : Window) (settings : Settings) : Except Fault String :=
  (lines w settings).map fun lines => joined (lines.map Line.text)

end Playlist

end LiveHls
