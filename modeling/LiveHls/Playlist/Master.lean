import LiveHls.Playlist
/-! Master playlists, which announce the one media playlist with its average bandwidth. -/
namespace LiveHls.Playlist

/-- Whether a segment counts for the bandwidth: it is sealed with a positive duration. -/
def hasRate (segment : Segment) : Bool :=
  match segment.duration with
  | some duration => 0.0 < duration
  | none => false

def ratedBytes (segments : List Segment) : Nat :=
  segments.foldl (fun bytes s => if hasRate s then bytes + s.dataSize else bytes) 0

def ratedSeconds (segments : List Segment) : Float :=
  segments.foldl (fun seconds s => if hasRate s then seconds + s.duration.getD 0.0 else seconds) 0.0

/-- Average bits per second over the segments that are sealed with a positive duration. -/
def averageBandwidth (w : Window) : Option Float :=
  let seconds := ratedSeconds w.segments
  if 0.0 < seconds then
    some (Binary64.round (Float.ofNat (ratedBytes w.segments * 8) / seconds))
  else none

def masterText (bandwidth : Float) : String :=
  joined ["#EXTM3U", s!"#EXT-X-STREAM-INF:BANDWIDTH={Decimal.text bandwidth}", mediaPlaylistUri]

def masterText? (w : Window) : Option String := (averageBandwidth w).map masterText

def renderMaster (w : Window) : Except Fault String :=
  match masterText? w with
  | some text => .ok text
  | none => .error .nothingSealed

end LiveHls.Playlist
