import LiveHls.Origin.Call
import LiveHls.Http.RangeHeader
/-! The readers' side of the origin. Media playlists and segments may have to be waited for; the
answer is then written when the stream hands out the outcome. -/
namespace LiveHls.Origin

def playlistContentType : String := "application/vnd.apple.mpegurl"

/-- Goes on with a served stream that runs; a reader is told when there is none. -/
def withRunning (o : Origin) (call : Call) (what : String) (go : Nat → Stream → Handled) :
    Handled :=
  let absent :=
    call.answer o [logWarn s!"[{call.stream}] {what} requested for unknown or stopped stream"]
      (.plain 404 "Stream not found")
  match o.find? call.stream with
  | some (i, s) => if s.stopped then absent else go i s
  | none => absent

/-- Leaves a request with its stream, to be answered when it ends. -/
def await (o : Origin) (call : Call) (request i : Nat) (before : Stream) (after : Stream × Log)
    (wanted : Wanted) (context : String) : Handled :=
  let (o, log) := o.onStream i before after
  let client : Client :=
    { request
      stream := i
      wanted
      context
      targetDuration := before.settings.targetDuration
      headersSent := call.headersSent
      overHttp := call.overHttp }
  ⟨{ o with clients := o.clients ++ [client] }, log, none⟩

/-- The segment and the part that a playlist has to contain. -/
def readDirectives (call : Call) : Except Fault PlaylistRequest := do
  let sequence ← (call.query.get "_HLS_msn").integer "_HLS_msn"
  let part ← (call.query.get "_HLS_part").integer "_HLS_part"
  return ⟨sequence.map Int.ofNat, part.map Int.ofNat⟩

def playlist (o : Origin) (call : Call) (request : Nat) : Handled :=
  o.withRunning call "Playlist" fun i s =>
    let context := s!"[{call.stream}] Playlist"
    match readDirectives call with
    | .error fault => call.refuse o [] fault context (some s.settings.targetDuration)
    | .ok what =>
        o.await call request i s (s.playlist request what) (.playlist what.isBlocking) context

def master (o : Origin) (call : Call) : Handled :=
  o.withRunning call "Master playlist" fun _ s =>
    match Playlist.masterText? s.window with
    | some text =>
        call.answer o [] ⟨200,
          [("Content-Type", playlistContentType), ("Cache-Control", "no-cache")], .text text⟩
    | none =>
        call.answer o
          [logDebug s!"[{call.stream}] Master playlist requested before the first sealed segment"]
          (.plain 404 "No complete segment yet")

def segment (o : Origin) (call : Call) (request : Nat) : Handled :=
  o.withRunning call "Media" fun i s =>
    let context := s!"[{call.stream}] Segment {call.sequenceText}"
    match call.sequence.integer "sequence" with
    | .error fault => call.refuse o [] fault context none
    | .ok none => call.answer o [] (.plain 400 "Bad Request: Missing segment sequence")
    | .ok (some sequence) =>
        let go (range : Option ByteRange) :=
          o.await call request i s (s.segment request (.whole sequence) range) .segment context
        match Http.RangeHeader.parse call.range with
        | .none => go none
        | .range first last => go (some ⟨first, last⟩)
        | .unsatisfiable =>
            let size := ((s.window.find? sequence).map (·.dataSize)).getD 0
            let header := call.range.getD ""
            call.refuse o [logDebug s!"{context}: unsatisfiable range {header}"]
              (.rangeSet size) context (some s.settings.targetDuration)

def init (o : Origin) (call : Call) : Handled :=
  o.withRunning call "Media" fun _ s =>
    match s.initSection with
    | none => call.answer o [] (.plain 404 "Init section not available")
    | some data =>
        call.answer o [] ⟨200,
          [("Content-Type", segmentContentType),
           ("Cache-Control", longAge s.settings.targetDuration)], .bytes data⟩

/-! ### Outcomes -/

/-- What a client is sent when its request ends. -/
def deliver (client : Client) (outcome : Outcome) : Log × Reply :=
  match outcome with
  | .ok (.playlist p) =>
      let age := if p.blocking then longAge client.targetDuration else "no-cache"
      ([], .sent ⟨200, [("Content-Type", playlistContentType), ("Cache-Control", age)],
        .text p.body⟩)
  | .ok (.segment r) =>
      ([logDebug s!"{client.context}: {r.status} {r.body.length} bytes"],
        .sent ⟨r.status, r.headers, .bytes r.body⟩)
  | .error fault =>
      let times := match client.wanted with
        | .playlist true => 6.0
        | .playlist false | .segment => 1.0
      fault.reply client.context (some (times * client.targetDuration)) client.headersSent

/-- Completes a reply that is sent over HTTP. -/
def transfer (overHttp : Bool) : Reply → Reply
  | .sent response => .sent (if overHttp then response.complete else response)
  | reply => reply

/-- Takes the next turn of all streams, if there is one. -/
def turn (o : Origin) : Option (Origin × Log × Option (Nat × Reply)) :=
  match o.queue with
  | [] => none
  | i :: rest =>
      let o := { o with queue := rest }
      match o.streams[i]?.bind fun s => s.turn.map fun taken => (s, taken) with
      | none => some (o, [], none)
      | some (s, s', log, outcome?) =>
          let o := o.update i (s.turns.length - 1) s'
          match outcome? with
          | none => some (o, log, none)
          | some (request, outcome) =>
              match o.clients.find? (·.request = request) with
              | none => some (o, log, none)
              | some client =>
                  let (lines, reply) := deliver client outcome
                  let o := { o with clients := o.clients.filter (·.request ≠ request) }
                  some (o, log ++ lines, some (request, transfer client.overHttp reply))

/-- How many turns can still come up. -/
def work (o : Origin) : Nat := o.queue.length + total (o.streams.map Stream.work)

/-- Takes at most so many turns. -/
def settleWithin : Nat → Origin → Origin × Log × List (Nat × Reply)
  | 0, o => (o, [], [])
  | n + 1, o =>
      match o.turn with
      | none => (o, [], [])
      | some (o, log, reply?) =>
          let (o, rest, replies) := settleWithin n o
          (o, log ++ rest, reply?.toList ++ replies)

/-- Takes turns until none is left. -/
def settle (o : Origin) : Origin × Log × List (Nat × Reply) := settleWithin o.work o

/-- The client of a request leaves before it was answered. -/
def disconnect (o : Origin) (request : Nat) : Origin × Log :=
  match o.clients.find? (·.request = request) with
  | none => (o, [])
  | some client =>
      match o.streams[client.stream]? with
      | none => (o, [])
      | some s => o.onStream client.stream s (s.abandon request)

end LiveHls.Origin
