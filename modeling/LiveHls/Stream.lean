import LiveHls.LiveBuffer
import LiveHls.Playlist.Master
import LiveHls.PlaylistRequest
import LiveHls.SegmentRequest
/-! One live stream with the requests of its readers. What a producer does takes effect at once.
A request that is released, and an answer that is ready, go on in a later turn, first come, first
served; by then the producer may have moved on. -/
namespace LiveHls

/-- How far a waiting request has come. -/
inductive Stage where
  | playlist (blocking : Bool)
  /-- A segment that was not there yet gets one production step to appear. -/
  | appearance (number : Numeral) (range : Option ByteRange)
  /-- Held at the end of the data of a segment. -/
  | hold (sequence : Nat) (range : Option ByteRange)

structure Ticket where
  request : Nat
  stage : Stage

inductive Answer where
  | playlist (playlist : RenderedPlaylist)
  | segment (response : SegmentResponse)

/-- How a request ends. -/
abbrev Outcome := Except Fault Answer

inductive Turn where
  /-- A request goes on with the outcome of its wait. -/
  | resume (ticket : Ticket) (outcome : WaitOutcome)
  /-- An outcome reaches its client after so many more turns. -/
  | relay (request steps : Nat) (outcome : Outcome)

structure Stream where
  id : String
  settings : Settings
  buffer : LiveBuffer Ticket
  stopped : Bool
  /-- When the producer last changed the window, in epoch milliseconds. -/
  lastActivity : Int
  /-- The requests whose clients have left. -/
  left : List Nat
  /-- What is still to be done, in order. -/
  turns : List Turn

namespace Stream

def create (id : String) (settings : Settings) (windowSize : Float) (now : Int) :
    Except Fault Stream :=
  (LiveBuffer.create id windowSize).map fun buffer =>
    { id, settings, buffer, stopped := false, lastActivity := now, left := [], turns := [] }

def window (s : Stream) : Window := s.buffer.window

def waiters (s : Stream) : Waiters Ticket := s.buffer.waiters

def enqueue (s : Stream) (turn : Turn) : Stream := { s with turns := s.turns ++ [turn] }

/-- Every released request goes on in a turn of its own. -/
def release (s : Stream) (effects : Effects Ticket) : Stream :=
  { s with turns := s.turns ++ effects.released.map fun (ticket, outcome) => .resume ticket outcome }

/-! ### The producer -/

def produce (s : Stream) (now : Int)
    (step : LiveBuffer Ticket → Except Fault (LiveBuffer Ticket × Effects Ticket)) :
    Except Fault (Stream × Log) :=
  if s.stopped then .error (.stopped s.id)
  else
    (step s.buffer).map fun (buffer, effects) =>
      ({ s with buffer, lastActivity := now }.release effects, effects.log)

def put (s : Stream) (new : NewSegment) (now : Int) : Except Fault (Stream × Log) :=
  s.produce now fun buffer => buffer.put new now

def append (s : Stream) (number : Numeral) (part : Part) (discontinuity : Bool) (now : Int) :
    Except Fault (Stream × Log) :=
  s.produce now fun buffer => (buffer.append number part discontinuity).map (·.2)

def close (s : Stream) (number : Numeral) (duration : Option Float) (now : Int) :
    Except Fault (Stream × Log) :=
  s.produce now fun buffer => buffer.close number duration

def stop (s : Stream) : Stream × Log :=
  if s.stopped then (s, [])
  else
    let pending := s.waiters.size
    let (waiters, effects) := s.waiters.close (.stopped s.id)
    ({ s with stopped := true, buffer := { s.buffer with waiters } }.release effects,
      effects.log ++ [logInfo s!"[{s.id}] Stream stopped ({pending} pending request(s) released)"])

/-! ### Readers -/

/-- Lets a request wait for a target, judged against the current window first. -/
def waitFor (s : Stream) (ticket : Ticket) (target : WaitTarget) : Stream × Log :=
  let (waiters, outcome?, log) :=
    s.waiters.wait ticket target s.window (s.left.contains ticket.request)
  let s := { s with buffer := { s.buffer with waiters } }
  match outcome? with
  | some outcome => (s.enqueue (.resume ticket outcome), log)
  | none => (s, log)

def renderFor (s : Stream) (w : Window) (blocking : Bool) : Outcome :=
  (RenderedPlaylist.ofWindow w s.settings blocking).map .playlist

def edgeText (w : Window) : String :=
  match w.last? with
  | some last => integerText last.sequence
  | none => "none"

def playlist (s : Stream) (request : Nat) (what : PlaylistRequest) : Stream × Log :=
  if s.stopped then (s.enqueue (.relay request 0 (.error (.stopped s.id))), [])
  else
    let note (text : String) := logDebug s!"[{s.id}] Playlist request {what.text} {text}"
    match what.plan s.window s.settings.partLimit with
    | .refuse fault =>
        (s.enqueue (.relay request 0 (.error fault)), [note s!"rejected: {fault.message}"])
    | .serve => (s.enqueue (.relay request 0 (s.renderFor s.window what.isBlocking)), [])
    | .wait target =>
        let (next, log) := s.waitFor ⟨request, .playlist what.isBlocking⟩ target
        (next, note s!"waiting (live edge {edgeText s.window})" :: log)

/-- Serves a request from a segment, or holds it where the data ends. -/
def serveFrom (s : Stream) (request : Nat) (segment : Segment) (range : Option ByteRange) :
    Stream × Log :=
  match SegmentRequest.judge segment range s.settings with
  | .answer outcome => (s.enqueue (.relay request 2 (outcome.map .segment)), [])
  | .hold offset =>
      let sequence := integerText segment.sequence
      let (next, log) :=
        s.waitFor ⟨request, .hold segment.sequence range⟩ (.bytes segment.sequence offset)
      let note := s!"Holding request for segment {sequence} at byte {integerText offset}"
      (next, logDebug s!"[{s.id}] {note}" :: log)

def segment (s : Stream) (request : Nat) (number : Numeral) (range : Option ByteRange) :
    Stream × Log :=
  if s.stopped then (s.enqueue (.relay request 0 (.error (.stopped s.id))), [])
  else
    match s.window.named? number with
    | some found => s.serveFrom request found range
    | none =>
        if s.window.isPast number then
          (s.enqueue (.relay request 0 (.error (.evicted number))), [])
        else
          let (next, log) := s.waitFor ⟨request, .appearance number range⟩ .production
          let note := s!"Segment {number.text} not created yet, waiting one production step"
          (next, logDebug s!"[{s.id}] {note}" :: log)

/-- The client of a request leaves. If the request waits, it waits no more. -/
def abandon (s : Stream) (request : Nat) : Stream × Log :=
  let (waiters, effects) := s.waiters.abandon (·.request = request)
  ({ s with left := request :: s.left, buffer := { s.buffer with waiters } }.release effects,
    effects.log)

def resume (s : Stream) (ticket : Ticket) (outcome : WaitOutcome) : Stream × Log :=
  match ticket.stage with
  | .playlist blocking =>
      (s.enqueue (.relay ticket.request 0 (outcome.bind (s.renderFor · blocking))), [])
  | .appearance number range =>
      let refuse (fault : Fault) := (s.enqueue (.relay ticket.request 0 (.error fault)), [])
      match outcome with
      | .error fault => refuse fault
      | .ok w =>
          match w.named? number with
          | some found => s.serveFrom ticket.request found range
          | none => refuse (if w.isPast number then .evicted number else .noSuchSegment number)
  | .hold sequence range =>
      let concluded :=
        outcome.bind fun w => SegmentRequest.conclude w sequence range s.settings
      (s.enqueue (.relay ticket.request 1 (concluded.map .segment)), [])

def turn (s : Stream) : Option (Stream × Log × Option (Nat × Outcome)) :=
  match s.turns with
  | [] => none
  | next :: rest =>
      let s := { s with turns := rest }
      match next with
      | .resume ticket outcome =>
          let (s, log) := s.resume ticket outcome
          some (s, log, none)
      | .relay request (steps + 1) outcome =>
          some (s.enqueue (.relay request steps outcome), [], none)
      | .relay request 0 outcome => some (s, [], some (request, outcome))

def masterPlaylist (s : Stream) : Except Fault (Option String) :=
  if s.stopped then .error (.stopped s.id) else .ok (Playlist.masterText? s.window)

def initSection (s : Stream) : Option Bytes := s.window.last?.map (·.init)

end Stream

/-- How many turns a turn can still lead to, itself included. -/
def Turn.work : Turn → Nat
  | .relay _ steps _ => steps + 1
  | .resume ⟨_, .playlist _⟩ _ => 2
  | .resume ⟨_, .hold ..⟩ _ => 3
  | .resume ⟨_, .appearance ..⟩ _ => 4

def total (numbers : List Nat) : Nat := numbers.foldl (· + ·) 0

def Stream.work (s : Stream) : Nat := total (s.turns.map Turn.work)

namespace Stream

def settleWithin : Nat → Stream → Stream × Log × List (Nat × Outcome)
  | 0, s => (s, [], [])
  | n + 1, s =>
      match s.turn with
      | none => (s, [], [])
      | some (s, log, outcome?) =>
          let (s, rest, outcomes) := settleWithin n s
          (s, log ++ rest, outcome?.toList ++ outcomes)

def settle (s : Stream) : Stream × Log × List (Nat × Outcome) := settleWithin s.work s

end Stream

end LiveHls
