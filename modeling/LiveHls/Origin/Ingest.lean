import LiveHls.Origin.Call
import LiveHls.Timestamp.Reader
/-! The producer's side of the origin. A stream is created when its first segment is put. -/
namespace LiveHls.Origin

def readTime (name : String) : Http.Param → Except Fault (Option Timestamp)
  | .missing => .ok none
  | .structured => .error (.notATimestamp name)
  | .text s =>
      match Timestamp.parse s with
      | .invalid => .error (.notATimestamp name)
      | time => .ok (some time)

def creationLog (o : Origin) (id : String) : LogLine :=
  let target := Decimal.text o.settings.targetDuration
  let part := Decimal.fixed 3 o.settings.partTargetDuration
  let size := Decimal.text o.config.windowSize
  logInfo s!"[{id}] Stream created (target {target}s, part target {part}s, window {size})"

def findOrCreate (o : Origin) (id : String) (now : Int) :
    Except Fault (Origin × Nat × Stream × Log) :=
  match o.find? id with
  | some (i, s) => .ok (o, i, s, [])
  | none =>
      (Stream.create id o.settings o.config.windowSize now).map fun s =>
        (o.add s, o.streams.length, s, [o.creationLog id])

def readNewSegment (call : Call) (init : Bytes) : Except Fault NewSegment := do
  let sequence ← call.readSequence
  let startTime ← readTime "startTime" (call.query.get "startTime")
  return {
    number := .whole sequence
    init
    startTime
    discontinuity := (call.query.get "discontinuity").boolean }

def missingBody : Http.Response := .plain 400 "Bad Request: Missing body"

def putSegment (o : Origin) (call : Call) (now : Int) : Handled :=
  let context := s!"[{call.stream}] PUT segment {call.sequenceText}"
  match call.body.getD [] with
  | [] => call.answer o [logError s!"{context}: empty init section"] missingBody
  | init =>
      match readNewSegment call init with
      | .error fault => call.refuse o [] fault context none
      | .ok new =>
          match o.findOrCreate call.stream now with
          | .error fault => call.refuse o [] fault context none
          | .ok (o, i, s, created) =>
              match s.put new now with
              | .error fault => call.refuse o created fault context none
              | .ok after =>
                  let (o, log) := o.onStream i s after
                  call.answer o (created ++ log) (.plain 201 "Created")

/-- Goes on with a served stream; a producer is told when there is none. -/
def withStream (o : Origin) (call : Call) (go : Nat → Stream → Handled) : Handled :=
  match o.find? call.stream with
  | some (i, s) => go i s
  | none =>
      call.answer o [logWarn s!"[{call.stream}] Producer request for unknown stream"]
        (.plain 404 "Stream not found")

def readPart (call : Call) (data : Bytes) : Except Fault (Nat × Part × Bool) := do
  let sequence ← call.readSequence
  let duration ←
    Http.Param.required "duration" ((call.query.get "duration").duration "duration")
  let independent := (call.query.get "independent").boolean
  return (sequence, ⟨duration, independent, data⟩, (call.query.get "discontinuity").boolean)

def putPart (o : Origin) (call : Call) (now : Int) : Handled :=
  let context := s!"[{call.stream}] PUT part of segment {call.sequenceText}"
  o.withStream call fun i s =>
    match call.body.getD [] with
    | [] => call.answer o [logError s!"{context}: empty part payload"] missingBody
    | data =>
        match readPart call data with
        | .error fault => call.refuse o [] fault context none
        | .ok (sequence, part, discontinuity) =>
            match s.append (.whole sequence) part discontinuity now with
            | .error fault => call.refuse o [] fault context none
            | .ok after =>
                let (o, log) := o.onStream i s after
                call.answer o log (.plain 200 "OK")

/-- The segment that a call seals, and its duration if it is given. -/
def readSeal (call : Call) : Except Fault (Nat × Option Float) := do
  let sequence ← call.readSequence
  return (sequence, ← (call.query.get "duration").duration "duration")

def sealSegment (o : Origin) (call : Call) (now : Int) : Handled :=
  let context := s!"[{call.stream}] Seal segment {call.sequenceText}"
  o.withStream call fun i s =>
    match readSeal call with
    | .error fault => call.refuse o [] fault context none
    | .ok (sequence, duration) =>
        match s.close (.whole sequence) duration now with
        | .error fault => call.refuse o [] fault context none
        | .ok after =>
            let (o, log) := o.onStream i s after
            call.answer o log (.plain 200 "OK")

def delete (o : Origin) (call : Call) : Handled :=
  o.withStream call fun i s =>
    let (o, log) := o.retire call.stream i s
    call.answer o (log ++ [logInfo s!"[{call.stream}] Stream removed"]) (.plain 200 "OK")

end LiveHls.Origin
