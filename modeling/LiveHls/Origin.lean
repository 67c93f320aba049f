import LiveHls.Stream
import LiveHls.Http.Param
import LiveHls.Http.Response
/-! The origin server: the streams that it serves, by name, and the clients whose requests wait.
A stream that has been removed is kept until its last request has ended, and the turns of all
streams are taken in the order in which they came up. -/
namespace LiveHls

/-- Durations are in seconds; the window size is in segments. -/
structure StreamingConfig where
  segmentDuration : Float
  partDuration : Float
  windowSize : Float

/-- How a request that was handed to the origin ends. -/
inductive Reply where
  | sent (response : Http.Response)
  /-- The request ended without an answer. -/
  | unsent
  /-- There is no such resource or method. -/
  | unmatched

/-- What a waiting client is to be sent. -/
inductive Wanted where
  | playlist (blocking : Bool)
  | segment

structure Client where
  request : Nat
  /-- Where the stream stands in the list of streams. -/
  stream : Nat
  wanted : Wanted
  /-- How log lines name the request. -/
  context : String
  targetDuration : Float
  /-- Whether headers had been sent before. -/
  headersSent : Bool
  /-- Whether the answer is completed for transfer. -/
  overHttp : Bool

structure Origin where
  config : StreamingConfig
  settings : Settings
  /-- Every stream, in order of creation. -/
  streams : List Stream
  /-- The streams that are served, as places in that list. -/
  names : List (String × Nat)
  /-- Whose turn it is, first come, first served. -/
  queue : List Nat
  clients : List Client

namespace Origin

def create (config : StreamingConfig) : Origin :=
  { config
    settings := .derive config.segmentDuration config.partDuration
    streams := []
    names := []
    queue := []
    clients := [] }

/-- The stream of a name, with its place. -/
def find? (o : Origin) (id : String) : Option (Nat × Stream) :=
  (o.names.lookup id).bind fun i => o.streams[i]?.map fun s => (i, s)

/-- The served streams by name. -/
def served (o : Origin) : List (String × Stream) :=
  o.names.filterMap fun (id, i) => o.streams[i]?.map fun s => (id, s)

/-- Takes over a changed stream. The turns beyond the `known` ones have come up just now. -/
def update (o : Origin) (i : Nat) (known : Nat) (s : Stream) : Origin :=
  { o with
    streams := o.streams.set i s
    queue := o.queue ++ List.replicate (s.turns.length - known) i }

/-- Sets the place of a name; a name that is there already keeps its position. -/
def setName (id : String) (i : Nat) : List (String × Nat) → List (String × Nat)
  | [] => [(id, i)]
  | (k, j) :: rest => if k = id then (k, i) :: rest else (k, j) :: setName id i rest

/-- Serves a new stream under its name. -/
def add (o : Origin) (s : Stream) : Origin :=
  { o with streams := o.streams ++ [s], names := setName s.id o.streams.length o.names }

/-- Stops serving a name. -/
def remove (o : Origin) (id : String) : Origin :=
  { o with names := o.names.filter (·.1 ≠ id) }

/-- Lets the stream at a place change. -/
def onStream (o : Origin) (i : Nat) (before : Stream) (after : Stream × Log) : Origin × Log :=
  (o.update i before.turns.length after.1, after.2)

/-- Stops a stream and removes it. -/
def retire (o : Origin) (id : String) (i : Nat) (s : Stream) : Origin × Log :=
  let (o, log) := o.onStream i s s.stop
  (o.remove id, log)

end Origin

/-! ### Failures -/

/-- The headers of an answer to a fault. -/
def Fault.headers (fault : Fault) (cacheSeconds : Option Float) : List (String × String) :=
  (cacheSeconds.map fun s => ("Cache-Control", s!"max-age={Decimal.text s}")).toList
    ++ (fault.dataSize?.map fun n => ("Content-Range", s!"bytes */{n}")).toList

/-- Answers a fault. A client that left gets nothing, nor does one that has headers already; a
fault without a status is an error of the server. -/
def Fault.reply (fault : Fault) (context : String) (cacheSeconds : Option Float)
    (headersSent : Bool) : Log × Reply :=
  match fault with
  | .abandoned => ([logDebug s!"{context}: client disconnected while waiting"], .unsent)
  | fault =>
      if headersSent then ([logError s!"{context}: failed after headers were sent"], .unsent)
      else
        match fault.status? with
        | some status =>
            ([logDebug s!"{context}: {status} {fault.message}"],
              .sent ⟨status, fault.headers cacheSeconds, .text fault.message⟩)
        | none =>
            ([logError s!"{context}: unexpected error"],
              .sent (.plain 500 "Internal Server Error"))

end LiveHls
