import LiveHls.Origin.Ingest
import LiveHls.Origin.Delivery
import LiveHls.Origin.Report
import LiveHls.Http.Target
import LiveHls.LogControl
/-! The gateway: requests over HTTP, led to the origin by method and path, and the pages of the
server itself. -/
namespace LiveHls

structure HttpRequest where
  method : String
  target : String
  /-- Names in lower case. -/
  headers : List (String × String)
  body : Bytes

structure Gateway where
  origin : Origin
  log : LogControl

namespace Gateway

/-- Calls an operation of the origin. Nothing is said when the call has to wait. -/
def dispatch (o : Origin) (call : Call) (request : Nat) (now : Int) : Handled :=
  match call.operation with
  | .putSegment => o.putSegment call now
  | .putPart => o.putPart call now
  | .seal => o.sealSegment call now
  | .delete => o.delete call
  | .playlist => o.playlist call request
  | .master => o.master call
  | .segment => o.segment call request
  | .init => o.init call

/-- Calls an operation of the origin; an answer over HTTP is completed. -/
def call (g : Gateway) (call : Call) (request : Nat) (now : Int) :
    Gateway × Log × Option Reply :=
  let handled := dispatch g.origin call request now
  ({ g with origin := handled.origin }, handled.log,
    handled.reply.map (Origin.transfer call.overHttp))

/-- The operation of a method on a resource of a stream, and the sequence in its path. -/
def operation? (method : String) : Http.StreamResource → Option (Operation × Http.Param)
  | .self => if method = "DELETE" then some (.delete, .missing) else none
  | .masterPlaylist => if method = "GET" then some (.master, .missing) else none
  | .mediaPlaylist => if method = "GET" then some (.playlist, .missing) else none
  | .initSection => if method = "GET" then some (.init, .missing) else none
  | .segment sequence =>
      if method = "GET" then some (.segment, .text sequence)
      else if method = "PUT" then some (.putSegment, .text sequence)
      else none
  | .part sequence => if method = "PUT" then some (.putPart, .text sequence) else none
  | .seal sequence => if method = "POST" then some (.seal, .text sequence) else none

def quote (s : String) : String := s!"\"{s}\""

/-- A record of texts, none of which needs an escape. -/
def jsonRecord (fields : List (String × String)) : String :=
  let entries := fields.map fun (key, value) => s!"{quote key}:{value}"
  "\x7b" ++ ",".intercalate entries ++ "\x7d"

def levelMissing : Http.Response :=
  .json 400 (jsonRecord [("error", quote "Log level not provided"),
    ("message", quote "Please provide a log level as a query parameter")])

def levelUnknown : Http.Response :=
  let names := ", ".intercalate (LogLevel.all.map LogLevel.name)
  .json 400 (jsonRecord [("error", quote "Invalid log level"),
    ("message", quote s!"Log level must be one of: {names}")])

def levelSet (level : LogLevel) : Http.Response :=
  .json 200 (jsonRecord [("success", "true"),
    ("message", quote s!"Log level set to: {level.name}")])

def changeLevel (g : Gateway) (query : Http.Query) : Gateway × Log × Http.Response :=
  match query.get "level" with
  | .text "" | .missing | .structured => (g, [], levelMissing)
  | .text name =>
      match LogLevel.ofName? name with
      | none => (g, [], levelUnknown)
      | some level =>
          ({ g with log := g.log.change level },
            [logInfo s!"Log level changed to: {level.name}"], levelSet level)

def homePage : Http.Response := .plain 200 "LL-HLS live buffer is running."

def unhandled : Log × Http.Response :=
  ([logError "Unhandled error:"], .plain 500 "Internal Server Error")

def reportPage (o : Origin) (now : Int) : Log × Http.Response :=
  match o.report now with
  | .ok text => ([], ⟨200, [("Content-Type", "text/plain")], .text text⟩)
  | .error _ => unhandled

def accessLog (r : HttpRequest) : Log :=
  let head := s!"[{r.method}] {r.target}"
  let range := (r.headers.lookup "range").getD "none"
  let put : Log :=
    if r.method = "PUT" then [⟨.http, s!"{head} - Body length: {r.body.length}"⟩] else []
  put ++ [logDebug s!"{head} - Range: {range}"]

def serve (g : Gateway) (r : HttpRequest) (resource : Http.Resource) (request : Nat) (now : Int) :
    Gateway × Log × Option Reply :=
  let query := Http.Query.parse (Http.Target.query r.target.toList)
  let sent (response : Http.Response) : Option Reply := some (.sent response.complete)
  let absent : Gateway × Log × Option Reply := (g, [], some .unmatched)
  match resource with
  | .unreadable =>
      let (log, response) := unhandled
      (g, log, sent response)
  | .home =>
      if r.method = "GET" then (g, [], sent homePage) else absent
  | .report =>
      if r.method = "GET" then
        let (log, response) := reportPage g.origin now
        (g, log, sent response)
      else absent
  | .logLevel =>
      if r.method = "POST" then
        let (g, log, response) := g.changeLevel query
        (g, log, sent response)
      else absent
  | .stream id what =>
      match operation? r.method what with
      | none => absent
      | some (operation, sequence) =>
          g.call
            { operation
              stream := id
              sequence
              query
              range := r.headers.lookup "range"
              body := if r.method = "PUT" then some r.body else none
              headersSent := false
              overHttp := true }
            request now

/-- Handles a request over HTTP. Without a reply the client waits. -/
def http (g : Gateway) (r : HttpRequest) (request : Nat) (now : Int) :
    Gateway × Log × Option Reply :=
  let (g, log, reply) :=
    match Http.Target.resource? (Http.Target.path r.target.toList) with
    | some resource => g.serve r resource request now
    | none => (g, [], some .unmatched)
  (g, accessLog r ++ log, reply)

end Gateway

end LiveHls
