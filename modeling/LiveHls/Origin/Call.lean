import LiveHls.Origin
/-! Calls: what a request asks of the origin, with its parameters already read. -/
namespace LiveHls

inductive Operation where
  | putSegment | putPart | seal | delete
  | playlist | master | segment | init
  deriving DecidableEq, Repr

structure Call where
  operation : Operation
  /-- The name of the stream. -/
  stream : String
  /-- The sequence of the segment, as the path gives it. -/
  sequence : Http.Param
  query : Http.Query
  range : Option String
  body : Option Bytes
  /-- Whether headers have been sent already. -/
  headersSent : Bool
  overHttp : Bool

/-- What handling a call comes to. Without a reply the client waits. -/
structure Handled where
  origin : Origin
  log : Log
  reply : Option Reply

namespace Call

def sequenceText (call : Call) : String :=
  match call.sequence with
  | .text s => s
  | .missing => "undefined"
  | .structured => "[object Object]"

def readSequence (call : Call) : Except Fault Nat :=
  Http.Param.required "sequence" (call.sequence.integer "sequence")

def answer (_ : Call) (o : Origin) (log : Log) (response : Http.Response) : Handled :=
  ⟨o, log, some (.sent response)⟩

def refuse (call : Call) (o : Origin) (log : Log) (fault : Fault) (context : String)
    (cacheSeconds : Option Float) : Handled :=
  let (lines, reply) := fault.reply context cacheSeconds call.headersSent
  ⟨o, log ++ lines, some reply⟩

end Call

end LiveHls
