/-! Log lines. Operations return the lines they write, in order. -/
namespace LiveHls

inductive LogLevel where
  | error | warn | info | http | verbose | debug | silly
  deriving DecidableEq, Repr

namespace LogLevel

def name : LogLevel → String
  | .error => "error"
  | .warn => "warn"
  | .info => "info"
  | .http => "http"
  | .verbose => "verbose"
  | .debug => "debug"
  | .silly => "silly"

def all : List LogLevel := [.error, .warn, .info, .http, .verbose, .debug, .silly]

def ofName? (s : String) : Option LogLevel := all.find? (·.name = s)

end LogLevel

structure LogLine where
  level : LogLevel
  message : String
  deriving DecidableEq, Repr

abbrev Log := List LogLine

def logError (message : String) : LogLine := ⟨.error, message⟩
def logWarn (message : String) : LogLine := ⟨.warn, message⟩
def logInfo (message : String) : LogLine := ⟨.info, message⟩
def logDebug (message : String) : LogLine := ⟨.debug, message⟩

end LiveHls
