import LiveHls.Yaml.Document
import LiveHls.Origin
/-! The configuration: four sections, taken from a file over the defaults, with overrides from the
environment. Values from the file are not checked, except that the streaming section is corrected
where a stream could not be created from it. -/
namespace LiveHls

abbrev Section := List (String × Yaml)

namespace Section

def set (s : Section) (key : String) (value : Yaml) : Section :=
  match s with
  | [] => [(key, value)]
  | (k, v) :: rest => if k = key then (k, value) :: rest else (k, v) :: set rest key value

def get (s : Section) (key : String) : Yaml := (s.lookup key).getD .null

/-- A key that names no entry of a record. -/
def reservedKey : String := "__proto__"

/-- The entries of a value that say something, over a section of defaults. -/
def override (defaults : Section) (value : Yaml) : Section :=
  (value.entries?.getD []).foldl
    (fun s (key, value) =>
      match value with
      | .null => s
      | value => if key = reservedKey then s else s.set key value)
    defaults

end Section

structure Config where
  server : Section
  streaming : Section
  cleanup : Section
  reports : Section

/-- What there is at the path of the configuration file. -/
inductive ConfigFile where
  | absent
  | unreadable
  | text (s : String)

/-- What a load finds in its surroundings. -/
structure Surroundings where
  /-- The path of the file, as messages show it. -/
  path : String
  directory : String
  file : ConfigFile
  environment : List (String × String)

/-- A configuration with the messages written while it was loaded. -/
structure Loaded where
  config : Config
  warnings : List String
  errors : List String

namespace Config

def whole (n : Nat) : Yaml := .number (Float.ofNat n)

def defaultStreaming : Section :=
  [("segmentDuration", whole 6), ("partDuration", whole 1), ("windowSize", whole 5)]

def default (directory : String) : Config :=
  { server := [("port", whole 8080), ("host", .text "0.0.0.0"), ("logLevel", .text "info")]
    streaming := defaultStreaming
    cleanup :=
      [("enabled", .bool true), ("idleTimeoutMinutes", whole 10), ("intervalMinutes", whole 1)]
    reports :=
      [("enabled", .bool false),
       ("path", .text (if directory = "/" then "/reports" else s!"{directory}/reports")),
       ("intervalMinutes", whole 5)] }

def merge (directory : String) (document : Yaml) : Config :=
  let top : Section := document.entries?.getD []
  let d := default directory
  { server := d.server.override (top.get "server")
    streaming := d.streaming.override (top.get "streaming")
    cleanup := d.cleanup.override (top.get "cleanup")
    reports := d.reports.override (top.get "reports") }

def given? (environment : List (String × String)) (name : String) : Option String :=
  (environment.lookup name).filter (! ·.isEmpty)

def setFrom (environment : List (String × String)) (name key : String) (read : String → Yaml)
    (s : Section) : Section :=
  match given? environment name with
  | some text => s.set key (read text)
  | none => s

def readWhole (s : String) : Yaml := .number (Decimal.leadingInteger s)

def readNumber (s : String) : Yaml := .number (Decimal.leadingNumber s)

def applyEnvironment (environment : List (String × String)) (c : Config) : Config :=
  { c with
    server := setFrom environment "LOG_LEVEL" "logLevel" .text
      (setFrom environment "SERVER_HOST" "host" .text
        (setFrom environment "SERVER_PORT" "port" readWhole c.server))
    streaming := setFrom environment "WINDOW_SIZE" "windowSize" readWhole
      (setFrom environment "PART_DURATION" "partDuration" readNumber
        (setFrom environment "SEGMENT_DURATION" "segmentDuration" readNumber c.streaming)) }

def positive? : Yaml → Option Float
  | .number x => if Binary64.isFinite x && 0.0 < x then some x else none
  | _ => none

def durationsFit (s : Section) : Bool :=
  match positive? (s.get "segmentDuration"), positive? (s.get "partDuration") with
  | some segment, some part => !(segment < part)
  | _, _ => false

def windowFits (s : Section) : Bool :=
  match s.get "windowSize" with
  | .number x => (Binary64.integer? x).any (1 ≤ ·)
  | _ => false

/-- The text of a value inside a message; some values have none. -/
def shown? (s : Section) (key : String) : Option String := (s.get key).text?

/-- Sets the durations to their defaults unless they fit, with a warning. It fails, with the
warnings so far, where a warning cannot be written. -/
def correctDurations (s : Section) (warnings : List String) :
    Except (List String) (Section × List String) :=
  if durationsFit s then .ok (s, warnings)
  else
    match shown? s "segmentDuration", shown? s "partDuration" with
    | some segment, some part =>
        let warning :=
          s!"Invalid streaming durations (segment={segment}, part={part}), using defaults"
        .ok ((s.set "segmentDuration" (whole 6)).set "partDuration" (whole 1),
          warnings ++ [warning])
    | _, _ => .error warnings

def correctWindow (s : Section) (warnings : List String) :
    Except (List String) (Section × List String) :=
  if windowFits s then .ok (s, warnings)
  else
    match shown? s "windowSize" with
    | some size =>
        .ok (s.set "windowSize" (whole 5),
          warnings ++ [s!"Invalid streaming.windowSize {size}, using 5"])
    | none => .error warnings

def failure : String := "Error loading configuration"

/-- Applies the environment and corrects the streaming section. -/
def finish (around : Surroundings) (c : Config) (warnings : List String) : Loaded :=
  let c := c.applyEnvironment around.environment
  let corrected := do
    let (streaming, warnings) ← correctDurations c.streaming warnings
    correctWindow streaming warnings
  match corrected with
  | .ok (streaming, warnings) => ⟨{ c with streaming }, warnings, []⟩
  | .error warnings => ⟨default around.directory, warnings, [failure]⟩

/-- Loads the configuration. A file that cannot be read or is no document, by the reader of documents
that is used, leaves the defaults. -/
def loadBy (read : String → Option Yaml) (around : Surroundings) : Loaded :=
  match around.file with
  | .absent =>
      finish around (default around.directory)
        [s!"Configuration file not found at {around.path}, using default values"]
  | .unreadable => ⟨default around.directory, [], [failure]⟩
  | .text s =>
      match read s with
      | some document => finish around (merge around.directory document) []
      | none => ⟨default around.directory, [], [failure]⟩

def load (around : Surroundings) : Loaded := loadBy Yaml.parse? around

def number (s : Section) (key : String) : Float :=
  match s.get key with
  | .number x => x
  | _ => Binary64.notANumber

/-- What the origin is created from. -/
def streamingConfig (c : Config) : StreamingConfig :=
  { segmentDuration := number c.streaming "segmentDuration"
    partDuration := number c.streaming "partDuration"
    windowSize := number c.streaming "windowSize" }

/-- The level that log lines are written from, `info` if none is given. -/
def logLevel (c : Config) : String :=
  let value := c.server.get "logLevel"
  if value.isGiven then value.text?.getD "info" else "info"

end Config

end LiveHls
