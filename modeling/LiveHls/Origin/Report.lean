import LiveHls.Origin
/-! Reports on the streams that the origin serves, and the files they are kept in. -/
namespace LiveHls

/-- What a report says of one stream. -/
structure StreamMetrics where
  stream : String
  stopped : Bool
  firstSequence : Option Numeral
  lastSequence : Option Numeral
  segmentCount : Nat
  sealedSegments : Nat
  /-- The parts of the open segment. -/
  currentPartCount : Nat
  totalBytes : Nat
  /-- In seconds. -/
  sealedDuration : Float
  /-- In bits per second, over the sealed segments. -/
  bitrate : Float
  idleSeconds : Float
  pending : List (String × Nat)

namespace StreamMetrics

def sealedBytes (w : Window) : Nat := total ((w.segments.filter (·.complete)).map (·.dataSize))

/-- The durations of the sealed segments, added from the first to the last. -/
def sealedSeconds (w : Window) : Float :=
  w.segments.foldl (fun total s => if s.complete then total + s.duration.getD 0.0 else total) 0.0

def bitrateOf (w : Window) : Float :=
  let seconds := sealedSeconds w
  if 0.0 < seconds then Float.ofNat (sealedBytes w * 8) / seconds else 0.0

def idleOf (lastActivity now : Int) : Float :=
  let seconds := Float.ofInt (now - lastActivity) / 1000.0
  if 0.0 < seconds then seconds else 0.0

def ofStream (s : Stream) (now : Int) : StreamMetrics :=
  let w := s.window
  { stream := s.id
    stopped := s.stopped
    firstSequence := w.first?.map (·.number)
    lastSequence := w.last?.map (·.number)
    segmentCount := w.segments.length
    sealedSegments := w.segments.countP (·.complete)
    currentPartCount :=
      match w.last? with
      | some last => if last.complete then 0 else last.partCount
      | none => 0
    totalBytes := total (w.segments.map (·.dataSize))
    sealedDuration := sealedSeconds w
    bitrate := bitrateOf w
    idleSeconds := idleOf s.lastActivity now
    pending := s.waiters.pendingByKey }

def waiting (m : StreamMetrics) : Nat := total (m.pending.map (·.2))

end StreamMetrics

namespace Report

/-- Divides by the base until the number is below it or the largest unit is reached. -/
def scale (base : Float) : List String → Float → Float × String
  | [], x => (x, "")
  | [unit], x => (x, unit)
  | unit :: larger, x => if base ≤ x then scale base larger (x / base) else (x, unit)

/-- A number with its unit, to two decimals. -/
def scaled (base : Float) (units : List String) (x : Float) : String :=
  let (x, unit) := scale base units x
  s!"{Decimal.fixed 2 x} {unit}"

def bytesText (bytes : Nat) : String := scaled 1024.0 ["B", "KB", "MB", "GB"] (Float.ofNat bytes)

def bitrateText (rate : Float) : String := scaled 1000.0 ["bps", "Kbps", "Mbps", "Gbps"] rate

def windowText (m : StreamMetrics) : String :=
  match m.firstSequence, m.lastSequence with
  | some first, some last => s!"{first.text}-{last.text}"
  | _, _ => "empty"

def pendingLines (m : StreamMetrics) : List String :=
  if m.pending.isEmpty then ["Pending requests: none"]
  else "Pending requests:" :: m.pending.map fun (key, count) => s!"  {key}: {count}"

def streamLines (m : StreamMetrics) : List String :=
  let note := if m.stopped then " (stopped)" else ""
  [ s!"Stream: {m.stream}{note}",
    s!"Window: {windowText m}",
    s!"Segments: {m.segmentCount} ({m.sealedSegments} sealed)",
    s!"Parts in open segment: {m.currentPartCount}",
    s!"Data buffered: {bytesText m.totalBytes}",
    s!"Bitrate: {bitrateText m.bitrate}",
    s!"Idle: {Decimal.fixed 2 m.idleSeconds} seconds" ]
    ++ pendingLines m ++ ["---"]

/-- The text of a report on some streams. The time has to be one that can be written. -/
def render (metrics : List StreamMetrics) (now : Int) : Except Fault String :=
  match (Timestamp.ofMillis now).text? with
  | none => .error .invalidTime
  | some time =>
      .ok ("\n".intercalate (
        [ "=== Live Buffer Report ===",
          s!"Generated at: {time}",
          s!"Active streams: {metrics.length}",
          s!"Total data buffered: {bytesText (total (metrics.map (·.totalBytes)))}",
          s!"Pending requests: {total (metrics.map StreamMetrics.waiting)}",
          "",
          "=== Streams ===" ]
        ++ metrics.flatMap streamLines))

end Report

def Origin.report (o : Origin) (now : Int) : Except Fault String :=
  Report.render (o.served.map fun (_, s) => .ofStream s now) now

/-! ### Report files -/

/-- Plain files and directories, by the pieces of their paths. -/
structure Archive where
  files : List (List String × String)
  directories : List (List String)

namespace Archive

def empty : Archive := ⟨[], []⟩

def pieces (path : String) : List String :=
  (path.splitOn "/").filter fun piece => piece ≠ "" && piece ≠ "."

def isFile (a : Archive) (path : List String) : Bool := (a.files.lookup path).isSome

/-- All directories on the way to a path, the path itself aside. -/
def parents (path : List String) : List (List String) :=
  (List.range path.length).map fun n => path.take n

/-- Makes a plain file. -/
def write (a : Archive) (path : List String) (text : String) : Archive :=
  { a with files := (path, text) :: a.files.filter (·.1 ≠ path) }

/-- Adds text to the file at a path, which is created with its directories if it is not there.
Whether it was there is told. It fails where a plain file is in the way of a directory or a
directory in the way of the file. -/
def append? (a : Archive) (path : List String) (text : String) : Option (Bool × Archive) :=
  if (parents path).any a.isFile || a.directories.contains path || path.isEmpty then none
  else
    let old := a.files.lookup path
    let a := { a with directories := parents path ++ a.directories }
    some (old.isSome, a.write path (old.getD "" ++ text))

end Archive

namespace Report

/-- A report with its heading, as it is added to a file. -/
def entry (o : Origin) (now : Int) : Except Fault String :=
  (o.report now).map fun report =>
    let time := ((Timestamp.ofMillis now).text?).getD ""
    "\n".intercalate
      [ "\n\n========================================",
        s!"Live Buffer Report - {time}",
        "========================================\n",
        report ]

def failed : Log := [logError "Failed to save report:"]

/-- Adds a report to the file at a path, which log lines call by the given name. -/
def save (o : Origin) (a : Archive) (path name : String) (now : Int) : Archive × Log :=
  match entry o now with
  | .error _ => (a, failed)
  | .ok text =>
      match a.append? (Archive.pieces path) text with
      | none => (a, failed)
      | some (true, a) => (a, [logInfo s!"Report appended to: {name}"])
      | some (false, a) => (a, [logInfo s!"Report created at: {name}"])

end Report

end LiveHls
