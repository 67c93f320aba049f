import LiveHls.Http.Query
/-! Request targets: which resource a path names. Paths are compared without regard to the case of
ASCII letters and may end in a slash; the name of a stream is taken as it is, escapes decoded. -/
namespace LiveHls.Http

/-- What belongs to a stream. -/
inductive StreamResource where
  | self
  | masterPlaylist
  | mediaPlaylist
  | initSection
  | segment (sequence : String)
  | part (sequence : String)
  | seal (sequence : String)
  deriving DecidableEq, Repr

inductive Resource where
  | home
  | report
  | logLevel
  | stream (id : String) (what : StreamResource)
  /-- A stream whose name has a bad escape. -/
  | unreadable
  deriving DecidableEq, Repr

namespace Target

def path (cs : List Char) : List Char := (cs.takeWhile (· ≠ '#')).takeWhile (· ≠ '?')

def query (cs : List Char) : List Char :=
  ((cs.takeWhile (· ≠ '#')).dropWhile (· ≠ '?')).drop 1

/-- The pieces between the slashes. The first slash and one at the end divide nothing. -/
def pieces (path : List Char) : List (List Char) :=
  let pieces := (path.splitOn '/').drop 1
  if pieces.getLast? = some [] then pieces.dropLast else pieces

/-- Whether a piece is the given word in lower-case letters. -/
def isWord (word : String) (piece : List Char) : Bool := piece.map Char.toLower = word.toList

def isDigits (piece : List Char) : Bool := !piece.isEmpty && piece.all Char.isDigit

def mediaName? (piece : List Char) : Option String :=
  let digits := piece.takeWhile Char.isDigit
  if isDigits digits && isWord ".m4s" (piece.dropWhile Char.isDigit) then
    some (String.ofList digits)
  else none

/-- What the pieces behind the name of a stream stand for. -/
def streamResource? : List (List Char) → Option StreamResource
  | [] => some .self
  | [name] =>
      if isWord "master_playlist.m3u8" name then some .masterPlaylist
      else if isWord "playlist.m3u8" name then some .mediaPlaylist
      else if isWord "init.mp4" name then some .initSection
      else none
  | [word, name] =>
      if isWord "segment" word then (mediaName? name).map .segment else none
  | [word, sequence, action] =>
      if isWord "segment" word && isDigits sequence then
        if isWord "part" action then some (.part (String.ofList sequence))
        else if isWord "seal" action then some (.seal (String.ofList sequence))
        else none
      else none
  | _ => none

def resource? (path : List Char) : Option Resource :=
  match pieces path with
  | [] => some .home
  | [name] => if isWord "report" name then some .report else none
  | first :: id :: rest =>
      if isWord "config" first && isWord "loglevel" id && rest.isEmpty then some .logLevel
      else if isWord "live" first && !id.isEmpty then
        (streamResource? rest).map fun what =>
          match Percent.decode? id with
          | some id => .stream id what
          | none => .unreadable
      else none

end Target

end LiveHls.Http
