import LiveHls.Http.Param
import LiveHls.Http.Percent
/-! Query strings. Pairs stand between ampersands; a plus is a space; brackets in a name nest the
value, so that the name before them holds no plain text. Nor does a name that occurs twice. -/
namespace LiveHls.Http.Query

/-- At most so many pairs are read. -/
def pairLimit : Nat := 1000

/-- Escaped brackets count as brackets before anything else is read. -/
def plainBrackets : List Char → List Char
  | '%' :: '5' :: c :: rest =>
      if c = 'B' || c = 'b' then '[' :: plainBrackets rest
      else if c = 'D' || c = 'd' then ']' :: plainBrackets rest
      else '%' :: '5' :: plainBrackets (c :: rest)
  | c :: rest => c :: plainBrackets rest
  | [] => []

/-- Splits behind the first `]` that an equals sign follows. -/
def splitAtBracket : List Char → Option (List Char × List Char)
  | [] => none
  | ']' :: '=' :: rest => some ([']'], rest)
  | c :: rest => (splitAtBracket rest).map fun (name, value) => (c :: name, value)

def splitPair (cs : List Char) : List Char × List Char :=
  match splitAtBracket cs with
  | some pair => pair
  | none => (cs.takeWhile (· ≠ '='), (cs.dropWhile (· ≠ '=')).drop 1)

/-- A text with bad escapes is kept as it is. -/
def decode (cs : List Char) : String :=
  let spaced := cs.map fun c => if c = '+' then ' ' else c
  (Percent.decode? spaced).getD (String.ofList spaced)

/-- What stands before the first pair of brackets, in it, and behind it. -/
def bracketed? : List Char → Option (List Char × List Char × List Char)
  | [] => none
  | c :: rest =>
      let closed :=
        match rest.dropWhile fun c => c ≠ '[' && c ≠ ']' with
        | ']' :: behind => some (rest.takeWhile (fun c => c ≠ '[' && c ≠ ']'), behind)
        | _ => none
      match decide (c = '['), closed with
      | true, some (inner, behind) => some ([], inner, behind)
      | _, _ => (bracketed? rest).map fun (before, inner, behind) => (c :: before, inner, behind)

/-- The name under which a pair is found, and whether its value is plain text there. A name that
starts with brackets is the one inside them. -/
def rootOf (name : List Char) : List Char × Bool :=
  match bracketed? name with
  | none => (name, true)
  | some ([], inner, behind) => (inner, (bracketed? behind).isNone)
  | some (before, _, _) => (before, false)

/-- Adds a value; a second one makes the parameter structured. -/
def add (name : String) (value : Param) : Query → Query
  | [] => [(name, value)]
  | (n, v) :: rest => if n = name then (n, .structured) :: rest else (n, v) :: add name value rest

def addPair (query : Query) (pair : List Char) : Query :=
  let (name, value) := splitPair pair
  let (root, plain) := rootOf (decode name).toList
  if root.isEmpty then query
  else add (String.ofList root) (if plain then .text (decode value) else .structured) query

def parse (cs : List Char) : Query :=
  (((plainBrackets cs).splitOn '&').take pairLimit).foldl addPair []

end LiveHls.Http.Query
