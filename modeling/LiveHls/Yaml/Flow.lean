import LiveHls.Yaml.Node
/-! Nodes written in flow style: quoted and plain scalars, aliases, lists in brackets and mappings
in braces. Every reader gives the node and what follows it. -/
namespace LiveHls.Yaml

def isSpace (c : Char) : Bool := c = ' ' || c = '\t'

def isBreak (c : Char) : Bool := c = '\n'

def isFlowMark (c : Char) : Bool := c = ',' || c = '[' || c = ']' || c = '{' || c = '}'

/-- Whether a blank, a line end or the end of the text comes next. -/
def atGap : List Char → Bool
  | [] => true
  | c :: _ => isSpace c || isBreak c

/-- Skips blanks, line ends and comments; the flag says whether a comment has begun. -/
def skipGapFrom : Bool → List Char → List Char
  | _, [] => []
  | true, c :: rest => skipGapFrom (!isBreak c) rest
  | false, c :: rest =>
      if isSpace c || isBreak c then skipGapFrom false rest
      else if c = '#' then skipGapFrom true rest
      else c :: rest

def skipGap (cs : List Char) : List Char := skipGapFrom false cs

/-- Drops the blanks at the end of a text that is kept in reverse. -/
def dropBlanks (reversed : List Char) : List Char := reversed.dropWhile isSpace

/-- The line ends, blanks and line ends at the front, counted, and the rest. -/
def countBreaks : Nat → List Char → Nat × List Char
  | n, [] => (n, [])
  | n, c :: rest =>
      if isBreak c then countBreaks (n + 1) rest
      else if isSpace c then countBreaks n rest
      else (n, c :: rest)

/-- What line ends between two words become: one a space, more of them one line end less. -/
def folded (breaks : Nat) : List Char :=
  if breaks ≤ 1 then [' '] else List.replicate (breaks - 1) '\n'

def isControl (c : Char) : Bool :=
  let n := c.toNat
  (n < 0x20 && n ≠ 0x09 && n ≠ 0x0A) || (0x7F ≤ n && n ≤ 0x9F && n ≠ 0x85)
    || n = 0xFFFE || n = 0xFFFF

/-! ### Quoted scalars -/

def isQuotable (c : Char) : Bool := c = '\t' || 0x20 ≤ c.toNat

/-- The rest of a scalar in single quotes; a quote inside is written twice. -/
def singleQuoted : Nat → List Char → List Char → Option (String × List Char)
  | 0, _, _ | _, _, [] => none
  | n + 1, acc, c :: rest =>
      if c = '\'' then
        match rest with
        | '\'' :: rest => singleQuoted n ('\'' :: acc) rest
        | rest => some (String.ofList acc.reverse, rest)
      else if isBreak c then
        let (breaks, rest) := countBreaks 1 rest
        singleQuoted n ((folded breaks).reverse ++ dropBlanks acc) rest
      else if isQuotable c then singleQuoted n (c :: acc) rest
      else none

/-- The characters that one letter after a backslash stands for. -/
def escapes : List (Char × Nat) :=
  [ ('0', 0x00), ('a', 0x07), ('b', 0x08), ('t', 0x09), ('\t', 0x09), ('n', 0x0A), ('v', 0x0B),
    ('f', 0x0C), ('r', 0x0D), ('e', 0x1B), (' ', 0x20), ('"', 0x22), ('/', 0x2F), ('\\', 0x5C),
    ('N', 0x85), ('_', 0xA0), ('L', 0x2028), ('P', 0x2029) ]

/-- The count of hexadecimal digits behind a backslash and a letter. -/
def escapeLength? : Char → Option Nat
  | 'x' => some 2
  | 'u' => some 4
  | 'U' => some 8
  | _ => none

def hexCode? (length : Nat) (cs : List Char) : Option (Nat × List Char) :=
  let digits := cs.take length
  if digits.length < length then none
  else (Decimal.digitsIn? 16 digits).map fun code => (code, cs.drop length)

/-- A code and, if it is the first of a surrogate pair, the second with it. -/
def joinSurrogates (code : Nat) (rest : List Char) : Nat × List Char :=
  match rest with
  | '\\' :: 'u' :: tail =>
      match hexCode? 4 tail with
      | some (low, tail) =>
          if 0xD800 ≤ code && code < 0xDC00 && 0xDC00 ≤ low && low < 0xE000 then
            (0x10000 + (code - 0xD800) * 0x400 + (low - 0xDC00), tail)
          else (code, rest)
      | none => (code, rest)
  | _ => (code, rest)

def charOf (code : Nat) : Char := if code.isValidChar then Char.ofNat code else '\uFFFD'

def escaped? : List Char → Option (Char × List Char)
  | [] => none
  | c :: rest =>
      match escapes.lookup c, escapeLength? c with
      | some code, _ => some (Char.ofNat code, rest)
      | none, some length =>
          (hexCode? length rest).map fun (code, rest) =>
            let (code, rest) := joinSurrogates code rest
            (charOf code, rest)
      | none, none => none

def doubleQuoted : Nat → List Char → List Char → Option (String × List Char)
  | 0, _, _ | _, _, [] => none
  | n + 1, acc, c :: rest =>
      if c = '"' then some (String.ofList acc.reverse, rest)
      else if c = '\\' then
        match rest with
        | '\n' :: rest => doubleQuoted n acc (countBreaks 0 rest).2
        | rest => (escaped? rest).bind fun (c, rest) => doubleQuoted n (c :: acc) rest
      else if isBreak c then
        let (breaks, rest) := countBreaks 1 rest
        doubleQuoted n ((folded breaks).reverse ++ dropBlanks acc) rest
      else if isQuotable c then doubleQuoted n (c :: acc) rest
      else none

def quoted? (cs : List Char) : Option (String × List Char) :=
  match cs with
  | '\'' :: rest => singleQuoted (rest.length + 1) [] rest
  | '"' :: rest => doubleQuoted (rest.length + 1) [] rest
  | _ => none

/-! ### Plain scalars -/

def startsPlain (inFlow : Bool) : List Char → Bool
  | [] => false
  | c :: rest =>
      if isFlowMark c || "#&*!|>'\"%@`".toList.contains c || isSpace c || isBreak c then false
      else if c = '?' || c = '-' then
        !(atGap rest || (inFlow && rest.head?.any isFlowMark))
      else true

/-- Whether a plain scalar ends before these characters. -/
def endsPlain (inFlow afterBlank : Bool) : List Char → Bool
  | [] => true
  | c :: rest =>
      (c = ':' && (atGap rest || (inFlow && rest.head?.any isFlowMark)))
        || (c = '#' && afterBlank) || (inFlow && isFlowMark c) || isBreak c

/-- The characters of a plain scalar up to the end of its line, in reverse. -/
def plainLine (inFlow : Bool) : List Char → List Char → List Char × List Char
  | acc, [] => (acc, [])
  | acc, c :: rest =>
      if endsPlain inFlow (acc.head?.any isSpace) (c :: rest) then (acc, c :: rest)
      else plainLine inFlow (c :: acc) rest

/-- The rest of a plain scalar in flow style, which may go on over several lines. -/
def flowPlain : Nat → List Char → List Char → List Char × List Char
  | 0, acc, cs => (acc, cs)
  | n + 1, acc, cs =>
      let (acc, rest) := plainLine true acc cs
      match rest with
      | '\n' :: _ =>
          let (breaks, next) := countBreaks 0 rest
          if next.isEmpty || endsPlain true true next then (acc, rest)
          else flowPlain n ((folded breaks).reverse ++ dropBlanks acc) next
      | rest => (acc, rest)

/-- The scalar of characters that are kept in reverse, without blanks at its end. -/
def plainNode? (acc : List Char) : Option Node :=
  let text := (dropBlanks acc).reverse
  if text.isEmpty || text.any isControl then none else some (.plain (String.ofList text))

/-! ### Aliases, anchors and tags -/

def isNamePart (c : Char) : Bool := !(isSpace c || isBreak c || isFlowMark c)

def name? (cs : List Char) : Option (String × List Char) :=
  let name := cs.takeWhile isNamePart
  if name.isEmpty then none else some (String.ofList name, cs.dropWhile isNamePart)

/-- What the names of the standard tags start with when they are written in full. -/
def standardTag : List Char := "<tag:yaml.org,2002:".toList

/-- The tag behind an exclamation mark, up to a blank. Only the standard ones are known. -/
def tag? (cs : List Char) : Option (Tag × List Char) :=
  let word := cs.takeWhile fun c => !(isSpace c || isBreak c)
  let rest := cs.drop word.length
  let tag :=
    match word with
    | [] => some Tag.untyped
    | '!' :: name => Tag.ofName? (String.ofList name)
    | word =>
        if standardTag.isPrefixOf word && word.getLast? = some '>' then
          Tag.ofName? (String.ofList (word.drop standardTag.length).dropLast)
        else none
  tag.map fun tag => (tag, rest)

namespace Marks

def on (marks : Marks) (node : Node) : Node :=
  let node := match marks.tag with
    | some tag => .tagged tag node
    | .none => node
  match marks.anchor with
  | some name => .anchored name node
  | .none => node

/-- The marks before a node, none of them twice, and what follows them and the blanks behind. -/
def read? : Nat → Marks → List Char → Option (Marks × List Char)
  | 0, _, _ => .none
  | n + 1, marks, cs =>
      match cs with
      | '&' :: rest =>
          if marks.anchor.isSome then .none
          else do
            let (name, rest) ← name? rest
            read? n { marks with anchor := some name } (rest.dropWhile isSpace)
      | '!' :: rest =>
          if marks.tag.isSome then .none
          else do
            let (tag, rest) ← tag? rest
            read? n { marks with tag := some tag } (rest.dropWhile isSpace)
      | cs => some (marks, cs)

end Marks

/-- The marks before a node; there are at most two of them. -/
def marks? (cs : List Char) : Option (Marks × List Char) := Marks.read? 3 .none cs

def alias? (cs : List Char) : Option (Node × List Char) :=
  (name? cs).map fun (name, rest) => (.alias name, rest)

/-! ### Nodes -/

/-- Whether no line ends between two points of a text, given by what follows them. -/
def onOneLine (start finish : List Char) : Bool :=
  !((start.take (start.length - finish.length)).any isBreak)

def isQuestion : List Char → Bool
  | '?' :: rest => atGap rest
  | _ => false

mutual

/-- A node in flow style; an empty one where none can be read. -/
def flowNode : Nat → List Char → Option (Node × List Char)
  | 0, _ => none
  | n + 1, cs => do
      let (marks, cs) ← marks? cs
      let cs := if marks.isNone then cs else skipGap cs
      let (node, rest) ← match cs with
        | '{' :: rest => flowMapping n [] true (skipGap rest)
        | '[' :: rest => flowList n [] true (skipGap rest)
        | '*' :: rest => alias? rest
        | '\'' :: _ | '"' :: _ => (quoted? cs).map fun (s, rest) => (.quoted s, rest)
        | cs =>
            if startsPlain true cs then
              let (acc, rest) := flowPlain cs.length [] cs
              if acc.isEmpty then some (.empty, rest)
              else (plainNode? acc).map fun node => (node, rest)
            else some (.empty, cs)
      return (marks.on node, rest)

/-- A key and, behind a colon on its line, a value. A question mark lets the colon stand on a
later line or be left out. -/
def flowPair : Nat → List Char → Option (Node × Option Node × List Char)
  | 0, _ => none
  | n + 1, cs => do
      let start := if isQuestion cs then skipGap (cs.drop 1) else cs
      let (key, rest) ← flowNode n start
      let behind := skipGap rest
      match behind, isQuestion cs || onOneLine start behind with
      | ':' :: rest, true =>
          let (value, rest) ← flowNode n (skipGap rest)
          return (key, some value, skipGap rest)
      | _, _ => return (key, if isQuestion cs then some .empty else none, behind)

/-- The entries of a mapping up to its brace. -/
def flowMapping : Nat → List (Node × Node) → Bool → List Char → Option (Node × List Char)
  | 0, _, _, _ => none
  | n + 1, entries, mayFollow, cs =>
      match cs with
      | '}' :: rest => some (.mapping entries, rest)
      | ',' :: _ => none
      | cs =>
          if !mayFollow then none
          else do
            let (key, value, rest) ← flowPair n cs
            let entries := entries ++ [(key, value.getD .empty)]
            match rest with
            | ',' :: rest => flowMapping n entries true (skipGap rest)
            | rest => flowMapping n entries false rest

def flowList : Nat → List Node → Bool → List Char → Option (Node × List Char)
  | 0, _, _, _ => none
  | n + 1, items, mayFollow, cs =>
      match cs with
      | ']' :: rest => some (.list items, rest)
      | ',' :: _ => none
      | cs =>
          if !mayFollow then none
          else do
            let (key, value, rest) ← flowPair n cs
            let item := match value with
              | none => key
              | some value => .mapping [(key, value)]
            match rest with
            | ',' :: rest => flowList n (items ++ [item]) true (skipGap rest)
            | rest => flowList n (items ++ [item]) false rest

end

def flow? (cs : List Char) : Option (Node × List Char) := flowNode (5 * cs.length + 10) cs

end LiveHls.Yaml
