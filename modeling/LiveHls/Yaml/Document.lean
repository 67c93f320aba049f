import LiveHls.Yaml.Flow
/-! Documents in block style: mappings and lists by indentation, with nodes in flow style, and
literal and folded texts. A stream of documents has to hold exactly one. -/
namespace LiveHls.Yaml

/-! ### Lines -/

/-- A line with content: its column, whether a tab stands before the content, and the text from
the content on. -/
structure Content where
  column : Nat
  tabbed : Bool
  text : List Char

def nextLine (cs : List Char) : List Char := (cs.dropWhile fun c => !isBreak c).drop 1

/-- The next line that holds more than blanks and a comment, from the start of a line on. -/
def content? : Nat → List Char → Option Content
  | 0, _ => none
  | n + 1, cs =>
      let column := (cs.takeWhile (· = ' ')).length
      let behind := cs.drop column
      let text := behind.dropWhile isSpace
      match text with
      | [] => none
      | c :: _ =>
          if isBreak c || c = '#' then content? n (nextLine text)
          else some ⟨column, behind.head? = some '\t', text⟩

def nextContent? (cs : List Char) : Option Content := content? (cs.length + 1) cs

/-- The start of the next line, if nothing but a comment is left on this one. -/
def endLine? (cs : List Char) : Option (List Char) :=
  let rest := cs.dropWhile isSpace
  match rest with
  | [] => some []
  | c :: _ => if isBreak c || c = '#' then some (nextLine rest) else none

/-- Whether a line consists of a marker, or starts with one and a blank. -/
def isMarker (marker : String) (cs : List Char) : Bool :=
  marker.toList.isPrefixOf cs && atGap (cs.drop marker.length)

def isDocumentMarker (c : Content) : Bool :=
  c.column = 0 && (isMarker "---" c.text || isMarker "..." c.text)

/-! ### Scalars -/

/-- The rest of a plain scalar, which goes on over the lines that are indented by `least`. -/
def blockPlain : Nat → Nat → List Char → List Char → List Char × List Char
  | 0, _, acc, cs => (acc, cs)
  | n + 1, least, acc, cs =>
      let (acc, rest) := plainLine false acc cs
      match rest with
      | '\n' :: _ =>
          let (breaks, next) := countBreaks 0 rest
          match nextContent? (rest.drop 1) with
          | some c =>
              if c.column < least || isDocumentMarker c || c.text.length ≠ next.length
                  || endsPlain false true next then (acc, rest)
              else blockPlain n least ((folded breaks).reverse ++ dropBlanks acc) next
          | none => (acc, rest)
      | rest => (acc, rest)

/-- How the line ends at the end of a literal or folded text are kept. -/
inductive Chomp where
  | clip | strip | keep
  deriving DecidableEq

/-- The marks behind `|` or `>`: how line ends are kept, and how deep the text is indented. -/
def blockHeader? : Nat → Chomp → Option Nat → List Char →
    Option (Chomp × Option Nat × List Char)
  | 0, _, _, _ => none
  | _, chomp, depth, [] => some (chomp, depth, [])
  | n + 1, chomp, depth, c :: rest =>
      if c = '+' then blockHeader? n .keep depth rest
      else if c = '-' then blockHeader? n .strip depth rest
      else if c.isDigit then
        if c = '0' then none else blockHeader? n chomp (some (c.toNat - '0'.toNat)) rest
      else some (chomp, depth, c :: rest)

/-- The lines of a text that are blank or indented by `depth`, without the indentation. -/
def blockLines : Nat → Option Nat → Nat → List Char → List (List Char) × List Char
  | 0, _, _, cs => ([], cs)
  | _, _, _, [] => ([], [])
  | n + 1, depth, least, cs =>
      let indent := (cs.takeWhile (· = ' ')).length
      let behind := cs.drop indent
      if behind.head?.any isBreak || behind.isEmpty then
        let (lines, rest) := blockLines n depth least (behind.drop 1)
        (cs.take (indent - depth.getD indent) :: lines, rest)
      else
        let depth := depth.getD indent
        if indent < depth || indent < least then ([], cs)
        else
          let line := (cs.drop depth).takeWhile fun c => !isBreak c
          let (lines, rest) := blockLines n (some depth) least (nextLine cs)
          (line :: lines, rest)

def literal (lines : List (List Char)) : List Char := lines.flatMap (· ++ ['\n'])

def isIndented (line : List Char) : Bool := line.head?.any isSpace

/-- Lines joined behind `previous` and so many empty lines. A single line end between unindented
lines becomes a space, and of several the first is dropped. -/
def fold (previous : List Char) : Nat → List (List Char) → List Char
  | _, [] => ['\n']
  | breaks, line :: rest =>
      if line.isEmpty then fold previous (breaks + 1) rest
      else
        let gap :=
          if isIndented previous || isIndented line then List.replicate (breaks + 1) '\n'
          else if breaks = 0 then [' ']
          else List.replicate breaks '\n'
        gap ++ line ++ fold line 0 rest

/-- The first line of a folded text keeps the empty lines before it. -/
def foldLines : List (List Char) → List Char
  | [] => []
  | line :: rest => if line.isEmpty then '\n' :: foldLines rest else line ++ fold line 0 rest

/-- A literal or folded text, whose mark stands at the front. -/
def blockText? (isFolded : Bool) (least : Nat) (cs : List Char) : Option (String × List Char) := do
  let (chomp, depth, rest) ← blockHeader? 3 .clip none cs
  let rest ← endLine? rest
  let (lines, rest) :=
    blockLines (rest.length + 1) (depth.map fun d => least - 1 + d) least rest
  let tail := (lines.reverse.takeWhile (·.isEmpty)).length
  let body := lines.take (lines.length - tail)
  let text := if isFolded then foldLines body else literal body
  let text := match chomp with
    | .strip => (text.reverse.dropWhile isBreak).reverse
    | .clip => text
    | .keep => text ++ List.replicate tail '\n'
  if text.any isControl then none else some (String.ofList text, rest)

/-! ### Nodes -/

/-- Whether a mark and a gap come next. -/
def isIndicator (mark : Char) : List Char → Bool
  | c :: rest => c = mark && atGap rest
  | [] => false

def plainKey? (cs : List Char) : Option (Node × List Char) :=
  if startsPlain false cs then
    let (acc, rest) := plainLine false [] cs
    (plainNode? acc).map fun node => (node, rest)
  else none

def keyNode? (cs : List Char) : Option (Node × List Char) := do
  let (marks, cs) ← marks? cs
  let (node, rest) ← match cs with
    | '*' :: rest => alias? rest
    | '{' :: _ | '[' :: _ => flow? cs
    | '\'' :: _ | '"' :: _ => (quoted? cs).map fun (s, rest) => (.quoted s, rest)
    | cs => plainKey? cs
  return (marks.on node, rest)

/-- A key in front of a colon on its line, and what follows the colon. -/
def key? (cs : List Char) : Option (Node × List Char) :=
  (keyNode? cs).bind fun (key, rest) =>
    match rest.dropWhile isSpace with
    | ':' :: behind => if atGap behind && onOneLine cs rest then some (key, behind) else none
    | _ => none

/-- A scalar, an alias or a node in flow style, which starts on the line of its key or dash. -/
def inline? (least : Nat) (cs : List Char) : Option (Node × List Char) := do
  let (node, rest) ← match cs with
    | '*' :: rest => alias? rest
    | '{' :: _ | '[' :: _ => flow? cs
    | '\'' :: _ | '"' :: _ => (quoted? cs).map fun (s, rest) => (.quoted s, rest)
    | cs =>
        if startsPlain false cs then
          let (acc, rest) := blockPlain (cs.length + 1) least [] cs
          (plainNode? acc).map fun node => (node, rest)
        else none
  return (node, ← endLine? rest)

/-- A node on the line of its key or dash that is no list and no mapping in block style. -/
def value? (least : Nat) (cs : List Char) : Option (Node × List Char) :=
  match cs with
  | '|' :: rest => (blockText? false least rest).map fun (s, rest) => (.quoted s, rest)
  | '>' :: rest => (blockText? true least rest).map fun (s, rest) => (.quoted s, rest)
  | cs => inline? least cs

abbrev Read := Option (Node × List Char)

mutual

/-- The node at the content of a line, in the given column. Behind marks on its line stands no
list or mapping in block style. -/
def node : Nat → Nat → Nat → List Char → Read
  | 0, _, _, _ => none
  | n + 1, column, least, cs =>
      if isIndicator '-' cs then items n column [] cs
      else if isIndicator '?' cs then entries n column [] cs
      else do
        let (marks, rest) ← marks? cs
        if marks.isNone then
          match key? cs with
          | some _ => entries n column [] cs
          | none => value? least cs
        else
          match endLine? rest with
          | some later => (nested n least later).map fun (node, rest) => (marks.on node, rest)
          | none => (value? least rest).map fun (node, rest) => (marks.on node, rest)

/-- The node on later lines that are indented by `least`; an empty one if there is none. A tab
may stand before a scalar only. -/
def nested : Nat → Nat → List Char → Read
  | 0, _, _ => none
  | n + 1, least, cs =>
      match nextContent? cs with
      | none => some (.empty, cs)
      | some c =>
          if c.column < least || isDocumentMarker c then some (.empty, cs)
          else if c.tabbed then value? least c.text
          else node n c.column least c.text

/-- The node behind the mark of an entry in a column. A list may stand in that very column. -/
def behindMark : Nat → Nat → List Char → Read
  | 0, _, _ => none
  | n + 1, column, cs =>
      match endLine? cs with
      | none => value? (column + 1) (cs.dropWhile isSpace)
      | some rest =>
          match nextContent? rest with
          | some c =>
              if c.column = column && !c.tabbed && isIndicator '-' c.text
                  && !isDocumentMarker c then
                items n column [] c.text
              else nested n (column + 1) rest
          | none => some (.empty, rest)

def entryValue : Nat → Nat → List Char → Read
  | 0, _, _ => none
  | n + 1, column, cs => do
      let (marks, rest) ← marks? (cs.dropWhile isSpace)
      let (node, rest) ← behindMark n column (if marks.isNone then cs else rest)
      return (marks.on node, rest)

/-- A key or value behind a question mark or colon of its own. A list or mapping in block style
may start on its line. -/
def compact : Nat → Nat → List Char → Read
  | 0, _, _ => none
  | n + 1, column, cs =>
      match endLine? cs with
      | some _ => behindMark n column cs
      | none =>
          let blanks := cs.takeWhile isSpace
          let text := cs.drop blanks.length
          if blanks.contains '\t' then value? (column + 1) text
          else node n (column + 1 + blanks.length) (column + 1) text

def entry : Nat → Nat → List Char → Option ((Node × Node) × List Char)
  | 0, _, _ => none
  | n + 1, column, cs =>
      if isIndicator '?' cs then do
        let (key, rest) ← compact n column (cs.drop 1)
        match nextContent? rest with
        | some c =>
            if c.column = column && !c.tabbed && isIndicator ':' c.text then do
              let (value, rest) ← compact n column (c.text.drop 1)
              return ((key, value), rest)
            else return ((key, .empty), rest)
        | none => return ((key, .empty), rest)
      else do
        let (key, rest) ← key? cs
        let (value, rest) ← entryValue n column rest
        return ((key, value), rest)

def entries : Nat → Nat → List (Node × Node) → List Char → Read
  | 0, _, _, _ => none
  | n + 1, column, acc, cs => do
      let (next, rest) ← entry n column cs
      let acc := acc ++ [next]
      match nextContent? rest with
      | none => return (.mapping acc, rest)
      | some c =>
          if c.column < column || isDocumentMarker c then return (.mapping acc, rest)
          else if c.column = column && !c.tabbed then entries n column acc c.text
          else none

def items : Nat → Nat → List Node → List Char → Read
  | 0, _, _, _ => none
  | n + 1, column, acc, cs => do
      let behind := cs.drop 1
      let (item, rest) ← match endLine? behind with
        | some rest => nested n (column + 1) rest
        | none =>
            let blanks := behind.takeWhile isSpace
            let text := behind.drop blanks.length
            if blanks.contains '\t' then value? (column + 1) text
            else node n (column + 1 + blanks.length) (column + 1) text
      let acc := acc ++ [item]
      match nextContent? rest with
      | none => return (.list acc, rest)
      | some c =>
          if c.column < column || isDocumentMarker c then return (.list acc, rest)
          else if c.column = column && !c.tabbed && isIndicator '-' c.text then
            items n column acc c.text
          else if c.column = column && !isIndicator '-' c.text then return (.list acc, rest)
          else none

end

/-! ### Documents -/

def unifyBreaks : List Char → List Char
  | '\r' :: '\n' :: rest => '\n' :: unifyBreaks rest
  | '\r' :: rest => '\n' :: unifyBreaks rest
  | c :: rest => c :: unifyBreaks rest
  | [] => []

def skipDirectives : Nat → List Char → List Char
  | 0, cs => cs
  | n + 1, cs =>
      match nextContent? cs with
      | some c => if c.column = 0 && c.text.head? = some '%' then
          skipDirectives n (nextLine c.text) else cs
      | none => cs

/-- Whether nothing follows a document. The mark of its end may. -/
def atEnd : Nat → List Char → Bool
  | 0, _ => false
  | n + 1, cs =>
      match nextContent? cs with
      | none => true
      | some c =>
          if c.column = 0 && isMarker "..." c.text then
            match endLine? (c.text.drop 3) with
            | some rest => atEnd n rest
            | none => false
          else false

/-- The node of a document, which may start with a marker. -/
def document? (cs : List Char) : Read :=
  let fuel := 8 * cs.length + 16
  let body := skipDirectives cs.length cs
  match nextContent? body with
  | some c =>
      if c.column = 0 && isMarker "---" c.text then
        let behind := c.text.drop 3
        match endLine? behind with
        | some rest => nested fuel 0 rest
        | none =>
            let blanks := behind.takeWhile isSpace
            node fuel (3 + blanks.length) 0 (behind.drop blanks.length)
      else if body.length < cs.length then none
      else nested fuel 0 body
  | none => some (.empty, [])

/-- The node of a text that holds one document. -/
def read? (s : String) : Option Node :=
  let cs := unifyBreaks s.toList
  let cs := if cs.head? = some '\uFEFF' then cs.drop 1 else cs
  if cs.contains '\x00' then none
  else
    (document? cs).bind fun (node, rest) =>
      if atEnd (rest.length + 1) rest then some node else none

def parse? (s : String) : Option Yaml :=
  (read? s).bind fun node => (node.value? .empty .none).map fun (ref, store) => store.value ref

end LiveHls.Yaml
