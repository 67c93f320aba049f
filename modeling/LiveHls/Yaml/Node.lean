import LiveHls.Yaml.Scalar
import LiveHls.Yaml.Store
/-! Nodes of a document as they are written, and the values that they stand for. A node may carry
a tag, which says what it is, and an anchor, under which an alias behind it or inside of it finds its
value. -/
namespace LiveHls.Yaml

/-- The kinds of value that a tag can ask for. -/
inductive Tag where
  | text | integer | float | bool | null | time | bytes | list | mapping
  /-- A mapping whose values are all null. -/
  | set
  /-- A list of mappings with one entry each, all under different keys. -/
  | ordered
  /-- Such a list in which keys may come twice; it is read as a list of keys and values. -/
  | pairs
  /-- The mark of the entries that are taken over from another mapping. -/
  | merge
  /-- The kind that a node has without a look at its text. -/
  | untyped
  deriving DecidableEq, Repr

inductive Node where
  /-- Where a node could stand and none does. -/
  | empty
  | plain (s : String)
  | quoted (s : String)
  | alias (name : String)
  | list (items : List Node)
  | mapping (entries : List (Node × Node))
  | tagged (tag : Tag) (node : Node)
  | anchored (name : String) (node : Node)

def mergeKey : String := "<<"

namespace Tag

/-- The tags of the standard, by the name behind their common part. -/
def names : List (String × Tag) :=
  [ ("str", .text), ("int", .integer), ("float", .float), ("bool", .bool), ("null", .null),
    ("timestamp", .time), ("binary", .bytes), ("seq", .list), ("map", .mapping), ("set", .set),
    ("omap", .ordered), ("pairs", .pairs), ("merge", .merge) ]

def ofName? (name : String) : Option Tag := names.lookup name

def scalar? (tag : Tag) (s : String) : Option Yaml :=
  match tag with
  | .text | .untyped => some (.text s)
  | .integer => (Scalar.integer? s.toList).map .number
  | .float => (Scalar.float? s.toList).map .number
  | .bool =>
      if Scalar.trueWords.contains s then some (.bool true)
      else if Scalar.falseWords.contains s then some (.bool false)
      else none
  | .null => if Scalar.nullWords.contains s then some .null else none
  | .time => (Scalar.time? s.toList).map .time
  | .bytes => (Scalar.bytes? s.toList).map .bytes
  | .merge => if s = mergeKey then some (.text s) else none
  | .list | .mapping | .set | .ordered | .pairs => none

def absent? (s : Store) : Tag → Option (Ref × Store)
  | .text => some (.leaf (.text ""), s)
  | .null | .merge | .untyped => some (.leaf .null, s)
  | .list | .ordered | .pairs => some (s.hold (.list []))
  | .mapping | .set => some (s.hold (.mapping []))
  | .integer | .float | .bool | .time | .bytes => none

/-- A list or a mapping under a tag stays what it is, but for a list of pairs. -/
def collection? (s : Store) (ref : Ref) (tag : Tag) : Option (Ref × Store) :=
  match tag, s.cell? ref with
  | .list, some (.list _) | .mapping, some (.mapping _) | .untyped, _ => some (ref, s)
  | .set, some (.mapping entries) =>
      if entries.all fun (_, ref) => ref matches .leaf .null then some (ref, s) else none
  | .ordered, some (.list items) => do
      let pairs ← items.mapM s.pair?
      if (pairs.map (·.1)).Nodup then some (ref, s) else none
  | .pairs, some (.list items) => (items.mapM s.pair?).map s.holdPairs
  | _, _ => none

end Tag

/-- What is written before a node. -/
structure Marks where
  tag : Option Tag
  anchor : Option String

namespace Marks

def none : Marks := ⟨.none, .none⟩

def isNone (marks : Marks) : Bool := marks.tag.isNone && marks.anchor.isNone

end Marks

namespace Node

def isMergeKey : Node → Bool
  | .plain s => s = mergeKey
  | .tagged tag _ => tag = .merge
  | .anchored _ node => node.isMergeKey
  | _ => false

/-- A scalar, under its anchor. -/
def scalar? (store : Store) (marks : Marks) (value : Option Yaml) : Option (Ref × Store) :=
  value.map fun value => (.leaf value, store.bind marks.anchor (.leaf value))

/-- Begins a list or a mapping, which its anchor stands for from now on. -/
def start (store : Store) (marks : Marks) (cell : Cell) : Store :=
  (store.hold cell).2.bind marks.anchor (store.hold cell).1

/-- Ends a list or a mapping. Its tag is looked at last. -/
def finish? (store : Store) (marks : Marks) (ref : Ref) : Option (Ref × Store) :=
  match marks.tag with
  | none => some (ref, store.bind marks.anchor ref)
  | some tag =>
      (tag.collection? store ref).map fun (ref, store) => (ref, store.bind marks.anchor ref)

mutual

/-- The value of a node that stands behind marks, none of which may come twice. -/
def value? (store : Store) (marks : Marks) : Node → Option (Ref × Store)
  | .empty =>
      match marks.tag with
      | none => scalar? store marks (some .null)
      | some tag => (tag.absent? store).map fun (ref, store) => (ref, store.bind marks.anchor ref)
  | .plain s =>
      scalar? store marks <| match marks.tag with
        | none => some (Scalar.resolve s)
        | some tag => tag.scalar? s
  | .quoted s => scalar? store marks ((marks.tag.getD .text).scalar? s)
  | .alias name =>
      if marks.isNone then (store.anchors.lookup name).map fun ref => (ref, store) else none
  | .list items =>
      let index := store.cells.length
      (values? (start store marks (.list [])) index [] items).bind fun store =>
        finish? store marks (.stored index)
  | .mapping entries =>
      let index := store.cells.length
      (entries? (start store marks (.mapping [])) index .none entries).bind fun store =>
        finish? store marks (.stored index)
  | .tagged tag node =>
      if marks.tag.isSome then none else value? store { marks with tag := some tag } node
  | .anchored name node =>
      if marks.anchor.isSome then none else value? store { marks with anchor := some name } node

/-- Reads further items of the list at an index. -/
def values? (store : Store) (index : Nat) (items : List Ref) : List Node → Option Store
  | [] => some store
  | item :: rest => do
      let (ref, store) ← value? store .none item
      let items := items ++ [ref]
      values? (store.set index (.list items)) index items rest

/-- Reads further entries of the mapping at an index. -/
def entries? (store : Store) (index : Nat) (e : Entries) : List (Node × Node) → Option Store
  | [] => some store
  | (key, content) :: rest => do
      let (keyRef, store) ← value? store .none key
      let (ref, store) ← value? store .none content
      let e ← if key.isMergeKey then e.merge? store ref
        else (store.keyText? keyRef).bind fun key => e.write? key ref
      entries? (store.set index (.mapping e.all)) index e rest

end

end Node

end LiveHls.Yaml
