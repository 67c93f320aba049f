import LiveHls.Yaml.Value
/-! Values while a document is read. A list or a mapping is kept in a store from its first item on, so
that an alias inside of it can name it, and what it holds can be merged before it is complete. -/
namespace LiveHls.Yaml

/-- A value that is being built. -/
inductive Ref where
  /-- Neither a list nor a mapping. -/
  | leaf (value : Yaml)
  | stored (index : Nat)

/-- A list or a mapping, as far as it has been read. -/
inductive Cell where
  | list (items : List Ref)
  | mapping (entries : List (String × Ref))

structure Store where
  cells : List Cell
  /-- What the anchors stand for, the latest first. -/
  anchors : List (String × Ref)

namespace Store

def empty : Store := ⟨[], []⟩

def cell? (s : Store) : Ref → Option Cell
  | .leaf _ => none
  | .stored index => s.cells[index]?

/-- Puts a list or a mapping into the store. -/
def hold (s : Store) (cell : Cell) : Ref × Store :=
  (.stored s.cells.length, { s with cells := s.cells ++ [cell] })

def set (s : Store) (index : Nat) (cell : Cell) : Store := { s with cells := s.cells.set index cell }

def bind (s : Store) (anchor : Option String) (ref : Ref) : Store :=
  match anchor with
  | some name => { s with anchors := (name, ref) :: s.anchors }
  | none => s

/-- The entries of a value that is a record. Here a list is one too: each item under its index. -/
def entries? (s : Store) (ref : Ref) : Option (List (String × Ref)) :=
  match ref, s.cell? ref with
  | .leaf value, _ => value.entries?.map (·.map fun (key, value) => (key, .leaf value))
  | _, some (.mapping entries) => some entries
  | _, some (.list items) => some (items.zipIdx.map fun (item, index) => (toString index, item))
  | _, none => none

def mappingText : String := "[object Object]"

/-- The text of an item inside a key. A key holds no list within a list. -/
def itemText? (s : Store) (ref : Ref) : Option String :=
  match ref, s.cell? ref with
  | .leaf .null, _ => some ""
  | .leaf value, _ => value.text?
  | _, some (.mapping _) => some mappingText
  | _, _ => none

def keyText? (s : Store) (ref : Ref) : Option String :=
  match ref, s.cell? ref with
  | .leaf value, _ => value.text?
  | _, some (.mapping _) => some mappingText
  | _, some (.list items) => (items.mapM s.itemText?).map (",".intercalate ·)
  | _, none => none

/-- The entry of a mapping that has just one. -/
def pair? (s : Store) (ref : Ref) : Option (String × Ref) :=
  match s.cell? ref with
  | some (.mapping [entry]) => some entry
  | _ => none

/-- A list of lists, each a key and its value. -/
def holdPairs (s : Store) (pairs : List (String × Ref)) : Ref × Store :=
  let lists := pairs.map fun (key, ref) => Cell.list [.leaf (.text key), ref]
  { s with cells := s.cells ++ lists }.hold
    (.list ((List.range' s.cells.length pairs.length).map .stored))

/-! ### Values -/

/-- What a reference stands for, opened to a depth. Inside of itself a list is empty, which is how
its text is made, and a mapping is opened three times: a configuration asks for the values in its
sections, and for no text but theirs. -/
def unroll (cells : List Cell) : Nat → List Nat → Ref → Yaml
  | _, _, .leaf value => value
  | 0, _, .stored _ => .null
  | n + 1, path, .stored index =>
      match cells[index]? with
      | some (.list items) =>
          if path.contains index then .list []
          else .list (items.map (unroll cells n (index :: path)))
      | some (.mapping entries) =>
          if 3 ≤ path.count index then .mapping []
          else .mapping (entries.map fun (key, ref) => (key, unroll cells n (index :: path) ref))
      | none => .null

/-- A list is opened once and a mapping three times at most, whatever holds what. -/
def value (s : Store) (ref : Ref) : Yaml := unroll s.cells (3 * s.cells.length + 1) [] ref

end Store

/-! ### Mappings -/

/-- The entries of a mapping under construction. Those taken over from another mapping give way once
to one that is written. -/
structure Entries where
  all : List (String × Ref)
  /-- The keys that were taken over. -/
  taken : List String

namespace Entries

def none : Entries := ⟨[], []⟩

def put (entries : List (String × Ref)) (key : String) (ref : Ref) : List (String × Ref) :=
  if (entries.lookup key).isSome then
    entries.map fun entry => if entry.1 = key then (key, ref) else entry
  else entries ++ [(key, ref)]

/-- Writes an entry. A key must not be written twice. -/
def write? (e : Entries) (key : String) (ref : Ref) : Option Entries :=
  if !e.taken.contains key && (e.all.lookup key).isSome then Option.none
  else some ⟨put e.all key ref, e.taken.filter (· ≠ key)⟩

def takeOne (e : Entries) (entry : String × Ref) : Entries :=
  if (e.all.lookup entry.1).isSome then e else ⟨e.all ++ [entry], entry.1 :: e.taken⟩

/-- Takes over the entries of a record where there are none. -/
def take? (s : Store) (e : Entries) (source : Ref) : Option Entries :=
  (s.entries? source).map fun entries => entries.foldl takeOne e

/-- Takes over the entries of a record, or of the records in a list one after the other. -/
def merge? (e : Entries) (s : Store) (source : Ref) : Option Entries :=
  match s.cell? source with
  | some (.list items) => items.foldlM (take? s) e
  | _ => take? s e source

end Entries

end LiveHls.Yaml
