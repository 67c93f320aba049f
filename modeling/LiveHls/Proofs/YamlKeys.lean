import LiveHls.Yaml.Document
/-! Keys of mappings. A document that writes a key twice is refused, and entries that are taken over
from elsewhere stand back: a value that is read has each of its keys once, at every depth. -/
namespace LiveHls.Yaml

/-- Every mapping in the value has each key once. -/
inductive KeysOnce : Yaml → Prop
  | null : KeysOnce .null
  | bool (b : Bool) : KeysOnce (.bool b)
  | number (x : Float) : KeysOnce (.number x)
  | time (t : Timestamp) : KeysOnce (.time t)
  | text (s : String) : KeysOnce (.text s)
  | bytes (bs : List UInt8) : KeysOnce (.bytes bs)
  | list {items : List Yaml} (each : ∀ item ∈ items, KeysOnce item) : KeysOnce (.list items)
  | mapping {entries : List (String × Yaml)} (once : (entries.map (·.1)).Nodup)
      (each : ∀ entry ∈ entries, KeysOnce entry.2) : KeysOnce (.mapping entries)

/-- Entries under different keys, whose values have a property. -/
structure Named {α : Type} (P : α → Prop) (entries : List (String × α)) : Prop where
  once : (entries.map (·.1)).Nodup
  each : ∀ entry ∈ entries, P entry.2

namespace Named

variable {α : Type} {P : α → Prop} {entries : List (String × α)}

theorem empty : Named P [] := ⟨List.nodup_nil, nofun⟩

theorem append (named : Named P entries) {key : String} {value : α} (sound : P value)
    (fresh : entries.lookup key = none) : Named P (entries ++ [(key, value)]) where
  once := by
    have apart := List.lookup_eq_none_iff.mp fresh
    rw [List.map_append, List.nodup_append]
    refine ⟨named.once, List.nodup_cons.mpr ⟨nofun, List.nodup_nil⟩, ?_⟩
    intro x mine y other
    obtain ⟨entry, member, rfl⟩ := List.mem_map.mp mine
    cases List.mem_singleton.mp other
    exact fun same => bne_iff_ne.mp (apart entry member) same.symm
  each entry member := by
    rcases List.mem_append.mp member with before | last
    · exact named.each entry before
    · cases List.mem_singleton.mp last
      exact sound

end Named

theorem indexText_injective {i j : Nat} (same : toString i = toString j) : i = j := by
  have digits : Nat.toDigits 10 i = Nat.toDigits 10 j := by
    rw [← Nat.toList_repr, ← Nat.toList_repr]
    exact congrArg String.toList same
  rw [← Nat.ofDigitChars_toDigits (b := 10) (n := i) (by decide) (by decide), digits,
    Nat.ofDigitChars_toDigits (by decide) (by decide)]

theorem named_indexed (bs : List UInt8) : Named KeysOnce (indexed bs) where
  once := by
    have keys : (indexed bs).map (·.1) = (List.range' 0 bs.length).map toString := by
      rw [indexed, List.map_map, ← List.zipIdx_map_snd, List.map_map]
      rfl
    rw [keys]
    exact List.Pairwise.map _ (fun i j ne same => ne (indexText_injective same)) List.nodup_range'
  each entry member := by
    obtain ⟨numbered, -, rfl⟩ := List.mem_map.mp member
    exact .number _

/-- The entries of a record, be it a mapping or another value that counts as one. -/
theorem KeysOnce.named {value : Yaml} {entries : List (String × Yaml)} (keys : KeysOnce value)
    (record : value.entries? = some entries) : Named KeysOnce entries := by
  cases keys <;> cases record
  case time => exact .empty
  case bytes bs => exact named_indexed bs
  case mapping once each => exact ⟨once, each⟩

/-! ### References -/

/-- What is not kept in the store has its keys once by itself. -/
def Ref.Sound : Ref → Prop
  | .leaf value => KeysOnce value
  | .stored _ => True

theorem Ref.sound_stored (index : Nat) : (Ref.stored index).Sound := trivial

inductive Cell.Sound : Cell → Prop
  | list {items : List Ref} (each : ∀ item ∈ items, item.Sound) : Sound (.list items)
  | mapping {entries : List (String × Ref)} (keyed : Named Ref.Sound entries) : Sound (.mapping entries)

theorem Cell.Sound.each {items : List Ref} (sound : (Cell.list items).Sound) :
    ∀ item ∈ items, item.Sound := by
  cases sound with
  | list each => exact each

theorem Cell.Sound.keyed {entries : List (String × Ref)} (sound : (Cell.mapping entries).Sound) :
    Named Ref.Sound entries := by
  cases sound with
  | mapping keyed => exact keyed

structure Store.Sound (store : Store) : Prop where
  cells : ∀ cell ∈ store.cells, cell.Sound
  anchors : ∀ entry ∈ store.anchors, entry.2.Sound

namespace Store.Sound

variable {store : Store} {ref : Ref} {cell : Cell}

theorem empty : Store.Sound .empty := ⟨nofun, nofun⟩

theorem extend (sound : store.Sound) {cells : List Cell} (each : ∀ cell ∈ cells, cell.Sound) :
    Store.Sound { store with cells := store.cells ++ cells } := by
  refine ⟨fun cell member => ?_, sound.anchors⟩
  rcases List.mem_append.mp member with before | added
  · exact sound.cells cell before
  · exact each cell added

theorem hold (sound : store.Sound) (held : cell.Sound) : (store.hold cell).2.Sound :=
  sound.extend (List.forall_mem_singleton.mpr held)

theorem set (sound : store.Sound) (index : Nat) (held : cell.Sound) :
    (store.set index cell).Sound := by
  refine ⟨fun other member => ?_, sound.anchors⟩
  rcases List.mem_or_eq_of_mem_set member with before | rfl
  · exact sound.cells other before
  · exact held

theorem bind (sound : store.Sound) (anchor : Option String) (known : ref.Sound) :
    (store.bind anchor ref).Sound := by
  cases anchor with
  | none => exact sound
  | some name =>
      refine ⟨sound.cells, fun entry member => ?_⟩
      rcases List.mem_cons.mp member with rfl | before
      · exact known
      · exact sound.anchors entry before

theorem found (sound : store.Sound) (found : store.cell? ref = some cell) : cell.Sound := by
  cases ref with
  | leaf value => cases found
  | stored index => exact sound.cells cell (List.mem_of_getElem? found)

theorem lookup (sound : store.Sound) {name : String} (found : store.anchors.lookup name = some ref) :
    ref.Sound := by
  obtain ⟨before, behind, split, -⟩ := List.lookup_eq_some_iff.mp found
  exact sound.anchors (name, ref) (by simp [split])

/-- The entries that a merge takes over have their keys once themselves. -/
theorem entries (sound : store.Sound) (known : ref.Sound) {entries : List (String × Ref)}
    (record : store.entries? ref = some entries) : ∀ entry ∈ entries, entry.2.Sound := by
  unfold Store.entries? at record
  split at record
  · obtain ⟨own, given, rfl⟩ := Option.map_eq_some_iff.mp record
    intro entry member
    obtain ⟨other, there, rfl⟩ := List.mem_map.mp member
    exact (KeysOnce.named known given).each other there
  · rename_i found
    cases record
    exact (sound.found found).keyed.each
  · rename_i found
    cases record
    intro entry member
    obtain ⟨⟨item, index⟩, there, rfl⟩ := List.mem_map.mp member
    exact (sound.found found).each item (List.fst_mem_of_mem_zipIdx there)
  · cases record

theorem pair (sound : store.Sound) {entry : String × Ref} (found : store.pair? ref = some entry) :
    entry.2.Sound := by
  unfold Store.pair? at found
  split at found
  · rename_i single
    cases found
    exact (sound.found single).keyed.each _ List.mem_cons_self
  · cases found

theorem holdPairs (sound : store.Sound) {pairs : List (String × Ref)}
    (each : ∀ entry ∈ pairs, entry.2.Sound) : (store.holdPairs pairs).2.Sound := by
  refine (sound.extend fun pair added => ?_).hold (.list fun item member => ?_)
  · obtain ⟨entry, there, rfl⟩ := List.mem_map.mp added
    refine .list fun item member => ?_
    rcases List.mem_cons.mp member with rfl | last
    · exact .text entry.1
    · cases List.mem_singleton.mp last
      exact each entry there
  · obtain ⟨index, -, rfl⟩ := List.mem_map.mp member
    exact Ref.sound_stored index

end Store.Sound

/-- Whatever the depth to which a value is opened, its mappings have the keys that are kept. -/
theorem Store.unroll_keys {cells : List Cell} (sound : ∀ cell ∈ cells, cell.Sound) {ref : Ref}
    (known : ref.Sound) (depth : Nat) (path : List Nat) :
    KeysOnce (Store.unroll cells depth path ref) := by
  induction depth generalizing path ref with
  | zero =>
      cases ref with
      | leaf value => exact known
      | stored index => exact .null
  | succ depth ih =>
      cases ref with
      | leaf value => exact known
      | stored index =>
          rw [unroll]
          split
          · rename_i items found
            have each := (sound _ (List.mem_of_getElem? found)).each
            split
            · exact .list nofun
            · refine .list fun item member => ?_
              obtain ⟨ref, there, rfl⟩ := List.mem_map.mp member
              exact ih (each ref there) _
          · rename_i entries found
            have keyed := (sound _ (List.mem_of_getElem? found)).keyed
            split
            · exact .mapping List.nodup_nil nofun
            · refine .mapping ?_ fun entry member => ?_
              · rw [List.map_map]
                exact keyed.once
              · obtain ⟨⟨key, ref⟩, there, rfl⟩ := List.mem_map.mp member
                exact ih (keyed.each (key, ref) there) _
          · exact .null

/-! ### Mappings under construction -/

namespace Entries

variable {e result : Entries} {store : Store} {source : Ref}

theorem keyed_put {entries : List (String × Ref)} (keyed : Named Ref.Sound entries) {key : String}
    {ref : Ref} (sound : ref.Sound) : Named Ref.Sound (put entries key ref) := by
  unfold put
  split
  · constructor
    · have keys : (entries.map fun entry => if entry.1 = key then (key, ref) else entry).map (·.1) =
          entries.map (·.1) := by
        rw [List.map_map]
        refine List.map_congr_left fun entry _ => ?_
        dsimp only [Function.comp_apply]
        split
        · rename_i same
          exact same.symm
        · rfl
      rw [keys]
      exact keyed.once
    · intro entry member
      obtain ⟨other, there, rfl⟩ := List.mem_map.mp member
      split
      · exact sound
      · exact keyed.each other there
  · rename_i fresh
    exact keyed.append sound (Option.not_isSome_iff_eq_none.mp fresh)

theorem keyed_write {key : String} {ref : Ref} (keyed : Named Ref.Sound e.all) (sound : ref.Sound)
    (done : e.write? key ref = some result) : Named Ref.Sound result.all := by
  unfold write? at done
  split at done
  · cases done
  · cases done
    exact keyed_put keyed sound

theorem keyed_takeOne (keyed : Named Ref.Sound e.all) {entry : String × Ref} (sound : entry.2.Sound) :
    Named Ref.Sound (e.takeOne entry).all := by
  unfold takeOne
  split
  · exact keyed
  · rename_i fresh
    exact keyed.append sound (Option.not_isSome_iff_eq_none.mp fresh)

theorem keyed_take (keyed : Named Ref.Sound e.all) (sound : store.Sound) (known : source.Sound)
    (done : take? store e source = some result) : Named Ref.Sound result.all := by
  obtain ⟨entries, record, rfl⟩ := Option.map_eq_some_iff.mp done
  have each := sound.entries known record
  clear record done
  induction entries generalizing e with
  | nil => exact keyed
  | cons entry rest ih =>
      exact ih (keyed_takeOne keyed (each entry List.mem_cons_self))
        fun other member => each other (List.mem_cons_of_mem _ member)

theorem keyed_merge (keyed : Named Ref.Sound e.all) (sound : store.Sound) (known : source.Sound)
    (done : e.merge? store source = some result) : Named Ref.Sound result.all := by
  unfold merge? at done
  split at done
  · rename_i items found
    have each := (sound.found found).each
    clear found
    induction items generalizing e with
    | nil =>
        cases done
        exact keyed
    | cons item rest ih =>
        rw [List.foldlM_cons] at done
        obtain ⟨next, taken, done⟩ := Option.bind_eq_some_iff.mp done
        exact ih (keyed_take keyed sound (each item List.mem_cons_self) taken) done
          fun other member => each other (List.mem_cons_of_mem _ member)
  · exact keyed_take keyed sound known done

end Entries

/-! ### Nodes -/

theorem mem_of_mapM {α β : Type} {f : α → Option β} {items : List α} {results : List β}
    (done : items.mapM f = some results) : ∀ result ∈ results, ∃ item ∈ items, f item = result := by
  induction items generalizing results with
  | nil =>
      cases done
      exact nofun
  | cons item rest ih =>
      rw [List.mapM_cons] at done
      obtain ⟨first, found, done⟩ := Option.bind_eq_some_iff.mp done
      obtain ⟨others, behind, same⟩ := Option.bind_eq_some_iff.mp done
      cases same
      intro result member
      rcases List.mem_cons.mp member with rfl | later
      · exact ⟨item, List.mem_cons_self, found⟩
      · obtain ⟨other, inside, found⟩ := ih behind result later
        exact ⟨other, List.mem_cons_of_mem item inside, found⟩

theorem Scalar.resolve_keys (s : String) : KeysOnce (Scalar.resolve s) := by
  unfold Scalar.resolve
  simp only
  repeat' split
  · exact .null
  · exact .bool _
  · exact .bool _
  · exact .number _
  · exact .number _
  · exact .time _
  · exact .text _

theorem Tag.scalar_keys {tag : Tag} {s : String} {value : Yaml}
    (read : tag.scalar? s = some value) : KeysOnce value := by
  cases tag <;> simp only [Tag.scalar?, Option.map_eq_some_iff] at read
  case text | untyped =>
    cases read
    exact .text s
  case integer | float =>
    obtain ⟨x, -, rfl⟩ := read
    exact .number x
  case time =>
    obtain ⟨t, -, rfl⟩ := read
    exact .time t
  case bytes =>
    obtain ⟨bs, -, rfl⟩ := read
    exact .bytes bs
  case bool =>
    repeat' split at read
    all_goals cases read
    all_goals exact .bool _
  case null =>
    split at read <;> cases read
    exact .null
  case merge =>
    split at read <;> cases read
    exact .text s
  case list | mapping | set | ordered | pairs => cases read

namespace Node

variable {store after : Store} {marks : Marks} {ref : Ref}

/-- What reading a node leaves behind: a value and a store in which keys come once. -/
def Sound (read : Ref × Store) : Prop := read.1.Sound ∧ read.2.Sound

theorem Sound.bind {read : Ref × Store} (sound : Sound read) (anchor : Option String) :
    Sound (read.1, read.2.bind anchor read.1) := ⟨sound.1, sound.2.bind anchor sound.1⟩

theorem sound_absent {tag : Tag} {read : Ref × Store} (sound : store.Sound)
    (done : tag.absent? store = some read) : Sound read := by
  cases tag <;> cases done
  case text => exact ⟨.text _, sound⟩
  case null | merge | untyped => exact ⟨.null, sound⟩
  case list | ordered | pairs => exact ⟨Ref.sound_stored _, sound.hold (.list nofun)⟩
  case mapping | set => exact ⟨Ref.sound_stored _, sound.hold (.mapping .empty)⟩

theorem sound_collection {tag : Tag} {read : Ref × Store} (known : ref.Sound) (sound : store.Sound)
    (done : tag.collection? store ref = some read) : Sound read := by
  unfold Tag.collection? at done
  split at done
  · cases done
    exact ⟨known, sound⟩
  · cases done
    exact ⟨known, sound⟩
  · cases done
    exact ⟨known, sound⟩
  · split at done <;> cases done
    exact ⟨known, sound⟩
  · obtain ⟨pairs, -, done⟩ := Option.bind_eq_some_iff.mp done
    split at done <;> cases done
    exact ⟨known, sound⟩
  · obtain ⟨pairs, single, rfl⟩ := Option.map_eq_some_iff.mp done
    refine ⟨Ref.sound_stored _, sound.holdPairs fun entry member => ?_⟩
    obtain ⟨item, -, found⟩ := mem_of_mapM single entry member
    exact sound.pair found
  · cases done

theorem sound_start {cell : Cell} (sound : store.Sound) (held : cell.Sound) :
    (start store marks cell).Sound :=
  (sound.hold held).bind marks.anchor (Ref.sound_stored _)

theorem sound_finish {read : Ref × Store} (known : ref.Sound) (sound : store.Sound)
    (done : finish? store marks ref = some read) : Sound read := by
  unfold finish? at done
  split at done
  · cases done
    have read : Sound (ref, store) := ⟨known, sound⟩
    exact read.bind marks.anchor
  · obtain ⟨inner, kept, rfl⟩ := Option.map_eq_some_iff.mp done
    exact (sound_collection known sound kept).bind marks.anchor

theorem sound_scalar {value : Option Yaml} {read : Ref × Store} (sound : store.Sound)
    (keys : ∀ scalar, value = some scalar → KeysOnce scalar)
    (done : scalar? store marks value = some read) : Sound read := by
  obtain ⟨scalar, given, rfl⟩ := Option.map_eq_some_iff.mp done
  have read : Sound (.leaf scalar, store) := ⟨keys scalar given, sound⟩
  exact read.bind marks.anchor

mutual

/-- The value of a node has its keys once, and so has whatever an anchor in it stands for: a node
inside of it or behind it can only name such values. -/
theorem sound_value {store : Store} {marks : Marks} {read : Ref × Store} (sound : store.Sound) :
    ∀ node : Node, node.value? store marks = some read → Sound read
  | .empty, done => by
      rw [value?] at done
      split at done
      · refine sound_scalar sound ?_ done
        rintro scalar ⟨⟩
        exact .null
      · obtain ⟨inner, absent, rfl⟩ := Option.map_eq_some_iff.mp done
        exact (sound_absent sound absent).bind marks.anchor
  | .plain s, done => by
      rw [value?] at done
      refine sound_scalar sound (fun scalar given => ?_) done
      split at given
      · cases given
        exact Scalar.resolve_keys s
      · exact Tag.scalar_keys given
  | .quoted s, done => by
      rw [value?] at done
      exact sound_scalar sound (fun _ given => Tag.scalar_keys given) done
  | .alias name, done => by
      rw [value?] at done
      split at done
      · obtain ⟨ref, found, rfl⟩ := Option.map_eq_some_iff.mp done
        exact ⟨sound.lookup found, sound⟩
      · cases done
  | .list items, done => by
      rw [value?] at done
      obtain ⟨after, inside, done⟩ := Option.bind_eq_some_iff.mp done
      have start : ∀ item ∈ ([] : List Ref), item.Sound := List.forall_mem_nil _
      have items := sound_values (sound_start sound (.list start)) start items inside
      exact sound_finish (Ref.sound_stored _) items done
  | .mapping entries, done => by
      rw [value?] at done
      obtain ⟨after, inside, done⟩ := Option.bind_eq_some_iff.mp done
      have entries := sound_entries (sound_start sound (.mapping .empty)) .empty entries inside
      exact sound_finish (Ref.sound_stored _) entries done
  | .tagged tag node, done => by
      rw [value?] at done
      split at done
      · cases done
      · exact sound_value sound node done
  | .anchored name node, done => by
      rw [value?] at done
      split at done
      · cases done
      · exact sound_value sound node done

theorem sound_values {store after : Store} {index : Nat} {items : List Ref} (sound : store.Sound)
    (each : ∀ item ∈ items, item.Sound) :
    ∀ nodes : List Node, values? store index items nodes = some after → after.Sound
  | [], done => by
      rw [values?] at done
      cases done
      exact sound
  | item :: rest, done => by
      rw [values?] at done
      obtain ⟨⟨ref, later⟩, inside, done⟩ := Option.bind_eq_some_iff.mp done
      obtain ⟨known, later⟩ := sound_value sound item inside
      have all : ∀ item ∈ items ++ [ref], item.Sound := by
        intro item member
        rcases List.mem_append.mp member with before | last
        · exact each item before
        · exact List.mem_singleton.mp last ▸ known
      exact sound_values (later.set index (.list all)) all rest done

theorem sound_entries {store after : Store} {index : Nat} {e : Entries} (sound : store.Sound)
    (keyed : Named Ref.Sound e.all) : ∀ nodes : List (Node × Node),
      entries? store index e nodes = some after → after.Sound
  | [], done => by
      rw [entries?] at done
      cases done
      exact sound
  | (key, content) :: rest, done => by
      rw [entries?] at done
      obtain ⟨⟨keyRef, middle⟩, front, done⟩ := Option.bind_eq_some_iff.mp done
      obtain ⟨⟨ref, later⟩, inside, done⟩ := Option.bind_eq_some_iff.mp done
      have middle := (sound_value sound key front).2
      obtain ⟨known, later⟩ := sound_value middle content inside
      dsimp only at done
      split at done
      · obtain ⟨next, merged, done⟩ := Option.bind_eq_some_iff.mp done
        have keyed := Entries.keyed_merge keyed later known merged
        exact sound_entries (later.set index (.mapping keyed)) keyed rest done
      · obtain ⟨next, entered, done⟩ := Option.bind_eq_some_iff.mp done
        obtain ⟨text, -, written⟩ := Option.bind_eq_some_iff.mp entered
        have keyed := Entries.keyed_write keyed known written
        exact sound_entries (later.set index (.mapping keyed)) keyed rest done

end

end Node

/-- Whatever the text, the value that is read from it has each key of a mapping once. -/
theorem parse_keys {s : String} {value : Yaml} (read : parse? s = some value) : KeysOnce value := by
  obtain ⟨node, -, valued⟩ := Option.bind_eq_some_iff.mp read
  obtain ⟨⟨ref, store⟩, stands, rfl⟩ := Option.map_eq_some_iff.mp valued
  obtain ⟨known, sound⟩ := Node.sound_value .empty node stands
  exact Store.unroll_keys sound.cells known _ _

/-- A key that is taken over may be written again, but only once. -/
example :
    (parse? "a: &x\n  k: 1\nb:\n  <<: *x\n  k: 2").isSome = true ∧
      (parse? "a: &x\n  k: 1\nb:\n  <<: *x\n  k: 2\n  k: 3").isSome = false ∧
      (parse? "b:\n  k: 1\n  k: 2").isSome = false := by
  decide +kernel

/-- A mapping that holds itself. -/
example : (parse? "a: &x\n  b: *x").isSome = true := by decide +kernel

end LiveHls.Yaml
