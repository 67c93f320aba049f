import LiveHls.Proofs.PlaylistLines
import LiveHls.Proofs.Segment.Content
import LiveHls.Proofs.Timestamp.CalendarText
import LiveHls.Proofs.Window.Lookup
/-! A client that reads a playlist. It counts the segments from the media sequence on, takes what
stands above a URI for what is fetched from there, and reads dates as the moments that they name. What
it finds is what the window holds, although the lines carry the sequences that are stored and the
client only counts. -/
namespace LiveHls.Playlist

/-- What a line tells a client. -/
inductive Mark where
  | mediaSequence (n : Nat)
  | discontinuity
  | time (moment : Timestamp)
  | duration (text : List Char)
  | segment (named : Nat)
  | part (named length offset : Nat) (independent : Bool) (duration : List Char)
  | hint (named start : Nat)
  | other

/-- What a client has found listed. The counted sequence of a segment is the client's own, the one
that it is named by comes from its URI. -/
inductive Item where
  | segment (counted named : Nat) (discontinuity : Bool) (time : Option Timestamp)
    (duration : Option (List Char))
  | part (named length offset : Nat) (independent : Bool) (duration : List Char)
  | hint (named start : Nat)

/-- A client under way: the sequence of the next segment, and what has been said about it. -/
structure Client where
  next : Nat
  discontinuity : Bool
  time : Option Timestamp
  duration : Option (List Char)

namespace Client

/-- Nothing has been said about the next segment. -/
def expecting (next : Nat) : Client := ⟨next, false, none, none⟩

def see (client : Client) : Mark → Client × List Item
  | .mediaSequence n => ({ client with next := n }, [])
  | .discontinuity => ({ client with discontinuity := true }, [])
  | .time moment => ({ client with time := some moment }, [])
  | .duration text => ({ client with duration := some text }, [])
  | .segment named =>
      (.expecting (client.next + 1),
        [.segment client.next named client.discontinuity client.time client.duration])
  | .part named length offset independent duration =>
      (client, [.part named length offset independent duration])
  | .hint named start => (client, [.hint named start])
  | .other => (client, [])

def read (client : Client) : List Mark → Client × List Item
  | [] => (client, [])
  | mark :: rest =>
      let (next, items) := client.see mark
      let (final, more) := next.read rest
      (final, items ++ more)

theorem read_append (client : Client) (marks more : List Mark) :
    client.read (marks ++ more) =
      (((client.read marks).1.read more).1,
        (client.read marks).2 ++ ((client.read marks).1.read more).2) := by
  induction marks generalizing client with
  | nil => rfl
  | cons mark rest ih => simp only [List.cons_append, read, ih, List.append_assoc]

end Client

/-- What a line tells a client that takes its fields as they were meant. -/
def Line.mark : Line → Mark
  | .mediaSequence n => .mediaSequence n
  | .discontinuity => .discontinuity
  | .programDateTime time => .time (Timestamp.parse time)
  | .duration seconds => .duration (Decimal.fixed 3 seconds).toList
  | .uri n => .segment n
  | .part seconds n length offset independent =>
      .part n length offset independent (Decimal.fixed 3 seconds).toList
  | .preloadHint n start => .hint n start
  | _ => .other

/-- A sealed segment as a client finds it: it is counted as the sequence that it has, and starts when
it does. -/
def sealedItem (a : Segment) : Item :=
  .segment a.sequence a.sequence a.discontinuity (some a.startTime)
    (a.duration.map fun seconds => (Decimal.fixed 3 seconds).toList)

def partItems (a : Segment) : List Item :=
  a.parts.map fun p =>
    .part a.sequence p.part.data.length p.offset p.part.independent
      (Decimal.fixed 3 p.part.duration).toList

/-- A client has found all sealed segments of a window, the parts of the last one if that is open,
and the part to come. The parts of the open segment leave no byte out and none to two of them. -/
structure Recovers (w : Window) (found : Client × List Item) : Prop where
  sealed : ∀ before last, w.segments = before ++ [last] → last.complete = true →
    found = (.expecting (last.sequence + 1),
      before.map sealedItem ++ [sealedItem last] ++ [.hint (last.sequence + 1) 0])
  opened : ∀ before last, w.segments = before ++ [last] → last.complete = false →
    found = ({ Client.expecting last.sequence with discontinuity := last.discontinuity },
      before.map sealedItem ++ partItems last ++ [.hint last.sequence last.dataSize]) ∧
    Segment.Tiles 0 last.parts last.dataSize

variable {w : Window} {settings : Settings} {before : List Segment} {a first last : Segment}

theorem read_sealed (complete : a.complete = true) (valid : a.startTime ≠ .invalid) :
    (Client.expecting a.sequence).read ((ownLines a).map Line.mark) =
      (.expecting (a.sequence + 1), [sealedItem a]) := by
  obtain ⟨duration, sealed⟩ := Option.isSome_iff_exists.mp complete
  obtain ⟨text, time⟩ := Timestamp.text?_of_valid valid
  have moment : Timestamp.parse text = a.startTime := Timestamp.parse_text? time
  rw [ownLines, notes, sealed, time, if_pos complete, discontinuityLines]
  cases flag : a.discontinuity with
  | true =>
      simp [Client.read, Client.see, Line.mark, sealedItem, Client.expecting, flag, sealed, moment]
  | false =>
      simp [Client.read, Client.see, Line.mark, sealedItem, Client.expecting, flag, sealed, moment]

theorem read_parts (client : Client) (a : Segment) :
    client.read ((partLines a).map Line.mark) = (client, partItems a) := by
  unfold partLines partItems
  induction a.parts with
  | nil => rfl
  | cons p rest ih => simp only [List.map_cons, Client.read, Line.mark, Client.see, ih,
      List.singleton_append]

theorem read_open (opened : a.complete = false) (n : Nat) :
    (Client.expecting n).read ((ownLines a).map Line.mark) =
      ({ Client.expecting n with discontinuity := a.discontinuity }, partItems a) := by
  have unsealed : a.duration = none := Option.not_isSome_iff_eq_none.mp (by
    rw [show a.duration.isSome = false from opened]
    exact Bool.false_ne_true)
  rw [ownLines, notes, unsealed, opened, discontinuityLines]
  simp only [Bool.false_eq_true, if_false, List.append_nil, List.map_append, Client.read_append,
    read_parts]
  cases a.discontinuity <;> rfl

/-- The segments are counted as the sequences that they have, since there is no gap. -/
theorem read_segments {n : Nat} (h : Consecutive (before ++ [last]))
    (begins : ∀ a, (before ++ [last]).head? = some a → a.sequence = n)
    (valid : ∀ a ∈ before, a.startTime ≠ .invalid) :
    (Client.expecting n).read ((before.flatMap ownLines).map Line.mark) =
      (.expecting last.sequence, before.map sealedItem) := by
  induction before generalizing n with
  | nil =>
      rw [begins last rfl]
      rfl
  | cons a rest ih =>
      obtain rfl : a.sequence = n := begins a rfl
      have complete : a.complete = true := h.complete_before a List.mem_cons_self
      have follows : ∀ b, (rest ++ [last]).head? = some b → b.sequence = a.sequence + 1 := by
        intro b head
        obtain ⟨others, split⟩ := List.head?_eq_some_iff.mp head
        rw [List.cons_append, split] at h
        exact h.rel.next
      have later := ih (List.IsChain.tail h) follows fun b member =>
        valid b (List.mem_cons_of_mem a member)
      rw [List.flatMap_cons, List.map_append, Client.read_append,
        read_sealed complete (valid a List.mem_cons_self), later]
      rfl

theorem read_head (w : Window) (settings : Settings) (first : Segment) :
    (Client.expecting 0).read ((headLines first w settings).map Line.mark) =
      (.expecting first.sequence, []) :=
  rfl

theorem recovers_of_listing (h : Consecutive w.segments) (timed : w.Timed)
    (tiled : ∀ a ∈ w.segments, a.Tiled) {after : List Segment}
    (front : w.segments = first :: after) (back : w.segments = before ++ [last])
    (settings : Settings) :
    Recovers w ((Client.expecting 0).read ((listing w settings first last).map Line.mark)) := by
  have begins : ∀ a, (before ++ [last]).head? = some a → a.sequence = first.sequence := by
    intro a head
    rw [← back, front] at head
    cases head
    rfl
  have earlier := read_segments (back ▸ h) begins fun a member =>
    timed a (by rw [back]; exact List.mem_append_left _ member)
  have member : last ∈ w.segments := by rw [back]; simp
  rw [listing, back]
  simp only [List.map_append, List.flatMap_append, List.flatMap_singleton, Client.read_append,
    read_head, earlier, List.nil_append, List.map_cons, List.map_nil]
  constructor
  · intro front final split complete
    obtain ⟨rfl, same⟩ := List.append_inj' (back.symm.trans split) rfl
    cases same
    rw [read_sealed complete (timed last member), hintLine, if_pos complete]
    rfl
  · intro front final split opened
    obtain ⟨rfl, same⟩ := List.append_inj' (back.symm.trans split) rfl
    cases same
    rw [read_open opened, hintLine, if_neg (by rw [opened]; exact Bool.false_ne_true)]
    exact ⟨rfl, tiled last member⟩

end LiveHls.Playlist
