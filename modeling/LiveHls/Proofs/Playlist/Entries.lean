import Mathlib.Data.List.DropRight
import LiveHls.Proofs.PlaylistLines
import LiveHls.Proofs.Window.Discontinuities
/-! The entries of a playlist. The entry of a sealed segment is its URI with the tags directly above,
and its discontinuity number counts the discontinuities before the playlist and those in it up to
that entry. Both depend only on what the window held up to that segment. -/
namespace LiveHls

namespace Playlist

def Line.names (n : Nat) : Line → Bool
  | .uri m => m = n
  | _ => false

/-- Whether a line is about the segment whose URI comes next. -/
def Line.isEntryTag : Line → Bool
  | .discontinuity | .programDateTime _ | .duration _ => true
  | _ => false

def Line.isDiscontinuity : Line → Bool
  | .discontinuity => true
  | _ => false

def Line.isPart : Line → Bool
  | .part .. => true
  | _ => false

/-- The lines above the URI of a segment. -/
def above (n : Nat) (lines : List Line) : List Line := lines.takeWhile fun line => !line.names n

/-- The URI of a segment with the tags that stand directly above it. -/
def entry (n : Nat) (lines : List Line) : List Line :=
  (above n lines).rtakeWhile Line.isEntryTag ++ [.uri n]

def mediaSequence? (lines : List Line) : Option Nat :=
  lines.findSome? fun
    | .mediaSequence n => some n
    | _ => none

def discontinuitySequence? (lines : List Line) : Option Nat :=
  lines.findSome? fun
    | .discontinuitySequence n => some n
    | _ => none

/-- The discontinuities up to the entry of a segment, with those from before the playlist. -/
def discontinuityNumber? (n : Nat) (lines : List Line) : Option Nat :=
  (discontinuitySequence? lines).map (· + (above n lines).countP Line.isDiscontinuity)

variable {w : Window} {settings : Settings} {before after : List Segment} {a first last : Segment}

theorem discontinuitySequence?_listing (w : Window) (settings : Settings) (first last : Segment) :
    discontinuitySequence? (listing w settings first last) = some w.discontinuitySequence := rfl

theorem rtakeWhile_append {α : Type} {p : α → Bool} {front tail : List α} {x : α}
    (stop : p x = false) (all : ∀ y ∈ tail, p y = true) :
    (front ++ [x] ++ tail).rtakeWhile p = tail := by
  have reversed : ∀ y ∈ tail.reverse, p y = true := fun y member => all y (List.mem_reverse.mp member)
  have halt : ¬ p x = true := by rw [stop]; exact Bool.false_ne_true
  rw [List.rtakeWhile, List.reverse_append, List.takeWhile_append_of_pos reversed,
    List.reverse_concat, List.takeWhile_cons_of_neg halt, List.append_nil, List.reverse_reverse]

/-! ### The lines of one segment -/

theorem isEntryTag_of_notes (complete : a.complete = true) :
    ∀ line ∈ notes a, line.isEntryTag = true := by
  obtain ⟨duration, sealed⟩ := Option.isSome_iff_exists.mp complete
  intro line member
  rw [notes, sealed, discontinuityLines] at member
  rcases List.mem_append.mp member with flag | tag
  · split at flag
    · rw [List.mem_singleton.mp flag]
      rfl
    · cases flag
  · simp only [List.mem_cons, List.not_mem_nil, or_false] at tag
    rcases tag with rfl | rfl <;> rfl

theorem names_of_notes (n : Nat) : ∀ line ∈ notes a, line.names n = false := by
  intro line member
  rw [notes, discontinuityLines] at member
  rcases List.mem_append.mp member with flag | tag
  · split at flag
    · rw [List.mem_singleton.mp flag]
      rfl
    · cases flag
  · split at tag
    · simp only [List.mem_cons, List.not_mem_nil, or_false] at tag
      rcases tag with rfl | rfl <;> rfl
    · obtain ⟨p, -, rfl⟩ := List.mem_map.mp tag
      rfl

theorem names_of_ownLines {n : Nat} (other : a.sequence ≠ n) :
    ∀ line ∈ ownLines a, line.names n = false := by
  intro line member
  rcases List.mem_append.mp member with note | uri
  · exact names_of_notes n line note
  · split at uri
    · rw [List.mem_singleton.mp uri]
      exact decide_eq_false other
    · cases uri

theorem countP_notes (a : Segment) :
    (notes a).countP Line.isDiscontinuity = if a.discontinuity then 1 else 0 := by
  have parts : (partLines a).countP Line.isDiscontinuity = 0 := by
    rw [List.countP_eq_zero]
    intro line member
    obtain ⟨p, -, rfl⟩ := List.mem_map.mp member
    exact Bool.false_ne_true
  have flag : (discontinuityLines a).countP Line.isDiscontinuity =
      if a.discontinuity then 1 else 0 := by
    unfold discontinuityLines
    split <;> rfl
  rw [notes, List.countP_append, flag]
  cases a.duration with
  | some duration => rfl
  | none => exact congrArg _ parts

theorem countP_ownLines (a : Segment) :
    (ownLines a).countP Line.isDiscontinuity = if a.discontinuity then 1 else 0 := by
  rw [ownLines, List.countP_append, countP_notes]
  cases a.complete <;> rfl

theorem countP_flatMap_ownLines (segments : List Segment) :
    (segments.flatMap ownLines).countP Line.isDiscontinuity =
      segments.countP (·.discontinuity) := by
  induction segments with
  | nil => rfl
  | cons a rest ih =>
      rw [List.flatMap_cons, List.countP_append, ih, countP_ownLines, List.countP_cons,
        Nat.add_comm]

theorem filter_notes_of_sealed (complete : a.complete = true) :
    (notes a).filter Line.isPart = [] := by
  rw [List.filter_eq_nil_iff]
  intro line member part
  have tag := isEntryTag_of_notes complete line member
  cases line with
  | part => exact absurd tag Bool.false_ne_true
  | _ => exact absurd part Bool.false_ne_true

theorem filter_ownLines_of_sealed (complete : a.complete = true) :
    (ownLines a).filter Line.isPart = [] := by
  rw [ownLines, List.filter_append, filter_notes_of_sealed complete, if_pos complete]
  rfl

theorem filter_ownLines_of_open (opened : a.complete = false) :
    (ownLines a).filter Line.isPart = partLines a := by
  have unsealed : a.duration = none := Option.isSome_eq_false_iff.mp opened |> Option.isNone_iff_eq_none.mp
  have flag : (discontinuityLines a).filter Line.isPart = [] := by
    unfold discontinuityLines
    split <;> rfl
  have parts : (partLines a).filter Line.isPart = partLines a := by
    rw [List.filter_eq_self]
    intro line member
    obtain ⟨p, -, rfl⟩ := List.mem_map.mp member
    rfl
  rw [ownLines, notes, unsealed, opened]
  simp only [List.filter_append, flag, parts, Bool.false_eq_true, if_false,
    List.nil_append, List.append_nil]

/-! ### The entry of one segment -/

/-- Above the tags of an entry stands the head of the playlist or the URI of the entry before. -/
theorem ends_without_tag (first : Segment) (w : Window) (settings : Settings)
    (sealed : ∀ b ∈ before, b.complete = true) :
    ∃ front line, headLines first w settings ++ before.flatMap ownLines = front ++ [line] ∧
      line.isEntryTag = false := by
  rcases List.eq_nil_or_concat' before with rfl | ⟨earlier, b, rfl⟩
  · exact ⟨(headLines first w settings).dropLast, .startOffset settings.startTimeOffset, rfl, rfl⟩
  · have complete : b.complete = true := sealed b (by simp)
    refine ⟨headLines first w settings ++ earlier.flatMap ownLines ++ notes b, .uri b.sequence, ?_, rfl⟩
    simp only [List.flatMap_append, List.flatMap_singleton, ownLines, if_pos complete,
      List.append_assoc]

theorem listing_of_split (split : w.segments = before ++ a :: after) (complete : a.complete = true) :
    ∃ rest, listing w settings first last =
      headLines first w settings ++ before.flatMap ownLines ++ notes a ++ .uri a.sequence :: rest := by
  refine ⟨after.flatMap ownLines ++ [hintLine last], ?_⟩
  rw [listing, split, List.flatMap_append, List.flatMap_cons, ownLines, if_pos complete]
  simp only [List.append_assoc, List.cons_append, List.nil_append]

theorem above_listing (h : Consecutive w.segments) (split : w.segments = before ++ a :: after)
    (complete : a.complete = true) :
    above a.sequence (listing w settings first last) =
      headLines first w settings ++ before.flatMap ownLines ++ notes a := by
  obtain ⟨rest, same⟩ := @listing_of_split w settings before after a first last split complete
  have unnamed : ∀ line ∈ headLines first w settings ++ before.flatMap ownLines ++ notes a,
      (!line.names a.sequence) = true := by
    intro line member
    rw [Bool.not_eq_true']
    rcases List.mem_append.mp member with front | note
    · rcases List.mem_append.mp front with head | earlier
      · simp only [headLines, List.mem_cons, List.not_mem_nil, or_false] at head
        rcases head with rfl | rfl | rfl | rfl | rfl | rfl | rfl | rfl | rfl | rfl <;> rfl
      · obtain ⟨b, inside, listed⟩ := List.mem_flatMap.mp earlier
        have less := (List.pairwise_append.mp (split ▸ h).sorted).2.2 b inside a List.mem_cons_self
        exact names_of_ownLines (Nat.ne_of_lt less) line listed
    · exact names_of_notes a.sequence line note
  rw [same, above, List.takeWhile_append_of_pos unnamed, List.takeWhile_cons_of_neg,
    List.append_nil]
  simp [Line.names]

theorem entry_listing (h : Consecutive w.segments) (split : w.segments = before ++ a :: after)
    (complete : a.complete = true) :
    entry a.sequence (listing w settings first last) = ownLines a := by
  have sealed := (split ▸ h).complete_before
  obtain ⟨front, line, same, stop⟩ := ends_without_tag first w settings sealed
  rw [entry, above_listing h split complete, same,
    rtakeWhile_append stop (isEntryTag_of_notes complete), ownLines, if_pos complete]

theorem uri_mem_listing (split : w.segments = before ++ a :: after) (complete : a.complete = true) :
    .uri a.sequence ∈ listing w settings first last := by
  obtain ⟨rest, same⟩ := @listing_of_split w settings before after a first last split complete
  rw [same]
  exact List.mem_append_right _ List.mem_cons_self

/-- An entry consists of the time and the duration, under a tag if there is a discontinuity. -/
theorem entry_shape (h : Consecutive w.segments) (split : w.segments = before ++ a :: after)
    (complete : a.complete = true) :
    ∃ time seconds, entry a.sequence (listing w settings first last) =
      discontinuityLines a ++ [.programDateTime time, .duration seconds, .uri a.sequence] := by
  obtain ⟨seconds, sealed⟩ := Option.isSome_iff_exists.mp complete
  refine ⟨a.startTime.text?.getD "", seconds, ?_⟩
  rw [entry_listing h split complete, ownLines, notes, sealed, if_pos complete, List.append_assoc]
  rfl

theorem discontinuityNumber?_listing (h : Consecutive w.segments)
    (split : w.segments = before ++ a :: after) (complete : a.complete = true) :
    discontinuityNumber? a.sequence (listing w settings first last) =
      some (w.discontinuitiesUpTo a.sequence) := by
  have head : (headLines first w settings).countP Line.isDiscontinuity = 0 := rfl
  rw [discontinuityNumber?, discontinuitySequence?_listing, above_listing h split complete,
    Window.discontinuitiesUpTo_of_split h split]
  simp only [List.countP_append, List.countP_singleton, head, countP_flatMap_ownLines,
    countP_notes, Option.map_some]
  congr 1
  omega

/-- Only the open segment is listed by its parts. -/
theorem filter_listing (h : Consecutive w.segments) (back : w.segments = before ++ [last])
    (opened : last.complete = false) :
    (listing w settings first last).filter Line.isPart = partLines last := by
  have head : (headLines first w settings).filter Line.isPart = [] := rfl
  have hint : [hintLine last].filter Line.isPart = [] := by
    rw [hintLine, opened]
    rfl
  have earlier : (before.flatMap ownLines).filter Line.isPart = [] := by
    rw [List.filter_flatMap, List.flatMap_eq_nil_iff]
    exact fun b member => filter_ownLines_of_sealed ((back ▸ h).complete_before b member)
  rw [listing, back, List.flatMap_append, List.flatMap_singleton]
  simp only [List.filter_append, head, hint, earlier, filter_ownLines_of_open opened,
    List.nil_append, List.append_nil]

end Playlist

end LiveHls
