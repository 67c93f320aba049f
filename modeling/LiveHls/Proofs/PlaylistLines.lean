import LiveHls.Playlist
/-! What the lines of a playlist say about its window. Each line that names something to be fetched
stands for a part of an open segment, for a sealed segment, or for the part to come. -/
namespace LiveHls.Playlist

variable {w : Window} {settings : Settings} {lines : List Line} {line : Line}

theorem mem_bodyLines {segments : List Segment} (ok : bodyLines segments = .ok lines)
    (member : line ∈ lines) :
    ∃ a ∈ segments, ∃ own, segmentLines a = .ok own ∧ line ∈ own := by
  induction segments generalizing lines with
  | nil =>
      cases ok
      cases member
  | cons a rest ih =>
      rw [bodyLines] at ok
      cases first : segmentLines a with
      | error fault =>
          rw [first] at ok
          cases ok
      | ok own =>
          cases others : bodyLines rest with
          | error fault =>
              simp only [first, others, bind, Except.bind] at ok
              cases ok
          | ok more =>
              simp only [first, others, bind, Except.bind] at ok
              cases ok
              rcases List.mem_append.mp member with here | later
              · exact ⟨a, List.mem_cons_self, own, first, here⟩
              · obtain ⟨b, inside, rest⟩ := ih others later
                exact ⟨b, List.mem_cons_of_mem a inside, rest⟩

theorem lines_eq_ok (ok : Playlist.lines w settings = .ok lines) :
    ∃ first last body, w.first? = some first ∧ w.last? = some last ∧
      bodyLines w.segments = .ok body ∧
      lines = headLines first w settings ++ body ++ [hintLine last] := by
  unfold Playlist.lines at ok
  split at ok
  · rename_i first last oldest newest
    cases body : bodyLines w.segments with
    | error fault =>
        rw [body] at ok
        cases ok
    | ok own =>
        rw [body] at ok
        cases ok
        exact ⟨first, last, own, oldest, newest, rfl, rfl⟩
  · cases ok

/-! ### Windows with valid start times -/

/-- The tags of a sealed segment, and the parts of an open one. -/
def notes (a : Segment) : List Line :=
  discontinuityLines a ++
    match a.duration with
    | some duration => [.programDateTime (a.startTime.text?.getD ""), .duration duration]
    | none => partLines a

/-- The lines of a segment whose start time is valid. -/
def ownLines (a : Segment) : List Line :=
  notes a ++ if a.complete then [.uri a.sequence] else []

end LiveHls.Playlist

namespace LiveHls

/-- All segments start at a valid time. -/
def Window.Timed (w : Window) : Prop := ∀ a ∈ w.segments, a.startTime ≠ .invalid

theorem Window.timed_of_millis {w : Window} {millis : List Int}
    (times : w.segments.map (·.startTime) = millis.map .ofMillis)
    (within : ∀ moment ∈ millis, moment.natAbs ≤ Timestamp.limit) : w.Timed := by
  intro a member invalid
  have there : a.startTime ∈ w.segments.map (·.startTime) := List.mem_map_of_mem member
  rw [times, invalid] at there
  obtain ⟨moment, listed, same⟩ := List.mem_map.mp there
  rw [Timestamp.ofMillis, dif_pos (within moment listed)] at same
  cases same

theorem Timestamp.text?_of_valid {time : Timestamp} (valid : time ≠ .invalid) :
    ∃ text, time.text? = some text := by
  cases time with
  | invalid => exact absurd rfl valid
  | «at» millis => exact ⟨_, rfl⟩

end LiveHls

namespace LiveHls.Playlist

variable {w : Window} {settings : Settings} {lines : List Line} {line : Line}

theorem segmentLines_of_valid {a : Segment} (valid : a.startTime ≠ .invalid) :
    segmentLines a = .ok (ownLines a) := by
  obtain ⟨text, same⟩ := Timestamp.text?_of_valid valid
  unfold segmentLines ownLines notes Segment.complete
  cases a.duration with
  | none => simp
  | some duration => simp [same]

theorem bodyLines_of_valid {segments : List Segment}
    (valid : ∀ a ∈ segments, a.startTime ≠ .invalid) :
    bodyLines segments = .ok (segments.flatMap ownLines) := by
  induction segments with
  | nil => rfl
  | cons a rest ih =>
      have first := segmentLines_of_valid (valid a List.mem_cons_self)
      have others := ih fun b member => valid b (List.mem_cons_of_mem a member)
      simp only [bodyLines, first, others, bind, Except.bind, pure, Except.pure,
        List.flatMap_cons]

/-- The lines of a playlist from the first segment of its window to the last. -/
def listing (w : Window) (settings : Settings) (first last : Segment) : List Line :=
  headLines first w settings ++ w.segments.flatMap ownLines ++ [hintLine last]

theorem lines_of_timed {before after : List Segment} {first last : Segment} (timed : w.Timed)
    (front : w.segments = first :: after) (back : w.segments = before ++ [last])
    (settings : Settings) : Playlist.lines w settings = .ok (listing w settings first last) := by
  have oldest : w.first? = some first := by rw [Window.first?, front, List.head?_cons]
  have newest : w.last? = some last := by rw [Window.last?, back, List.getLast?_concat]
  simp only [Playlist.lines, oldest, newest, bodyLines_of_valid timed, Except.map, listing]

/-! ### The origin of a line -/

/-- Where a line of a playlist comes from. -/
inductive Source (w : Window) (settings : Settings) : Line → Prop
  | head {line : Line} {first : Segment} (listed : line ∈ headLines first w settings) :
      Source w settings line
  | discontinuity : Source w settings .discontinuity
  | whole {line : Line} {a : Segment} {time : String} {seconds : Float} (inside : a ∈ w.segments)
      (complete : a.complete = true)
      (listed : line ∈ [.programDateTime time, .duration seconds, .uri a.sequence]) :
      Source w settings line
  | part {line : Line} {a : Segment} (inside : a ∈ w.segments) (opened : a.complete = false)
      (listed : line ∈ partLines a) : Source w settings line
  | hint {line : Line} {last : Segment} (newest : w.last? = some last)
      (same : line = hintLine last) : Source w settings line

theorem source_of_segment {a : Segment} {own : List Line} (inside : a ∈ w.segments)
    (ok : segmentLines a = .ok own) (member : line ∈ own) : Source w settings line := by
  have discontinuity : line ∈ discontinuityLines a → Source w settings line := by
    intro listed
    unfold discontinuityLines at listed
    split at listed
    · rw [List.mem_singleton.mp listed]
      exact .discontinuity
    · cases listed
  unfold segmentLines at ok
  split at ok
  · rename_i duration sealed
    split at ok
    · cases ok
      rcases List.mem_append.mp member with flag | listed
      · exact discontinuity flag
      · exact .whole inside (by rw [Segment.complete, sealed]; rfl) listed
    · cases ok
  · rename_i opened
    cases ok
    rcases List.mem_append.mp member with flag | listed
    · exact discontinuity flag
    · exact .part inside (by rw [Segment.complete, opened]; rfl) listed

theorem source_of_mem (ok : Playlist.lines w settings = .ok lines) (member : line ∈ lines) :
    Source w settings line := by
  obtain ⟨first, last, body, -, newest, listed, rfl⟩ := lines_eq_ok ok
  rcases List.mem_append.mp member with before | hint
  · rcases List.mem_append.mp before with head | inside
    · exact .head head
    · obtain ⟨a, there, own, named, here⟩ := mem_bodyLines listed inside
      exact source_of_segment there named here
  · rw [List.mem_singleton.mp hint]
    exact .hint newest rfl

theorem mem_partLines {a : Segment} {seconds : Float} {n length offset : Nat} {independent : Bool}
    (listed : .part seconds n length offset independent ∈ partLines a) :
    a.sequence = n ∧ ∃ p ∈ a.parts, p.offset = offset ∧ p.part.data.length = length := by
  obtain ⟨p, there, same⟩ := List.mem_map.mp listed
  cases same
  exact ⟨rfl, p, there, rfl, rfl⟩

/-- A part that is listed is one of a segment that is still open. -/
theorem part_of_mem {seconds : Float} {n length offset : Nat} {independent : Bool}
    (ok : Playlist.lines w settings = .ok lines)
    (member : .part seconds n length offset independent ∈ lines) :
    ∃ a ∈ w.segments, a.complete = false ∧ a.sequence = n ∧
      ∃ p ∈ a.parts, p.offset = offset ∧ p.part.data.length = length := by
  cases source_of_mem ok member with
  | head listed => simp [headLines] at listed
  | whole inside complete listed => simp at listed
  | part inside opened listed =>
      obtain ⟨named, there⟩ := mem_partLines listed
      exact ⟨_, inside, opened, named, there⟩
  | hint newest same =>
      unfold hintLine at same
      split at same <;> cases same

theorem uri_of_mem {n : Nat} (ok : Playlist.lines w settings = .ok lines)
    (member : .uri n ∈ lines) : ∃ a ∈ w.segments, a.complete = true ∧ a.sequence = n := by
  cases source_of_mem ok member with
  | head listed => simp [headLines] at listed
  | @whole _ a _ _ inside complete listed =>
      have same : n = a.sequence := by simpa using listed
      exact ⟨a, inside, complete, same.symm⟩
  | part inside opened listed => simp [partLines] at listed
  | hint newest same =>
      unfold hintLine at same
      split at same <;> cases same

theorem preloadHint_of_mem {n start : Nat} (ok : Playlist.lines w settings = .ok lines)
    (member : .preloadHint n start ∈ lines) :
    ∃ last, w.last? = some last ∧ hintLine last = .preloadHint n start := by
  cases source_of_mem ok member with
  | head listed => simp [headLines] at listed
  | whole inside complete listed => simp at listed
  | part inside opened listed => simp [partLines] at listed
  | hint newest same => exact ⟨_, newest, same.symm⟩

end LiveHls.Playlist
