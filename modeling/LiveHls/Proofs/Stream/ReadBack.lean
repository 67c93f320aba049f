import LiveHls.Proofs.Playlist.Reader
import LiveHls.Proofs.Stream.Content
/-! A playlist can be read back. From the text of a playlist of a stream a client recovers the
window that it was rendered from, because the segments of a window follow one another without a
gap, only the last may be open, and the parts of that one lie one behind the other. -/
namespace LiveHls

namespace Playlist

variable {w : Window} {settings : Settings} {before after : List Segment} {a first last : Segment}

theorem exact_of_ownLines (valid : a.startTime ≠ .invalid) (small : a.sequence ≤ Nat.pow 2 53) :
    ∀ line ∈ ownLines a, line.Exact := by
  obtain ⟨text, time⟩ := Timestamp.text?_of_valid valid
  have plain := Timestamp.plainText_text? time
  intro line member
  rw [ownLines, notes, discontinuityLines, time] at member
  rcases List.mem_append.mp member with note | uri
  · rcases List.mem_append.mp note with flag | tag
    · split at flag
      · rw [List.mem_singleton.mp flag]
        trivial
      · cases flag
    · split at tag
      · simp only [List.mem_cons, List.not_mem_nil, or_false] at tag
        rcases tag with rfl | rfl
        · exact plain
        · trivial
      · obtain ⟨p, -, rfl⟩ := List.mem_map.mp tag
        exact small
  · split at uri
    · rw [List.mem_singleton.mp uri]
      exact small
    · cases uri

theorem exact_of_listing (timed : w.Timed) (small : ∀ a ∈ w.segments, a.sequence < Nat.pow 2 53)
    (front : w.segments = first :: after) (back : w.segments = before ++ [last]) :
    ∀ line ∈ listing w settings first last, line.Exact := by
  have oldest := small first (by rw [front]; exact List.mem_cons_self)
  have newest := small last (by rw [back]; simp)
  intro line member
  rcases List.mem_append.mp member with above | hint
  · rcases List.mem_append.mp above with head | body
    · simp only [headLines, List.mem_cons, List.not_mem_nil, or_false] at head
      rcases head with rfl | rfl | rfl | rfl | rfl | rfl | rfl | rfl | rfl | rfl
      · trivial
      · trivial
      · trivial
      · trivial
      · trivial
      · exact Nat.le_of_lt oldest
      · trivial
      · trivial
      · trivial
      · trivial
    · obtain ⟨a, inside, listed⟩ := List.mem_flatMap.mp body
      exact exact_of_ownLines (timed a inside) (Nat.le_of_lt (small a inside)) line listed
  · rw [List.mem_singleton.mp hint, hintLine]
    split
    · exact newest
    · exact Nat.le_of_lt newest

end Playlist

namespace Stream

open Playlist

/-- A client that reads the lines of a playlist recovers the window. It need not be told what the
lines are: the text alone is enough as long as sequences are written in full, and all that a request
can name are, those below `2 ^ 53`. -/
theorem playlist_reads_back {id : String} {settings : Settings} {size : Float} {now : Int}
    {start : Stream} (created : Stream.create id settings size now = .ok start)
    (events : List Event) (nonempty : (start.run events).window.segments ≠ [])
    (timed : (start.run events).window.Timed) :
    let w := (start.run events).window
    ∃ lines body, Playlist.lines w settings = .ok lines ∧ Playlist.render w settings = .ok body ∧
      Recovers w ((Client.expecting 0).read (lines.map Line.mark)) ∧
      ((∀ a ∈ w.segments, a.sequence < Nat.pow 2 53) →
        Recovers w ((Client.expecting 0).read (marks body))) := by
  intro w
  have regular := run_regular (create_regular created) events
  obtain ⟨first, after, front⟩ := List.exists_cons_of_ne_nil nonempty
  obtain ⟨before, last, back⟩ := (List.eq_nil_or_concat' _).resolve_left nonempty
  have rendered := lines_of_timed timed front back settings
  have recovers := recovers_of_listing regular.wellFormed.consecutive timed regular.tiled front back
    settings
  refine ⟨_, _, rendered, congrArg (Except.map _) rendered, recovers, fun small => ?_⟩
  rw [marks_joined (exact_of_listing timed small front back), Client.read_append]
  simpa [Client.read, Client.see] using recovers

/-- A sealed segment behind a discontinuity, and an open one of two parts. -/
theorem playlist_reads_back_of_two :
    let events : List Event := [.call (.put ⟨.whole 6, [], none, true⟩) 1,
      .call (.append (.whole 6) ⟨1.0, true, [5]⟩ false) 2, .call (.put ⟨.whole 7, [], none, false⟩) 3,
      .call (.append (.whole 7) ⟨1.0, true, [6, 7]⟩ false) 4,
      .call (.append (.whole 7) ⟨1.0, false, [8]⟩ false) 5]
    let w := ((plain 2).run events).window
    let second := some "1.000".toList
    Stream.create "live" plainSettings 2.0 0 = .ok (plain 2) ∧ w.segments ≠ [] ∧ w.Timed ∧
    (∀ a ∈ w.segments, a.sequence < Nat.pow 2 53) ∧
    ∃ body, Playlist.render w plainSettings = .ok body ∧
      ((Client.expecting 0).read (marks body)).2 =
        [.segment 6 6 true (some (.ofMillis 1)) second,
          .part 7 2 0 true "1.000".toList, .part 7 1 2 false "1.000".toList, .hint 7 3] := by
  intro events w second
  have created := @create_plain 2.0 2 (by decide) (by decide)
  have nonempty : w.segments ≠ [] := List.cons_ne_nil _ _
  have timed : w.Timed := Window.timed_of_millis (show _ = [1, 3].map _ from rfl) (by decide)
  have small : ∀ a ∈ w.segments, a.sequence < Nat.pow 2 53 := by decide
  obtain ⟨lines, body, -, rendered, -, read⟩ :=
    playlist_reads_back created events nonempty timed
  obtain ⟨found, -⟩ := (read small).opened [_] _ rfl rfl
  have one : Decimal.fixed 3 1.0 = "1.000" := by decide +kernel
  have sum : Decimal.fixed 3 (0.0 + 1.0) = "1.000" := by decide +kernel
  refine ⟨created, nonempty, timed, small, body, rendered, ?_⟩
  rw [found]
  change [Item.segment 6 6 true (some (.ofMillis 1))
      (some (Decimal.fixed 3 (0.0 + 1.0)).toList), .part 7 2 0 true (Decimal.fixed 3 1.0).toList,
      .part 7 1 2 false (Decimal.fixed 3 1.0).toList, .hint 7 3] = _
  rw [sum, one]

end Stream

end LiveHls
