import LiveHls.Proofs.Playlist.Entries
import LiveHls.Proofs.Stream.Content
/-! What a player has read in one playlist it can rely on in every later one. Sequences only go up,
the entry of a sealed segment and its discontinuity number stay as they are, and the parts of an
open segment are only added to. -/
namespace LiveHls

namespace Playlist

/-- What a later playlist keeps of an earlier one. -/
structure Continues (w v : Window) (lines later : List Line) : Prop where
  mediaSequence : ∃ m n, mediaSequence? lines = some m ∧ mediaSequence? later = some n ∧ m ≤ n
  discontinuitySequence : ∃ m n, discontinuitySequence? lines = some m ∧
    discontinuitySequence? later = some n ∧ m ≤ n
  listed : ∀ a ∈ w.segments, a.complete = true → .uri a.sequence ∈ lines ∧
    ∃ time seconds, entry a.sequence lines =
      discontinuityLines a ++ [.programDateTime time, .duration seconds, .uri a.sequence]
  entries : ∀ a ∈ w.segments, a.complete = true → ∀ b ∈ v.segments, b.sequence = a.sequence →
    .uri a.sequence ∈ later ∧ entry a.sequence later = entry a.sequence lines
  numbers : ∀ a ∈ w.segments, a.complete = true → ∀ b ∈ v.segments, b.sequence = a.sequence →
    ∃ n, discontinuityNumber? a.sequence lines = some n ∧
      discontinuityNumber? a.sequence later = some n
  parts : ∀ a ∈ w.segments, a.complete = false → ∀ b ∈ v.segments, b.sequence = a.sequence →
    b.complete = false → (∀ p ∈ a.parts, p.part.data ≠ []) →
      lines.filter Line.isPart <+: later.filter Line.isPart

end Playlist

namespace Stream

variable {s t : Stream}

theorem Moves.discontinuities {event : Event} (h : s.Consistent) (moves : Moves s event t) :
    s.window.discontinuitySequence ≤ t.window.discontinuitySequence ∧
      ∀ a ∈ s.window.segments, a.complete = true → t.window.isEvicted a.sequence = false →
        t.window.discontinuitiesUpTo a.sequence = s.window.discontinuitiesUpTo a.sequence := by
  rcases moves.window with same | ⟨call, now, -, -, made⟩
  · rw [same]
    exact ⟨Nat.le_refl _, fun a member complete inside => rfl⟩
  · exact Window.perform_discontinuities h.positive h.wellFormed made

/-- A sealed segment stays as it is until it leaves the window. -/
theorem run_sealed (h : s.Consistent) (events : List Event) {a : Segment}
    (member : a ∈ s.window.segments) (complete : a.complete = true)
    (inside : (s.run events).window.isEvicted a.sequence = false) :
    a ∈ (s.run events).window.segments := by
  have found := (Window.find?_eq_some_iff h.wellFormed.consecutive _ a).mpr ⟨member, rfl⟩
  rcases (run_precedes h events).kept _ a found with gone | ⟨b, there, grows⟩
  · rw [inside] at gone
    cases gone
  · rw [grows.complete complete] at there
    exact ((Window.find?_eq_some_iff (run_consistent h events).wellFormed.consecutive _ a).mp there).1

theorem run_discontinuities (h : s.Consistent) (events : List Event) :
    s.window.discontinuitySequence ≤ (s.run events).window.discontinuitySequence ∧
      ∀ a ∈ s.window.segments, a.complete = true →
        (s.run events).window.isEvicted a.sequence = false →
          (s.run events).window.discontinuitiesUpTo a.sequence =
            s.window.discontinuitiesUpTo a.sequence := by
  induction events generalizing s with
  | nil => exact ⟨Nat.le_refl _, fun a member complete inside => rfl⟩
  | cons event events ih =>
      have moves := s.step_moves event
      have after := moves.consistent h
      obtain ⟨less, same⟩ := moves.discontinuities h
      obtain ⟨more, later⟩ := ih after
      refine ⟨Nat.le_trans less more, fun a member complete inside => ?_⟩
      -- a segment that is there at the end has not left the window on the way
      have between : (s.step event).window.isEvicted a.sequence = false := by
        refine Bool.eq_false_iff.mpr fun gone => ?_
        have onward := (run_precedes after events).evicted _ gone
        rw [← run_cons, inside] at onward
        cases onward
      have stays := run_sealed h [event] member complete between
      exact (later a stays complete inside).trans (same a member complete between)

theorem run_parts_grow (h : s.Regular) (events : List Event) {a b : Segment}
    (old : a ∈ s.window.segments) (new : b ∈ (s.run events).window.segments)
    (same : b.sequence = a.sequence) (full : ∀ p ∈ a.parts, p.part.data ≠ []) :
    a.parts <+: b.parts := by
  have there := (Window.find?_eq_some_iff h.wellFormed.consecutive (a.sequence : Int) a).mpr
    ⟨old, rfl⟩
  have here := (Window.find?_eq_some_iff (run_regular h events).wellFormed.consecutive
    (a.sequence : Int) b).mpr ⟨new, by rw [same]⟩
  have step : ∀ call (b c : Segment), b.Tiled → Segment.Becomes call b c →
      a.parts <+: b.parts → a.parts <+: c.parts :=
    fun call b c tiled becomes begins => becomes.parts_grow tiled begins full
  exact run_keeps h step events there here List.prefix_rfl

open Playlist

theorem continues_of_run (h : s.Regular) (events : List Event) {settings : Settings}
    {first last oldest newest : Segment} {before after front back : List Segment}
    (head : s.window.segments = first :: after) (tail : s.window.segments = before ++ [last])
    (start : (s.run events).window.segments = oldest :: back)
    (finish : (s.run events).window.segments = front ++ [newest]) :
    Continues s.window (s.run events).window (listing s.window settings first last)
      (listing (s.run events).window settings oldest newest) := by
  have hw := h.wellFormed.consecutive
  have hv := (run_regular h events).wellFormed.consecutive
  obtain ⟨less, same⟩ := run_discontinuities h.toConsistent events
  have stays : ∀ a ∈ s.window.segments, a.complete = true →
      ∀ b ∈ (s.run events).window.segments, b.sequence = a.sequence →
        (s.run events).window.isEvicted a.sequence = false ∧ a ∈ (s.run events).window.segments := by
    intro a member complete b inside named
    have here := Window.not_evicted_of_mem hv inside
    rw [named] at here
    exact ⟨here, run_sealed h.toConsistent events member complete here⟩
  refine ⟨⟨_, _, rfl, rfl, (run_precedes h.toConsistent events).first_le head start⟩,
    ⟨_, _, rfl, rfl, less⟩, ?_, ?_, ?_, ?_⟩
  · intro a member complete
    obtain ⟨front, rest, split⟩ := List.append_of_mem member
    exact ⟨uri_mem_listing split complete, entry_shape hw split complete⟩
  · intro a member complete b inside named
    obtain ⟨-, kept⟩ := stays a member complete b inside named
    obtain ⟨front, rest, split⟩ := List.append_of_mem member
    obtain ⟨ahead, behind, later⟩ := List.append_of_mem kept
    refine ⟨uri_mem_listing later complete, ?_⟩
    rw [entry_listing hw split complete, entry_listing hv later complete]
  · intro a member complete b inside named
    obtain ⟨here, kept⟩ := stays a member complete b inside named
    obtain ⟨front, rest, split⟩ := List.append_of_mem member
    obtain ⟨ahead, behind, later⟩ := List.append_of_mem kept
    refine ⟨_, discontinuityNumber?_listing hw split complete, ?_⟩
    rw [discontinuityNumber?_listing hv later complete, same a member complete here]
  · intro a member opened b inside named unsealed full
    obtain rfl := (tail ▸ hw).eq_last_of_open (tail ▸ member) opened
    obtain rfl := (finish ▸ hv).eq_last_of_open (finish ▸ inside) unsealed
    rw [filter_listing hw tail opened, filter_listing hv finish unsealed, partLines, partLines, named]
    exact (run_parts_grow h events member inside named full).map _

/-- A playlist keeps its promises. Whatever two playlists of one run are rendered from, sequences do
not decrease from the one to the other, a sealed segment that is still there has the same entry and
the same discontinuity number in both, and the parts of an open one are a prefix of those later. -/
theorem published_entries_stay {id : String} {settings : Settings} {size : Float} {now : Int}
    {start : Stream} (created : Stream.create id settings size now = .ok start)
    (before later : List Event)
    (nonempty : (start.run before).window.segments ≠ [])
    (timed : (start.run before).window.Timed)
    (stillTimed : (start.run (before ++ later)).window.Timed) :
    let w := (start.run before).window
    let v := (start.run (before ++ later)).window
    ∃ lines after, Playlist.lines w settings = .ok lines ∧ Playlist.lines v settings = .ok after ∧
      Continues w v lines after := by
  have regular := run_regular (create_regular created) before
  rw [run_append] at stillTimed ⊢
  have full := run_nonempty regular.toConsistent nonempty later
  obtain ⟨first, rest, head⟩ := List.exists_cons_of_ne_nil nonempty
  obtain ⟨front, last, tail⟩ := (List.eq_nil_or_concat' _).resolve_left nonempty
  obtain ⟨oldest, others, start⟩ := List.exists_cons_of_ne_nil full
  obtain ⟨back, newest, finish⟩ := (List.eq_nil_or_concat' _).resolve_left full
  exact ⟨_, _, lines_of_timed timed head tail settings,
    lines_of_timed stillTimed start finish settings,
    continues_of_run regular later head tail start finish⟩

/-- The first of two sealed segments leaves the window, and both carry a discontinuity. The second
is noted as the second one before that and after it. -/
theorem published_entries_stay_of_two :
    let before : List Event := [.call (.put ⟨.whole 0, [], none, true⟩) 1,
      .call (.put ⟨.whole 1, [], none, false⟩) 2,
      .call (.append (.whole 1) ⟨1.0, true, [7]⟩ true) 3, .call (.close (.whole 1) none) 4]
    let later : List Event := [.call (.put ⟨.whole 2, [], none, false⟩) 5]
    let w := ((plain 2).run before).window
    let v := ((plain 2).run (before ++ later)).window
    Stream.create "live" plainSettings 2.0 0 = .ok (plain 2) ∧
    w.segments ≠ [] ∧ w.Timed ∧ v.Timed ∧
    ∃ lines after, Playlist.lines w plainSettings = .ok lines ∧
      Playlist.lines v plainSettings = .ok after ∧
      mediaSequence? lines = some 0 ∧ mediaSequence? after = some 1 ∧
      discontinuityNumber? 1 lines = some 2 ∧ discontinuityNumber? 1 after = some 2 ∧
      entry 1 after = entry 1 lines := by
  intro before later w v
  have created := @create_plain 2.0 2 (by decide) (by decide)
  have nonempty : w.segments ≠ [] := List.cons_ne_nil _ _
  have timed : w.Timed := Window.timed_of_millis (show _ = [1, 2].map _ from rfl) (by decide)
  have stillTimed : v.Timed := Window.timed_of_millis (show _ = [2, 5].map _ from rfl) (by decide)
  obtain ⟨lines, after, rendered, again, continues⟩ :=
    published_entries_stay created before later nonempty timed stillTimed
  obtain ⟨b, inside, named⟩ : ∃ b ∈ v.segments, b.sequence = 1 := ⟨_, .head _, rfl⟩
  obtain ⟨a, member, complete, one⟩ : ∃ a ∈ w.segments, a.complete = true ∧ a.sequence = 1 :=
    ⟨_, .tail _ (.head _), rfl, rfl⟩
  have same := (continues.entries a member complete b inside (named.trans one.symm)).2
  have number : ∀ own, Playlist.lines w plainSettings = .ok own →
      mediaSequence? own = some 0 ∧ discontinuityNumber? 1 own = some 2 := by
    rintro own ⟨⟩
    exact ⟨rfl, rfl⟩
  have numberAfter : ∀ own, Playlist.lines v plainSettings = .ok own →
      mediaSequence? own = some 1 ∧ discontinuityNumber? 1 own = some 2 := by
    rintro own ⟨⟩
    exact ⟨rfl, rfl⟩
  exact ⟨created, nonempty, timed, stillTimed, lines, after, rendered, again,
    (number lines rendered).1, (numberAfter after again).1, (number lines rendered).2,
    (numberAfter after again).2, one ▸ same⟩

end Stream

end LiveHls
