import LiveHls.Proofs.Stream.Wakeup
import LiveHls.Proofs.Window.Data
/-! The data of a stream over time. What a segment holds at one moment is the beginning of what it
holds at every later one, for as long as it is in the window. -/
namespace LiveHls.Stream

/-- What else holds in every state of a stream. -/
structure Regular (s : Stream) : Prop extends s.Consistent where
  tiled : s.window.Tiled
  closedWith : s.waiters.closedWith = if s.stopped then some (.stopped s.id) else none

variable {s t : Stream}

theorem create_regular {id : String} {settings : Settings} {size : Float} {now : Int}
    (created : Stream.create id settings size now = .ok s) : s.Regular := by
  refine ⟨create_consistent created, ?_, ?_⟩ <;>
    obtain ⟨capacity, -, -, rfl⟩ := (create_eq_ok_iff id settings size now s).mp created
  · exact fun a member => absurd member List.not_mem_nil
  · rfl

theorem Moves.tiled {event : Event} (h : s.Regular) (moves : Moves s event t) : t.window.Tiled := by
  rcases moves.window with same | ⟨call, now, -, -, made⟩
  · exact same ▸ h.tiled
  · exact Window.perform_tiled h.wellFormed.consecutive h.tiled made

theorem Reads.closedWith (h : s.Regular) (reads : Reads s t) :
    t.waiters.closedWith = if t.stopped then some (.stopped t.id) else none := by
  cases reads with
  | pass turns => exact h.closedWith
  | park turns parkable => exact h.closedWith

theorem Moves.closedWith {event : Event} (h : s.Regular) (moves : Moves s event t) :
    t.waiters.closedWith = if t.stopped then some (.stopped t.id) else none := by
  cases moves with
  | produced running made => exact h.closedWith
  | refused failed => exact h.closedWith
  | halted running => rfl
  | idle stopped => exact h.closedWith
  | left request => exact h.closedWith
  | playlist reads => exact reads.closedWith h
  | segment reads => exact reads.closedWith h
  | turn reads => exact reads.closedWith h

theorem Moves.regular {event : Event} (h : s.Regular) (moves : Moves s event t) : t.Regular :=
  ⟨moves.consistent h.toConsistent, moves.tiled h, moves.closedWith h⟩

theorem run_regular (h : s.Regular) (events : List Event) : (s.run events).Regular := by
  induction events generalizing s with
  | nil => exact h
  | cons event events ih => exact ih ((s.step_moves event).regular h)

/-- What no call takes from a segment is not taken from it by an event. -/
theorem Moves.keeps {P : Segment → Prop} {event : Event} (h : s.Regular) (moves : Moves s event t)
    (step : ∀ call a b, a.Tiled → Segment.Becomes call a b → P a → P b) {n : Int} {a b : Segment}
    (old : s.window.find? n = some a) (new : t.window.find? n = some b) (holds : P a) : P b := by
  rcases moves.window with same | ⟨call, now, -, -, made⟩
  · rw [same, old] at new
    cases new
    exact holds
  · have becomes := Window.perform_find? h.wellFormed h.positive made old new
    have member := ((Window.find?_eq_some_iff h.wellFormed.consecutive n a).mp old).1
    exact step _ a b (h.tiled a member) becomes holds

/-- A segment that is there at first and at last was there all the time. -/
theorem find?_between (h : s.Regular) {sooner events : List Event} (front : sooner <+: events)
    {n : Int} {a b : Segment} (old : s.window.find? n = some a)
    (new : (s.run events).window.find? n = some b) :
    ∃ c, (s.run sooner).window.find? n = some c := by
  obtain ⟨later, rfl⟩ := front
  rcases (run_precedes h.toConsistent sooner).kept n a old with gone | ⟨c, found, -⟩
  · rw [run_append] at new
    have middle := run_regular h sooner
    have after := run_regular middle later
    have evicted := (run_precedes middle.toConsistent later).evicted n gone
    obtain ⟨member, named⟩ := (Window.find?_eq_some_iff after.wellFormed.consecutive n b).mp new
    have inside := Window.not_evicted_of_mem after.wellFormed.consecutive member
    rw [named, evicted] at inside
    cases inside
  · exact ⟨c, found⟩

/-- What no call takes from a segment holds for as long as the segment is there. -/
theorem run_keeps {P : Segment → Prop} (h : s.Regular)
    (step : ∀ call a b, a.Tiled → Segment.Becomes call a b → P a → P b) (events : List Event)
    {n : Int} {a b : Segment} (old : s.window.find? n = some a)
    (new : (s.run events).window.find? n = some b) (holds : P a) : P b := by
  induction events generalizing s a with
  | nil =>
      rw [show s.run [] = s from rfl, old] at new
      cases new
      exact holds
  | cons event events ih =>
      have moves := s.step_moves event
      have front : [event] <+: event :: events := by simp
      obtain ⟨c, found⟩ := find?_between h front old new
      have found : (s.step event).window.find? n = some c := found
      exact ih (moves.regular h) found new (moves.keeps h step old found holds)

/-- Data is only ever added at the end. -/
theorem run_content_grows (h : s.Regular) (events : List Event) {n : Int} {a b : Segment}
    (old : s.window.find? n = some a) (new : (s.run events).window.find? n = some b) :
    a.content <+: b.content := by
  have step : ∀ call (b c : Segment), b.Tiled → Segment.Becomes call b c →
      a.content <+: b.content → a.content <+: c.content :=
    fun call b c tiled becomes front => front.trans (becomes.content_grows tiled)
  exact run_keeps h step events old new List.prefix_rfl

end LiveHls.Stream
