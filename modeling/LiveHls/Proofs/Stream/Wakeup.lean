import LiveHls.Proofs.Stream.Run
import LiveHls.Proofs.Window.Succession
/-! No wake-up is lost. Whoever waits is judged against every new window, so in every state of a
stream all that wait do so for something that the current window leaves open. -/
namespace LiveHls

/-- The change that led to a window can only settle a target, not open it again. -/
theorem WaitTarget.evaluate_none_of_pending {w : Window} {event : Production}
    {target : WaitTarget} (pending : target.evaluate w (some event) = .pending) :
    target.evaluate w none = .pending := by
  cases target with
  | production => rfl
  | live => exact pending
  | segment sequence => exact pending
  | complete sequence => exact pending
  | part sequence index => exact pending
  | bytes sequence offset => exact pending

namespace Stream

/-- What holds in every state of a stream. -/
structure Consistent (s : Stream) : Prop where
  positive : 1 ≤ s.buffer.capacity
  wellFormed : s.window.WellFormed s.buffer.capacity
  pending : ∀ waiter ∈ s.waiters.parked, waiter.target.evaluate s.window none = .pending
  keyed : ∀ waiter ∈ s.waiters.parked, waiter.key = waiter.target.key s.window
  closed : s.stopped = true → s.waiters.parked = [] ∧ s.waiters.closedWith ≠ none

variable {s t : Stream}

theorem create_consistent {id : String} {settings : Settings} {size : Float} {now : Int}
    (created : Stream.create id settings size now = .ok s) : s.Consistent := by
  obtain ⟨capacity, positive, -, rfl⟩ := (create_eq_ok_iff id settings size now s).mp created
  exact ⟨positive, .empty capacity, fun waiter member => absurd member List.not_mem_nil,
    fun waiter member => absurd member List.not_mem_nil, fun stopped => by cases stopped⟩

theorem Reads.consistent (h : s.Consistent) (reads : Reads s t) : t.Consistent := by
  cases reads with
  | pass turns => exact ⟨h.positive, h.wellFormed, h.pending, h.keyed, h.closed⟩
  | @park turns ticket target parkable =>
      refine ⟨h.positive, h.wellFormed, ?_, ?_, ?_⟩
      · intro waiter member
        rcases List.mem_append.mp member with earlier | new
        · exact h.pending waiter earlier
        · rw [List.mem_singleton.mp new]
          exact parkable.pending
      · intro waiter member
        rcases List.mem_append.mp member with earlier | new
        · exact h.keyed waiter earlier
        · rw [List.mem_singleton.mp new]
          rfl
      · intro stopped
        exact absurd parkable.opened (h.closed stopped).2

theorem produced_consistent {call : ProducerCall} {now : Int} {w : Window}
    (h : s.Consistent) (running : s.stopped = false)
    (made : s.window.perform s.buffer.stream s.buffer.capacity now call = .ok w) :
    (s.produced now w call.event).Consistent := by
  refine ⟨h.positive, (Window.perform_advances h.positive h.wellFormed made).1, ?_, ?_, ?_⟩
  · intro waiter member
    obtain ⟨old, -, pending, rfl⟩ := (Waiters.mem_judge_left _ w _ _ waiter).mp member
    exact WaitTarget.evaluate_none_of_pending pending
  · intro waiter member
    obtain ⟨old, -, -, rfl⟩ := (Waiters.mem_judge_left _ w _ _ waiter).mp member
    rfl
  · intro stopped
    exact absurd (running.symm.trans stopped) Bool.false_ne_true

theorem Moves.consistent {event : Event} (h : s.Consistent) (moves : Moves s event t) :
    t.Consistent := by
  cases moves with
  | produced running made => exact produced_consistent h running made
  | refused failed => exact h
  | halted running =>
      exact ⟨h.positive, h.wellFormed, fun waiter member => absurd member List.not_mem_nil,
        fun waiter member => absurd member List.not_mem_nil, fun _ => ⟨rfl, Option.some_ne_none _⟩⟩
  | idle stopped => exact h
  | left request =>
      refine ⟨h.positive, h.wellFormed, ?_, ?_, ?_⟩
      · exact fun waiter member => h.pending waiter (List.mem_of_mem_filter member)
      · exact fun waiter member => h.keyed waiter (List.mem_of_mem_filter member)
      · intro stopped
        obtain ⟨parked, closed⟩ := h.closed stopped
        refine ⟨?_, closed⟩
        change s.waiters.parked.filter _ = []
        rw [parked, List.filter_nil]
  | playlist reads => exact reads.consistent h
  | segment reads => exact reads.consistent h
  | turn reads => exact reads.consistent h

theorem run_consistent (h : s.Consistent) (events : List Event) : (s.run events).Consistent := by
  induction events generalizing s with
  | nil => exact h
  | cons event events ih => exact ih ((s.step_moves event).consistent h)

theorem Moves.precedes {event : Event} (h : s.Consistent) (moves : Moves s event t) :
    s.window.Precedes t.window := by
  rcases moves.window with same | ⟨call, now, -, -, made⟩
  · exact same ▸ .refl _
  · obtain ⟨-, dropped, advances⟩ := Window.perform_advances h.positive h.wellFormed made
    exact advances.precedes h.wellFormed.consecutive

theorem run_precedes (h : s.Consistent) (events : List Event) :
    s.window.Precedes (s.run events).window := by
  induction events generalizing s with
  | nil => exact .refl _
  | cons event events ih =>
      have moves := s.step_moves event
      exact (moves.precedes h).trans (ih (moves.consistent h))

theorem Moves.nonempty {event : Event} (consistent : s.Consistent) (moves : Moves s event t)
    (nonempty : s.window.segments ≠ []) : t.window.segments ≠ [] := by
  rcases moves.window with same | ⟨call, now, -, -, made⟩
  · exact same ▸ nonempty
  · obtain ⟨-, dropped, advances⟩ :=
      Window.perform_advances consistent.positive consistent.wellFormed made
    exact advances.nonempty

/-- Once a segment has been started the window is never empty again. -/
theorem run_nonempty (consistent : s.Consistent) (nonempty : s.window.segments ≠ [])
    (events : List Event) : (s.run events).window.segments ≠ [] := by
  induction events generalizing s with
  | nil => exact nonempty
  | cons event events ih =>
      have moves := s.step_moves event
      exact ih (moves.consistent consistent) (moves.nonempty consistent nonempty)

theorem produced_releases_production (s : Stream) (now : Int) (w : Window) {event : Production}
    (step : event = .put ∨ event = .part) :
    ∀ waiter ∈ (s.produced now w event).waiters.parked, waiter.target ≠ .production := by
  intro waiter member target
  obtain ⟨old, -, pending, rfl⟩ := (Waiters.mem_judge_left _ w _ _ waiter).mp member
  simp only at target
  rw [target] at pending
  rcases step with rfl | rfl
  · cases pending
  · cases pending

/-- No wake-up is lost: in every state that a stream can reach all waiting requests are pending
against the current window and listed under their keys for it, a put or a part leaves none that
waits for production, and a stopped stream has none that waits. -/
theorem no_lost_wakeup {id : String} {settings : Settings} {size : Float} {now : Int}
    {start : Stream} (created : Stream.create id settings size now = .ok start)
    (events : List Event) :
    let s := start.run events
    (∀ waiter ∈ s.waiters.parked,
      waiter.target.evaluate s.window none = .pending ∧
        waiter.key = waiter.target.key s.window) ∧
    (∀ call now t log, call.event = .put ∨ call.event = .part →
      s.perform now call = .ok (t, log) →
        ∀ waiter ∈ t.waiters.parked, waiter.target ≠ .production) ∧
    (s.stopped = true → s.waiters.parked = []) := by
  intro s
  have h : s.Consistent := run_consistent (create_consistent created) events
  refine ⟨fun waiter member => ⟨h.pending waiter member, h.keyed waiter member⟩, ?_,
    fun stopped => (h.closed stopped).1⟩
  intro call now t log step ok
  obtain ⟨-, w, -, rfl⟩ := perform_ok ok
  exact produced_releases_production s now w step

/-- One request for a part that is still to come, and one for a segment that is. -/
theorem no_lost_wakeup_of_two :
    let s := (plain 2).run [.call (.put ⟨.whole 0, [], none, false⟩) 1,
      .playlist 0 ⟨some 0, some 1⟩, .segment 1 (.whole 1) none]
    Stream.create "live" plainSettings 2.0 0 = .ok (plain 2) ∧
    s.waiters.parked.map (·.target) = [.part 0 1, .production] ∧
    (∀ waiter ∈ s.waiters.parked,
      waiter.target.evaluate s.window none = .pending ∧
        waiter.key = waiter.target.key s.window) := by
  intro s
  have created := @create_plain 2.0 2 (by decide) (by decide)
  exact ⟨created, by decide +kernel, (no_lost_wakeup created _).1⟩

end Stream

end LiveHls
