import LiveHls.Proofs.Stream.Run
/-! How a wait ends. A request that waits goes on when its target is settled by a new window, when
the stream stops, or when its client leaves; nothing else touches it. -/
namespace LiveHls.Stream

/-- The request waits for the target. -/
def Awaits (s : Stream) (ticket : Ticket) (target : WaitTarget) : Prop :=
  ∃ waiter ∈ s.waiters.parked, waiter.tag = ticket ∧ waiter.target = target

/-- On the way from one state to the next the request has stopped waiting for the target, and it
goes on with the outcome. -/
structure Settles (s t : Stream) (ticket : Ticket) (target : WaitTarget)
    (outcome : WaitOutcome) : Prop where
  awaited : s.Awaits ticket target
  gone : ¬ t.Awaits ticket target
  resumes : ∃ turns, t.turns = s.turns ++ turns ∧ .resume ticket outcome ∈ turns

/-- Whenever a playlist request that waited goes on with the outcome, it is given the answer. -/
def Answers (s : Stream) (outcome : WaitOutcome) (answer : Outcome) : Prop :=
  ∀ (later : List Event) (request : Nat),
    ((s.run later).resume ⟨request, .playlist true⟩ outcome).1 =
      (s.run later).enqueue (.relay request 0 answer)

variable {s t : Stream} {ticket : Ticket} {target : WaitTarget}

/-- The answer does not depend on when the request goes on. -/
theorem answers (s : Stream) (outcome : WaitOutcome) :
    s.Answers outcome (outcome.bind fun w => s.renderFor w true) := by
  intro later request
  have same : ∀ w, (s.run later).renderFor w true = s.renderFor w true := by
    intro w
    rw [renderFor, renderFor, run_settings]
  simp only [resume, same]

theorem produced_awaits {now : Int} {w : Window} {event : Production}
    (awaits : s.Awaits ticket target) (pending : target.evaluate w (some event) = .pending) :
    (s.produced now w event).Awaits ticket target := by
  obtain ⟨waiter, member, rfl, rfl⟩ := awaits
  exact ⟨_, (Waiters.mem_judge_left _ w event _ _).mpr ⟨waiter, member, pending, rfl⟩, rfl, rfl⟩

/-- A new window that settles the target ends the wait, with that very window or a rejection. -/
theorem produced_settles {now : Int} {w : Window} {event : Production} {outcome : WaitOutcome}
    (awaits : s.Awaits ticket target)
    (settled : (target.evaluate w (some event)).outcome? w = some outcome) :
    Settles s (s.produced now w event) ticket target outcome := by
  refine ⟨awaits, ?_, _, rfl, ?_⟩
  · rintro ⟨waiter, member, -, same⟩
    obtain ⟨old, -, pending, rfl⟩ := (Waiters.mem_judge_left _ w event _ waiter).mp member
    simp only at same
    rw [same] at pending
    rw [pending] at settled
    cases settled
  · obtain ⟨waiter, member, rfl, rfl⟩ := awaits
    rw [Waiters.broadcast_released, Waiters.judge_released]
    refine List.mem_map.mpr ⟨(waiter.tag, outcome), List.mem_filterMap.mpr ⟨waiter, member, ?_⟩, rfl⟩
    rw [settled]
    rfl

theorem halted_settles (awaits : s.Awaits ticket target) :
    Settles s s.halted ticket target (.error (.stopped s.id)) := by
  refine ⟨awaits, ?_, _, rfl, ?_⟩
  · rintro ⟨waiter, member, -⟩
    cases member
  · obtain ⟨waiter, member, rfl, -⟩ := awaits
    exact List.mem_map.mpr ⟨(waiter.tag, .error (.stopped s.id)),
      List.mem_map.mpr ⟨waiter, member, rfl⟩, rfl⟩

theorem left_awaits {request : Nat} (awaits : s.Awaits ticket target)
    (stays : ticket.request ≠ request) : (s.abandon request).1.Awaits ticket target := by
  obtain ⟨waiter, member, rfl, rfl⟩ := awaits
  refine ⟨waiter, List.mem_filter.mpr ⟨member, ?_⟩, rfl, rfl⟩
  simp only [decide_eq_false stays, Bool.not_false]

theorem Reads.awaits (awaits : s.Awaits ticket target) (reads : Reads s t) :
    t.Awaits ticket target := by
  obtain ⟨waiter, member, named⟩ := awaits
  cases reads with
  | pass turns => exact ⟨waiter, member, named⟩
  | park turns parkable => exact ⟨waiter, List.mem_append_left _ member, named⟩

end LiveHls.Stream
