import LiveHls.Proofs.PartTarget
import LiveHls.Proofs.Stream.Settlement
import LiveHls.Proofs.Stream.Wakeup
/-! Requests that wait for one part under two names, one past the end of a sealed segment and one
at the start of the next. They go on together, except at a put that drops the sealed segment: it
turns the first one away and lets the second one wait. -/
namespace LiveHls.Stream

/-- Two playlist requests wait for the first part behind a sealed segment, `p` under the name that
the part has in that segment and `q` under the name that it has in the next. -/
structure Twins (s : Stream) (p q : Nat) (sequence index : Int) : Prop where
  sealed : ∃ a, s.window.find? sequence = some a ∧ a.complete = true ∧ (a.partCount : Int) ≤ index
  first : s.Awaits ⟨p, .playlist true⟩ (.part sequence index)
  second : s.Awaits ⟨q, .playlist true⟩ (.part (sequence + 1) 0)

/-- Both requests go on, with one outcome and to one answer. -/
structure Joined (s t : Stream) (p q : Nat) (sequence index : Int) (outcome : WaitOutcome)
    (answer : Outcome) : Prop where
  first : Settles s t ⟨p, .playlist true⟩ (.part sequence index) outcome
  second : Settles s t ⟨q, .playlist true⟩ (.part (sequence + 1) 0) outcome
  shared : outcome = .ok t.window ∨ ∃ fault, outcome = .error fault
  answers : t.Answers outcome answer
  kept : t.window.isEvicted sequence = false

/-- A put into a full window drops its first segment, and the segments behind that have no parts
yet. The request that names the dropped segment is turned away; the other one waits on. -/
structure Parted (s t : Stream) (event : Event) (p q : Nat) (sequence index : Int) : Prop where
  put : ∃ new now, event = .call (.put new) now
  full : s.window.segments.length = s.buffer.capacity
  oldest : ∃ a rest, s.window.segments = a :: rest ∧ (a.sequence : Int) = sequence ∧
    ∀ b ∈ rest, b.partCount = 0
  dropped : t.window.isEvicted sequence = true
  first : Settles s t ⟨p, .playlist true⟩ (.part sequence index)
    (.error (.evicted (.whole sequence)))
  second : t.Awaits ⟨q, .playlist true⟩ (.part (sequence + 1) 0)

variable {s t : Stream} {p q : Nat} {sequence index : Int}

theorem Consistent.awaited (h : s.Consistent) {ticket : Ticket} {target : WaitTarget}
    (awaits : s.Awaits ticket target) : target.evaluate s.window none = .pending := by
  obtain ⟨waiter, member, -, rfl⟩ := awaits
  exact h.pending waiter member

theorem Twins.member (h : s.Consistent) (twins : s.Twins p q sequence index) :
    ∃ a ∈ s.window.segments, (a.sequence : Int) = sequence ∧ a.complete = true ∧
      (a.partCount : Int) ≤ index := by
  obtain ⟨a, found, complete, past⟩ := twins.sealed
  obtain ⟨member, named⟩ := (Window.find?_eq_some_iff h.wellFormed.consecutive _ a).mp found
  exact ⟨a, member, named, complete, past⟩

theorem Twins.inside (h : s.Consistent) (twins : s.Twins p q sequence index) :
    s.window.isEvicted sequence = false := by
  obtain ⟨a, member, rfl, -⟩ := twins.member h
  exact Window.not_evicted_of_mem h.wellFormed.consecutive member

/-- As long as the sealed segment stays, a new window is judged alike for both. -/
theorem Twins.produced_kept {call : ProducerCall} {now : Int} {w : Window} {a : Segment}
    (twins : s.Twins p q sequence index) (found : w.find? sequence = some a)
    (complete : a.complete = true) (past : (a.partCount : Int) ≤ index)
    (inside : w.isEvicted sequence = false) :
    (s.produced now w call.event).Twins p q sequence index ∨
      ∃ outcome answer, Joined s (s.produced now w call.event) p q sequence index outcome answer := by
  have alike := WaitTarget.evaluate_past_sealed found complete past (some call.event)
  cases verdict : (WaitTarget.part sequence index).evaluate w (some call.event) with
  | pending =>
      left
      exact ⟨⟨a, found, complete, past⟩, produced_awaits twins.first verdict,
        produced_awaits twins.second (alike ▸ verdict)⟩
  | ready =>
      right
      refine ⟨.ok w, _, ?_, ?_, .inl rfl, answers _ _, inside⟩
      · exact produced_settles twins.first (by rw [verdict]; rfl)
      · exact produced_settles twins.second (by rw [← alike, verdict]; rfl)
  | rejected fault =>
      right
      refine ⟨.error fault, _, ?_, ?_, .inr ⟨fault, rfl⟩, answers _ _, inside⟩
      · exact produced_settles twins.first (by rw [verdict]; rfl)
      · exact produced_settles twins.second (by rw [← alike, verdict]; rfl)

/-- No part is there behind the sealed segment, so none is there once a put has dropped it. -/
theorem Twins.produced_dropped {new : NewSegment} {now : Int} {w : Window} (h : s.Consistent)
    (twins : s.Twins p q sequence index) (made : s.window.put s.buffer.capacity new now = .ok w)
    (dropped : w.isEvicted sequence = true) :
    Parted s (s.produced now w .put) (.call (.put new) now) p q sequence index := by
  obtain ⟨a, member, rfl, complete, past⟩ := twins.member h
  obtain ⟨rest, segments, full, counts, inside, here⟩ :=
    Window.put_drops_first h.wellFormed made member dropped
  have consecutive : Consecutive (a :: rest) := segments ▸ h.wellFormed.consecutive
  have old : s.window.segmentsFrom (a.sequence + 1) = rest := by
    have split : s.window.segments = [] ++ a :: rest := segments
    exact (Window.segmentsFrom_succ
      (Window.segmentsFrom_of_split h.wellFormed.consecutive split)).1
  have bare := (WaitTarget.evaluate_part_eq_pending_iff.mp (h.awaited twins.second)).2
  rw [old, partExists_zero consecutive.tail] at bare
  have empty : ∀ b ∈ rest, b.partCount = 0 := by
    intro b later
    have unfilled := List.any_eq_false.mp bare b later
    have zero := of_decide_eq_false (Bool.eq_false_iff.mpr unfilled)
    omega
  refine ⟨⟨new, now, rfl⟩, full, ⟨a, rest, segments, rfl, empty⟩, dropped, ?_, ?_⟩
  · apply produced_settles twins.first
    rw [WaitTarget.evaluate_part_of_evicted dropped]
    rfl
  · apply produced_awaits twins.second
    apply WaitTarget.evaluate_part_eq_pending_iff.mpr
    refine ⟨inside, ?_⟩
    rw [here, partExists_zero (Window.put_advances h.positive h.wellFormed made).1.consecutive]
    apply List.any_eq_false.mpr
    intro b present
    have count : b.partCount ∈ rest.map (·.partCount) ++ [0] := counts ▸ List.mem_map_of_mem present
    have zero : b.partCount = 0 := by
      rcases List.mem_append.mp count with old | new
      · obtain ⟨c, later, same⟩ := List.mem_map.mp old
        exact same.symm.trans (empty c later)
      · exact List.mem_singleton.mp new
    simp [zero]

theorem Twins.produced {call : ProducerCall} {now : Int} {w : Window} (h : s.Consistent)
    (twins : s.Twins p q sequence index)
    (made : s.window.perform s.buffer.stream s.buffer.capacity now call = .ok w) :
    (s.produced now w call.event).Twins p q sequence index ∨
      (∃ outcome answer, Joined s (s.produced now w call.event) p q sequence index outcome answer) ∨
      Parted s (s.produced now w call.event) (.call call now) p q sequence index := by
  obtain ⟨a, member, rfl, complete, past⟩ := twins.member h
  cases dropped : w.isEvicted a.sequence with
  | true =>
      right; right
      rcases Window.perform_advances_or_put h.wellFormed made with
        ⟨wellFormed, advances⟩ | ⟨new, rfl, put⟩
      · obtain ⟨b, stays, grows⟩ := advances.kept a member
        have inside := Window.not_evicted_of_mem wellFormed.consecutive stays
        rw [grows.sequence, dropped] at inside
        cases inside
      · exact twins.produced_dropped h put dropped
  | false =>
      obtain ⟨wellFormed, gone, advances⟩ := Window.perform_advances h.positive h.wellFormed made
      have found := (Window.find?_eq_some_iff h.wellFormed.consecutive _ a).mpr ⟨member, rfl⟩
      rcases (advances.precedes h.wellFormed.consecutive).kept _ a found with
        evicted | ⟨b, found, grows⟩
      · exact absurd (dropped.symm.trans evicted) Bool.false_ne_true
      · rw [grows.complete complete] at found
        rcases twins.produced_kept found complete past dropped with still | joined
        · exact .inl still
        · exact .inr (.inl joined)

theorem Twins.reads (twins : s.Twins p q sequence index) (reads : Reads s t) :
    t.Twins p q sequence index := by
  refine ⟨?_, reads.awaits twins.first, reads.awaits twins.second⟩
  rw [reads.window]
  exact twins.sealed

/-- One step: both wait on, both go on alike, or a put parts them. -/
theorem Twins.step {event : Event} (h : s.Consistent) (twins : s.Twins p q sequence index)
    (moves : Moves s event t) (stayFirst : event ≠ .leave p) (staySecond : event ≠ .leave q) :
    t.Twins p q sequence index ∨
      (∃ outcome answer, Joined s t p q sequence index outcome answer) ∨
      Parted s t event p q sequence index := by
  cases moves with
  | produced running made => exact twins.produced h made
  | refused failed => exact .inl twins
  | halted running =>
      right; left
      have inside := twins.inside h
      exact ⟨.error (.stopped s.id), _, halted_settles twins.first, halted_settles twins.second,
        .inr ⟨_, rfl⟩, answers _ _, inside⟩
  | idle stopped => exact .inl twins
  | left request =>
      left
      refine ⟨twins.sealed, left_awaits twins.first ?_, left_awaits twins.second ?_⟩
      · rintro rfl
        exact stayFirst rfl
      · rintro rfl
        exact staySecond rfl
  | playlist reads => exact .inl (twins.reads reads)
  | segment reads => exact .inl (twins.reads reads)
  | turn reads => exact .inl (twins.reads reads)

theorem Twins.through {event : Event} {events : List Event}
    (twins : s.Twins p q sequence index)
    (rest : ∀ sooner, sooner <+: events → ((s.step event).run sooner).Twins p q sequence index) :
    ∀ sooner, sooner <+: event :: events → (s.run sooner).Twins p q sequence index := by
  intro sooner front
  cases sooner with
  | nil => exact twins
  | cons first sooner =>
      obtain ⟨rfl, onward⟩ := List.cons_prefix_cons.mp front
      exact rest sooner onward

/-- Both wait on through a run, or through the part of it before the event that ends a wait. -/
theorem Twins.run (h : s.Consistent) (twins : s.Twins p q sequence index) (events : List Event)
    (stay : ∀ event ∈ events, event ≠ .leave p ∧ event ≠ .leave q) :
    (∀ sooner, sooner <+: events → (s.run sooner).Twins p q sequence index) ∨
      ∃ earlier event later, events = earlier ++ event :: later ∧
        (∀ sooner, sooner <+: earlier → (s.run sooner).Twins p q sequence index) ∧
        ((∃ outcome answer, Joined (s.run earlier) ((s.run earlier).step event) p q sequence index
            outcome answer) ∨
          Parted (s.run earlier) ((s.run earlier).step event) event p q sequence index) := by
  induction events generalizing s with
  | nil =>
      left
      intro sooner front
      rw [List.prefix_nil.mp front]
      exact twins
  | cons event events ih =>
      obtain ⟨stayFirst, staySecond⟩ := stay event List.mem_cons_self
      rcases twins.step h (s.step_moves event) stayFirst staySecond with still | ended
      · have later := fun e member => stay e (List.mem_cons_of_mem event member)
        rcases ih ((s.step_moves event).consistent h) still later with
          all | ⟨earlier, last, rest, split, before, ended⟩
        · exact .inl (twins.through all)
        · exact .inr ⟨event :: earlier, last, rest, congrArg (event :: ·) split,
            twins.through before, ended⟩
      · refine .inr ⟨[], event, events, rfl, ?_, ended⟩
        intro sooner front
        rw [List.prefix_nil.mp front]
        exact twins

/-- Requests under the two names of a rolled over part settle together: unless a client leaves,
both wait until an event ends both waits, with one outcome and to one answer, or until a put drops
the sealed segment. -/
theorem rolled_over_names_settle_together {id : String} {settings : Settings} {size : Float}
    {now : Int} {start : Stream} (created : Stream.create id settings size now = .ok start)
    (before events : List Event) {p q : Nat} {sequence index : Int}
    (twins : (start.run before).Twins p q sequence index)
    (stay : ∀ event ∈ events, event ≠ .leave p ∧ event ≠ .leave q) :
    (∀ sooner, sooner <+: events → (start.run (before ++ sooner)).Twins p q sequence index) ∨
      ∃ earlier event later, events = earlier ++ event :: later ∧
        (∀ sooner, sooner <+: earlier → (start.run (before ++ sooner)).Twins p q sequence index) ∧
        let s := start.run (before ++ earlier)
        (∃ outcome answer, Joined s (s.step event) p q sequence index outcome answer) ∨
          Parted s (s.step event) event p q sequence index := by
  have consistent := run_consistent (create_consistent created) before
  simp only [run_append]
  exact twins.run consistent events stay

/-- A segment of one part is sealed while two requests wait for the part behind it. -/
def rolloverEvents : List Event :=
  [.call (.put ⟨.whole 0, [], none, false⟩) 1, .call (.append (.whole 0) ⟨1.0, true, [7]⟩ false) 2,
    .playlist 0 ⟨some 0, some 1⟩, .playlist 1 ⟨some 1, some 0⟩, .call (.close (.whole 0) none) 3]

/-- In a window of two segments the next part ends both waits. -/
theorem rolled_over_names_settle_together_of_two :
    let events : List Event := [.call (.put ⟨.whole 1, [], none, false⟩) 4,
      .call (.append (.whole 1) ⟨1.0, true, [8]⟩ false) 5]
    Stream.create "live" plainSettings 2.0 0 = .ok (plain 2) ∧
    ((plain 2).run rolloverEvents).Twins 0 1 0 1 ∧
    ∃ earlier event later, events = earlier ++ event :: later ∧
      let s := (plain 2).run (rolloverEvents ++ earlier)
      ∃ outcome answer, Joined s (s.step event) 0 1 0 1 outcome answer := by
  intro events
  have created := @create_plain 2.0 2 (by decide) (by decide)
  have twins : ((plain 2).run rolloverEvents).Twins 0 1 0 1 :=
    ⟨⟨_, rfl, rfl, by decide⟩, ⟨_, .head _, rfl, rfl⟩, ⟨_, .tail _ (.head _), rfl, rfl⟩⟩
  have kept : ((plain 2).run (rolloverEvents ++ events)).window.isEvicted 0 = false := by
    decide +kernel
  have quiet : ((plain 2).run (rolloverEvents ++ events)).waiters.parked.length = 0 := by
    decide +kernel
  refine ⟨created, twins, ?_⟩
  rcases rolled_over_names_settle_together created rolloverEvents events twins (by simp [events])
    with still | ⟨earlier, event, later, split, before, joined | parted⟩
  · obtain ⟨waiter, member, -⟩ := (still events List.prefix_rfl).first
    exact absurd (List.length_pos_of_mem member) (by rw [quiet]; decide)
  · exact ⟨earlier, event, later, split, joined⟩
  · have reached := run_consistent (create_consistent created) (rolloverEvents ++ earlier)
    have onward := (run_precedes ((step_moves _ event).consistent reached) later).evicted 0
      parted.dropped
    rw [← run_cons, ← run_append, List.append_assoc, ← split, kept] at onward
    cases onward

/-- In a window of one segment the next put turns away the one, and the other is served later. -/
theorem rolled_over_names_may_part :
    let s := (plain 1).run rolloverEvents
    let t := s.step (.call (.put ⟨.whole 1, [], none, false⟩) 4)
    let u := t.step (.call (.append (.whole 1) ⟨1.0, true, [8]⟩ false) 5)
    Stream.create "live" plainSettings 1.0 0 = .ok (plain 1) ∧
    s.Twins 0 1 0 1 ∧
    Settles s t ⟨0, .playlist true⟩ (.part 0 1) (.error (.evicted (.whole 0))) ∧
    (∀ outcome, ¬ Settles s t ⟨1, .playlist true⟩ (.part 1 0) outcome) ∧
    Settles t u ⟨1, .playlist true⟩ (.part 1 0) (.ok u.window) := by
  have twins : ((plain 1).run rolloverEvents).Twins 0 1 0 1 :=
    ⟨⟨_, rfl, rfl, by decide⟩, ⟨_, .head _, rfl, rfl⟩, ⟨_, .tail _ (.head _), rfl, rfl⟩⟩
  intro s t u
  have waits : t.Awaits ⟨1, .playlist true⟩ (.part 1 0) := ⟨_, .head _, rfl, rfl⟩
  refine ⟨create_plain (by decide) (by decide), twins, ?_, ?_, ?_⟩
  · have next : t = s.produced 4 _ .put := step_produced rfl rfl
    rw [next]
    exact produced_settles twins.first rfl
  · intro outcome settles
    exact settles.gone waits
  · have next : u = t.produced 5 _ .part := step_produced rfl rfl
    rw [next]
    exact produced_settles waits rfl

end LiveHls.Stream
