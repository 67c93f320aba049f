import LiveHls.Http.Param
import LiveHls.Proofs.SegmentAnswer
import LiveHls.Proofs.Stream.Eviction
import LiveHls.Proofs.Waiters.Keys
/-! What the counts of waiting requests say. A key stands for one condition among those with exact
numbers; and as long as a stream is given no numbers but those that a request can name, all that its
requests wait for has such numbers. -/
namespace LiveHls

open Http.Param (largestInteger)

/-- The numbers given are such as a request can name. -/
def Event.Nameable : Event → Prop
  | .call (.put new) _ => ∀ n ∈ new.number.toInt?, n ≤ largestInteger
  | .playlist _ what =>
      (∀ n ∈ what.sequence, UpTo largestInteger n) ∧ ∀ k ∈ what.part, UpTo largestInteger k
  | .segment _ _ range => ∀ r ∈ range, UpTo largestInteger r.first
  | _ => True

instance : (event : Event) → Decidable event.Nameable
  | .call (.put new) _ => inferInstanceAs (Decidable (∀ n ∈ new.number.toInt?, _))
  | .playlist _ _ => inferInstanceAs (Decidable (_ ∧ _))
  | .segment _ _ range => inferInstanceAs (Decidable (∀ r ∈ range, _))
  | .call (.append ..) _ | .call (.close ..) _ | .stop | .leave _ | .turn _ => .isTrue trivial

/-- The range that a request still has to be served starts at a number that a request can name. -/
def Stage.Nameable : Stage → Prop
  | .appearance _ range => ∀ r ∈ range, UpTo largestInteger r.first
  | _ => True

namespace PlaylistRequest

variable {what : PlaylistRequest} {w : Window} {limit : PartLimit} {target : WaitTarget}
  {n : Int} {part : Option Int} {most : Nat}

theorem within_of_planNext (planned : planNext n part limit = .wait target)
    (first : UpTo most n) (second : ∀ k ∈ part, UpTo most k) : target.Within most := by
  unfold planNext at planned
  split at planned
  · cases planned
    exact first
  · split_ifs at planned
    cases planned
    exact ⟨first, second _ rfl⟩

theorem within_of_planPresent {a : Segment} {last : Int}
    (planned : planPresent a n last part limit = .wait target)
    (first : UpTo most n) (second : ∀ k ∈ part, UpTo most k) : target.Within most := by
  unfold planPresent at planned
  split at planned
  · split_ifs at planned
    cases planned
    exact first
  · simp only at planned
    split_ifs at planned
    cases planned
    exact ⟨first, second _ rfl⟩

/-- A plan waits for what the request names. -/
theorem within_of_plan (planned : what.plan w limit = .wait target)
    (first : ∀ n ∈ what.sequence, UpTo most n)
    (second : ∀ k ∈ what.part, UpTo most k) : target.Within most := by
  unfold plan at planned
  split at planned
  · split_ifs at planned
    cases planned
    trivial
  · rename_i n named
    simp only at planned
    split_ifs at planned
    · exact within_of_planNext planned (first n named) second
    · split at planned
      · cases planned
      · exact within_of_planPresent planned (first n named) second

end PlaylistRequest

namespace Stream

variable {s : Stream}

/-- All numbers of the stream, and of what its requests wait for, are such as a request can name. -/
structure Nameable (s : Stream) : Prop where
  segments : ∀ a ∈ s.window.segments, a.sequence ≤ largestInteger
  parked : ∀ waiter ∈ s.waiters.parked,
    waiter.target.Within largestInteger ∧ waiter.tag.stage.Nameable
  resuming : ∀ ticket outcome, .resume ticket outcome ∈ s.turns → ticket.stage.Nameable

theorem Nameable.relay (h : s.Nameable) (request steps : Nat) (outcome : Outcome) :
    (s.enqueue (.relay request steps outcome)).Nameable := by
  refine ⟨h.segments, h.parked, fun ticket outcome member => ?_⟩
  rcases List.mem_append.mp member with earlier | new
  · exact h.resuming ticket outcome earlier
  · cases List.mem_singleton.mp new

theorem Nameable.waitFor (h : s.Nameable) {ticket : Ticket} {target : WaitTarget}
    (within : target.Within largestInteger) (stage : ticket.stage.Nameable) :
    (s.waitFor ticket target).1.Nameable := by
  rw [waitFor_eq]
  cases s.answered? ticket.request target with
  | none =>
      refine ⟨h.segments, ?_, h.resuming⟩
      exact List.forall_mem_append.mpr ⟨h.parked, List.forall_mem_singleton.mpr ⟨within, stage⟩⟩
  | some settled =>
      refine ⟨h.segments, h.parked, fun other outcome member => ?_⟩
      rcases List.mem_append.mp member with earlier | new
      · exact h.resuming other outcome earlier
      · cases List.mem_singleton.mp new
        exact stage

theorem Nameable.serveFrom (h : s.Nameable) (request : Nat) {a : Segment} {range : Option ByteRange}
    (named : a.sequence ≤ largestInteger)
    (start : ∀ r ∈ range, UpTo largestInteger r.first) :
    (s.serveFrom request a range).1.Nameable := by
  unfold Stream.serveFrom
  cases judged : SegmentRequest.judge a range s.settings with
  | answer outcome => exact h.relay request 2 _
  | hold offset =>
      obtain ⟨rfl, -⟩ := SegmentRequest.judge_eq_hold judged
      refine h.waitFor ⟨⟨by omega, by exact_mod_cast named⟩, ?_⟩ trivial
      cases range with
      | none => exact ⟨Int.le_refl 0, by decide⟩
      | some range => exact start range rfl

theorem Nameable.playlist (h : s.Nameable) (request : Nat) {what : PlaylistRequest}
    (first : ∀ n ∈ what.sequence, UpTo largestInteger n)
    (second : ∀ k ∈ what.part, UpTo largestInteger k) :
    (s.playlist request what).1.Nameable := by
  unfold Stream.playlist
  split
  · exact h.relay request 0 _
  · cases planned : what.plan s.window s.settings.partLimit with
    | refuse fault => exact h.relay request 0 _
    | serve => exact h.relay request 0 _
    | wait target =>
        exact h.waitFor (PlaylistRequest.within_of_plan planned first second) trivial

theorem Nameable.segment (h : s.Nameable) (request : Nat) (number : Numeral)
    {range : Option ByteRange} (start : ∀ r ∈ range, UpTo largestInteger r.first) :
    (s.segment request number range).1.Nameable := by
  unfold Stream.segment
  split
  · exact h.relay request 0 _
  · cases found : s.window.named? number with
    | some a => exact h.serveFrom request (h.segments a (Window.mem_of_named? found)) start
    | none =>
        simp only
        split
        · exact h.relay request 0 _
        · exact h.waitFor trivial start

/-- No window that a request goes on with is ahead of the current one, so its numbers are no
greater. -/
theorem Nameable.le_of_le_last (h : s.Nameable) {n : Nat}
    (reach : (n : Int) ≤ s.window.lastSequence) : n ≤ largestInteger := by
  rcases List.eq_nil_or_concat' s.window.segments with empty | ⟨before, last, concat⟩
  · rw [Window.lastSequence_nil empty] at reach
    omega
  · rw [Window.lastSequence_concat concat] at reach
    have newest := h.segments last (by rw [concat]; simp)
    omega

theorem Nameable.resume (h : s.Nameable) {ticket : Ticket} {outcome : WaitOutcome}
    (nameable : ticket.stage.Nameable)
    (handed : ∀ w, outcome = .ok w → ∀ a ∈ w.segments, (a.sequence : Int) ≤ s.window.lastSequence) :
    (s.resume ticket outcome).1.Nameable := by
  obtain ⟨request, stage⟩ := ticket
  unfold Stream.resume
  cases stage with
  | playlist blocking => exact h.relay request 0 _
  | hold sequence range => exact h.relay request 1 _
  | appearance number range =>
      cases outcome with
      | error fault => exact h.relay request 0 _
      | ok w =>
          cases found : w.named? number with
          | none =>
              simp only [found]
              exact h.relay request 0 _
          | some a =>
              simp only [found]
              have named := h.le_of_le_last (handed w rfl a (Window.mem_of_named? found))
              exact h.serveFrom request named nameable

theorem Nameable.turn (h : s.Nameable) (abreast : s.Abreast) (request : Nat) :
    (s.step (.turn request)).Nameable := by
  cases found : s.turns.find? (·.request = request) with
  | none =>
      rw [(step_turn_none found).1]
      exact h
  | some next =>
      rw [(step_turn_some found).1]
      have others : (s.without request).Nameable :=
        ⟨h.segments, h.parked, fun ticket outcome member =>
          h.resuming ticket outcome (List.mem_of_mem_eraseP member)⟩
      have there := List.mem_of_find?_eq_some found
      cases next with
      | resume ticket outcome =>
          refine others.resume (h.resuming ticket outcome there) ?_
          rintro w rfl
          exact abreast.released ticket w there
      | relay asker steps outcome =>
          cases steps with
          | zero => exact others
          | succ steps => exact others.relay asker steps outcome

/-- Whoever is released goes on from where it was parked. -/
theorem Nameable.released (h : s.Nameable) (t : Stream) {released : List (Ticket × WaitOutcome)}
    (turns : t.turns = s.turns ++ released.map fun (ticket, outcome) => .resume ticket outcome)
    (segments : ∀ a ∈ t.window.segments, a.sequence ≤ largestInteger)
    (fewer : ∀ waiter ∈ t.waiters.parked,
      ∃ old ∈ s.waiters.parked, waiter.target = old.target ∧ waiter.tag = old.tag)
    (own : ∀ ticket outcome, (ticket, outcome) ∈ released →
      ∃ old ∈ s.waiters.parked, ticket = old.tag) : t.Nameable := by
  refine ⟨segments, ?_, ?_⟩
  · intro waiter member
    obtain ⟨old, there, target, tag⟩ := fewer waiter member
    rw [target, tag]
    exact h.parked old there
  · intro ticket outcome member
    rw [turns] at member
    rcases List.mem_append.mp member with earlier | new
    · exact h.resuming ticket outcome earlier
    · obtain ⟨⟨other, result⟩, there, same⟩ := List.mem_map.mp new
      cases same
      obtain ⟨old, waited, rfl⟩ := own _ _ there
      exact (h.parked old waited).2

theorem Nameable.produced (h : s.Nameable) (consistent : s.Consistent) {call : ProducerCall}
    {now : Int} {w : Window} (nameable : (Event.call call now).Nameable)
    (made : s.window.perform s.buffer.stream s.buffer.capacity now call = .ok w) :
    (s.produced now w call.event).Nameable := by
  refine h.released _ rfl ?_ ?_ ?_
  · intro b member
    rcases Window.perform_becomes consistent.wellFormed.consecutive made b member with
      ⟨a, old, becomes⟩ | ⟨new, sequence, rfl, rfl, named, -⟩
    · rw [becomes.grows.sequence]
      exact h.segments a old
    · exact_mod_cast nameable sequence named
  · intro waiter member
    obtain ⟨old, there, -, rfl⟩ := (Waiters.mem_judge_left _ w _ _ waiter).mp member
    exact ⟨old, there, rfl, rfl⟩
  · intro ticket outcome released
    rw [Waiters.broadcast_released, Waiters.judge_released] at released
    obtain ⟨waiter, there, settled⟩ := List.mem_filterMap.mp released
    obtain ⟨result, -, same⟩ := Option.map_eq_some_iff.mp settled
    cases same
    exact ⟨waiter, there, rfl⟩

theorem Nameable.step (h : s.Nameable) (consistent : s.Consistent) (abreast : s.Abreast)
    {event : Event} (nameable : event.Nameable) : (s.step event).Nameable := by
  cases event with
  | call call now =>
      cases done : s.perform now call with
      | error fault =>
          rw [step_call_error done]
          exact h
      | ok result =>
          obtain ⟨t, log⟩ := result
          obtain ⟨-, w, made, rfl⟩ := perform_ok done
          rw [step_call_ok done]
          exact h.produced consistent nameable made
  | stop =>
      rw [step_stop]
      split
      · exact h
      · refine h.released s.halted rfl h.segments (List.forall_mem_nil _) ?_
        intro ticket outcome member
        obtain ⟨waiter, there, same⟩ := List.mem_map.mp member
        cases same
        exact ⟨waiter, there, rfl⟩
  | leave request =>
      refine h.released (s.abandon request).1 rfl h.segments ?_ ?_
      · exact fun waiter member => ⟨waiter, List.mem_of_mem_filter member, rfl, rfl⟩
      · intro ticket outcome member
        obtain ⟨waiter, leaves, same⟩ := List.mem_map.mp member
        cases same
        exact ⟨waiter, List.mem_of_mem_filter leaves, rfl⟩
  | playlist request what => exact h.playlist request nameable.1 nameable.2
  | segment request number range => exact h.segment request number nameable
  | turn request => exact h.turn abreast request

theorem run_nameable (h : s.Nameable) (consistent : s.Consistent) (abreast : s.Abreast)
    {events : List Event} (nameable : ∀ event ∈ events, event.Nameable) :
    (s.run events).Nameable := by
  induction events generalizing s with
  | nil => exact h
  | cons event events ih =>
      obtain ⟨first, rest⟩ := List.forall_mem_cons.mp nameable
      exact ih (h.step consistent abreast first) ((s.step_moves event).consistent consistent)
        (abreast.step consistent event) rest

theorem create_nameable {id : String} {settings : Settings} {size : Float} {now : Int}
    (created : Stream.create id settings size now = .ok s) : s.Nameable ∧ s.Abreast := by
  obtain ⟨capacity, -, -, rfl⟩ := (create_eq_ok_iff id settings size now s).mp created
  exact ⟨⟨fun a member => absurd member List.not_mem_nil,
      fun waiter member => absurd member List.not_mem_nil,
      fun ticket outcome member => absurd member List.not_mem_nil⟩,
    ⟨fun waiter member => absurd member List.not_mem_nil,
      fun ticket w member => absurd member List.not_mem_nil⟩⟩

/-- Keys identify conditions: two targets have one key exactly if they are of one kind and name the
same, where a part goes by its canonical name, and then every change judges them alike. What a
request waits for has such numbers if the stream is given no others. So the counts of waiting
requests list each condition once, with the number of those who wait for it, and add up to all who
wait. -/
theorem keys_identify_conditions {id : String} {settings : Settings} {size : Float} {now : Int}
    {start : Stream} (created : Stream.create id settings size now = .ok start)
    (events : List Event) :
    let s := start.run events
    let w := s.window
    let counts := s.waiters.pendingByKey
    (∀ a b : WaitTarget, a.Within largestInteger → b.Within largestInteger →
      (a.key w = b.key w ↔ a.canonical w = b.canonical w) ∧
        (a.key w = b.key w → ∀ event, a.evaluate w event = b.evaluate w event)) ∧
    ((∀ event ∈ events, event.Nameable) →
      ∀ p ∈ s.waiters.parked, p.target.Within largestInteger) ∧
    (∀ p ∈ s.waiters.parked, ∀ q ∈ s.waiters.parked,
      p.target.Within largestInteger → q.target.Within largestInteger →
      (p.key = q.key ↔ p.target.canonical w = q.target.canonical w) ∧
        (p.key = q.key → ∀ event, p.target.evaluate w event = q.target.evaluate w event)) ∧
    (counts.map Prod.fst).Nodup ∧
    (∀ key, counts.lookup key = if s.waiters.waitingFor key = 0 then none
      else some (s.waiters.waitingFor key)) ∧
    (counts.map Prod.snd).sum = s.waiters.size := by
  intro s w counts
  have consistent : s.Consistent := run_consistent (create_consistent created) events
  have same (a b : WaitTarget) (first : a.Within largestInteger)
      (second : b.Within largestInteger) : (a.key w = b.key w ↔ a.canonical w = b.canonical w) ∧
        (a.key w = b.key w → ∀ event, a.evaluate w event = b.evaluate w event) := by
    have names : a.key w = b.key w ↔ a.canonical w = b.canonical w :=
      WaitTarget.key_eq_iff first second
    refine ⟨names, fun equal event => ?_⟩
    rw [← WaitTarget.evaluate_canonical, names.mp equal, WaitTarget.evaluate_canonical]
  refine ⟨same, fun nameable p parked => ?_, fun p here q there first second => ?_,
    s.waiters.pendingByKey_nodup, s.waiters.lookup_pendingByKey, s.waiters.pendingByKey_sum⟩
  · obtain ⟨fresh, even⟩ := create_nameable created
    have numbers : s.Nameable := run_nameable fresh (create_consistent created) even nameable
    exact (numbers.parked p parked).1
  · rw [consistent.keyed p here, consistent.keyed q there]
    exact same p.target q.target first second

/-- Two requests wait for one part under two names, and a third one for a segment to appear. -/
theorem keys_identify_conditions_of_three :
    let events : List Event := [.call (.put ⟨.whole 0, [], none, false⟩) 1,
      .call (.append (.whole 0) ⟨1.0, true, [7]⟩ false) 2, .playlist 0 ⟨some 0, some 1⟩,
      .playlist 1 ⟨some 1, some 0⟩, .segment 2 (.whole 1) (some ⟨0, openEnd⟩),
      .call (.close (.whole 0) none) 3]
    let s := (plain 2).run events
    Stream.create "live" plainSettings 2.0 0 = .ok (plain 2) ∧
    (∀ event ∈ events, event.Nameable) ∧
    s.waiters.pendingByKey = [("part:1.0", 2), ("production", 1)] ∧
    (WaitTarget.part 0 1).key s.window = (WaitTarget.part 1 0).key s.window ∧
    (WaitTarget.part 1 0).key s.window ≠ (WaitTarget.part 1 1).key s.window ∧
    (∀ p ∈ s.waiters.parked, p.target.Within largestInteger) ∧
    (s.waiters.pendingByKey.map Prod.snd).sum = 3 := by
  intro events s
  have created := @create_plain 2.0 2 (by decide) (by decide)
  have nameable : ∀ event ∈ events, event.Nameable := by decide
  obtain ⟨keys, within, -, -, -, total⟩ := keys_identify_conditions created events
  refine ⟨created, nameable, by decide +kernel, ?_, ?_, within nameable,
    total.trans (by decide +kernel)⟩
  · exact (keys (.part 0 1) (.part 1 0) (by decide) (by decide)).1.mpr (by rfl)
  · intro same
    have names := (keys (.part 1 0) (.part 1 1) (by decide) (by decide)).1.mp same
    exact absurd names (by decide)

end Stream

end LiveHls
