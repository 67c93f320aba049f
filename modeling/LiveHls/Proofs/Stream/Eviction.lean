import LiveHls.Proofs.PlaylistPlan
import LiveHls.Proofs.Stream.Release
import LiveHls.Proofs.Stream.Settlement
import LiveHls.Proofs.Window.Edge
/-! Who can be turned away by an eviction. Nobody waits for more than the segment after the last,
so what a request waits for comes before its segment can leave a window of two or more, unless a
segment is sealed without a part. -/
namespace LiveHls

namespace WaitTarget

/-- The segment that a target is about. -/
def sequence? : WaitTarget → Option Int
  | .live | .production => none
  | .segment sequence | .complete sequence | .part sequence _ | .bytes sequence _ => some sequence

/-- The target reaches one segment past the window at most. -/
def Near (w : Window) (target : WaitTarget) : Prop :=
  ∀ n, target.sequence? = some n → n ≤ w.lastSequence + 1

variable {w v : Window} {target : WaitTarget}

theorem Near.mono (near : target.Near w) (le : w.lastSequence ≤ v.lastSequence) :
    target.Near v := by
  intro n named
  have reach := near n named
  omega

/-- A target is only ever rejected because its segment has left the window. -/
theorem evaluate_eq_rejected {event : Option Production} {fault : Fault}
    (rejected : target.evaluate w event = .rejected fault) :
    ∃ n, target.sequence? = some n ∧ w.isEvicted n = true ∧ fault = .evicted (.whole n) := by
  cases target with
  | live =>
      unfold evaluate Verdict.readyIf at rejected
      simp only at rejected
      split_ifs at rejected
  | production =>
      unfold evaluate Verdict.readyIf at rejected
      simp only at rejected
      split_ifs at rejected
  | segment n => exact ⟨n, rfl, evaluateSegment_eq_rejected_iff.mp rejected⟩
  | complete n => exact ⟨n, rfl, evaluateSegment_eq_rejected_iff.mp rejected⟩
  | part n index => exact ⟨n, rfl, evaluate_part_eq_rejected_iff.mp rejected⟩
  | bytes n offset => exact ⟨n, rfl, evaluateSegment_eq_rejected_iff.mp rejected⟩

/-- While a target is open its segment has not left the window. If that is there and sealed, then
it is a part that is waited for, and none of the segments behind has one yet. -/
theorem pending_past_sealed {n : Int} {a : Segment} {rest : List Segment}
    (h : Consecutive w.segments) (pending : target.evaluate w none = .pending)
    (named : target.sequence? = some n) (here : w.segmentsFrom n = a :: rest)
    (complete : a.complete = true) : ∀ b ∈ rest, b.partCount = 0 := by
  have found : w.find? n = some a := by rw [Window.find?, here]; rfl
  cases target with
  | live => cases named
  | production => cases named
  | segment m =>
      cases named
      cases (evaluateSegment_eq_pending_iff.mp pending).2 a found
  | complete m =>
      cases named
      rw [(evaluateSegment_eq_pending_iff.mp pending).2 a found] at complete
      cases complete
  | bytes m offset =>
      cases named
      have short := (evaluateSegment_eq_pending_iff.mp pending).2 a found
      rw [complete] at short
      cases short
  | part m index =>
      cases named
      have missing := (evaluate_part_eq_pending_iff.mp pending).2
      rw [here, partExists, complete, Bool.true_and] at missing
      obtain ⟨named, before, after, split⟩ := Window.split_of_find? h found
      have behind := Window.segmentsFrom_of_split h split
      rw [named, here] at behind
      have chain : Consecutive rest := (behind ▸ (split ▸ h).right).tail
      split_ifs at missing with past
      · rw [partExists_zero chain] at missing
        intro b member
        have behind := of_decide_eq_false (Bool.eq_false_iff.mpr (List.any_eq_false.mp missing b member))
        omega
      · simp only [decide_eq_true_eq] at past
        have within := of_decide_eq_false missing
        omega

theorem not_evicted_of_pending {n : Int} (pending : target.evaluate w none = .pending)
    (named : target.sequence? = some n) : w.isEvicted n = false := by
  cases target with
  | live => cases named
  | production => cases named
  | segment m =>
      cases named
      exact (evaluateSegment_eq_pending_iff.mp pending).1
  | complete m =>
      cases named
      exact (evaluateSegment_eq_pending_iff.mp pending).1
  | part m index =>
      cases named
      exact (evaluate_part_eq_pending_iff.mp pending).1
  | bytes m offset =>
      cases named
      exact (evaluateSegment_eq_pending_iff.mp pending).1

end WaitTarget

namespace Window

variable {w v : Window} {capacity : Nat} {stream : String} {now : Int} {call : ProducerCall}

theorem mem_of_named? {number : Numeral} {a : Segment} (found : w.named? number = some a) :
    a ∈ w.segments := by
  obtain ⟨n, -, there⟩ := Option.bind_eq_some_iff.mp found
  have member := List.mem_of_head? there
  unfold segmentsFrom at member
  split at member
  · exact List.mem_of_mem_drop member
  · cases member

/-- A call adds one segment at most, and that follows the last. -/
theorem perform_lastSequence_le (wellFormed : w.WellFormed capacity) (positive : 1 ≤ capacity)
    (nonempty : w.segments ≠ []) (ok : w.perform stream capacity now call = .ok v) :
    v.lastSequence ≤ w.lastSequence + 1 := by
  obtain ⟨before, last, segments⟩ := (List.eq_nil_or_concat' w.segments).resolve_left nonempty
  have newest : w.last? = some last := by rw [last?, segments, List.getLast?_concat]
  have edge := lastSequence_of_last? newest
  rcases List.eq_nil_or_concat' v.segments with empty | ⟨front, final, concat⟩
  · rw [lastSequence_nil empty, edge]
    omega
  · have member : final ∈ v.segments := by rw [concat]; simp
    rw [lastSequence_concat concat]
    rcases perform_becomes wellFormed.consecutive ok final member with
      ⟨a, old, becomes⟩ | ⟨new, sequence, rfl, rfl, -, -⟩
    · have inside := le_lastSequence wellFormed.consecutive old
      rw [becomes.grows.sequence]
      omega
    · obtain ⟨other, started, -, next⟩ := put_last? positive ok
      rw [last?, concat, List.getLast?_concat] at started
      have same : sequence = other := congrArg Segment.sequence (Option.some.inj started)
      have follows := next last newest
      rw [edge]
      change ((sequence : Nat) : Int) ≤ _
      omega

/-- Where a put drops the segment that is waited for, the one behind it was sealed without a part. -/
theorem bare_of_dropped {target : WaitTarget} {new : NewSegment} {a : Segment}
    (wellFormed : w.WellFormed capacity) (two : 2 ≤ capacity)
    (pending : target.evaluate w none = .pending) (named : target.sequence? = some a.sequence)
    (member : a ∈ w.segments) (put : w.put capacity new now = .ok v)
    (chain : Consecutive v.segments) (gone : v.isEvicted a.sequence = true) :
    ∃ b ∈ v.segments, b.complete = true ∧ b.partCount = 0 := by
  obtain ⟨rest, segments, full, counts, -, -⟩ := put_drops_first wellFormed put member gone
  have length : v.segments.length = rest.length + 1 := by
    have sizes := congrArg List.length counts
    simpa using sizes
  rw [segments, List.length_cons] at full
  -- there is another segment behind the one that is dropped, so that one was sealed
  obtain ⟨b, others, split⟩ := List.exists_cons_of_length_pos (l := rest) (by omega)
  have complete : a.complete = true := by
    have old : Consecutive (a :: b :: others) := split ▸ segments ▸ wellFormed.consecutive
    exact old.rel.complete
  have foremost : w.segments = [] ++ a :: rest := segments
  have here := segmentsFrom_of_split wellFormed.consecutive foremost
  have bare := WaitTarget.pending_past_sealed wellFormed.consecutive pending named here complete
  obtain ⟨first, more, started⟩ := List.exists_cons_of_length_pos (l := v.segments) (by omega)
  obtain ⟨second, others, behind⟩ := List.exists_cons_of_length_pos (l := more) (by
    rw [started, List.length_cons] at length
    omega)
  rw [behind] at started
  refine ⟨first, by rw [started]; simp, ?_, ?_⟩
  · rw [started] at chain
    exact chain.rel.complete
  · rw [started, split] at counts
    have same : first.partCount = b.partCount := List.head_eq_of_cons_eq counts
    rw [same]
    exact bare b (by rw [split]; simp)

/-- In a window of two or more segments, what is waited for is not dropped before it is there,
unless a segment has been sealed without a part. -/
theorem bare_of_rejected {target : WaitTarget} {fault : Fault} (wellFormed : w.WellFormed capacity)
    (two : 2 ≤ capacity) (nonempty : w.segments ≠ []) (near : target.Near w)
    (pending : target.evaluate w none = .pending)
    (ok : w.perform stream capacity now call = .ok v)
    (rejected : target.evaluate v (some call.event) = .rejected fault) :
    ∃ a ∈ v.segments, a.complete = true ∧ a.partCount = 0 := by
  have positive : 1 ≤ capacity := Nat.le_of_succ_le two
  have after := (perform_advances positive wellFormed ok).1
  obtain ⟨n, named, gone, -⟩ := WaitTarget.evaluate_eq_rejected rejected
  have inside := WaitTarget.not_evicted_of_pending pending named
  rcases evicted_or_found_or_ahead wellFormed.consecutive n with
    before | ⟨a, found⟩ | empty | ahead
  · exact absurd (inside.symm.trans before) Bool.false_ne_true
  · obtain ⟨member, rfl⟩ := (find?_eq_some_iff wellFormed.consecutive n a).mp found
    rcases perform_advances_or_put wellFormed ok with ⟨-, advances⟩ | ⟨new, rfl, put⟩
    · obtain ⟨b, stays, grows⟩ := advances.kept a member
      have kept := not_evicted_of_mem after.consecutive stays
      rw [grows.sequence, gone] at kept
      cases kept
    · exact bare_of_dropped wellFormed two pending named member put after.consecutive gone
  · exact absurd empty nonempty
  · have reach := near n named
    have before := lt_lastSequence_of_evicted after.consecutive gone
    have newest := perform_lastSequence_le wellFormed positive nonempty ok
    omega

end Window

namespace Waiters

variable {τ : Type}

/-- A wait that has a window as its outcome at once has the one that it began with. -/
theorem wait_eq_ok {ws : Waiters τ} {tag : τ} {target : WaitTarget} {w v : Window}
    {clientLeft : Bool} (settled : (ws.wait tag target w clientLeft).2.1 = some (.ok v)) : v = w := by
  unfold wait at settled
  split at settled
  · cases settled
  · split at settled
    · cases settled
    · split at settled
      · cases settled
        rfl
      · cases settled
      · cases settled

end Waiters

namespace Stream

variable {s t : Stream}

/-- Nobody waits for more than the segment after the last, and no window that a request goes on
with is ahead of the current one. -/
structure Abreast (s : Stream) : Prop where
  parked : ∀ waiter ∈ s.waiters.parked, waiter.target.Near s.window
  released : ∀ ticket w, .resume ticket (.ok w) ∈ s.turns →
    ∀ a ∈ w.segments, (a.sequence : Int) ≤ s.window.lastSequence

theorem Abreast.relay (h : s.Abreast) (request steps : Nat) (outcome : Outcome) :
    (s.enqueue (.relay request steps outcome)).Abreast := by
  refine ⟨h.parked, fun ticket w member => ?_⟩
  rcases List.mem_append.mp member with earlier | new
  · exact h.released ticket w earlier
  · cases List.mem_singleton.mp new

theorem Abreast.waitFor (h : s.Abreast) (consistent : s.Consistent) {target : WaitTarget}
    (near : target.Near s.window) (ticket : Ticket) : (s.waitFor ticket target).1.Abreast := by
  unfold Stream.waitFor
  rcases s.waiters.wait_cases ticket target s.window (s.left.contains ticket.request) with
    ⟨outcome, same, -⟩ | ⟨-, -, -, log, same⟩
  · have settled := congrArg (fun result => result.2.1) same
    rw [same]
    refine ⟨h.parked, fun other w member a inside => ?_⟩
    rcases List.mem_append.mp member with earlier | new
    · exact h.released other w earlier a inside
    · cases List.mem_singleton.mp new
      rw [Waiters.wait_eq_ok settled] at inside
      exact Window.le_lastSequence consistent.wellFormed.consecutive inside
  · rw [same]
    refine ⟨fun waiter member => ?_, h.released⟩
    rcases List.mem_append.mp member with earlier | new
    · exact h.parked waiter earlier
    · rw [List.mem_singleton.mp new]
      exact near

theorem Abreast.serveFrom (h : s.Abreast) (consistent : s.Consistent) {a : Segment}
    (inside : (a.sequence : Int) ≤ s.window.lastSequence) (request : Nat)
    (range : Option ByteRange) : (s.serveFrom request a range).1.Abreast := by
  unfold Stream.serveFrom
  cases SegmentRequest.judge a range s.settings with
  | answer outcome => exact h.relay request 2 _
  | hold offset =>
      refine h.waitFor consistent ?_ _
      rintro n ⟨⟩
      omega

theorem sequence?_of_planNext {n : Int} {part : Option Int} {limit : PartLimit}
    {target : WaitTarget} (planned : PlaylistRequest.planNext n part limit = .wait target) :
    target.sequence? = some n := by
  unfold PlaylistRequest.planNext at planned
  split at planned
  · cases planned
    rfl
  · split_ifs at planned
    cases planned
    rfl

theorem sequence?_of_planPresent {a : Segment} {n last : Int} {part : Option Int}
    {limit : PartLimit} {target : WaitTarget}
    (planned : PlaylistRequest.planPresent a n last part limit = .wait target) :
    target.sequence? = some n := by
  unfold PlaylistRequest.planPresent at planned
  split at planned
  · split_ifs at planned
    cases planned
    rfl
  · simp only at planned
    split_ifs at planned
    cases planned
    rfl

/-- A plan never waits for more than the segment after the last. -/
theorem near_of_plan {what : PlaylistRequest} {w : Window} {limit : PartLimit}
    {target : WaitTarget} (planned : what.plan w limit = .wait target) : target.Near w := by
  have near : ∀ n, target.sequence? = some n → n ≤ w.lastSequence + 1 → target.Near w := by
    intro n aimed reach m named
    rw [aimed] at named
    cases named
    exact reach
  unfold PlaylistRequest.plan at planned
  split at planned
  · split_ifs at planned
    cases planned
    exact nofun
  · simp only at planned
    split_ifs at planned with beyond gone next
    · exact near _ (sequence?_of_planNext planned) (Int.le_of_eq next)
    · split at planned
      · cases planned
      · exact near _ (sequence?_of_planPresent planned) (Int.not_lt.mp beyond)

theorem Abreast.playlist (h : s.Abreast) (consistent : s.Consistent) (request : Nat)
    (what : PlaylistRequest) : (s.playlist request what).1.Abreast := by
  unfold Stream.playlist
  split
  · exact h.relay request 0 _
  · cases planned : what.plan s.window s.settings.partLimit with
    | refuse fault => exact h.relay request 0 _
    | serve => exact h.relay request 0 _
    | wait target => exact h.waitFor consistent (near_of_plan planned) _

theorem Abreast.segment (h : s.Abreast) (consistent : s.Consistent) (request : Nat)
    (number : Numeral) (range : Option ByteRange) :
    (s.segment request number range).1.Abreast := by
  have inside : ∀ a, s.window.named? number = some a →
      (a.sequence : Int) ≤ s.window.lastSequence := by
    intro a found
    exact Window.le_lastSequence consistent.wellFormed.consecutive
      ((Window.named?_eq_some_iff consistent.wellFormed.consecutive number a).mp found).1
  unfold Stream.segment
  split
  · exact h.relay request 0 _
  · cases found : s.window.named? number with
    | some a => exact h.serveFrom consistent (inside a found) request range
    | none =>
        simp only
        split
        · exact h.relay request 0 _
        · refine h.waitFor consistent ?_ _
          rintro n ⟨⟩

theorem Abreast.resume (h : s.Abreast) (consistent : s.Consistent) (ticket : Ticket)
    (outcome : WaitOutcome)
    (handed : ∀ w, outcome = .ok w → ∀ a ∈ w.segments, (a.sequence : Int) ≤ s.window.lastSequence) :
    (s.resume ticket outcome).1.Abreast := by
  unfold Stream.resume
  cases ticket.stage with
  | playlist blocking => exact h.relay ticket.request 0 _
  | hold sequence range => exact h.relay ticket.request 1 _
  | appearance number range =>
      cases outcome with
      | error fault => exact h.relay ticket.request 0 _
      | ok w =>
          cases found : w.named? number with
          | none =>
              simp only [found]
              exact h.relay ticket.request 0 _
          | some a =>
              simp only [found]
              exact h.serveFrom consistent (handed w rfl a (Window.mem_of_named? found)) _ range

theorem Abreast.without (h : s.Abreast) (request : Nat) : (s.without request).Abreast :=
  ⟨h.parked, fun ticket w member => h.released ticket w (List.mem_of_mem_eraseP member)⟩

theorem Abreast.turn (h : s.Abreast) (consistent : s.Consistent) (request : Nat) :
    (s.step (.turn request)).Abreast := by
  cases found : s.turns.find? (·.request = request) with
  | none =>
      rw [(step_turn_none found).1]
      exact h
  | some next =>
      rw [(step_turn_some found).1]
      have others := h.without request
      have steady : (s.without request).Consistent := (Reads.pass _).consistent consistent
      cases next with
      | resume ticket outcome =>
          refine others.resume steady ticket outcome ?_
          rintro w rfl
          exact h.released ticket w (List.mem_of_find?_eq_some found)
      | relay asker steps outcome =>
          cases steps with
          | zero => exact others
          | succ steps => exact others.relay asker steps outcome

theorem Abreast.produced {call : ProducerCall} {now : Int} {w : Window} (h : s.Abreast)
    (consistent : s.Consistent)
    (made : s.window.perform s.buffer.stream s.buffer.capacity now call = .ok w) :
    (s.produced now w call.event).Abreast := by
  obtain ⟨after, dropped, advances⟩ :=
    Window.perform_advances consistent.positive consistent.wellFormed made
  have forward := advances.lastSequence_le
  refine ⟨?_, ?_⟩
  · intro waiter member
    obtain ⟨old, there, -, rfl⟩ := (Waiters.mem_judge_left _ w _ _ waiter).mp member
    exact (h.parked old there).mono forward
  · intro ticket v member a inside
    rcases List.mem_append.mp member with earlier | new
    · exact Int.le_trans (h.released ticket v earlier a inside) forward
    · obtain ⟨⟨tag, outcome⟩, released, same⟩ := List.mem_map.mp new
      cases same
      rw [Waiters.broadcast_released, Waiters.judge_released] at released
      obtain ⟨waiter, -, settled⟩ := List.mem_filterMap.mp released
      obtain ⟨outcome, judged, same⟩ := Option.map_eq_some_iff.mp settled
      cases same
      obtain ⟨-, rfl⟩ := Verdict.eq_ready_of_outcome? judged
      exact Window.le_lastSequence after.consecutive inside

/-- Whoever goes on with a fault goes on with no window. -/
theorem Abreast.faulted (h : s.Abreast) {parked : List (Waiter Ticket)}
    (fewer : parked ⊆ s.waiters.parked) {released : List (Ticket × WaitOutcome)}
    (faults : ∀ ticket w, (ticket, .ok w) ∉ released) (t : Stream)
    (window : t.window = s.window) (waiters : t.waiters.parked = parked)
    (turns : t.turns = s.turns ++ released.map fun (ticket, outcome) => .resume ticket outcome) :
    t.Abreast := by
  refine ⟨?_, ?_⟩
  · intro waiter member
    rw [window]
    exact h.parked waiter (fewer (waiters ▸ member))
  · intro ticket w member a inside
    rw [window]
    rw [turns] at member
    rcases List.mem_append.mp member with earlier | new
    · exact h.released ticket w earlier a inside
    · obtain ⟨⟨tag, outcome⟩, there, same⟩ := List.mem_map.mp new
      cases same
      exact absurd there (faults ticket w)

theorem Abreast.step (h : s.Abreast) (consistent : s.Consistent) (event : Event) :
    (s.step event).Abreast := by
  cases event with
  | call call now =>
      cases done : s.perform now call with
      | error fault =>
          rw [step_call_error done]
          exact h
      | ok result =>
          obtain ⟨t, log⟩ := result
          obtain ⟨-, w, made, rfl⟩ := perform_ok done
          rw [step_call_ok done]
          exact h.produced consistent made
  | stop =>
      rw [step_stop]
      split
      · exact h
      · refine h.faulted (List.nil_subset _) ?_ s.halted rfl rfl rfl
        intro ticket w member
        obtain ⟨waiter, -, same⟩ := List.mem_map.mp member
        cases same
  | leave request =>
      refine h.faulted (List.filter_subset_self _) ?_ (s.abandon request).1 rfl rfl rfl
      intro ticket w member
      obtain ⟨waiter, -, same⟩ := List.mem_map.mp member
      cases same
  | playlist request what => exact h.playlist consistent request what
  | segment request number range => exact h.segment consistent request number range
  | turn request => exact h.turn consistent request

theorem run_abreast (h : s.Abreast) (consistent : s.Consistent) (events : List Event) :
    (s.run events).Abreast := by
  induction events generalizing s with
  | nil => exact h
  | cons event events ih =>
      exact ih (h.step consistent event) ((s.step_moves event).consistent consistent)

/-! ### Segments without a part -/

/-- A call of the run seals an open segment that has no part, by itself or because it starts the
next segment. -/
def SealsBare (s : Stream) (events : List Event) : Prop :=
  ∃ sooner call now t log a, sooner ++ [.call call now] <+: events ∧
    (s.run sooner).perform now call = .ok (t, log) ∧ a ∈ (s.run sooner).window.segments ∧
    a.complete = false ∧ a.parts = [] ∧
    ∀ b ∈ t.window.segments, b.sequence = a.sequence → b.complete = true

theorem SealsBare.mono {events more : List Event} (bare : s.SealsBare events)
    (front : events <+: more) : s.SealsBare more := by
  obtain ⟨sooner, call, now, t, log, a, inside, rest⟩ := bare
  exact ⟨sooner, call, now, t, log, a, inside.trans front, rest⟩

/-- A segment that is sealed without a part was sealed so by a call. -/
theorem sealsBare_of_bare (consistent : s.Consistent) (empty : s.window.segments = [])
    (events : List Event) {b : Segment} (member : b ∈ (s.run events).window.segments)
    (complete : b.complete = true) (bare : b.partCount = 0) : s.SealsBare events := by
  induction events using List.reverseRecOn generalizing b with
  | nil =>
      rw [show (s.run []).window.segments = [] from empty] at member
      cases member
  | append_singleton events event ih =>
      have steady := run_consistent consistent events
      have front : events <+: events ++ [event] := List.prefix_append _ _
      have last : s.run (events ++ [event]) = (s.run events).step event := run_append ..
      rw [last] at member
      rcases ((s.run events).step_moves event).window with same | ⟨call, now, rfl, running, made⟩
      · rw [same] at member
        exact (ih member complete bare).mono front
      · obtain ⟨log, ok⟩ := perform_made running made
        have sequences := (Window.perform_advances steady.positive steady.wellFormed made).1
        rcases Window.perform_becomes steady.wellFormed.consecutive made b member with
          ⟨a, old, becomes⟩ | ⟨new, sequence, -, rfl, -⟩
        · have grows := becomes.grows
          cases opened : a.complete with
          | true =>
              rw [grows.complete opened] at complete bare
              exact (ih old complete bare).mono front
          | false =>
              have partless : a.parts = [] :=
                List.eq_nil_of_length_eq_zero (Nat.le_zero.mp (bare ▸ grows.partCount))
              refine ⟨events, call, now, _, log, a, List.prefix_rfl, ok, old, opened, partless, ?_⟩
              intro c there same
              obtain rfl := Window.eq_of_sequence sequences.consecutive there member
                (same.trans grows.sequence.symm)
              exact complete
        · cases complete

/-! ### Requests that are turned away -/

/-- The request is parked while the window holds a segment. -/
structure HeldInside (s : Stream) (ticket : Ticket) (target : WaitTarget) : Prop where
  awaits : s.Awaits ticket target
  nonempty : s.window.segments ≠ []

/-- A call that ends a wait with a fault leaves a window that rejects the target of a waiter. -/
theorem rejected_of_settles {call : ProducerCall} {now : Int} {ticket : Ticket}
    {target : WaitTarget} {fault : Fault}
    (settles : Settles s (s.step (.call call now)) ticket target (.error fault)) :
    ∃ w, s.window.perform s.buffer.stream s.buffer.capacity now call = .ok w ∧
      (s.step (.call call now)).window = w ∧
      ∃ waiter ∈ s.waiters.parked,
        waiter.target.evaluate w (some call.event) = .rejected fault := by
  obtain ⟨turns, more, resumes⟩ := settles.resumes
  cases done : s.perform now call with
  | error refused =>
      rw [step_call_error done] at more
      rw [List.self_eq_append_right.mp more] at resumes
      cases resumes
  | ok result =>
      obtain ⟨t, log⟩ := result
      obtain ⟨-, w, made, rfl⟩ := perform_ok done
      rw [step_call_ok done] at more
      rw [← List.append_cancel_left more, Waiters.broadcast_released, Waiters.judge_released]
        at resumes
      obtain ⟨⟨tag, outcome⟩, released, same⟩ := List.mem_map.mp resumes
      cases same
      obtain ⟨waiter, member, settled⟩ := List.mem_filterMap.mp released
      obtain ⟨outcome, judged, same⟩ := Option.map_eq_some_iff.mp settled
      cases same
      refine ⟨w, made, congrArg Stream.window (step_call_ok done), waiter, member, ?_⟩
      cases verdict : waiter.target.evaluate w (some call.event) with
      | pending =>
          rw [verdict] at judged
          cases judged
      | ready =>
          rw [verdict] at judged
          cases judged
      | rejected other =>
          rw [verdict] at judged
          cases judged
          rfl

/-- A broadcast turns a request away that was parked inside a window only because its segment has
been dropped, and that takes a window of one segment or a segment that was sealed without a part.
With room for two segments, and a part in each that is sealed, nobody who waits is turned away. -/
theorem turned_away_needs_bare_seal {id : String} {settings : Settings} {size : Float} {now : Int}
    {start : Stream} (created : Stream.create id settings size now = .ok start)
    (before later : List Event) {ticket : Ticket} {target : WaitTarget}
    (held : (start.run before).HeldInside ticket target) {call : ProducerCall} {moment : Int}
    {fault : Fault}
    (settles : let s := start.run (before ++ later)
      Settles s (s.step (.call call moment)) ticket target (.error fault)) :
    (∃ n, fault = .evicted (.whole n)) ∧
      (Binary64.integer? size = some 1 ∨
        start.SealsBare (before ++ later ++ [.call call moment])) := by
  have consistent := create_consistent created
  obtain ⟨capacity, positive, whole, fresh⟩ :=
    (create_eq_ok_iff id settings size now start).mp created
  have steady := run_consistent consistent (before ++ later)
  have nonempty : (start.run (before ++ later)).window.segments ≠ [] := by
    rw [run_append]
    exact run_nonempty (run_consistent consistent before) held.nonempty later
  have abreast : (start.run (before ++ later)).Abreast := by
    refine run_abreast ?_ consistent _
    rw [fresh]
    exact ⟨fun waiter member => absurd member List.not_mem_nil,
      fun ticket w member => absurd member List.not_mem_nil⟩
  obtain ⟨w, made, moved, waiter, member, rejected⟩ := rejected_of_settles settles
  obtain ⟨n, -, -, same⟩ := WaitTarget.evaluate_eq_rejected rejected
  refine ⟨⟨n, same⟩, ?_⟩
  have room : (start.run (before ++ later)).buffer.capacity = capacity := by
    rw [run_capacity, fresh]
    rfl
  rcases Nat.lt_or_eq_of_le positive with two | one
  · obtain ⟨a, inside, complete, bare⟩ :=
      Window.bare_of_rejected steady.wellFormed (room.symm ▸ two) nonempty
        (abreast.parked waiter member) (steady.pending waiter member) made rejected
    have empty : start.window.segments = [] := by
      rw [fresh]
      rfl
    refine .inr (sealsBare_of_bare consistent empty _ ?_ complete bare)
    rw [run_append]
    exact moved.symm ▸ inside
  · rw [← one] at whole
    exact .inl whole

/-- In a window of two the second segment is sealed without a part, so the third turns away the
request for the part behind the first. -/
theorem turned_away_needs_bare_seal_of_two :
    let before : List Event := [.call (.put ⟨.whole 0, [], none, false⟩) 1,
      .call (.append (.whole 0) ⟨1.0, true, [7]⟩ false) 2, .playlist 0 ⟨some 0, some 1⟩]
    let later : List Event := [.call (.put ⟨.whole 1, [], none, false⟩) 3]
    let next : Event := .call (.put ⟨.whole 2, [], none, false⟩) 4
    let s := (plain 2).run (before ++ later)
    Stream.create "live" plainSettings 2.0 0 = .ok (plain 2) ∧
    ((plain 2).run before).HeldInside ⟨0, .playlist true⟩ (.part 0 1) ∧
    Settles s (s.step next) ⟨0, .playlist true⟩ (.part 0 1) (.error (.evicted (.whole 0))) ∧
    (plain 2).SealsBare (before ++ later ++ [next]) := by
  intro before later next s
  have created := @create_plain 2.0 2 (by decide) (by decide)
  have held : ((plain 2).run before).HeldInside ⟨0, .playlist true⟩ (.part 0 1) :=
    ⟨⟨_, .head _, rfl, rfl⟩, by decide⟩
  have waits : s.Awaits ⟨0, .playlist true⟩ (.part 0 1) := ⟨_, .head _, rfl, rfl⟩
  have settles : Settles s (s.step next) ⟨0, .playlist true⟩ (.part 0 1)
      (.error (.evicted (.whole 0))) := by
    have made : s.step next = s.produced 4 _ .put := step_produced rfl rfl
    rw [made]
    exact produced_settles waits rfl
  have roomy : Binary64.integer? 2.0 ≠ some 1 := by decide
  have turned := turned_away_needs_bare_seal created before later held settles
  exact ⟨created, held, settles, turned.2.resolve_left roomy⟩

end Stream

end LiveHls
