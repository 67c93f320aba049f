import Mathlib.Algebra.GroupWithZero.Nat
import LiveHls.Proofs.Stream.Course
/-! No request is forgotten. A stream knows a request while it is parked or has a turn to come, and
nothing but the delivery of its outcome makes the stream forget it. With each turn that is taken less
is left to do. -/
namespace LiveHls.Stream

variable {s t : Stream} {request bound : Nat}

/-- A request is parked or has a turn to come. -/
def Knows (s : Stream) (request : Nat) : Prop :=
  (∃ waiter ∈ s.waiters.parked, waiter.tag.request = request) ∨ ∃ turn ∈ s.turns, turn.request = request

/-- A stream takes a request in: it is parked, or it has a turn to come that leads to less than so many
turns. -/
inductive Learns (s : Stream) (request bound : Nat) (t : Stream) : Prop
  | queued (turn : Turn) (own : turn.request = request) (less : turn.work < bound)
      (turns : t.turns = s.turns ++ [turn]) (parked : t.waiters.parked = s.waiters.parked)
  | parked (waiter : Waiter Ticket) (own : waiter.tag.request = request) (turns : t.turns = s.turns)
      (parked : t.waiters.parked = s.waiters.parked ++ [waiter])

theorem Learns.mono {more : Nat} (learns : s.Learns request bound t) (le : bound ≤ more) :
    s.Learns request more t := by
  cases learns with
  | queued turn own less turns parked =>
      exact .queued turn own (Nat.lt_of_lt_of_le less le) turns parked
  | parked waiter own turns parked => exact .parked waiter own turns parked

theorem Learns.knows (learns : s.Learns request bound t) : t.Knows request := by
  cases learns with
  | queued turn own less turns parked => exact .inr ⟨turn, by simp [turns], own⟩
  | parked waiter own turns parked => exact .inl ⟨waiter, by simp [parked], own⟩

theorem Learns.keeps {other : Nat} (learns : s.Learns request bound t) (known : s.Knows other) :
    t.Knows other := by
  cases learns with
  | queued turn own less turns parked =>
      rw [Knows, turns, parked]
      exact known.imp_right fun ⟨earlier, member, mine⟩ =>
        ⟨earlier, List.mem_append_left _ member, mine⟩
  | parked waiter own turns parked =>
      rw [Knows, turns, parked]
      exact known.imp_left fun ⟨earlier, member, mine⟩ =>
        ⟨earlier, List.mem_append_left _ member, mine⟩

theorem Learns.grows (learns : s.Learns request bound t) : s.turns <+: t.turns := by
  cases learns with
  | queued turn own less turns parked => exact turns ▸ List.prefix_append ..
  | parked waiter own turns parked => exact turns ▸ List.prefix_rfl

theorem enqueue_learns (s : Stream) {turn : Turn} (less : turn.work < bound) :
    s.Learns turn.request bound (s.enqueue turn) := .queued turn rfl less rfl rfl

theorem relay_learns (s : Stream) (request : Nat) {steps : Nat} (less : steps + 1 < bound)
    (outcome : Outcome) : s.Learns request bound (s.enqueue (.relay request steps outcome)) :=
  @enqueue_learns bound s (.relay request steps outcome) less

theorem waitFor_learns (s : Stream) {ticket : Ticket}
    (less : ∀ outcome, (Turn.resume ticket outcome).work < bound) (target : WaitTarget) :
    s.Learns ticket.request bound (s.waitFor ticket target).1 := by
  rw [waitFor_eq]
  cases s.answered? ticket.request target with
  | some outcome => exact s.enqueue_learns (less outcome)
  | none => exact .parked ⟨ticket, target, target.key s.window⟩ rfl rfl rfl

theorem serveFrom_learns (s : Stream) (request : Nat) (a : Segment) (range : Option ByteRange) :
    s.Learns request 4 (s.serveFrom request a range).1 := by
  unfold serveFrom
  cases SegmentRequest.judge a range s.settings with
  | answer outcome => exact s.relay_learns request (by decide) _
  | hold offset =>
      exact @waitFor_learns 4 s ⟨request, .hold a.sequence range⟩ (fun _ => Nat.lt_succ_self 3) _

theorem playlist_learns (s : Stream) (request : Nat) (what : PlaylistRequest) :
    s.Learns request 5 (s.playlist request what).1 := by
  unfold playlist
  split
  · exact s.relay_learns request (by decide) _
  · cases what.plan s.window s.settings.partLimit with
    | refuse fault => exact s.relay_learns request (by decide) _
    | serve => exact s.relay_learns request (by decide) _
    | wait target =>
        exact @waitFor_learns 5 s ⟨request, .playlist what.isBlocking⟩
          (fun _ => (by decide : 2 < 5)) target

theorem segment_learns (s : Stream) (request : Nat) (number : Numeral) (range : Option ByteRange) :
    s.Learns request 5 (s.segment request number range).1 := by
  unfold segment
  split
  · exact s.relay_learns request (by decide) _
  · cases s.window.named? number with
    | some a => exact (s.serveFrom_learns request a range).mono (Nat.le_succ 4)
    | none =>
        simp only
        split
        · exact s.relay_learns request (by decide) _
        · exact @waitFor_learns 5 s ⟨request, .appearance number range⟩
            (fun _ => Nat.lt_succ_self 4) .production

theorem asks_learns {event : Event} (asks : event.asks = some request) :
    s.Learns request 5 (s.step event) := by
  cases event with
  | playlist asker what =>
      cases asks
      exact s.playlist_learns request what
  | segment asker number range =>
      cases asks
      exact s.segment_learns request number range
  | call call now | stop | leave asker | turn asker => cases asks

theorem resume_learns (s : Stream) (ticket : Ticket) (outcome : WaitOutcome) :
    s.Learns ticket.request (Turn.resume ticket outcome).work (s.resume ticket outcome).1 := by
  obtain ⟨request, stage⟩ := ticket
  unfold resume
  cases stage with
  | playlist blocking => exact s.relay_learns request (Nat.lt_succ_self 1) _
  | hold sequence range => exact s.relay_learns request (Nat.lt_succ_self 2) _
  | appearance number range =>
      have refused (outcome : Outcome) : s.Learns request 4 (s.enqueue (.relay request 0 outcome)) :=
        s.relay_learns request (by decide) outcome
      cases outcome with
      | error fault => exact refused _
      | ok w =>
          cases found : w.named? number with
          | some a =>
              simp only [found]
              exact s.serveFrom_learns request a range
          | none =>
              simp only [found]
              exact refused _

/-- A turn that does not deliver an outcome leaves its request with another, which leads to fewer
turns, or parked. -/
theorem take_cases (s : Stream) (turn : Turn) :
    (s.take turn = s ∧ ∃ outcome, turn.arrives? = some (turn.request, outcome)) ∨
      s.Learns turn.request turn.work (s.take turn) := by
  cases turn with
  | resume ticket outcome => exact .inr (s.resume_learns ticket outcome)
  | relay request steps outcome =>
      cases steps with
      | zero => exact .inl ⟨rfl, outcome, rfl⟩
      | succ steps => exact .inr (s.relay_learns request (Nat.lt_succ_self (steps + 1)) outcome)

/-- Whoever no longer waits has a turn to come. -/
theorem Knows.released (known : s.Knows request) {released : List (Ticket × WaitOutcome)}
    (turns : t.turns = s.turns ++ released.map fun (ticket, outcome) => .resume ticket outcome)
    (each : ∀ waiter ∈ s.waiters.parked, (∃ stays ∈ t.waiters.parked, stays.tag = waiter.tag) ∨
      ∃ outcome, (waiter.tag, outcome) ∈ released) : t.Knows request := by
  rcases known with ⟨waiter, member, own⟩ | ⟨turn, member, own⟩
  · rcases each waiter member with ⟨stays, there, same⟩ | ⟨outcome, there⟩
    · exact .inl ⟨stays, there, by rw [same, own]⟩
    · refine .inr ⟨.resume waiter.tag outcome, ?_, own⟩
      rw [turns]
      exact List.mem_append_right _ (List.mem_map.mpr ⟨_, there, rfl⟩)
  · exact .inr ⟨turn, turns ▸ List.mem_append_left _ member, own⟩

theorem Knows.produced (known : s.Knows request) (now : Int) (w : Window) (event : Production) :
    (s.produced now w event).Knows request := by
  refine known.released rfl fun waiter member => ?_
  cases verdict : waiter.target.evaluate w (some event) with
  | pending =>
      exact .inl ⟨_, (Waiters.mem_judge_left _ w event _ _).mpr ⟨waiter, member, verdict, rfl⟩, rfl⟩
  | ready | rejected fault =>
      right
      rw [Waiters.broadcast_released, Waiters.judge_released]
      exact ⟨_, List.mem_filterMap.mpr ⟨waiter, member, by rw [verdict]; rfl⟩⟩

theorem Knows.turn (known : s.Knows request) {taker : Nat}
    (undelivered : ∀ outcome, s.delivery (.turn taker) ≠ some (request, outcome)) :
    (s.step (.turn taker)).Knows request := by
  cases found : s.turns.find? (·.request = taker) with
  | none =>
      rw [(step_turn_none found).1]
      exact known
  | some next =>
      obtain ⟨step, delivery⟩ := step_turn_some found
      obtain rfl : next.request = taker := by simpa using List.find?_some found
      rw [delivery] at undelivered
      rw [step]
      by_cases own : next.request = request
      · -- the request takes its turn and has another or is parked, since it has not been delivered
        rcases (s.without next.request).take_cases next with ⟨-, outcome, arrives⟩ | learns
        · exact absurd (own ▸ arrives) (undelivered outcome)
        · exact own ▸ learns.knows
      · have others : (s.without next.request).Knows request := by
          refine known.imp_right fun ⟨turn, member, mine⟩ => ⟨turn, ?_, mine⟩
          exact (List.mem_eraseP_of_neg (by simpa [mine] using Ne.symm own)).mpr member
        rcases (s.without next.request).take_cases next with ⟨same, -⟩ | learns
        · rwa [same]
        · exact learns.keeps others

/-- A stream forgets a request only when it delivers its outcome. -/
theorem Knows.step (known : s.Knows request) {event : Event}
    (undelivered : ∀ outcome, s.delivery event ≠ some (request, outcome)) :
    (s.step event).Knows request := by
  cases event with
  | call call now =>
      cases done : s.perform now call with
      | error fault =>
          rw [step_call_error done]
          exact known
      | ok result =>
          obtain ⟨t, log⟩ := result
          obtain ⟨-, w, -, rfl⟩ := perform_ok done
          rw [step_call_ok done]
          exact known.produced now w call.event
  | stop =>
      rw [step_stop]
      split
      · exact known
      · refine known.released rfl fun waiter member => .inr ⟨_, List.mem_map.mpr ⟨waiter, member, rfl⟩⟩
  | leave leaver =>
      refine known.released rfl fun waiter member => ?_
      by_cases leaves : waiter.tag.request = leaver
      · exact .inr ⟨_, List.mem_map.mpr
          ⟨waiter, List.mem_filter.mpr ⟨member, by simpa using leaves⟩, rfl⟩⟩
      · exact .inl ⟨waiter, List.mem_filter.mpr ⟨member, by simpa using leaves⟩, rfl⟩
  | playlist asker what => exact (s.playlist_learns asker what).keeps known
  | segment asker number range => exact (s.segment_learns asker number range).keeps known
  | turn taker => exact known.turn undelivered

/-! ### Clients that have left -/

/-- Nobody waits whose client has left. -/
def Present (s : Stream) : Prop := ∀ waiter ∈ s.waiters.parked, waiter.tag.request ∉ s.left

theorem Reads.present (h : s.Present) (reads : Reads s t) : t.Present := by
  cases reads with
  | pass turns => exact h
  | @park turns ticket target parkable =>
      have present : ticket.request ∉ s.left := by simpa using parkable.present
      exact List.forall_mem_append.mpr ⟨h, List.forall_mem_singleton.mpr present⟩

theorem Moves.present {event : Event} (h : s.Present) (moves : Moves s event t) : t.Present := by
  cases moves with
  | produced running made =>
      intro waiter member
      obtain ⟨old, there, -, rfl⟩ := (Waiters.mem_judge_left _ _ _ _ waiter).mp member
      exact h old there
  | refused failed => exact h
  | halted running => exact List.forall_mem_nil _
  | idle stopped => exact h
  | left request =>
      intro waiter member gone
      obtain ⟨there, stays⟩ := List.mem_filter.mp member
      rcases List.mem_cons.mp gone with own | earlier
      · simp [own] at stays
      · exact h waiter there earlier
  | playlist reads => exact reads.present h
  | segment reads => exact reads.present h
  | turn reads => exact reads.present h

/-! ### Turns that are left -/

/-- Only by taking turns a stream has fewer of them. -/
theorem step_grows (s : Stream) {event : Event} (other : ∀ taker, event ≠ .turn taker) :
    s.turns <+: (s.step event).turns := by
  cases event with
  | call call now =>
      cases done : s.perform now call with
      | error fault =>
          have same : s.step (.call call now) = s := step_call_error done
          exact same.symm ▸ List.prefix_rfl
      | ok result =>
          obtain ⟨t, log⟩ := result
          obtain ⟨-, w, -, rfl⟩ := perform_ok done
          rw [step_call_ok done]
          exact List.prefix_append ..
  | stop =>
      rw [step_stop]
      split
      · exact List.prefix_rfl
      · exact List.prefix_append ..
  | leave leaver => exact List.prefix_append ..
  | playlist asker what => exact (s.playlist_learns asker what).grows
  | segment asker number range => exact (s.segment_learns asker number range).grows
  | turn taker => exact absurd rfl (other taker)

theorem total_eq_sum (numbers : List Nat) : total numbers = numbers.sum :=
  List.sum_eq_foldl.symm

/-- The first turn has been taken: there is one turn fewer, or as many with less work to do. -/
theorem step_first {next : Turn} {rest : List Turn} (turns : s.turns = next :: rest) :
    rest <+: (s.step (.turn next.request)).turns ∧
      (s.step (.turn next.request)).turns.length ≤ s.turns.length ∧
      (s.step (.turn next.request)).work < s.work := by
  have found : s.turns.find? (·.request = next.request) = some next := by simp [turns]
  have others : (s.without next.request).turns = rest := by simp [without, turns]
  have positive : 0 < next.work := by
    cases next with
    | relay request steps outcome => exact Nat.succ_pos steps
    | resume ticket outcome =>
        obtain ⟨request, stage⟩ := ticket
        cases stage with
        | playlist blocking | hold sequence range | appearance number range => exact Nat.succ_pos _
  have work : s.work = next.work + (rest.map Turn.work).sum := by
    rw [Stream.work, total_eq_sum, turns, List.map_cons, List.sum_cons]
  rw [(step_turn_some found).1, work, Stream.work, total_eq_sum, turns, List.length_cons]
  rcases (s.without next.request).take_cases next with ⟨same, -⟩ | learns
  · rw [same, others]
    exact ⟨List.prefix_rfl, Nat.le_succ _, by omega⟩
  · cases learns with
    | queued turn own less turns parked =>
        rw [turns, others]
        refine ⟨List.prefix_append .., by simp, ?_⟩
        rw [List.map_append, List.sum_append, List.map_singleton, List.sum_singleton]
        omega
    | parked waiter own turns parked =>
        rw [turns, others]
        exact ⟨List.prefix_rfl, Nat.le_succ _, by omega⟩

end LiveHls.Stream
