import LiveHls.Proofs.Stream.Course
/-! Readers do not disturb each other. A stream that knows of some of its requests only does at each
event of theirs what the stream itself does, and nothing at the events of the others. So neither the
producer nor a reader can tell which other requests have been made. -/
namespace LiveHls

/-- The request that an event belongs to. What the producer does belongs to none. -/
def Event.request? : Event → Option Nat
  | .call .. | .stop => none
  | .playlist request _ | .segment request .. | .leave request | .turn request => some request

namespace Stream

/-- The events of a run without those of the requests that are not kept. -/
def spared (kept : Nat → Bool) (events : List Event) : List Event :=
  events.filter fun event => event.request?.all kept

/-- The stream with what it knows of the kept requests only. -/
def restrict (kept : Nat → Bool) (s : Stream) : Stream :=
  { s with
    buffer := { s.buffer with
      waiters := { s.waiters with parked := s.waiters.parked.filter (kept ·.tag.request) } }
    left := s.left.filter kept
    turns := s.turns.filter (kept ·.request) }

variable {kept : Nat → Bool} {s : Stream} {request : Nat}

theorem spared_cons (event : Event) (events : List Event) :
    spared kept (event :: events) =
      if event.request?.all kept then event :: spared kept events else spared kept events :=
  List.filter_cons

theorem restrict_window (s : Stream) : (s.restrict kept).window = s.window := rfl

theorem restrict_settings (s : Stream) : (s.restrict kept).settings = s.settings := rfl

theorem restrict_stopped (s : Stream) : (s.restrict kept).stopped = s.stopped := rfl

/-! ### Readers -/

theorem restrict_enqueue (s : Stream) (turn : Turn) :
    (s.enqueue turn).restrict kept =
      if kept turn.request then (s.restrict kept).enqueue turn else s.restrict kept := by
  cases stays : kept turn.request with
  | true => simp [restrict, enqueue, stays, waiters]
  | false => simp [restrict, enqueue, stays, waiters]

theorem restrict_park (s : Stream) (ticket : Ticket) (target : WaitTarget) :
    (s.park ticket target).restrict kept =
      if kept ticket.request then (s.restrict kept).park ticket target else s.restrict kept := by
  cases stays : kept ticket.request with
  | true => simp [restrict, park, stays, waiters, window]
  | false => simp [restrict, park, stays, waiters]

theorem restrict_answered? (stays : kept request = true) (target : WaitTarget) :
    (s.restrict kept).answered? request target = s.answered? request target := by
  have left : (s.left.filter kept).contains request = s.left.contains request := by
    simp [stays]
  unfold answered?
  simp only [restrict, window, waiters, left]

theorem restrict_waitFor (s : Stream) (ticket : Ticket) (target : WaitTarget) :
    (s.waitFor ticket target).1.restrict kept =
      if kept ticket.request then ((s.restrict kept).waitFor ticket target).1
      else s.restrict kept := by
  have parked := @restrict_park kept s ticket target
  rw [waitFor_eq, waitFor_eq]
  cases stays : kept ticket.request with
  | true =>
      rw [restrict_answered? stays]
      cases s.answered? ticket.request target with
      | some outcome => exact (restrict_enqueue ..).trans (if_pos stays)
      | none => exact parked.trans (if_pos stays)
  | false =>
      cases s.answered? ticket.request target with
      | some outcome => exact (restrict_enqueue ..).trans (if_neg (Bool.eq_false_iff.mp stays))
      | none => exact parked.trans (if_neg (Bool.eq_false_iff.mp stays))

theorem restrict_serveFrom (s : Stream) (request : Nat) (a : Segment) (range : Option ByteRange) :
    (s.serveFrom request a range).1.restrict kept =
      if kept request then ((s.restrict kept).serveFrom request a range).1
      else s.restrict kept := by
  unfold serveFrom
  rw [restrict_settings]
  cases SegmentRequest.judge a range s.settings with
  | answer outcome => exact s.restrict_enqueue _
  | hold offset => exact s.restrict_waitFor _ _

theorem restrict_playlist (s : Stream) (request : Nat) (what : PlaylistRequest) :
    (s.playlist request what).1.restrict kept =
      if kept request then ((s.restrict kept).playlist request what).1 else s.restrict kept := by
  unfold playlist
  rw [restrict_stopped, restrict_window, restrict_settings]
  split
  · exact s.restrict_enqueue _
  · cases what.plan s.window s.settings.partLimit with
    | refuse fault => exact s.restrict_enqueue _
    | serve => exact s.restrict_enqueue _
    | wait target => exact s.restrict_waitFor _ _

theorem restrict_segment (s : Stream) (request : Nat) (number : Numeral)
    (range : Option ByteRange) :
    (s.segment request number range).1.restrict kept =
      if kept request then ((s.restrict kept).segment request number range).1
      else s.restrict kept := by
  unfold segment
  rw [restrict_stopped, restrict_window]
  split
  · exact s.restrict_enqueue _
  · cases s.window.named? number with
    | some a => exact s.restrict_serveFrom ..
    | none =>
        simp only
        split
        · exact s.restrict_enqueue _
        · exact s.restrict_waitFor _ _

theorem restrict_resume (s : Stream) (ticket : Ticket) (outcome : WaitOutcome) :
    (s.resume ticket outcome).1.restrict kept =
      if kept ticket.request then ((s.restrict kept).resume ticket outcome).1
      else s.restrict kept := by
  unfold resume
  cases ticket.stage with
  | playlist blocking => exact s.restrict_enqueue _
  | hold sequence range => exact s.restrict_enqueue _
  | appearance number range =>
      cases outcome with
      | error fault => exact s.restrict_enqueue _
      | ok w =>
          cases named : w.named? number with
          | some a =>
              simp only [named]
              exact s.restrict_serveFrom ..
          | none =>
              simp only [named]
              exact s.restrict_enqueue _

/-! ### Turns -/

theorem restrict_find? (stays : kept request = true) :
    (s.restrict kept).turns.find? (·.request = request) =
      s.turns.find? (·.request = request) := by
  change (s.turns.filter _).find? _ = _
  rw [List.find?_filter]
  congr 1
  funext turn
  by_cases own : turn.request = request
  · simp [own, stays]
  · simp [own]

theorem restrict_without (s : Stream) (taker : Nat) :
    (s.without taker).restrict kept =
      if kept taker then (s.restrict kept).without taker else s.restrict kept := by
  cases stays : kept taker with
  | true =>
      have turns : (s.turns.filter (kept ·.request)).eraseP (·.request = taker) =
          (s.turns.eraseP (·.request = taker)).filter (kept ·.request) := by
        rw [List.eraseP_filter]
        congr 2
        funext turn
        by_cases own : turn.request = taker
        · simp [own, stays]
        · simp [own]
      simp only [restrict, without, waiters, turns, if_true]
  | false =>
      -- the turn that is taken out is none of those that are left
      have turns : (s.turns.eraseP (·.request = taker)).filter (kept ·.request) =
          s.turns.filter (kept ·.request) := by
        rcases List.exists_or_eq_self_of_eraseP (·.request = taker) s.turns with
          same | ⟨first, before, after, -, taken, split, erased⟩
        · rw [same]
        · have own : first.request = taker := of_decide_eq_true taken
          rw [erased, split, List.filter_append, List.filter_append,
            List.filter_cons_of_neg (by simp [own, stays])]
      simp [restrict, without, waiters, turns]

theorem restrict_take (s : Stream) (next : Turn) :
    (s.take next).restrict kept =
      if kept next.request then (s.restrict kept).take next else s.restrict kept := by
  cases next with
  | resume ticket outcome => exact s.restrict_resume ..
  | relay asker steps outcome =>
      cases steps with
      | zero => exact (ite_self _).symm
      | succ steps => exact s.restrict_enqueue _

theorem restrict_turn (s : Stream) (taker : Nat) :
    (s.step (.turn taker)).restrict kept =
      if kept taker then (s.restrict kept).step (.turn taker) else s.restrict kept := by
  cases found : s.turns.find? (·.request = taker) with
  | none =>
      rw [(step_turn_none found).1]
      split
      · rename_i stays
        rw [(step_turn_none ((restrict_find? stays).trans found)).1]
      · rfl
  | some next =>
      obtain rfl : next.request = taker := by simpa using List.find?_some found
      rw [(step_turn_some found).1, restrict_take, restrict_without]
      split
      · rename_i stays
        rw [(step_turn_some ((restrict_find? stays).trans found)).1]
      · rfl

/-! ### The producer and clients that leave -/

/-- Released waiters go on as the requests that they are, so it is the same whether those that are
not kept are left out before or after. -/
theorem filter_resumes (settle : WaitTarget → Option WaitOutcome) (parked : List (Waiter Ticket)) :
    ((parked.filterMap fun waiter => (settle waiter.target).map (waiter.tag, ·)).map
        fun (ticket, outcome) => Turn.resume ticket outcome).filter (kept ·.request) =
      ((parked.filter (kept ·.tag.request)).filterMap fun waiter =>
          (settle waiter.target).map (waiter.tag, ·)).map
        fun (ticket, outcome) => Turn.resume ticket outcome := by
  induction parked with
  | nil => rfl
  | cons first rest ih =>
      cases settled : settle first.target with
      | none =>
          cases stays : kept first.tag.request with
          | true => simp [settled, stays, ih]
          | false => simp [settled, stays, ih]
      | some outcome =>
          cases stays : kept first.tag.request with
          | true => simp [settled, stays, ih]
          | false => simp [settled, stays, ih]

theorem restrict_produced (s : Stream) (now : Int) (w : Window) (event : Production) :
    (s.produced now w event).restrict kept = (s.restrict kept).produced now w event := by
  have turns := @filter_resumes kept
    (fun target => (target.evaluate w (some event)).outcome? w) s.waiters.parked
  simp only [restrict, produced, waiters, Waiters.broadcast, Waiters.judge_left,
    Waiters.judge_released, List.filter_append] at turns ⊢
  rw [turns, List.filter_map, List.filter_filter, List.filter_filter]
  simp only [Function.comp_def, Bool.and_comm]

theorem restrict_halted (s : Stream) : s.halted.restrict kept = (s.restrict kept).halted := by
  have turns := @filter_resumes kept (fun _ => some (.error (.stopped s.id))) s.waiters.parked
  simp only [Option.map_some, List.filterMap_eq_map'] at turns
  simp only [restrict, halted, waiters, Waiters.close, List.filter_append, List.filter_nil]
    at turns ⊢
  rw [turns]

theorem restrict_abandon (s : Stream) (gone : Nat) :
    (s.abandon gone).1.restrict kept =
      if kept gone then ((s.restrict kept).abandon gone).1 else s.restrict kept := by
  have turns := @filter_resumes kept (fun _ => some (.error .abandoned))
    (s.waiters.parked.filter (·.tag.request = gone))
  simp only [Option.map_some, List.filterMap_eq_map', List.filter_filter] at turns
  cases stays : kept gone with
  | true =>
      simp only [restrict, abandon, release, waiters, Waiters.abandon, List.filter_append,
        List.filter_cons_of_pos stays, List.filter_filter, if_true] at turns ⊢
      simp only [List.map_map, Function.comp_def, Bool.and_comm] at turns ⊢
      rw [turns]
  | false =>
      have apart : (s.waiters.parked.filter fun waiter =>
          kept waiter.tag.request && decide (waiter.tag.request = gone)) = [] := by
        refine List.filter_eq_nil_iff.mpr fun waiter _ both => ?_
        obtain ⟨own, leaves⟩ := (Bool.and_eq_true _ _).mp both
        rw [of_decide_eq_true leaves, stays] at own
        cases own
      have parked : (s.waiters.parked.filter fun waiter =>
          kept waiter.tag.request && !decide (waiter.tag.request = gone)) =
          s.waiters.parked.filter (kept ·.tag.request) := by
        refine List.filter_congr fun waiter _ => ?_
        by_cases leaves : waiter.tag.request = gone
        · simp [leaves, stays]
        · simp [leaves]
      rw [apart] at turns
      simp only [restrict, abandon, release, waiters, Waiters.abandon, List.filter_append,
        List.filter_filter, List.filter_cons_of_neg (Bool.eq_false_iff.mp stays)] at turns parked ⊢
      rw [turns, parked, List.map_nil, List.map_nil, List.append_nil]
      rfl

/-! ### Runs -/

/-- What a call of the producer reports. -/
def reports (s : Stream) (now : Int) (call : ProducerCall) : Except Fault Unit :=
  (s.perform now call).map fun _ => ()

/-- Whether a call succeeds does not depend on the readers. -/
theorem reports_eq (s : Stream) (now : Int) (call : ProducerCall) :
    s.reports now call =
      if s.stopped then .error (.stopped s.id)
      else (s.window.perform s.buffer.stream s.buffer.capacity now call).map fun _ => () := by
  obtain ⟨log, same⟩ := s.buffer.perform_eq now call
  rw [reports, perform_eq, produce, same, window]
  split
  · rfl
  · cases s.buffer.window.perform s.buffer.stream s.buffer.capacity now call with
    | error fault => rfl
    | ok w => rfl

theorem restrict_reports (s : Stream) (now : Int) (call : ProducerCall) :
    (s.restrict kept).reports now call = s.reports now call := by
  rw [reports_eq, reports_eq]
  rfl

theorem restrict_call (s : Stream) (call : ProducerCall) (now : Int) :
    (s.step (.call call now)).restrict kept = (s.restrict kept).step (.call call now) := by
  cases done : s.perform now call with
  | error fault =>
      have same := @restrict_reports kept s now call
      rw [reports, reports, done] at same
      cases refused : (s.restrict kept).perform now call with
      | error fault => rw [step_call_error done, step_call_error refused]
      | ok result =>
          rw [refused] at same
          cases same
  | ok result =>
      obtain ⟨t, log⟩ := result
      obtain ⟨running, w, made, rfl⟩ := perform_ok done
      rw [step_call_ok done, restrict_produced]
      exact (@step_produced (s.restrict kept) now call w running made).symm

theorem restrict_stop (s : Stream) : (s.step .stop).restrict kept = (s.restrict kept).step .stop := by
  rw [step_stop, step_stop, restrict_stopped]
  split
  · rfl
  · exact s.restrict_halted

/-- What an event does to the kept requests does not depend on the others. -/
theorem restrict_step (s : Stream) (event : Event) :
    (s.step event).restrict kept =
      if event.request?.all kept then (s.restrict kept).step event else s.restrict kept := by
  cases event with
  | call call now => exact s.restrict_call call now
  | stop => exact s.restrict_stop
  | playlist request what => exact s.restrict_playlist request what
  | segment request number range => exact s.restrict_segment request number range
  | leave request => exact s.restrict_abandon request
  | turn request => exact s.restrict_turn request

theorem restrict_run (s : Stream) (events : List Event) :
    (s.run events).restrict kept = (s.restrict kept).run (spared kept events) := by
  induction events generalizing s with
  | nil => rfl
  | cons event events ih =>
      rw [run_cons, ih, restrict_step, spared_cons]
      split
      · rfl
      · rfl

theorem restrict_delivery (s : Stream) {event : Event} (stays : event.request?.all kept = true) :
    (s.restrict kept).delivery event = s.delivery event := by
  cases event with
  | turn taker =>
      have same := @restrict_find? kept s taker stays
      cases found : s.turns.find? (·.request = taker) with
      | none => rw [(step_turn_none found).2, (step_turn_none (same.trans found)).2]
      | some next => rw [(step_turn_some found).2, (step_turn_some (same.trans found)).2]
  | call call now => rfl
  | stop => rfl
  | playlist asker what => rfl
  | segment asker number range => rfl
  | leave gone => rfl

/-- An outcome arrives at an event of the request that it belongs to. -/
theorem delivery_request? {event : Event} {outcome : Outcome}
    (delivered : s.delivery event = some (request, outcome)) : event.request? = some request := by
  cases event with
  | turn taker => rw [delivery_taker delivered]; rfl
  | call call now => cases delivered
  | stop => cases delivered
  | playlist asker what => cases delivered
  | segment asker number range => cases delivered
  | leave gone => cases delivered

theorem filter_delivery (s : Stream) (event : Event) :
    (s.delivery event).toList.filter (kept ·.1) =
      if event.request?.all kept then (s.delivery event).toList else [] := by
  cases delivered : s.delivery event with
  | none => simp
  | some arrival =>
      obtain ⟨asker, outcome⟩ := arrival
      rw [delivery_request? delivered]
      cases stays : kept asker with
      | true => simp [stays]
      | false => simp [stays]

theorem restrict_outcomes (s : Stream) (events : List Event) :
    (s.restrict kept).outcomes (spared kept events) =
      (s.outcomes events).filter (kept ·.1) := by
  induction events generalizing s with
  | nil => rfl
  | cons event events ih =>
      rw [outcomes, List.filter_append, filter_delivery, ← ih, restrict_step, spared_cons]
      split
      · rename_i stays
        rw [outcomes, s.restrict_delivery stays]
      · rfl

theorem create_restrict {id : String} {settings : Settings} {size : Float} {now : Int}
    (created : Stream.create id settings size now = .ok s) : s.restrict kept = s := by
  obtain ⟨capacity, -, -, rfl⟩ := (create_eq_ok_iff id settings size now s).mp created
  rfl

/-- No reader disturbs another one, nor the producer. Whichever requests are left out of a run, with
their turns and with their clients leaving, at every moment the window and all that the producer is
told are the same, and every other request waits for the same, goes on with the same at the same
event, and has the same outcome. -/
theorem readers_do_not_interfere {id : String} {settings : Settings} {size : Float} {now : Int}
    {start : Stream} (created : Stream.create id settings size now = .ok start)
    (kept : Nat → Bool) (events : List Event) :
    (∀ sooner, sooner <+: events →
      let s := start.run sooner
      let t := start.run (spared kept sooner)
      t.window = s.window ∧ t.lastActivity = s.lastActivity ∧ t.stopped = s.stopped ∧
      (∀ now call, t.reports now call = s.reports now call) ∧
      t.masterPlaylist = s.masterPlaylist ∧ t.initSection = s.initSection ∧
      t.waiters.parked = s.waiters.parked.filter (kept ·.tag.request) ∧
      t.turns = s.turns.filter (kept ·.request)) ∧
    (∀ sooner event, sooner ++ [event] <+: events → event.request?.all kept = true →
      (start.run (spared kept sooner)).delivery event = (start.run sooner).delivery event) ∧
    start.outcomes (spared kept events) = (start.outcomes events).filter (kept ·.1) := by
  have whole : start.restrict kept = start := create_restrict created
  have run : ∀ sooner, start.run (spared kept sooner) = (start.run sooner).restrict kept := by
    intro sooner
    rw [restrict_run, whole]
  refine ⟨?_, ?_, ?_⟩
  · intro sooner _ s t
    have same : t = s.restrict kept := run sooner
    rw [same]
    exact ⟨rfl, rfl, rfl, s.restrict_reports, rfl, rfl, rfl, rfl⟩
  · intro sooner event _ stays
    rw [run, restrict_delivery _ stays]
  · rw [← restrict_outcomes, whole]

/-- Two requests wait for the same part, and the client of one of them leaves. -/
theorem readers_do_not_interfere_of_two :
    let kept : Nat → Bool := (· = 1)
    let events : List Event := [.call (.put ⟨.whole 0, [], none, false⟩) 1,
      .playlist 0 ⟨some 0, some 0⟩, .playlist 1 ⟨some 0, some 0⟩, .leave 0,
      .call (.append (.whole 0) ⟨1.0, true, [7]⟩ false) 2, .turn 0, .turn 1, .turn 1, .turn 0]
    Stream.create "live" plainSettings 2.0 0 = .ok (plain 2) ∧
    (spared kept events).length = 5 ∧
    ((plain 2).outcomes events).map (·.1) = [1, 0] ∧
    (plain 2).outcomes (spared kept events) = ((plain 2).outcomes events).filter (kept ·.1) := by
  intro kept events
  have created := @create_plain 2.0 2 (by decide) (by decide)
  exact ⟨created, rfl, by decide +kernel, (readers_do_not_interfere created kept events).2.2⟩

end Stream

end LiveHls
