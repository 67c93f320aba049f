import LiveHls.Proofs.SegmentAnswer
import LiveHls.Proofs.Stream.Content
import LiveHls.Proofs.Stream.Course
/-! The answers to requests for the bytes of a segment. A request may look at up to three windows
before it is answered; the answer is exact for one of them, and not a mixture of several. -/
namespace LiveHls

namespace Window

theorem isPast_eq_isEvicted (w : Window) {number : Numeral} {n : Int}
    (named : number.toInt? = some n) : w.isPast number = w.isEvicted n := by
  unfold isPast isEvicted
  cases number with
  | whole m =>
      cases named
      rfl
  | negativeZero =>
      cases named
      rfl
  | other x => cases named

theorem named?_of_toInt? (w : Window) {number : Numeral} {n : Int}
    (named : number.toInt? = some n) : w.named? number = w.find? n := by
  rw [named?, named, Option.bind_some]

end Window

namespace WaitTarget

theorem production_settled {w : Window} {event : Production} {outcome : WaitOutcome}
    (settled : (production.evaluate w (some event)).outcome? w = some outcome) :
    (event = .put ∨ event = .part) ∧ outcome = .ok w := by
  unfold evaluate Verdict.readyIf at settled
  simp only at settled
  split_ifs at settled with step
  · cases settled
    simp only [Option.some.injEq, Bool.or_eq_true, decide_eq_true_eq] at step
    exact ⟨step, rfl⟩
  · cases settled

theorem bytes_ready_iff {w : Window} {event : Option Production} {sequence offset : Int} :
    (bytes sequence offset).evaluate w event = .ready ↔ w.isEvicted sequence = false ∧
      ∃ a, w.find? sequence = some a ∧ (a.complete = true ∨ offset < a.dataSize) := by
  simp only [evaluate, evaluateSegment_eq_ready_iff, Bool.or_eq_true, decide_eq_true_eq]

theorem bytes_pending_iff {w : Window} {event : Option Production} {sequence offset : Int} :
    (bytes sequence offset).evaluate w event = .pending ↔ w.isEvicted sequence = false ∧
      ∀ a, w.find? sequence = some a → a.complete = false ∧ a.dataSize ≤ offset := by
  simp only [evaluate, evaluateSegment_eq_pending_iff, Bool.or_eq_false_iff, decide_eq_false_iff_not,
    Int.not_lt]

theorem bytes_rejected_iff {w : Window} {event : Option Production} {sequence offset : Int}
    {fault : Fault} : (bytes sequence offset).evaluate w event = .rejected fault ↔
      w.isEvicted sequence = true ∧ fault = .evicted (.whole sequence) :=
  evaluateSegment_eq_rejected_iff

theorem bytes_settled {w : Window} {event : Option Production} {sequence offset : Int}
    {outcome : WaitOutcome}
    (settled : ((bytes sequence offset).evaluate w event).outcome? w = some outcome) :
    w.isEvicted sequence = true ∧ outcome = .error (.evicted (.whole sequence)) ∨
      ∃ a, w.find? sequence = some a ∧ (a.complete = true ∨ offset < a.dataSize) ∧
        outcome = .ok w := by
  cases verdict : (bytes sequence offset).evaluate w event with
  | pending =>
      rw [verdict] at settled
      cases settled
  | ready =>
      rw [verdict] at settled
      cases settled
      obtain ⟨-, a, found, ended⟩ := bytes_ready_iff.mp verdict
      exact .inr ⟨a, found, ended, rfl⟩
  | rejected fault =>
      rw [verdict] at settled
      cases settled
      obtain ⟨gone, rfl⟩ := bytes_rejected_iff.mp verdict
      exact .inl ⟨gone, rfl⟩

end WaitTarget

namespace Stream

open SegmentRequest

/-- The window that a successful put or part has left at some moment of the events. -/
def Produces (s : Stream) (events : List Event) (w : Window) : Prop :=
  ∃ sooner call now t log, sooner ++ [.call call now] <+: events ∧
    (call.event = .put ∨ call.event = .part) ∧ (s.run sooner).perform now call = .ok (t, log) ∧
    t.window = w

/-- At some moment of the events the window is this one. -/
def Passes (s : Stream) (events : List Event) (w : Window) : Prop :=
  ∃ sooner, sooner <+: events ∧ (s.run sooner).window = w

/-- What a request for a segment can be told, and why. The events are those since it was made. -/
inductive Justified (s : Stream) (request : Nat) (number : Numeral) (range : Option ByteRange)
    (events : List Event) : Outcome → Prop
  | exact {w : Window} {a : Segment} {response : SegmentResponse} (passes : s.Passes events w)
      (found : w.named? number = some a) (exact : Exact a range response) :
      Justified s request number range events (.ok (.segment response))
  | beyond {w : Window} {a : Segment} (passes : s.Passes events w)
      (found : w.named? number = some a) (beyond : Beyond a range) :
      Justified s request number range events
        (.error (.rangeStart (startOf range) a.content.length))
  | evicted {w : Window} {name : Numeral} (passes : s.Passes events w)
      (gone : w.isPast number = true) :
      Justified s request number range events (.error (.evicted name))
  | missing {w : Window} (produces : s.Produces events w) (absent : w.named? number = none)
      (inside : w.isPast number = false) :
      Justified s request number range events (.error (.noSuchSegment number))
  | stopped {sooner : List Event} (front : sooner <+: events)
      (stopped : (s.run sooner).stopped = true) :
      Justified s request number range events (.error (.stopped (s.run sooner).id))
  | left {sooner : List Event} (front : sooner <+: events)
      (gone : (s.run sooner).left.contains request = true) :
      Justified s request number range events (.error .abandoned)

/-- Where a request for a segment can stand. -/
inductive Sound (s : Stream) (request : Nat) (number : Numeral) (range : Option ByteRange)
    (events : List Event) : Phase → Prop
  | absent : Sound s request number range events .absent
  | appears : Sound s request number range events (.waits (.appearance number range) .production)
  | held {sequence : Nat} (named : number.toInt? = some (sequence : Int)) :
      Sound s request number range events
        (.waits (.hold sequence range) (.bytes sequence (startOf range)))
  | appeared {w : Window} (produces : s.Produces events w) :
      Sound s request number range events (.resumes (.appearance number range) (.ok w))
  | ended {w : Window} {sequence : Nat} {a : Segment}
      (named : number.toInt? = some (sequence : Int))
      (passes : s.Passes events w) (found : w.find? sequence = some a)
      (ended : a.complete = true ∨ startOf range < a.dataSize) :
      Sound s request number range events (.resumes (.hold sequence range) (.ok w))
  | failed {stage : Stage} {fault : Fault}
      (why : Justified s request number range events (.error fault)) :
      Sound s request number range events (.resumes stage (.error fault))
  | told {steps : Nat} {outcome : Outcome} (why : Justified s request number range events outcome) :
      Sound s request number range events (.told steps outcome)

variable {s : Stream} {request : Nat} {number : Numeral} {range : Option ByteRange}
  {events more : List Event} {phase : Phase}

theorem Passes.mono {w : Window} (passes : s.Passes events w) (front : events <+: more) :
    s.Passes more w := by
  obtain ⟨sooner, inside, same⟩ := passes
  exact ⟨sooner, inside.trans front, same⟩

theorem Produces.mono {w : Window} (produces : s.Produces events w) (front : events <+: more) :
    s.Produces more w := by
  obtain ⟨sooner, call, now, t, log, inside, rest⟩ := produces
  exact ⟨sooner, call, now, t, log, inside.trans front, rest⟩

theorem Produces.passes {w : Window} (produces : s.Produces events w) : s.Passes events w := by
  obtain ⟨sooner, call, now, t, log, inside, -, performed, rfl⟩ := produces
  refine ⟨_, inside, ?_⟩
  rw [run_append, run_cons, step_call_ok performed]
  rfl

theorem Justified.mono {outcome : Outcome} (why : s.Justified request number range events outcome)
    (front : events <+: more) : s.Justified request number range more outcome := by
  cases why with
  | exact passes found exact => exact .exact (passes.mono front) found exact
  | beyond passes found beyond => exact .beyond (passes.mono front) found beyond
  | evicted passes gone => exact .evicted (passes.mono front) gone
  | missing produces absent inside => exact .missing (produces.mono front) absent inside
  | stopped inside stopped => exact .stopped (inside.trans front) stopped
  | left inside gone => exact .left (inside.trans front) gone

theorem Sound.mono (sound : s.Sound request number range events phase) (front : events <+: more) :
    s.Sound request number range more phase := by
  cases sound with
  | absent => exact .absent
  | appears => exact .appears
  | held named => exact .held named
  | appeared produces => exact .appeared (produces.mono front)
  | ended named passes found ended => exact .ended named (passes.mono front) found ended
  | failed why => exact .failed (why.mono front)
  | told why => exact .told (why.mono front)

theorem passes_now (s : Stream) (events : List Event) : s.Passes events (s.run events).window :=
  ⟨events, List.prefix_rfl, rfl⟩

/-- A target on the bytes of the segment named is settled for a reason. -/
theorem sound_of_settled {sequence : Nat} {event : Option Production} {outcome : WaitOutcome}
    {w : Window} (named : number.toInt? = some (sequence : Int)) (passes : s.Passes events w)
    (settled :
      ((WaitTarget.bytes sequence (startOf range)).evaluate w event).outcome? w = some outcome) :
    s.Sound request number range events (.resumes (.hold sequence range) outcome) := by
  rcases WaitTarget.bytes_settled settled with ⟨gone, rfl⟩ | ⟨a, found, ended, rfl⟩
  · rw [← w.isPast_eq_isEvicted named] at gone
    exact .failed (.evicted passes gone)
  · exact .ended named passes found ended

theorem Passes.found (h : s.Regular) {w : Window} {a : Segment} (passes : s.Passes events w)
    (found : w.named? number = some a) : a.Tiled ∧ number.toInt? = some (a.sequence : Int) := by
  obtain ⟨sooner, -, rfl⟩ := passes
  have regular := run_regular h sooner
  obtain ⟨member, named⟩ :=
    (Window.named?_eq_some_iff regular.wellFormed.consecutive number a).mp found
  exact ⟨regular.tiled a member, named⟩

/-- Nobody waits in a stream that has stopped, or once the client has left. -/
theorem awaiting_eq (h : s.Regular) (request : Nat) (stage : Stage) (target : WaitTarget) :
    s.awaiting request stage target =
      if s.stopped then .resumes stage (.error (.stopped s.id))
      else if s.left.contains request then .resumes stage (.error .abandoned)
      else
        match (target.evaluate s.window none).outcome? s.window with
        | some outcome => .resumes stage outcome
        | none => .waits stage target := by
  unfold awaiting Waiters.wait
  rw [h.closedWith]
  cases s.stopped with
  | true => rfl
  | false =>
      cases s.left.contains request with
      | true => rfl
      | false => cases target.evaluate s.window none <;> rfl

/-- A request waits only while its stream runs and its client is there. -/
theorem awaiting_sound (h : s.Regular) {stage : Stage} {target : WaitTarget}
    (waits : s.Sound request number range events (.waits stage target))
    (settled : ∀ outcome,
      (target.evaluate (s.run events).window none).outcome? (s.run events).window = some outcome →
        s.Sound request number range events (.resumes stage outcome)) :
    s.Sound request number range events ((s.run events).awaiting request stage target) := by
  rw [awaiting_eq (run_regular h events)]
  split_ifs with stopped gone
  · exact .failed (.stopped List.prefix_rfl stopped)
  · exact .failed (.left List.prefix_rfl gone)
  · split
    · rename_i outcome judged
      exact settled outcome judged
    · exact waits

theorem serving_sound (h : s.Regular) (positive : 0 ≤ startOf range) {w : Window} {a : Segment}
    (passes : s.Passes events w) (found : w.named? number = some a) :
    s.Sound request number range events ((s.run events).serving request a range) := by
  obtain ⟨tiled, named⟩ := passes.found h found
  have judged := judge_judged tiled positive (s.run events).settings
  unfold serving
  generalize judge a range (s.run events).settings = judgement at judged ⊢
  cases judged with
  | exact exact => exact .told (.exact passes found exact)
  | beyond beyond => exact .told (.beyond passes found beyond)
  | hold edge opened =>
      refine awaiting_sound h (.held named) fun outcome settled => ?_
      exact sound_of_settled named (passes_now s events) settled

theorem segmentAsked_sound (h : s.Regular) (positive : 0 ≤ startOf range) :
    s.Sound request number range [] (s.segmentAsked request number range) := by
  have passes := passes_now s []
  unfold segmentAsked
  split
  · rename_i stopped
    exact .told (.stopped List.prefix_rfl stopped)
  · cases found : s.window.named? number with
    | some a => exact serving_sound h positive passes found
    | none =>
        simp only
        split
        · rename_i gone
          exact .told (.evicted passes gone)
        · have never : ∀ outcome,
              (WaitTarget.production.evaluate s.window none).outcome? s.window = some outcome →
                s.Sound request number range [] (.resumes (.appearance number range) outcome) :=
            fun outcome settled => by cases settled
          exact awaiting_sound h .appears never

theorem resuming_sound (h : s.Regular) (positive : 0 ≤ startOf range) {stage : Stage}
    {outcome : WaitOutcome} (sound : s.Sound request number range events (.resumes stage outcome)) :
    s.Sound request number range events ((s.run events).resuming request stage outcome) := by
  cases sound with
  | appeared produces =>
      unfold resuming
      simp only
      split
      · rename_i a found
        exact serving_sound h positive produces.passes found
      · rename_i absent
        split
        · rename_i gone
          exact .told (.evicted produces.passes gone)
        · rename_i inside
          exact .told (.missing produces absent (Bool.eq_false_iff.mpr inside))
  | @ended w sequence a named passes found ended =>
      have found' := (w.named?_of_toInt? named).trans found
      have judged := conclude_judged found (passes.found h found').1 positive ended
        (s.run events).settings
      unfold resuming
      simp only [Except.bind]
      generalize conclude w sequence range (s.run events).settings = concluded at judged ⊢
      cases judged with
      | exact exact => exact .told (.exact passes found' exact)
      | beyond beyond => exact .told (.beyond passes found' beyond)
  | failed why =>
      cases stage with
      | playlist blocking => exact .told why
      | appearance number range => exact .told why
      | hold sequence range => exact .told why

theorem Sound.step (h : s.Regular) (positive : 0 ≤ startOf range) {event : Event} {next : Phase}
    (sound : s.Sound request number range events phase)
    (step : Phase.Step (s.run events) request event phase next) :
    s.Sound request number range (events ++ [event]) next := by
  have front : events <+: events ++ [event] := List.prefix_append _ _
  have after : s.run (events ++ [event]) = (s.run events).step event := run_append ..
  cases step with
  | idle => exact .absent
  | undisturbed unsettled stopped stays => exact sound.mono front
  | resumesLater other => exact sound.mono front
  | toldLater other => exact sound.mono front
  | arrived => exact .absent
  | relayed =>
      cases sound with
      | told why => exact .told (why.mono front)
  | resumed => exact (resuming_sound h positive sound).mono front
  | halted running =>
      have halts : s.run (events ++ [.stop]) = (s.run events).halted := by
        rw [after, step_stop, running]
        rfl
      have why : s.Justified request number range (events ++ [.stop]) _ :=
        .stopped List.prefix_rfl (halts ▸ rfl)
      rw [halts] at why
      exact .failed why
  | abandoned =>
      refine .failed (.left List.prefix_rfl ?_)
      rw [after]
      exact List.elem_cons_self
  | @settled call now w stage target outcome running made judged =>
      obtain ⟨log, performed⟩ := perform_made running made
      cases sound with
      | appears =>
          obtain ⟨kind, rfl⟩ := WaitTarget.production_settled judged
          exact .appeared ⟨events, call, now, _, log, List.prefix_rfl, kind, performed, rfl⟩
      | held named =>
          have passes : s.Passes (events ++ [.call call now]) w := by
            have now := passes_now s (events ++ [.call call now])
            rw [after, step_produced running made] at now
            exact now
          exact sound_of_settled named passes judged

/-- Whatever a request for a segment is told has its reason in a window that was there since the
request was made. -/
theorem justified_of_outcome (h : s.Regular) (absent : s.At request .absent)
    (positive : 0 ≤ startOf range) (unasked : Unasked request events) {outcome : Outcome}
    (arrives : (request, outcome) ∈ s.outcomes (.segment request number range :: events)) :
    s.Justified request number range (.segment request number range :: events) outcome := by
  have asked : (s.step (.segment request number range)).At request
      (s.segmentAsked request number range) := absent.segment
  have first : s.Sound request number range [.segment request number range]
      (s.segmentAsked request number range) := (segmentAsked_sound h positive).mono List.nil_prefix
  have keeps : (s.step (.segment request number range)).Keeps request events fun sooner =>
      s.Sound request number range (.segment request number range :: sooner) :=
    fun _ _ _ _ _ _ _ step sound => sound.step h positive step
  obtain ⟨sooner, front, sound⟩ := asked.outcome unasked first keeps arrives
  cases sound with
  | told why =>
      exact why.mono (List.cons_prefix_cons.mpr ⟨rfl, (List.prefix_append _ _).trans front⟩)

/-- Byte responses are exact. A response to a request for a segment is the whole data, or the range
of them, that the segment holds in one window since the request was made; and a range is refused
only if it starts past the data in one such window, or where they end for good. -/
theorem byte_answers_exact {id : String} {settings : Settings} {size : Float} {now : Int}
    {start : Stream} (created : Stream.create id settings size now = .ok start)
    (before later : List Event) {request : Nat} {number : Numeral} {range : Option ByteRange}
    (single : Unasked request (before ++ later)) (positive : 0 ≤ startOf range) :
    let s := start.run before
    let events := Event.segment request number range :: later
    (∀ answer, (request, .ok answer) ∈ s.outcomes events →
      ∃ sooner a response, sooner <+: events ∧ (s.run sooner).window.named? number = some a ∧
        answer = .segment response ∧ Exact a range response) ∧
    ∀ fault dataSize, (request, .error fault) ∈ s.outcomes events →
      fault.dataSize? = some dataSize →
        ∃ sooner a, sooner <+: events ∧ (s.run sooner).window.named? number = some a ∧
          dataSize = a.content.length ∧ Beyond a range := by
  intro s events
  have regular : s.Regular := run_regular (create_regular created) before
  have absent : s.At request .absent := (create_at created request).1.run_absent
    (single.of_prefix (List.prefix_append before later))
  have quiet : Unasked request later := fun event member => single event (by simp [member])
  constructor
  · intro answer arrives
    cases justified_of_outcome regular absent positive quiet arrives with
    | exact passes found exact =>
        obtain ⟨sooner, front, rfl⟩ := passes
        exact ⟨sooner, _, _, front, found, rfl, exact⟩
  · intro fault dataSize arrives sized
    cases justified_of_outcome regular absent positive quiet arrives with
    | beyond passes found beyond =>
        obtain ⟨sooner, front, rfl⟩ := passes
        cases sized
        exact ⟨sooner, _, front, found, rfl, beyond⟩
    | evicted passes gone => cases sized
    | missing produces absent inside => cases sized
    | stopped front stopped => cases sized
    | left front gone => cases sized

/-- A request from the end of the data on is held, and gets the part that is added there. -/
def heldThenAppended : List Event :=
  [.call (.append (.whole 0) ⟨1.0, true, [8, 9]⟩ false) 3, .turn 0, .turn 0, .turn 0]

theorem byte_answers_exact_of_one :
    let before : List Event := [.call (.put ⟨.whole 0, [], none, false⟩) 1,
      .call (.append (.whole 0) ⟨1.0, true, [7]⟩ false) 2]
    let s := (plain 2).run before
    let range : ByteRange := ⟨1, openEnd⟩
    let events := Event.segment 0 (.whole 0) (some range) :: heldThenAppended
    Stream.create "live" plainSettings 2.0 0 = .ok (plain 2) ∧
    Unasked 0 (before ++ heldThenAppended) ∧ 0 ≤ startOf (some range) ∧
    ∃ response, s.outcomes events = [(0, .ok (.segment response))] ∧ response.body = [8, 9] ∧
      ∃ sooner a, sooner <+: events ∧ (s.run sooner).window.named? (.whole 0) = some a ∧
        Partial a range response := by
  have created := @create_plain 2.0 2 (by decide) (by decide)
  have single : Unasked 0 ([.call (.put ⟨.whole 0, [], none, false⟩) 1,
      .call (.append (.whole 0) ⟨1.0, true, [7]⟩ false) 2] ++ heldThenAppended) := by
    simp [Unasked, heldThenAppended, Event.asks]
  have positive : 0 ≤ startOf (some ⟨1, openEnd⟩) := by decide
  obtain ⟨response, arrives, body⟩ : ∃ response, (((plain 2).run
      [.call (.put ⟨.whole 0, [], none, false⟩) 1,
        .call (.append (.whole 0) ⟨1.0, true, [7]⟩ false) 2]).outcomes
      (.segment 0 (.whole 0) (some ⟨1, openEnd⟩) :: heldThenAppended)) =
        [(0, .ok (.segment response))] ∧ response.body = [8, 9] := ⟨_, rfl, rfl⟩
  obtain ⟨sooner, a, other, front, found, same, exact⟩ :=
    (byte_answers_exact created _ _ single positive).1 _ (arrives ▸ List.mem_singleton_self _)
  cases same
  exact ⟨created, single, positive, response, arrives, body, sooner, a, front, found, exact⟩

end Stream

end LiveHls
