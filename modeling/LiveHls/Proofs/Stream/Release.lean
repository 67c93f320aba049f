import LiveHls.Proofs.Stream.Course
import LiveHls.Proofs.Stream.Polling
/-! The answer to a playlist request that waits. It is rendered from the window of the first call
that makes the target hold; by the time it is rendered the stream may have moved on. -/
namespace LiveHls

theorem Verdict.eq_ready_of_outcome? {w v : Window} {verdict : Verdict}
    (settled : verdict.outcome? w = some (.ok v)) : verdict = .ready ∧ v = w := by
  cases verdict with
  | pending => cases settled
  | ready =>
      cases settled
      exact ⟨rfl, rfl⟩
  | rejected fault => cases settled

namespace Stream

/-- Throughout the events the request waits, and no call among them settles its target. -/
structure Holding (s : Stream) (request : Nat) (stage : Stage) (target : WaitTarget)
    (events : List Event) : Prop where
  waits : ∀ sooner, sooner <+: events → (s.run sooner).At request (.waits stage target)
  pending : ∀ sooner call now t log, sooner ++ [.call call now] <+: events →
    (s.run sooner).perform now call = .ok (t, log) →
      target.evaluate t.window (some call.event) = .pending

/-- The call is the first after which the target holds, and the request goes on with the window
that it leaves. -/
structure ReleasedBy (s : Stream) (request : Nat) (stage : Stage) (target : WaitTarget)
    (sooner : List Event) (call : ProducerCall) (now : Int) (t : Stream) : Prop
    extends s.Holding request stage target sooner where
  made : ∃ log, (s.run sooner).perform now call = .ok (t, log)
  holds : target.evaluate t.window (some call.event) = .ready
  released : t.At request (.resumes stage (.ok t.window))

variable {s t : Stream} {request : Nat} {blocking : Bool} {target : WaitTarget}
  {events : List Event}

theorem Holding.nil {stage : Stage} (h : s.At request (.waits stage target)) :
    s.Holding request stage target [] := by
  refine ⟨?_, ?_⟩
  · intro sooner front
    rw [List.prefix_nil.mp front]
    exact h
  · intro sooner call now t log front
    exact absurd (List.prefix_nil.mp front) (by simp)

theorem Holding.snoc {stage : Stage} {event : Event} (h : s.Holding request stage target events)
    (after : (s.run (events ++ [event])).At request (.waits stage target))
    (step : Phase.Step (s.run events) request event (.waits stage target) (.waits stage target)) :
    s.Holding request stage target (events ++ [event]) := by
  refine ⟨?_, ?_⟩
  · intro sooner front
    rcases List.prefix_concat_iff.mp front with rfl | inside
    · exact after
    · exact h.waits sooner inside
  · intro sooner call now t log front performed
    rcases List.prefix_concat_iff.mp front with same | inside
    · obtain ⟨rfl, last⟩ := List.append_inj' same rfl
      obtain rfl : event = .call call now := (List.singleton_inj.mp last).symm
      obtain ⟨running, w, made, rfl⟩ := perform_ok performed
      cases step with
      | undisturbed unsettled stopped stays => exact unsettled call now w rfl running made
    · exact h.pending sooner call now t log inside performed

/-- The request is on the way to its client with what the outcome of its wait is rendered to. -/
inductive Bound (s : Stream) (blocking : Bool) (outcome : WaitOutcome) : Phase → Prop
  | resumes : Bound s blocking outcome (.resumes (.playlist blocking) outcome)
  | told : Bound s blocking outcome (.told 0 (outcome.bind (s.renderFor · blocking)))
  | absent : Bound s blocking outcome .absent

theorem renderFor_run (s : Stream) (events : List Event) (w : Window) (blocking : Bool) :
    (s.run events).renderFor w blocking = s.renderFor w blocking := by
  rw [renderFor, renderFor, run_settings]

theorem Bound.step {outcome : WaitOutcome} {phase next : Phase} {event : Event}
    (bound : s.Bound blocking outcome phase)
    (step : Phase.Step (s.run events) request event phase next) :
    s.Bound blocking outcome next := by
  cases bound with
  | resumes =>
      cases step with
      | resumesLater other => exact .resumes
      | resumed =>
          rw [resuming]
          simp only [renderFor_run]
          exact .told
  | told =>
      cases step with
      | toldLater other => exact .told
      | arrived => exact .absent
  | absent =>
      cases step
      exact .absent

/-- The request still waits, or an event has ended the wait. -/
inductive Held (s : Stream) (request : Nat) (blocking : Bool) (target : WaitTarget)
    (events : List Event) : Phase → Prop
  | waits (holding : s.Holding request (.playlist blocking) target events) :
      Held s request blocking target events (.waits (.playlist blocking) target)
  | ended {sooner : List Event} {event : Event} {outcome : WaitOutcome} {phase : Phase}
      (front : sooner ++ [event] <+: events)
      (holding : s.Holding request (.playlist blocking) target sooner)
      (ends : Phase.Step (s.run sooner) request event (.waits (.playlist blocking) target)
        (.resumes (.playlist blocking) outcome))
      (bound : s.Bound blocking outcome phase) : Held s request blocking target events phase

theorem Held.step {phase next : Phase} {event : Event}
    (held : s.Held request blocking target events phase)
    (after : (s.run (events ++ [event])).At request next)
    (step : Phase.Step (s.run events) request event phase next) :
    s.Held request blocking target (events ++ [event]) next := by
  cases held with
  | waits holding =>
      cases step with
      | undisturbed unsettled stopped stays =>
          exact .waits (holding.snoc after (.undisturbed unsettled stopped stays))
      | settled running made judged =>
          exact .ended List.prefix_rfl holding (.settled running made judged) .resumes
      | halted running => exact .ended List.prefix_rfl holding (.halted running) .resumes
      | abandoned => exact .ended List.prefix_rfl holding .abandoned .resumes
  | ended front holding ends bound =>
      exact .ended (front.trans (List.prefix_append _ _)) holding ends (bound.step step)

/-- The answer is what the outcome of the wait is rendered to, no matter when. -/
theorem At.playlist_outcome_of_resumes {outcome : WaitOutcome} {answer : Outcome}
    (h : s.At request (.resumes (.playlist blocking) outcome)) (unasked : Unasked request events)
    (arrives : (request, answer) ∈ s.outcomes events) :
    answer = outcome.bind (s.renderFor · blocking) := by
  have keeps : s.Keeps request events fun _ => s.Bound blocking outcome :=
    fun _ _ _ _ _ _ _ step bound => bound.step step
  obtain ⟨sooner, -, bound⟩ := h.outcome unasked .resumes keeps arrives
  cases bound
  rfl

/-- Whatever is told to a request that waits, one event has ended the wait, and the outcome of that
is what is rendered. -/
theorem At.playlist_outcome {answer : Outcome}
    (h : s.At request (.waits (.playlist blocking) target)) (unasked : Unasked request events)
    (arrives : (request, answer) ∈ s.outcomes events) :
    ∃ sooner event outcome, sooner ++ [event] <+: events ∧
      s.Holding request (.playlist blocking) target sooner ∧
      Phase.Step (s.run sooner) request event (.waits (.playlist blocking) target)
        (.resumes (.playlist blocking) outcome) ∧
      answer = outcome.bind (s.renderFor · blocking) := by
  have keeps : s.Keeps request events (s.Held request blocking target) :=
    fun _ _ _ _ _ _ after step held => held.step after step
  obtain ⟨sooner, front, held⟩ := h.outcome unasked (.waits (.nil h)) keeps arrives
  cases held with
  | ended inside holding ends bound =>
      cases bound
      exact ⟨_, _, _, inside.trans ((List.prefix_append _ _).trans front), holding, ends, rfl⟩

theorem awaiting_of_parkable {stage : Stage} (parkable : s.Parkable ⟨request, stage⟩ target) :
    s.awaiting request stage target = .waits stage target := by
  rcases s.awaiting_cases request stage target with
    ⟨fault, closed, -⟩ | ⟨gone, -⟩ | ⟨outcome, settled, -⟩ | ⟨-, same⟩
  · rw [parkable.opened] at closed
    cases closed
  · exact absurd (parkable.present.symm.trans gone) Bool.false_ne_true
  · rw [parkable.pending] at settled
    cases settled
  · exact same

/-- A playlist request that is parked waits for the target that it is parked with. -/
theorem At.playlist_parked {what : PlaylistRequest} {waiter : Waiter Ticket}
    (h : s.At request .absent) (parked : (s.step (.playlist request what)).waiters.parked =
      s.waiters.parked ++ [waiter]) :
    (s.step (.playlist request what)).At request
      (.waits (.playlist what.isBlocking) waiter.target) := by
  have planned := plan_of_parked parked
  have asked : (s.step (.playlist request what)).At request (s.playlistAsked request what) :=
    h.playlist
  have grown : ∀ turn, (s.enqueue turn).waiters.parked ≠ s.waiters.parked ++ [waiter] :=
    fun turn same => List.cons_ne_nil _ _ (List.self_eq_append_right.mp same)
  rw [Stream.step, Stream.playlist] at parked
  rw [playlistAsked] at asked
  split at parked
  · exact absurd parked (grown _)
  · rename_i running
    simp only [planned] at parked
    rcases s.waitFor_cases ⟨request, .playlist what.isBlocking⟩ waiter.target with
      ⟨outcome, same, -⟩ | ⟨parkable, -⟩
    · rw [same] at parked
      exact absurd parked (grown _)
    · rw [if_neg running] at asked
      simp only [planned, awaiting_of_parkable parkable] at asked
      exact asked

/-- A body is rendered from the outcome of the wait only if that is a window. -/
theorem renderFor_eq_ok {w : Window} {answer : Answer}
    (rendered : s.renderFor w blocking = .ok answer) :
    ∃ playlist, answer = .playlist playlist ∧ playlist.blocking = blocking ∧
      Playlist.render w s.settings = .ok playlist.body := by
  unfold renderFor RenderedPlaylist.ofWindow at rendered
  cases body : Playlist.render w s.settings with
  | error fault =>
      rw [body] at rendered
      cases rendered
  | ok text =>
      rw [body] at rendered
      cases rendered
      exact ⟨_, rfl, rfl, rfl⟩

/-- Only a call lets a request go on with a window, and it is the window that the call leaves. -/
theorem step_to_window {stage : Stage} {event : Event} {w : Window}
    (step : Phase.Step s request event (.waits stage target) (.resumes stage (.ok w))) :
    ∃ call now log, event = .call call now ∧
      s.perform now call = .ok (s.produced now w call.event, log) ∧
      target.evaluate w (some call.event) = .ready := by
  cases step with
  | settled running made judged =>
      obtain ⟨ready, rfl⟩ := Verdict.eq_ready_of_outcome? judged
      obtain ⟨log, performed⟩ := perform_made running made
      exact ⟨_, _, log, rfl, performed, ready⟩

/-- Those who are released by one call, and are given a body, are given the same, whatever happens
after the call. -/
theorem At.body_of_released {call : ProducerCall} {now : Int} {log : Log}
    {playlist : RenderedPlaylist} (h : s.At request (.waits (.playlist blocking) target))
    (performed : s.perform now call = .ok (t, log))
    (released : ¬ t.At request (.waits (.playlist blocking) target))
    (unasked : Unasked request events)
    (answered : (request, .ok (.playlist playlist)) ∈ t.outcomes events) :
    Playlist.render t.window t.settings = .ok playlist.body := by
  obtain ⟨-, w, -, rfl⟩ := perform_ok performed
  have after := h.produced_waits now w call.event
  cases settled : (target.evaluate w (some call.event)).outcome? w with
  | none =>
      rw [settled] at after
      exact absurd after released
  | some outcome =>
      rw [settled] at after
      have told := after.playlist_outcome_of_resumes unasked answered
      cases outcome with
      | error fault => cases told
      | ok v =>
          obtain ⟨-, rfl⟩ := Verdict.eq_ready_of_outcome? settled
          obtain ⟨rendered, same, -, body⟩ := renderFor_eq_ok told.symm
          cases same
          exact body

/-- The answer to a request that waits never looks ahead. It is rendered from the window of the
first call after which the target of the request holds, and that is the call that releases it. All
who are released by that call are given the same body, no matter how the run goes on from there. -/
theorem no_look_ahead {id : String} {settings : Settings} {size : Float} {now : Int}
    {start : Stream} (created : Stream.create id settings size now = .ok start)
    (before later : List Event) {request : Nat} {what : PlaylistRequest} {waiter : Waiter Ticket}
    {answer : Answer} (single : Unasked request (before ++ later))
    (parked : ((start.run before).step (.playlist request what)).waiters.parked =
      (start.run before).waiters.parked ++ [waiter])
    (answered : (request, .ok answer) ∈
      ((start.run before).step (.playlist request what)).outcomes later) :
    let s := (start.run before).step (.playlist request what)
    ∃ sooner call moment t, ∃ playlist : RenderedPlaylist,
      sooner ++ [.call call moment] <+: later ∧
      s.ReleasedBy request (.playlist what.isBlocking) waiter.target sooner call moment t ∧
      answer = .playlist playlist ∧ playlist.blocking = what.isBlocking ∧
      Playlist.render t.window settings = .ok playlist.body ∧
      ∀ other blocking target after, ∀ another : RenderedPlaylist,
        (s.run sooner).At other (.waits (.playlist blocking) target) →
        ¬ t.At other (.waits (.playlist blocking) target) → Unasked other after →
        (other, .ok (.playlist another)) ∈ t.outcomes after → another.body = playlist.body := by
  intro s
  have absent := (create_at created request).1.run_absent
    (single.of_prefix (List.prefix_append before later))
  have waits : s.At request (.waits (.playlist what.isBlocking) waiter.target) :=
    absent.playlist_parked parked
  have quiet : Unasked request later := fun event member => single event (by simp [member])
  obtain ⟨sooner, event, outcome, front, holding, ends, told⟩ :=
    waits.playlist_outcome quiet answered
  cases outcome with
  | error fault => cases told
  | ok w =>
      obtain ⟨call, moment, log, rfl, performed, ready⟩ := step_to_window ends
      obtain ⟨playlist, rfl, same, body⟩ := renderFor_eq_ok told.symm
      -- it does not matter when the body is rendered, as the settings stay what they are
      have known : ∀ events, (s.run events).settings = settings := by
        intro events
        rw [run_settings, ((start.run before).step_moves (.playlist request what)).settings,
          run_settings, (create_at created request).2]
      have kept : ((s.run sooner).produced moment w call.event).settings = settings := known sooner
      have body : Playlist.render w settings = .ok playlist.body := by
        rw [← known []]
        exact body
      have gone := (holding.waits sooner List.prefix_rfl).produced_waits moment w call.event
      rw [ready] at gone
      refine ⟨sooner, call, moment, _, playlist, front,
        ⟨holding, ⟨log, performed⟩, ready, gone⟩, rfl, same, body, ?_⟩
      intro other blocking target after another waiting released unasked given
      have alike := waiting.body_of_released performed released unasked given
      rw [kept, show ((s.run sooner).produced moment w call.event).window = w from rfl, body]
        at alike
      exact (Except.ok.inj alike).symm

/-- The second of two parts and the stop come before the turns of the request that the first part
releases. -/
def twoPartsThenTurns : List Event :=
  let part (now : Int) : Event := .call (.append (.whole 0) ⟨1.0, true, [7]⟩ false) now
  [part 2, part 3, .stop, .turn 0, .turn 0]

theorem no_look_ahead_of_two_parts :
    let before : List Event := [.call (.put ⟨.whole 0, [], none, false⟩) 1]
    let s := ((plain 2).run before).step (.playlist 0 ⟨some 0, some 0⟩)
    Stream.create "live" plainSettings 2.0 0 = .ok (plain 2) ∧
    Unasked 0 (before ++ twoPartsThenTurns) ∧
    ∃ answer, s.outcomes twoPartsThenTurns = [(0, .ok answer)] ∧
      ∃ sooner call moment t, ∃ playlist : RenderedPlaylist,
        sooner ++ [.call call moment] <+: twoPartsThenTurns ∧
        s.ReleasedBy 0 (.playlist true) (.part 0 0) sooner call moment t ∧
        answer = .playlist playlist ∧
        Playlist.render t.window plainSettings = .ok playlist.body := by
  have created := @create_plain 2.0 2 (by decide) (by decide)
  have single : Unasked 0 ([.call (.put ⟨.whole 0, [], none, false⟩) 1] ++ twoPartsThenTurns) := by
    simp [Unasked, twoPartsThenTurns, Event.asks]
  obtain ⟨answer, arrives⟩ : ∃ answer,
      (((plain 2).run [.call (.put ⟨.whole 0, [], none, false⟩) 1]).step
        (.playlist 0 ⟨some 0, some 0⟩)).outcomes twoPartsThenTurns = [(0, .ok answer)] := ⟨_, rfl⟩
  obtain ⟨sooner, call, moment, t, playlist, front, released, same, -, body, -⟩ :=
    @no_look_ahead _ _ _ _ _ created _ _ 0 ⟨some 0, some 0⟩
      ⟨⟨0, .playlist true⟩, .part 0 0, "part:0.0"⟩ answer single rfl
      (arrives ▸ List.mem_singleton_self _)
  exact ⟨created, single, answer, arrives, sooner, call, moment, t, playlist, front, released, same,
    body⟩

end Stream

end LiveHls
