import LiveHls.Proofs.Stream.Phase
/-! The course of one request through a run. Each event leaves the request where it is or takes it
one phase further; the outcome that arrives at the end is the one that the last phase has told. -/
namespace LiveHls

/-- What a turn delivers, and to whom. -/
def Turn.arrives? : Turn → Option (Nat × Outcome)
  | .relay request 0 outcome => some (request, outcome)
  | _ => none

namespace Stream

variable {s : Stream} {request : Nat} {phase : Phase}

/-! ### Taking a turn -/

/-- The first turn of a request is taken out. -/
def without (s : Stream) (request : Nat) : Stream :=
  { s with turns := s.turns.eraseP (·.request = request) }

/-- What becomes of a stream when a turn that was taken out is carried out. -/
def take (s : Stream) : Turn → Stream
  | .resume ticket outcome => (s.resume ticket outcome).1
  | .relay request (steps + 1) outcome => s.enqueue (.relay request steps outcome)
  | .relay _ 0 _ => s

/-- What an event delivers, and to whom. -/
def delivery (s : Stream) : Event → Option (Nat × Outcome)
  | .turn request => (s.turnOf request).bind (·.2.2)
  | _ => none

theorem step_turn_none (unasked : s.turns.find? (·.request = request) = none) :
    s.step (.turn request) = s ∧ s.delivery (.turn request) = .none := by
  simp only [step, delivery, turnOf, unasked, Option.bind_none, and_self]

theorem step_turn_some {next : Turn} (found : s.turns.find? (·.request = request) = some next) :
    s.step (.turn request) = (s.without request).take next ∧
      s.delivery (.turn request) = next.arrives? := by
  simp only [step, delivery, turnOf, found]
  cases next with
  | resume ticket outcome => exact ⟨rfl, rfl⟩
  | relay asker steps outcome =>
      cases steps with
      | zero => exact ⟨rfl, rfl⟩
      | succ steps => exact ⟨rfl, rfl⟩

theorem without_turnsOf (s : Stream) (taker request : Nat) :
    (s.without taker).turnsOf request =
      if taker = request then (s.turnsOf request).tail else s.turnsOf request := by
  simp only [turnsOf, without]
  induction s.turns with
  | nil => simp
  | cons first rest ih =>
      by_cases taken : first.request = taker
      · by_cases own : taker = request
        · simp [taken, own]
        · simp [taken, own]
      · by_cases own : first.request = request
        · have other : taker ≠ request := fun same => taken (own.trans same.symm)
          rw [if_neg other] at ih ⊢
          simp [own, Ne.symm other, ih]
        · simp [taken, own, ih]

theorem At.without_other {taker : Nat} (h : s.At request phase) (other : taker ≠ request) :
    (s.without taker).At request phase := by
  refine h.of_eq rfl ?_
  rw [without_turnsOf, if_neg other]

theorem At.take_other {next : Turn} (h : s.At request phase) (other : next.request ≠ request) :
    (s.take next).At request phase := by
  cases next with
  | resume ticket outcome => exact h.resume_other other
  | relay asker steps outcome =>
      cases steps with
      | zero => exact h
      | succ steps => exact h.enqueue_other other

theorem At.turn_other {taker : Nat} (h : s.At request phase) (other : taker ≠ request) :
    (s.step (.turn taker)).At request phase := by
  cases found : s.turns.find? (·.request = taker) with
  | none =>
      rw [(step_turn_none found).1]
      exact h
  | some next =>
      rw [(step_turn_some found).1]
      have named : next.request = taker := by simpa using List.find?_some found
      exact (h.without_other other).take_other (named ▸ other)

theorem At.find? (h : s.At request phase) :
    s.turns.find? (·.request = request) = (phase.turns request).head? := by
  rw [← h.turns, turnsOf, List.head?_filter]

/-- Once its turn has been taken out, nothing of the request is left. -/
theorem At.without (h : s.At request phase) (waiting : phase.waiting request = []) :
    (s.without request).At request .absent := by
  refine ⟨h.waiting.trans waiting, ?_⟩
  rw [without_turnsOf, if_pos rfl, h.turns]
  cases phase <;> rfl

/-! ### Steps -/

end Stream

/-- What an event makes of a request that is not made by it. -/
inductive Phase.Step (s : Stream) (request : Nat) : Event → Phase → Phase → Prop
  | idle {event : Event} : Step s request event .absent .absent
  | undisturbed {event : Event} {stage : Stage} {target : WaitTarget}
      (unsettled : ∀ call now w, event = .call call now → s.stopped = false →
        s.window.perform s.buffer.stream s.buffer.capacity now call = .ok w →
          target.evaluate w (some call.event) = .pending)
      (stopped : event = .stop → s.stopped = true) (stays : event ≠ .leave request) :
      Step s request event (.waits stage target) (.waits stage target)
  | settled {call : ProducerCall} {now : Int} {w : Window} {stage : Stage} {target : WaitTarget}
      {outcome : WaitOutcome} (running : s.stopped = false)
      (made : s.window.perform s.buffer.stream s.buffer.capacity now call = .ok w)
      (judged : (target.evaluate w (some call.event)).outcome? w = some outcome) :
      Step s request (.call call now) (.waits stage target) (.resumes stage outcome)
  | halted {stage : Stage} {target : WaitTarget} (running : s.stopped = false) :
      Step s request .stop (.waits stage target) (.resumes stage (.error (.stopped s.id)))
  | abandoned {stage : Stage} {target : WaitTarget} :
      Step s request (.leave request) (.waits stage target) (.resumes stage (.error .abandoned))
  | resumesLater {event : Event} {stage : Stage} {outcome : WaitOutcome}
      (other : event ≠ .turn request) :
      Step s request event (.resumes stage outcome) (.resumes stage outcome)
  | toldLater {event : Event} {steps : Nat} {outcome : Outcome} (other : event ≠ .turn request) :
      Step s request event (.told steps outcome) (.told steps outcome)
  | resumed {stage : Stage} {outcome : WaitOutcome} :
      Step s request (.turn request) (.resumes stage outcome) (s.resuming request stage outcome)
  | relayed {steps : Nat} {outcome : Outcome} :
      Step s request (.turn request) (.told (steps + 1) outcome) (.told steps outcome)
  | arrived {outcome : Outcome} : Step s request (.turn request) (.told 0 outcome) .absent

namespace Phase

variable {s : Stream} {request : Nat} {event : Event} {stage : Stage} {target : WaitTarget}

theorem waits_or (phase : Phase) :
    (∃ stage target, phase = .waits stage target) ∨ ∀ request, phase.waiting request = [] := by
  cases phase with
  | waits stage target => exact .inl ⟨stage, target, rfl⟩
  | absent => exact .inr fun _ => rfl
  | resumes stage outcome => exact .inr fun _ => rfl
  | told steps outcome => exact .inr fun _ => rfl

/-- Only its own turns move a request that does not wait. -/
theorem Step.stays {phase : Phase} (waiting : phase.waiting request = [])
    (other : event ≠ .turn request) : Step s request event phase phase := by
  cases phase with
  | absent => exact .idle
  | waits stage target => cases waiting
  | resumes stage outcome => exact .resumesLater other
  | told steps outcome => exact .toldLater other

/-- No other reader disturbs a request that waits. -/
theorem Step.undisturbed_of_ne (call : ∀ call now, event ≠ .call call now) (stop : event ≠ .stop)
    (leave : event ≠ .leave request) :
    Step s request event (.waits stage target) (.waits stage target) :=
  .undisturbed (fun made now _ same => absurd same (call made now)) (fun same => absurd same stop)
    leave

end Phase

namespace Stream

variable {s : Stream} {request : Nat} {phase : Phase}

theorem perform_made {now : Int} {call : ProducerCall} {w : Window} (running : s.stopped = false)
    (made : s.window.perform s.buffer.stream s.buffer.capacity now call = .ok w) :
    ∃ log, s.perform now call = .ok (s.produced now w call.event, log) := by
  obtain ⟨log, same⟩ := s.buffer.perform_eq now call
  rw [show s.buffer.window.perform s.buffer.stream s.buffer.capacity now call = .ok w from made]
    at same
  rw [perform_eq, produce, if_neg (Bool.eq_false_iff.mp running), same]
  exact ⟨_, rfl⟩

/-- A broadcast, a stop or a client that leaves is nothing to a request that does not wait. -/
theorem At.unmoved {t : Stream} {released : List Turn} (h : s.At request phase)
    (waiting : phase.waiting request = []) (waits : t.waitsOf request = [])
    (turns : t.turnsOf request = s.turnsOf request ++ released) (unreleased : released = []) :
    t.At request phase := by
  refine ⟨waits.trans waiting.symm, ?_⟩
  rw [turns, unreleased, List.append_nil, h.turns]

theorem At.produced_unmoved (h : s.At request phase) (waiting : phase.waiting request = [])
    (now : Int) (w : Window) (event : Production) : (s.produced now w event).At request phase := by
  have unwaited := h.waiting.trans waiting
  refine h.unmoved waiting ?_ (produced_turnsOf ..) ?_
  · rw [produced_waitsOf, unwaited]
    rfl
  · rw [unwaited]
    rfl

theorem At.halted_unmoved (h : s.At request phase) (waiting : phase.waiting request = []) :
    s.halted.At request phase := by
  refine h.unmoved waiting rfl (halted_turnsOf ..) ?_
  rw [h.waiting.trans waiting]
  rfl

theorem At.abandon_unmoved (h : s.At request phase) (waiting : phase.waiting request = [])
    (gone : Nat) : (s.abandon gone).1.At request phase := by
  have unwaited := h.waiting.trans waiting
  refine h.unmoved waiting ?_ (abandon_turnsOf ..) ?_
  · rw [abandon_waitsOf, unwaited, ite_self]
  · rw [unwaited, List.map_nil, ite_self]

theorem At.produced_waits {stage : Stage} {target : WaitTarget}
    (h : s.At request (.waits stage target)) (now : Int) (w : Window) (event : Production) :
    (s.produced now w event).At request
      (match (target.evaluate w (some event)).outcome? w with
        | none => .waits stage target
        | some outcome => .resumes stage outcome) := by
  have waits := produced_waitsOf s now w event request
  have turns := produced_turnsOf s now w event request
  rw [h.waiting] at waits turns
  rw [h.turns] at turns
  cases settled : (target.evaluate w (some event)).outcome? w with
  | none =>
      refine ⟨waits.trans ?_, turns.trans ?_⟩
      · simp [Phase.waiting, settled]
      · simp [Phase.waiting, Phase.turns, settled]
  | some outcome =>
      refine ⟨waits.trans ?_, turns.trans ?_⟩
      · simp [Phase.waiting, settled]
      · simp [Phase.waiting, Phase.turns, settled]

theorem At.call_step (h : s.At request phase) (call : ProducerCall) (now : Int) :
    ∃ next, Phase.Step s request (.call call now) phase next ∧
      (s.step (.call call now)).At request next := by
  cases done : s.perform now call with
  | error fault =>
      rw [step_call_error done]
      refine ⟨phase, ?_, h⟩
      rcases phase.waits_or with ⟨stage, target, rfl⟩ | waiting
      · -- the window would have refused the call, too
        refine .undisturbed ?_ nofun nofun
        rintro call now w ⟨⟩ running made
        obtain ⟨log, performed⟩ := perform_made running made
        rw [done] at performed
        cases performed
      · exact .stays (waiting request) nofun
  | ok result =>
      obtain ⟨t, log⟩ := result
      obtain ⟨running, w, made, rfl⟩ := perform_ok done
      rw [step_call_ok done]
      rcases phase.waits_or with ⟨stage, target, rfl⟩ | waiting
      · have after := h.produced_waits now w call.event
        cases settled : (target.evaluate w (some call.event)).outcome? w with
        | none =>
            rw [settled] at after
            refine ⟨_, .undisturbed ?_ nofun nofun, after⟩
            rintro call now v ⟨⟩ - made'
            rw [made] at made'
            cases made'
            exact Verdict.eq_pending_of_outcome? settled
        | some outcome =>
            rw [settled] at after
            exact ⟨_, .settled running made settled, after⟩
      · exact ⟨_, .stays (waiting request) nofun,
          h.produced_unmoved (waiting request) now w call.event⟩

theorem At.stop_step (h : s.At request phase) :
    ∃ next, Phase.Step s request .stop phase next ∧ (s.step .stop).At request next := by
  rw [step_stop]
  rcases phase.waits_or with ⟨stage, target, rfl⟩ | waiting
  · split
    · rename_i stopped
      exact ⟨_, .undisturbed nofun (fun _ => stopped) nofun, h⟩
    · rename_i running
      refine ⟨_, .halted (Bool.eq_false_iff.mpr running), rfl, ?_⟩
      rw [halted_turnsOf, h.waiting, h.turns]
      rfl
  · refine ⟨_, .stays (waiting request) nofun, ?_⟩
    split
    · exact h
    · exact h.halted_unmoved (waiting request)

theorem At.leave_step (h : s.At request phase) (gone : Nat) :
    ∃ next, Phase.Step s request (.leave gone) phase next ∧
      (s.step (.leave gone)).At request next := by
  change ∃ next, _ ∧ (s.abandon gone).1.At request next
  rcases phase.waits_or with ⟨stage, target, rfl⟩ | waiting
  · have waits := s.abandon_waitsOf gone request
    have turns := s.abandon_turnsOf gone request
    by_cases own : gone = request
    · subst own
      refine ⟨_, .abandoned, ?_, ?_⟩
      · rw [waits, if_pos rfl]
        rfl
      · rw [turns, if_pos rfl, h.waiting, h.turns]
        rfl
    · rw [if_neg own] at waits turns
      rw [List.append_nil] at turns
      refine ⟨_, .undisturbed nofun nofun ?_, h.of_eq waits turns⟩
      rintro ⟨⟩
      exact own rfl
  · exact ⟨_, .stays (waiting request) nofun, h.abandon_unmoved (waiting request) gone⟩

theorem At.turn_step (h : s.At request phase) (taker : Nat) :
    ∃ next, Phase.Step s request (.turn taker) phase next ∧
      (s.step (.turn taker)).At request next := by
  by_cases own : taker = request
  · subst own
    have found := h.find?
    cases phase with
    | absent =>
        rw [(step_turn_none found).1]
        exact ⟨_, .idle, h⟩
    | waits stage target =>
        rw [(step_turn_none found).1]
        exact ⟨_, .undisturbed_of_ne nofun nofun nofun, h⟩
    | resumes stage outcome =>
        rw [(step_turn_some found).1]
        exact ⟨_, .resumed, (h.without rfl).resume⟩
    | told steps outcome =>
        rw [(step_turn_some found).1]
        cases steps with
        | zero => exact ⟨_, .arrived, h.without rfl⟩
        | succ steps => exact ⟨_, .relayed, (h.without rfl).told⟩
  · refine ⟨phase, ?_, h.turn_other own⟩
    rcases phase.waits_or with ⟨stage, target, rfl⟩ | waiting
    · exact .undisturbed_of_ne nofun nofun nofun
    · refine .stays (waiting request) ?_
      rintro ⟨⟩
      exact own rfl

/-- What another reader asks is nothing to the request. -/
theorem At.asked_step {t : Stream} {event : Event} (after : t.At request phase)
    (asks : event.asks ≠ none) :
    ∃ next, Phase.Step s request event phase next ∧ t.At request next := by
  refine ⟨phase, ?_, after⟩
  rcases phase.waits_or with ⟨stage, target, rfl⟩ | waiting
  · refine .undisturbed_of_ne ?_ ?_ ?_
    · rintro call now rfl
      exact asks rfl
    · rintro rfl
      exact asks rfl
    · rintro rfl
      exact asks rfl
  · refine .stays (waiting request) ?_
    rintro rfl
    exact asks rfl

/-- An event that does not make the request takes it through one step of its own. -/
theorem At.step (h : s.At request phase) (event : Event) (other : event.asks ≠ some request) :
    ∃ next, Phase.Step s request event phase next ∧ (s.step event).At request next := by
  cases event with
  | call call now => exact h.call_step call now
  | stop => exact h.stop_step
  | leave gone => exact h.leave_step gone
  | turn taker => exact h.turn_step taker
  | playlist asker what =>
      exact (h.playlist_other fun same => other (congrArg some same)).asked_step nofun
  | segment asker number range =>
      exact (h.segment_other fun same => other (congrArg some same)).asked_step nofun

/-- A request that is made is in some phase at once. -/
theorem At.asks_step {event : Event} (h : s.At request .absent)
    (asks : event.asks = some request) : ∃ p, (s.step event).At request p := by
  cases event with
  | playlist asker what =>
      obtain rfl : asker = request := Option.some.inj asks
      exact ⟨_, h.playlist⟩
  | segment asker number range =>
      obtain rfl : asker = request := Option.some.inj asks
      exact ⟨_, h.segment⟩
  | call call now => cases asks
  | stop => cases asks
  | leave gone => cases asks
  | turn taker => cases asks

/-- What a turn delivers belongs to the request that takes it. -/
theorem delivery_taker {taker asker : Nat} {outcome : Outcome}
    (delivered : s.delivery (.turn taker) = some (asker, outcome)) : taker = asker := by
  cases found : s.turns.find? (·.request = taker) with
  | none =>
      rw [(step_turn_none found).2] at delivered
      cases delivered
  | some next =>
      have named : next.request = taker := by simpa using List.find?_some found
      rw [(step_turn_some found).2] at delivered
      unfold Turn.arrives? at delivered
      split at delivered
      · cases delivered
        exact named.symm
      · cases delivered

theorem At.delivery (h : s.At request phase) (event : Event) (outcome : Outcome) :
    s.delivery event = some (request, outcome) ↔
      phase = .told 0 outcome ∧ event = .turn request := by
  constructor
  · intro delivered
    cases event with
    | turn taker =>
        obtain rfl := delivery_taker delivered
        have first := h.find?
        cases phase with
        | told steps told =>
            rw [(step_turn_some first).2] at delivered
            cases steps with
            | zero =>
                cases delivered
                exact ⟨rfl, rfl⟩
            | succ steps => cases delivered
        | resumes stage told =>
            rw [(step_turn_some first).2] at delivered
            cases delivered
        | absent =>
            rw [(step_turn_none first).2] at delivered
            cases delivered
        | waits stage target =>
            rw [(step_turn_none first).2] at delivered
            cases delivered
    | call call now => cases delivered
    | stop => cases delivered
    | playlist asker what => cases delivered
    | segment asker number range => cases delivered
    | leave gone => cases delivered
  · rintro ⟨rfl, rfl⟩
    rw [(step_turn_some h.find?).2]
    rfl

/-! ### Runs -/

/-- The outcomes that arrive in a run, in order, each with the request that it belongs to. -/
def outcomes (s : Stream) : List Event → List (Nat × Outcome)
  | [] => []
  | event :: events => (s.delivery event).toList ++ (s.step event).outcomes events

theorem mem_outcomes_iff {events : List Event} {arrival : Nat × Outcome} :
    arrival ∈ s.outcomes events ↔ ∃ sooner event, sooner ++ [event] <+: events ∧
      (s.run sooner).delivery event = some arrival := by
  induction events generalizing s with
  | nil => simp [outcomes]
  | cons first events ih =>
      rw [outcomes, List.mem_append, Option.mem_toList, ih]
      constructor
      · rintro (now | ⟨sooner, event, front, later⟩)
        · exact ⟨[], first, by simp, now⟩
        · exact ⟨first :: sooner, event, by simpa using front, later⟩
      · rintro ⟨sooner, event, front, arrives⟩
        cases sooner with
        | nil =>
            obtain rfl : event = first := by simpa using front
            exact .inl arrives
        | cons other sooner =>
            obtain ⟨rfl, rest⟩ : other = first ∧ sooner ++ [event] <+: events := by
              simpa [List.cons_prefix_cons] using front
            exact .inr ⟨sooner, event, rest, arrives⟩

/-- None of the events makes the request. -/
def Unasked (request : Nat) (events : List Event) : Prop :=
  ∀ event ∈ events, event.asks ≠ some request

theorem Unasked.of_prefix {sooner events : List Event} (unasked : Unasked request events)
    (front : sooner <+: events) : Unasked request sooner :=
  fun event member => unasked event (front.subset member)

theorem unasked_append {sooner later : List Event} :
    Unasked request (sooner ++ later) ↔ Unasked request sooner ∧ Unasked request later :=
  List.forall_mem_append

/-- Each step that the request takes in the events keeps a property of the phase and of the events
so far. -/
def Keeps (s : Stream) (request : Nat) (events : List Event) (Q : List Event → Phase → Prop) :
    Prop :=
  ∀ sooner event p next, sooner ++ [event] <+: events → (s.run sooner).At request p →
    (s.run (sooner ++ [event])).At request next → Phase.Step (s.run sooner) request event p next →
    Q sooner p → Q (sooner ++ [event]) next

theorem Keeps.of_prefix {Q : List Event → Phase → Prop} {sooner events : List Event}
    (keeps : s.Keeps request events Q) (front : sooner <+: events) : s.Keeps request sooner Q :=
  fun early event p next inside => keeps early event p next (inside.trans front)

/-- What holds of a request at first, and is kept by each of its steps, holds of it always. -/
theorem At.run {Q : List Event → Phase → Prop} {events : List Event} (h : s.At request phase)
    (unasked : Unasked request events) (first : Q [] phase) (keeps : s.Keeps request events Q) :
    ∃ p, (s.run events).At request p ∧ Q events p := by
  induction events using List.reverseRecOn with
  | nil => exact ⟨phase, h, first⟩
  | append_singleton events event ih =>
      have front : events <+: events ++ [event] := List.prefix_append _ _
      obtain ⟨p, now, holds⟩ := ih (unasked.of_prefix front) (keeps.of_prefix front)
      obtain ⟨next, step, after⟩ := now.step event (unasked event (by simp))
      have after : (s.run (events ++ [event])).At request next := by
        rw [run_append]
        exact after
      exact ⟨next, after, keeps events event p next List.prefix_rfl now after step holds⟩

/-- An outcome arrives when the request has been told of it and has one more turn to take. -/
theorem At.outcome {Q : List Event → Phase → Prop} {events : List Event} {outcome : Outcome}
    (h : s.At request phase) (unasked : Unasked request events) (first : Q [] phase)
    (keeps : s.Keeps request events Q)
    (arrives : (request, outcome) ∈ s.outcomes events) :
    ∃ sooner, sooner ++ [.turn request] <+: events ∧ Q sooner (.told 0 outcome) := by
  obtain ⟨sooner, event, front, delivered⟩ := mem_outcomes_iff.mp arrives
  have inside : sooner <+: events := (List.prefix_append _ _).trans front
  obtain ⟨p, now, holds⟩ := h.run (unasked.of_prefix inside) first (keeps.of_prefix inside)
  obtain ⟨rfl, rfl⟩ := (now.delivery event outcome).mp delivered
  exact ⟨sooner, front, holds⟩

theorem At.run_absent {events : List Event} (h : s.At request .absent)
    (unasked : Unasked request events) : (s.run events).At request .absent := by
  have keeps : s.Keeps request events fun _ p => p = .absent := by
    rintro sooner event p next - - - step rfl
    cases step
    rfl
  obtain ⟨p, after, rfl⟩ := h.run unasked rfl keeps
  exact after

end Stream

end LiveHls
