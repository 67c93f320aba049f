import LiveHls.Proofs.Stream.Course
import Mathlib.Algebra.GroupWithZero.Nat
/-! Whether an outcome arrives. Each turn of a request brings it nearer to its outcome, so one that
need not wait any more has it after as many turns as it has work to do. -/
namespace LiveHls

def Event.isTurnOf (request : Nat) : Event → Bool
  | .turn taker => taker = request
  | _ => false

theorem Event.isTurnOf_turn (request : Nat) : (turn request).isTurnOf request = true :=
  decide_eq_true rfl

theorem Event.eq_turn {request : Nat} {event : Event} (own : event.isTurnOf request = true) :
    event = .turn request := by
  cases event with
  | turn taker => exact congrArg Event.turn (of_decide_eq_true own)
  | call call now => cases own
  | stop => cases own
  | playlist asker what => cases own
  | segment asker number range => cases own
  | leave gone => cases own

namespace Phase

/-- How many turns the request has to take at most. -/
def work (phase : Phase) : Nat := ((phase.turns 0).map Turn.work).sum

theorem work_told (steps : Nat) (outcome : Outcome) : (told steps outcome).work = steps + 1 := rfl

/-- The request waits, or it is under way with less than so much work to do. -/
def Below (bound : Nat) (phase : Phase) : Prop :=
  (∃ stage target, phase = .waits stage target) ∨ phase ≠ .absent ∧ phase.work < bound

theorem below_told {bound steps : Nat} (less : steps + 1 < bound) (outcome : Outcome) :
    Below bound (told steps outcome) := .inr ⟨nofun, less⟩

theorem Below.mono {phase : Phase} {bound more : Nat} (below : phase.Below bound)
    (le : bound ≤ more) : phase.Below more :=
  below.imp_right fun moving => ⟨moving.1, Nat.lt_of_lt_of_le moving.2 le⟩

theorem Below.work_le {phase : Phase} {bound : Nat} (below : phase.Below bound) :
    phase.work ≤ bound := by
  rcases below with ⟨stage, target, rfl⟩ | ⟨-, less⟩
  · exact Nat.zero_le bound
  · exact Nat.le_of_lt less

theorem Below.there {phase : Phase} {bound : Nat} (below : phase.Below bound) :
    phase ≠ .absent := by
  rcases below with ⟨stage, target, rfl⟩ | ⟨there, -⟩
  · exact nofun
  · exact there

end Phase

namespace Stream

variable {s : Stream} {request : Nat} {phase : Phase} {events : List Event}

theorem awaiting_below (s : Stream) (request : Nat) (sequence : Nat) (range : Option ByteRange)
    (target : WaitTarget) : (s.awaiting request (.hold sequence range) target).Below 4 := by
  unfold awaiting
  cases (s.waiters.wait ⟨request, .hold sequence range⟩ target s.window
    (s.left.contains request)).2.1 with
  | none => exact .inl ⟨_, _, rfl⟩
  | some outcome => exact .inr ⟨nofun, Nat.lt_succ_self 3⟩

theorem serving_below (s : Stream) (request : Nat) (a : Segment) (range : Option ByteRange) :
    (s.serving request a range).Below 4 := by
  unfold serving
  cases SegmentRequest.judge a range s.settings with
  | answer outcome => exact Phase.below_told (Nat.lt_succ_self 3) _
  | hold offset => exact s.awaiting_below request a.sequence range _

theorem resuming_below (s : Stream) (request : Nat) (stage : Stage) (outcome : WaitOutcome) :
    (s.resuming request stage outcome).Below (Phase.resumes stage outcome).work := by
  unfold resuming
  cases stage with
  | playlist blocking => exact Phase.below_told (Nat.lt_succ_self 1) _
  | hold sequence range => exact Phase.below_told (Nat.lt_succ_self 2) _
  | appearance number range =>
      cases outcome with
      | error fault => exact Phase.below_told (by decide : 0 + 1 < 4) _
      | ok w =>
          simp only
          split
          · exact s.serving_below request _ range
          · exact Phase.below_told (by decide : 0 + 1 < 4) _

/-- A request that goes on never waits for its segment to appear. -/
theorem resuming_ne_appearance (s : Stream) (request : Nat) (stage : Stage) (outcome : WaitOutcome)
    (number : Numeral) (range : Option ByteRange) (target : WaitTarget) :
    s.resuming request stage outcome ≠ .waits (.appearance number range) target := by
  have hold : ∀ sequence range' target', s.awaiting request (.hold sequence range') target' ≠
      .waits (.appearance number range) target := by
    intro sequence range' target'
    unfold awaiting
    split <;> nofun
  unfold resuming
  cases stage with
  | playlist blocking => exact nofun
  | hold sequence range => exact nofun
  | appearance number range =>
      cases outcome with
      | error fault => exact nofun
      | ok w =>
          simp only
          split
          · unfold serving
            split
            · exact nofun
            · exact hold _ _ _
          · exact nofun

theorem segmentAsked_below (s : Stream) (request : Nat) (number : Numeral)
    (range : Option ByteRange) : (s.segmentAsked request number range).Below 5 := by
  unfold segmentAsked
  split
  · exact Phase.below_told (by decide) _
  · split
    · exact (s.serving_below request _ range).mono (Nat.le_succ 4)
    · split
      · exact Phase.below_told (by decide) _
      · unfold awaiting
        split
        · exact .inr ⟨nofun, Nat.lt_succ_self 4⟩
        · exact .inl ⟨_, _, rfl⟩

theorem work_resumes_le (stage : Stage) (outcome : WaitOutcome) :
    (Phase.resumes stage outcome).work ≤ 4 := by
  cases stage with
  | playlist blocking => exact (by decide : 2 ≤ 4)
  | appearance number range => exact Nat.le_refl 4
  | hold sequence range => exact (by decide : 3 ≤ 4)

theorem work_step {event : Event} {next : Phase} (step : Phase.Step s request event phase next)
    (small : phase.work ≤ 4) : next.work ≤ 4 := by
  cases step with
  | idle => exact small
  | undisturbed unsettled stopped stays => exact small
  | settled running made judged => exact work_resumes_le _ _
  | halted running => exact work_resumes_le _ _
  | abandoned => exact work_resumes_le _ _
  | resumesLater other => exact small
  | toldLater other => exact small
  | resumed => exact (s.resuming_below request _ _).work_le.trans small
  | relayed => exact (Nat.le_succ _).trans small
  | arrived => exact Nat.zero_le 4

theorem outcomes_append (s : Stream) (events later : List Event) :
    s.outcomes (events ++ later) = s.outcomes events ++ (s.run events).outcomes later := by
  induction events generalizing s with
  | nil => rfl
  | cons event events ih =>
      rw [List.cons_append, outcomes, outcomes, ih, run_cons, List.append_assoc]

/-- A request that was there and is gone has had its outcome. -/
theorem arrived_step {event : Event} {next : Phase}
    (arrived : phase = .absent → ∃ outcome, (request, outcome) ∈ s.outcomes events)
    (h : (s.run events).At request phase)
    (step : Phase.Step (s.run events) request event phase next) (gone : next = .absent) :
    ∃ outcome, (request, outcome) ∈ s.outcomes (events ++ [event]) := by
  cases step with
  | idle =>
      obtain ⟨outcome, arrives⟩ := arrived rfl
      rw [outcomes_append]
      exact ⟨outcome, List.mem_append_left _ arrives⟩
  | @arrived outcome =>
      refine ⟨outcome, mem_outcomes_iff.mpr ⟨events, _, List.prefix_rfl, ?_⟩⟩
      exact (h.delivery (.turn request) outcome).mpr ⟨rfl, rfl⟩
  | resumed => exact absurd gone ((s.run events).resuming_below request _ _).there
  | undisturbed unsettled stopped stays => cases gone
  | settled running made judged => cases gone
  | halted running => cases gone
  | abandoned => cases gone
  | resumesLater other => cases gone
  | toldLater other => cases gone
  | relayed => cases gone

/-- A request that does not wait any more has its outcome when it has taken enough turns. -/
theorem At.arrives (h : s.At request phase) (unasked : Unasked request events)
    (there : phase ≠ .absent)
    (moving : ∀ sooner stage target, sooner <+: events →
      ¬ (s.run sooner).At request (.waits stage target))
    (enough : phase.work ≤ events.countP (Event.isTurnOf request)) :
    ∃ outcome, (request, outcome) ∈ s.outcomes events := by
  -- its own turns take work off, and no other event puts any on
  induction events generalizing s phase with
  | nil =>
      cases phase with
      | absent => exact absurd rfl there
      | waits stage target => exact absurd h (moving [] stage target List.prefix_rfl)
      | resumes stage outcome => cases stage <;> cases enough
      | told steps outcome => cases enough
  | cons event events ih =>
      have quiet : Unasked request events := fun event member => unasked event (by simp [member])
      have moving' : ∀ sooner stage target, sooner <+: events →
          ¬ ((s.step event).run sooner).At request (.waits stage target) :=
        fun sooner stage target front =>
          moving (event :: sooner) stage target (List.cons_prefix_cons.mpr ⟨rfl, front⟩)
      obtain ⟨next, step, after⟩ := h.step event (unasked event (by simp))
      have later : next ≠ .absent → next.work ≤ events.countP (Event.isTurnOf request) →
          ∃ outcome, (request, outcome) ∈ s.outcomes (event :: events) := by
        intro there enough
        obtain ⟨outcome, arrives⟩ := ih after quiet there moving' enough
        exact ⟨outcome, List.mem_append_right _ arrives⟩
      cases step with
      | idle => exact absurd rfl there
      | undisturbed unsettled stopped stays => exact absurd h (moving [] _ _ List.nil_prefix)
      | settled running made judged => exact absurd h (moving [] _ _ List.nil_prefix)
      | halted running => exact absurd h (moving [] _ _ List.nil_prefix)
      | abandoned => exact absurd h (moving [] _ _ List.nil_prefix)
      | resumesLater other =>
          have idle : ¬ event.isTurnOf request = true := fun own => other (Event.eq_turn own)
          rw [List.countP_cons_of_neg idle] at enough
          exact later there enough
      | toldLater other =>
          have idle : ¬ event.isTurnOf request = true := fun own => other (Event.eq_turn own)
          rw [List.countP_cons_of_neg idle] at enough
          exact later there enough
      | @resumed stage outcome =>
          rw [List.countP_cons_of_pos (Event.isTurnOf_turn request)] at enough
          rcases s.resuming_below request stage outcome with ⟨stage', target, same⟩ | ⟨there, less⟩
          · exact absurd (same ▸ after) (moving' [] stage' target List.nil_prefix)
          · exact later there (by omega)
      | relayed =>
          rw [List.countP_cons_of_pos (Event.isTurnOf_turn request), Phase.work_told] at enough
          exact later nofun (by rw [Phase.work_told]; omega)
      | @arrived outcome =>
          refine ⟨outcome, List.mem_append_left _ ?_⟩
          rw [Option.mem_toList]
          exact (h.delivery (.turn request) _).mpr ⟨rfl, rfl⟩

/-! ### A request that has been told its outcome -/

/-- Nothing but this outcome can reach the client any more. -/
def Told (outcome : Outcome) (phase : Phase) : Prop :=
  phase = .absent ∨ ∃ steps, phase = .told steps outcome

theorem Told.step {outcome : Outcome} {event : Event} {next : Phase} (told : Told outcome phase)
    (step : Phase.Step s request event phase next) : Told outcome next := by
  rcases told with rfl | ⟨steps, rfl⟩
  · cases step
    exact .inl rfl
  · cases step with
    | toldLater other => exact .inr ⟨_, rfl⟩
    | relayed => exact .inr ⟨_, rfl⟩
    | arrived => exact .inl rfl

variable {steps : Nat} {outcome other : Outcome}

theorem At.told_outcome (h : s.At request (.told steps outcome)) (unasked : Unasked request events)
    (arrives : (request, other) ∈ s.outcomes events) : other = outcome := by
  obtain ⟨sooner, -, told⟩ := h.outcome unasked (Q := fun _ => Told outcome) (.inr ⟨steps, rfl⟩)
    (fun _ _ _ _ _ _ _ step told => told.step step) arrives
  rcases told with absent | ⟨steps, same⟩
  · cases absent
  · cases same
    rfl

theorem At.told_arrives (h : s.At request (.told steps outcome)) (unasked : Unasked request events)
    (enough : steps + 1 ≤ events.countP (Event.isTurnOf request)) :
    (request, outcome) ∈ s.outcomes events := by
  have moving : ∀ sooner stage target, sooner <+: events →
      ¬ (s.run sooner).At request (.waits stage target) := by
    intro sooner stage target front waits
    obtain ⟨p, now, told⟩ := h.run (unasked.of_prefix front) (Q := fun _ => Told outcome)
      (.inr ⟨steps, rfl⟩) (fun _ _ _ _ _ _ _ step told => told.step step)
    rw [now.unique waits] at told
    rcases told with absent | ⟨steps, same⟩
    · cases absent
    · cases same
  obtain ⟨other, arrives⟩ := h.arrives unasked nofun moving enough
  rw [h.told_outcome unasked arrives] at arrives
  exact arrives

/-! ### A request whose outcome is certain -/

/-- Whatever else happens, the request is told this outcome in four turns of its own, and it is never
told another. -/
structure Destined (s : Stream) (request : Nat) (outcome : Outcome) : Prop where
  arrives : ∀ later, Unasked request later → 4 ≤ later.countP (Event.isTurnOf request) →
    (request, outcome) ∈ s.outcomes later
  only : ∀ later other, Unasked request later → (request, other) ∈ s.outcomes later →
    other = outcome

/-- A request is destined for an outcome if it need not wait, and none of its steps leads to another
outcome. -/
theorem At.destined {P : Phase → Prop} (h : s.At request phase) (there : phase ≠ .absent)
    (small : phase.work ≤ 4) (first : P phase)
    (step : ∀ sooner event p next, Phase.Step (s.run sooner) request event p next → P p → P next)
    (moves : ∀ stage target, ¬ P (.waits stage target))
    (told : ∀ other, P (.told 0 other) → other = outcome) : s.Destined request outcome := by
  have keeps : ∀ events, s.Keeps request events fun _ => P :=
    fun _ sooner event p next _ _ _ => step sooner event p next
  have only : ∀ later other, Unasked request later → (request, other) ∈ s.outcomes later →
      other = outcome := by
    intro later other unasked arrives
    obtain ⟨sooner, -, holds⟩ := h.outcome unasked first (keeps later) arrives
    exact told other holds
  refine ⟨fun later unasked enough => ?_, only⟩
  have moving : ∀ sooner stage target, sooner <+: later →
      ¬ (s.run sooner).At request (.waits stage target) := by
    intro sooner stage target front waits
    obtain ⟨p, now, holds⟩ := h.run (unasked.of_prefix front) first (keeps sooner)
    rw [now.unique waits] at holds
    exact moves stage target holds
  obtain ⟨other, arrives⟩ := h.arrives unasked there moving (small.trans enough)
  exact only later other unasked arrives ▸ arrives

/-- What is told to a request that goes on need not depend on when it goes on. -/
theorem At.resumes_destined {stage : Stage} {waited : WaitOutcome}
    (h : s.At request (.resumes stage waited))
    (goes : ∀ sooner, ∃ steps, (s.run sooner).resuming request stage waited = .told steps outcome) :
    s.Destined request outcome := by
  refine h.destined (P := fun p => p = .resumes stage waited ∨ Told outcome p) nofun
    (work_resumes_le stage waited) (.inl rfl) ?_ ?_ ?_
  · rintro sooner event p next step (rfl | told)
    · cases step with
      | resumesLater other => exact .inl rfl
      | resumed =>
          obtain ⟨steps, same⟩ := goes sooner
          exact .inr (.inr ⟨steps, same⟩)
    · exact .inr (told.step step)
  · rintro stage target (⟨⟨⟩⟩ | ⟨⟨⟩⟩ | ⟨steps, ⟨⟩⟩)
  · rintro other (⟨⟨⟩⟩ | ⟨⟨⟩⟩ | ⟨steps, ⟨⟩⟩)
    rfl

/-- A held request is answered from the window that ended its wait. -/
theorem At.hold_destined {sequence : Nat} {range : Option ByteRange} {waited : WaitOutcome}
    (h : s.At request (.resumes (.hold sequence range) waited)) :
    s.Destined request ((waited.bind fun w =>
      SegmentRequest.conclude w sequence range s.settings).map .segment) := by
  refine h.resumes_destined fun sooner => ⟨1, ?_⟩
  rw [resuming, run_settings]

/-- Only its own turns take a request on that does not wait. -/
theorem At.resumes_stays {stage : Stage} {waited : WaitOutcome}
    (h : s.At request (.resumes stage waited)) (unasked : Unasked request events)
    (untaken : .turn request ∉ events) : (s.run events).At request (.resumes stage waited) := by
  have keeps : s.Keeps request events fun _ p => p = .resumes stage waited := by
    rintro sooner event p next front - - step rfl
    cases step with
    | resumesLater other => rfl
    | resumed => exact absurd (front.subset (by simp)) untaken
  obtain ⟨p, after, rfl⟩ := h.run unasked rfl keeps
  exact after

theorem At.told_destined (h : s.At request (.told steps outcome)) (few : steps < 4) :
    s.Destined request outcome :=
  ⟨fun _ unasked enough => h.told_arrives unasked (Nat.le_trans few enough),
    fun _ _ unasked arrives => h.told_outcome unasked arrives⟩

end Stream

end LiveHls
