import LiveHls.Proofs.Stream.NextPart
/-! Holding a request for bytes is as good as asking again. Who waits where the data of a segment
end is judged, against every later window, as the same request would be if it were made then. -/
namespace LiveHls

/-- Two outcomes are one, up to the sign of a zero that a refusal names. -/
inductive Alike {α : Type} : Except Fault α → Except Fault α → Prop
  | same (outcome : Except Fault α) : Alike outcome outcome
  | lost {name other : Numeral} {n : Int} (first : name.toInt? = some n)
      (second : other.toInt? = some n) : Alike (.error (.evicted name)) (.error (.evicted other))

theorem Alike.map {α β : Type} {x y : Except Fault α} (alike : Alike x y) (f : α → β) :
    Alike (x.map f) (y.map f) := by
  cases alike with
  | same outcome => exact .same _
  | lost first second => exact .lost first second

/-- A segment has had its data up to an offset: it is there with at least as many, or it has been
dropped. -/
def Window.Reaches (w : Window) (n offset : Int) : Prop :=
  (∃ a, w.find? n = some a ∧ offset ≤ a.dataSize) ∨ w.isEvicted n = true

namespace SegmentRequest

/-- What a request is told by a window alone, or where it is held. It is neither told nor held as
long as its segment is to come. -/
def polled (w : Window) (number : Numeral) (range : Option ByteRange) (settings : Settings) :
    Option Judgement :=
  match w.named? number with
  | some a => some (judge a range settings)
  | none => if w.isPast number then some (.answer (.error (.evicted number))) else none

variable {w : Window} {number : Numeral} {n : Int} {range : Option ByteRange} {a : Segment}
  {settings : Settings}

theorem polled_of_find? (named : number.toInt? = some n) (found : w.find? n = some a) :
    polled w number range settings = some (judge a range settings) := by
  rw [polled, w.named?_of_toInt? named, found]

theorem polled_of_evicted (h : Consecutive w.segments) (named : number.toInt? = some n)
    (gone : w.isEvicted n = true) :
    polled w number range settings = some (.answer (.error (.evicted number))) := by
  have missing : w.named? number = none := by
    cases found : w.named? number with
    | none => rfl
    | some a =>
        obtain ⟨member, same⟩ := (Window.named?_eq_some_iff h number a).mp found
        have inside := Window.not_evicted_of_mem h member
        rw [Option.some.inj (same.symm.trans named), gone] at inside
        cases inside
  rw [polled, missing]
  simp only [w.isPast_eq_isEvicted named, gone, if_true]

/-- What a hold comes to in a window is what the request would come to there: the wait is pending if
the request would be held, and if not it ends with what the request would be told. -/
theorem hold_eq_polled (h : Consecutive w.segments) (named : number.toInt? = some n)
    (reaches : w.Reaches n (startOf range)) (event : Option Production) (settings : Settings) :
    ((WaitTarget.bytes n (startOf range)).evaluate w event).outcome? w = none ∧
        polled w number range settings = some (.hold (startOf range)) ∨
      ∃ outcome result,
        ((WaitTarget.bytes n (startOf range)).evaluate w event).outcome? w = some outcome ∧
          polled w number range settings = some (.answer result) ∧
          Alike (outcome.bind fun w => conclude w n range settings) result := by
  rcases reaches with ⟨a, found, reached⟩ | gone
  · obtain ⟨member, same⟩ := (Window.find?_eq_some_iff h n a).mp found
    have inside : w.isEvicted n = false := same ▸ Window.not_evicted_of_mem h member
    rw [polled_of_find? named found]
    by_cases ended : a.complete = true ∨ startOf range < a.dataSize
    · have ready : (WaitTarget.bytes n (startOf range)).evaluate w event = .ready :=
        WaitTarget.bytes_ready_iff.mpr ⟨inside, a, found, ended⟩
      rw [ready, judge_eq_conclude found reached ended]
      exact .inr ⟨_, _, rfl, rfl, .same _⟩
    · obtain ⟨opened, short⟩ := not_or.mp ended
      have opened := Bool.eq_false_iff.mpr opened
      have edge : startOf range = a.dataSize := by omega
      have pending : (WaitTarget.bytes n (startOf range)).evaluate w event = .pending := by
        refine WaitTarget.bytes_pending_iff.mpr ⟨inside, fun b there => ?_⟩
        cases found.symm.trans there
        exact ⟨opened, Int.not_lt.mp short⟩
      rw [pending, judge_edge opened edge, edge]
      exact .inl ⟨rfl, rfl⟩
  · have rejected : (WaitTarget.bytes n (startOf range)).evaluate w event =
        .rejected (.evicted (.whole n)) := WaitTarget.bytes_rejected_iff.mpr ⟨gone, rfl⟩
    rw [rejected, polled_of_evicted h named gone]
    exact .inr ⟨_, _, rfl, rfl, .lost rfl named⟩

end SegmentRequest

namespace Stream

open SegmentRequest

variable {s t : Stream} {request n : Nat} {number : Numeral} {range : Option ByteRange}
  {events more : List Event} {phase : Phase}

/-! ### Requests that wait -/

/-- Where a request can stand that waits or goes on with a window. The events are those since it was
made. -/
inductive Pends (s : Stream) (number : Numeral) (range : Option ByteRange) (events : List Event) :
    Phase → Prop
  | appears : Pends s number range events (.waits (.appearance number range) .production)
  | appeared {w : Window} (passes : s.Passes events w) :
      Pends s number range events (.resumes (.appearance number range) (.ok w))
  | held {w : Window} {a : Segment} (passes : s.Passes events w)
      (found : w.named? number = some a) (edge : startOf range = a.dataSize) :
      Pends s number range events
        (.waits (.hold a.sequence range) (.bytes a.sequence (startOf range)))
  | released {sequence : Nat} {kept : Option ByteRange} {outcome : WaitOutcome} :
      Pends s number range events (.resumes (.hold sequence kept) outcome)
  | failed {stage : Stage} {fault : Fault} : Pends s number range events (.resumes stage (.error fault))
  | told {steps : Nat} {outcome : Outcome} : Pends s number range events (.told steps outcome)
  | absent : Pends s number range events .absent

theorem Pends.mono (pends : s.Pends number range events phase) (front : events <+: more) :
    s.Pends number range more phase := by
  cases pends with
  | appears => exact .appears
  | appeared passes => exact .appeared (passes.mono front)
  | held passes found edge => exact .held (passes.mono front) found edge
  | released => exact .released
  | failed => exact .failed
  | told => exact .told
  | absent => exact .absent

theorem serving_pends {w : Window} {a : Segment} (t : Stream) (passes : s.Passes events w)
    (found : w.named? number = some a) :
    s.Pends number range events (t.serving request a range) := by
  unfold serving
  cases judged : judge a range t.settings with
  | answer outcome => exact .told
  | hold offset =>
      obtain ⟨rfl, edge, -⟩ := judge_eq_hold judged
      unfold awaiting
      simp only
      split
      · exact .released
      · exact .held passes found edge

theorem segmentAsked_pends : s.Pends number range [] (s.segmentAsked request number range) := by
  unfold segmentAsked
  split
  · exact .told
  · cases found : s.window.named? number with
    | some a => exact serving_pends s (passes_now s []) found
    | none =>
        simp only
        split
        · exact .told
        · rcases s.awaiting_cases request (.appearance number range) .production with
            ⟨fault, -, same⟩ | ⟨-, same⟩ | ⟨outcome, judged, -⟩ | ⟨-, same⟩
          · exact same ▸ .failed
          · exact same ▸ .failed
          · cases judged
          · exact same ▸ .appears

theorem resuming_pends {stage : Stage} {outcome : WaitOutcome}
    (pends : s.Pends number range events (.resumes stage outcome)) (t : Stream) :
    s.Pends number range events (t.resuming request stage outcome) := by
  cases pends with
  | @appeared w passes =>
      unfold resuming
      simp only
      split
      · rename_i a found
        exact serving_pends t passes found
      · exact .told
  | released => exact .told
  | failed => cases stage <;> exact .told

theorem Pends.step {event : Event} {next : Phase} (pends : s.Pends number range events phase)
    (step : Phase.Step (s.run events) request event phase next) :
    s.Pends number range (events ++ [event]) next := by
  have front : events <+: events ++ [event] := List.prefix_append _ _
  cases step with
  | idle => exact .absent
  | undisturbed unsettled stopped stays => exact pends.mono front
  | resumesLater other => exact pends.mono front
  | toldLater other => exact pends.mono front
  | resumed => exact (resuming_pends pends _).mono front
  | relayed => exact .told
  | arrived => exact .absent
  | halted running => exact .failed
  | abandoned => exact .failed
  | @settled call now w stage target outcome running made judged =>
      cases pends with
      | held passes found edge => exact .released
      | appears =>
          obtain ⟨kind, rfl⟩ := WaitTarget.production_settled judged
          obtain ⟨log, performed⟩ := perform_made running made
          have produces : s.Produces (events ++ [.call call now]) w :=
            ⟨events, call, now, _, log, List.prefix_rfl, kind, performed, rfl⟩
          exact .appeared produces.passes

theorem run_reaches (h : s.Regular) {offset : Int} (reaches : s.window.Reaches n offset)
    (events : List Event) : (s.run events).window.Reaches n offset := by
  rcases reaches with ⟨a, found, data⟩ | gone
  · rcases @found_or_evicted s n events h [] List.nil_prefix a found with ⟨b, there⟩ | gone
    · have grown := (run_content_grows h events found there).length_le
      have regular := run_regular h events
      rw [(h.tiled a (find?_mem h found)).length,
        (regular.tiled b (find?_mem regular there)).length] at grown
      exact .inl ⟨b, there, by omega⟩
    · exact .inr gone
  · exact .inr ((run_precedes h.toConsistent events).evicted n gone)

/-- A request is held for the segment that it names, and for data behind where it starts. -/
theorem held_since (h : s.Regular) (absent : s.At request .absent) {sooner : List Event}
    (unasked : Unasked request sooner) {kept : Option ByteRange} {target : WaitTarget}
    (waits : (s.run (.segment request number range :: sooner)).At request
      (.waits (.hold n kept) target)) :
    kept = range ∧ target = .bytes n (startOf range) ∧ number.toInt? = some (n : Int) ∧
      (s.run (.segment request number range :: sooner)).window.Reaches n (startOf range) := by
  have asked : (s.step (.segment request number range)).At request
      (s.segmentAsked request number range) := absent.segment
  have first : s.Pends number range [.segment request number range]
      (s.segmentAsked request number range) := segmentAsked_pends.mono List.nil_prefix
  have keeps : (s.step (.segment request number range)).Keeps request sooner fun events =>
      s.Pends number range (.segment request number range :: events) :=
    fun _ _ _ _ _ _ _ step pends => pends.step step
  obtain ⟨phase, now, pends⟩ := asked.run unasked first keeps
  obtain rfl := now.unique waits
  cases pends with
  | @held w a passes found edge =>
      have named := (passes.found h found).2
      have there := (w.named?_of_toInt? named).symm.trans found
      obtain ⟨early, ⟨rest, events⟩, rfl⟩ := passes
      have reaches : (s.run early).window.Reaches a.sequence (startOf range) :=
        .inl ⟨a, there, Int.le_of_eq edge⟩
      refine ⟨rfl, rfl, named, ?_⟩
      rw [← events, run_append]
      exact run_reaches (run_regular h early) reaches rest

/-! ### Requests that are made later -/

/-- What a request for a segment gets that is judged so. -/
inductive Gets (s : Stream) (request : Nat) (number : Numeral) (range : Option ByteRange) :
    Option Judgement → Prop
  | told {result : Except Fault SegmentResponse}
      (told : s.Destined request (result.map .segment)) :
      Gets s request number range (some (.answer result))
  | held {n : Nat} {offset : Int} (named : number.toInt? = some (n : Int))
      (waits : s.At request (.waits (.hold n range) (.bytes n offset))) :
      Gets s request number range (some (.hold offset))
  | appears (waits : s.At request (.waits (.appearance number range) .production)) :
      Gets s request number range none

/-- Whoever asks now gets what the current window alone has for the request. -/
theorem gets_polled (h : s.Regular) (running : s.stopped = false)
    (present : s.left.contains request = false) (absent : s.At request .absent) :
    (s.step (.segment request number range)).Gets request number range
      (polled s.window number range s.settings) := by
  have asked : (s.step (.segment request number range)).At request
      (s.segmentAsked request number range) := absent.segment
  have parks : ∀ stage target, target.evaluate s.window none = .pending →
      s.awaiting request stage target = .waits stage target := by
    intro stage target pending
    rw [awaiting_eq h, running, present, pending]
    rfl
  unfold segmentAsked at asked
  rw [running] at asked
  unfold polled
  cases found : s.window.named? number with
  | none =>
      simp only [found] at asked ⊢
      cases gone : s.window.isPast number with
      | true =>
          rw [gone] at asked
          exact .told (asked.told_destined (by decide))
      | false =>
          rw [gone] at asked
          rw [if_neg Bool.false_ne_true, if_neg Bool.false_ne_true, parks _ _ rfl] at asked
          exact .appears asked
  | some a =>
      simp only [found] at asked ⊢
      obtain ⟨tiled, named⟩ := (passes_now s []).found h found
      unfold serving at asked
      cases judged : judge a range s.settings with
      | answer result =>
          simp only [judged] at asked
          exact .told (asked.told_destined (by decide))
      | hold offset =>
          simp only [judged] at asked
          obtain ⟨rfl, edge, opened⟩ := judge_eq_hold judged
          have there := (s.window.named?_of_toInt? named).symm.trans found
          have pending : (WaitTarget.bytes a.sequence (startOf range)).evaluate s.window none =
              .pending := by
            refine WaitTarget.bytes_pending_iff.mpr ⟨not_evicted_of_find? h there, fun b same => ?_⟩
            cases there.symm.trans same
            exact ⟨opened, Int.le_of_eq edge.symm⟩
          rw [if_neg Bool.false_ne_true, parks _ _ pending] at asked
          exact .held named asked

/-- A call lets a held request wait if the same request would be held then, and otherwise ends its
wait with what that would be told. -/
theorem At.held_step (waits : s.At request (.waits (.hold n range) (.bytes n (startOf range))))
    (named : number.toInt? = some (n : Int)) {moment : Int} {call : ProducerCall} {log : Log}
    (performed : s.perform moment call = .ok (t, log)) (after : t.Regular)
    (reaches : t.window.Reaches n (startOf range)) :
    t.At request (.waits (.hold n range) (.bytes n (startOf range))) ∧
        polled t.window number range t.settings = some (.hold (startOf range)) ∨
      ∃ result outcome waited, t.At request (.resumes (.hold n range) waited) ∧
        polled t.window number range t.settings = some (.answer result) ∧
        t.Destined request outcome ∧ Alike outcome (result.map .segment) := by
  obtain ⟨-, w, -, rfl⟩ := perform_ok performed
  have next := waits.produced_waits moment w call.event
  rcases hold_eq_polled after.wellFormed.consecutive named reaches (some call.event) s.settings with
    ⟨unsettled, held⟩ | ⟨waited, result, settled, answered, alike⟩
  · rw [show w = (s.produced moment w call.event).window from rfl, unsettled] at next
    exact .inl ⟨next, held⟩
  · rw [show w = (s.produced moment w call.event).window from rfl, settled] at next
    exact .inr ⟨result, _, waited, next, answered, next.hold_destined, alike.map _⟩

/-- Holding a request equals asking again. A request that is held waits for data behind where it
starts. In every window in which it waits the same request would be held if it were made then; and
once a window ends the wait the request is told what that one would be told at once. -/
theorem holding_is_asking_again {id : String} {settings : Settings} {size : Float} {now : Int}
    {start : Stream} (created : Stream.create id settings size now = .ok start)
    (before sooner : List Event) {request n : Nat} {number : Numeral} {range kept : Option ByteRange}
    {target : WaitTarget} (single : Unasked request (before ++ sooner))
    (waits : ((start.run before).run (.segment request number range :: sooner)).At request
      (.waits (.hold n kept) target)) :
    let s := (start.run before).run (.segment request number range :: sooner)
    kept = range ∧ target = .bytes n (startOf range) ∧ number.toInt? = some (n : Int) ∧
    polled s.window number range s.settings = some (.hold (startOf range)) ∧
    ∀ call moment t log, s.perform moment call = .ok (t, log) →
      (t.At request (.waits (.hold n kept) target) ↔
        polled t.window number range t.settings = some (.hold (startOf range))) ∧
      (¬ t.At request (.waits (.hold n kept) target) → ∃ result outcome,
        polled t.window number range t.settings = some (.answer result) ∧
          t.Destined request outcome ∧ Alike outcome (result.map .segment)) ∧
      ∀ other, t.At other .absent → t.left.contains other = false →
        (t.step (.segment other number range)).Gets other number range
          (polled t.window number range t.settings) := by
  intro s
  have regular := run_regular (create_regular created) before
  obtain ⟨early, quiet⟩ := unasked_append.mp single
  have absent : (start.run before).At request .absent :=
    (create_at created request).1.run_absent early
  obtain ⟨rfl, rfl, named, reaches⟩ := held_since regular absent quiet waits
  have current : s.Regular := run_regular regular (.segment request number kept :: sooner)
  refine ⟨rfl, rfl, named, ?_, ?_⟩
  · obtain ⟨waiter, member, -, target⟩ := waits.parked
    have pending := current.pending waiter member
    rw [target] at pending
    rcases hold_eq_polled current.wellFormed.consecutive named reaches none s.settings with
      ⟨-, held⟩ | ⟨outcome, result, settled, -⟩
    · exact held
    · rw [pending] at settled
      cases settled
  · intro call moment t log performed
    have after : s.run [.call call moment] = t := step_call_ok performed
    have next : t.Regular := after ▸ run_regular current [.call call moment]
    have onward : t.window.Reaches n (startOf kept) :=
      after ▸ run_reaches current reaches [.call call moment]
    have running : t.stopped = false := by
      obtain ⟨running, w, -, rfl⟩ := perform_ok performed
      exact running
    have fresh : ∀ other, t.At other .absent → t.left.contains other = false →
        (t.step (.segment other number kept)).Gets other number kept
          (polled t.window number kept t.settings) :=
      fun other absent present => gets_polled next running present absent
    rcases waits.held_step named performed next onward with
      ⟨still, held⟩ | ⟨result, outcome, waited, goes, answered, destined, alike⟩
    · exact ⟨⟨fun _ => held, fun _ => still⟩, fun gone => absurd still gone, fresh⟩
    · have gone : ¬ t.At request (.waits (.hold n kept) (.bytes n (startOf kept))) := by
        intro still
        cases goes.unique still
      refine ⟨⟨fun still => absurd still gone, fun held => ?_⟩,
        fun _ => ⟨result, outcome, answered, destined, alike⟩, fresh⟩
      rw [answered] at held
      cases held

/-- A request from the end of the data on is refused with their length when the segment is sealed
there. -/
theorem holding_is_asking_again_of_one :
    let range : Option ByteRange := some ⟨1, openEnd⟩
    let before : List Event := [.call (.put ⟨.whole 0, [], none, false⟩) 1,
      .call (.append (.whole 0) ⟨1.0, true, [7]⟩ false) 2]
    let s := ((plain 2).run before).run [.segment 0 (.whole 0) range]
    Stream.create "live" plainSettings 2.0 0 = .ok (plain 2) ∧ Unasked 0 (before ++ []) ∧
    s.At 0 (.waits (.hold 0 range) (.bytes 0 1)) ∧
    (s.step (.call (.close (.whole 0) none) 3)).Destined 0 (.error (.rangeStart 1 1)) := by
  intro range before s
  have created := @create_plain 2.0 2 (by decide) (by decide)
  have single : Unasked 0 (before ++ []) := by simp [Unasked, before, Event.asks]
  have waits : s.At 0 (.waits (.hold 0 range) (.bytes 0 1)) := ⟨rfl, rfl⟩
  obtain ⟨log, performed⟩ : ∃ log, s.perform 3 (.close (.whole 0) none) =
      .ok (s.step (.call (.close (.whole 0) none) 3), log) := ⟨_, rfl⟩
  obtain ⟨-, -, -, -, calls⟩ := holding_is_asking_again created before [] single waits
  obtain ⟨pending, settles, -⟩ := calls _ _ _ _ performed
  have answered : polled (s.step (.call (.close (.whole 0) none) 3)).window (.whole 0) range
      s.settings = some (.answer (.error (.rangeStart 1 1))) := rfl
  obtain ⟨result, outcome, same, destined, alike⟩ := settles fun still => by
    cases (pending.mp still).symm.trans answered
  cases same.symm.trans answered
  cases alike
  exact ⟨created, single, waits, destined⟩

end Stream

end LiveHls
