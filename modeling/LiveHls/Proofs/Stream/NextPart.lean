import LiveHls.Proofs.Stream.Arrival
import LiveHls.Proofs.Stream.ByteAnswers
import LiveHls.Proofs.Window.Edge
/-! Requests for the part to come. Who asks for the data from the live edge on waits for the part
that is appended there, and gets it, unless there is no such part or nobody left to give it to. -/
namespace LiveHls.Stream

open SegmentRequest Window

/-- The event appends data to a segment at the offset where it ends. -/
inductive AppendsAt (s : Stream) (n st : Nat) : Event → Bytes → Prop
  | appends {number : Numeral} {part : Part} {discontinuity : Bool} {now : Int} {t : Stream}
      {log : Log} {a : Segment} (named : number.toInt? = some (n : Int)) (full : part.data ≠ [])
      (found : s.window.find? n = some a) (size : a.content.length = st)
      (performed : s.perform now (.append number part discontinuity) = .ok (t, log)) :
      AppendsAt s n st (.call (.append number part discontinuity) now) part.data

variable {s t : Stream} {request n st : Nat} {event : Event} {events : List Event} {data : Bytes}
  {phase : Phase}

theorem AppendsAt.found (appends : s.AppendsAt n st event data) :
    ∃ a, s.window.find? n = some a := by
  cases appends with
  | appends named full found size performed => exact ⟨_, found⟩

theorem AppendsAt.full (appends : s.AppendsAt n st event data) : data ≠ [] := by
  cases appends with
  | appends named full found size performed => exact full

theorem AppendsAt.after (h : s.Regular) (appends : s.AppendsAt n st event data) :
    ∃ b before, (s.step event).window.find? n = some b ∧ before.length = st ∧
      b.content = before ++ data := by
  cases appends with
  | @appends number part discontinuity now t log a named full found size performed =>
      obtain ⟨running, w, made, rfl⟩ := perform_ok performed
      obtain ⟨b, new, added⟩ := append_find? h.wellFormed h.positive h.tiled made named found
      rw [step_call_ok performed]
      exact ⟨b, a.content, new, size, added⟩

theorem AppendsAt.begins (h : s.Regular) (appends : s.AppendsAt n st event data)
    (events : List Event) {b : Segment}
    (found : ((s.step event).run events).window.find? n = some b) :
    data <+: b.content.drop st := by
  obtain ⟨a, before, old, rfl, content⟩ := appends.after h
  obtain ⟨rest, grown⟩ := run_content_grows ((s.step_moves event).regular h) events old found
  rw [← grown, content, List.append_assoc, List.drop_left]
  exact List.prefix_append _ _

theorem Moves.ends (h : s.Regular) (moves : Moves s event t) (ends : s.window.Ends n st) :
    t.window.Ends n st ∨ t.window.isEvicted n = true ∨ ∃ data, s.AppendsAt n st event data := by
  rcases moves.window with same | ⟨call, now, rfl, running, made⟩
  · exact .inl (same ▸ ends)
  · rcases ends.perform h.wellFormed h.positive h.tiled made with
      still | gone | ⟨number, part, discontinuity, a, rfl, named, full, found, size⟩
    · exact .inl still
    · exact .inr (.inl gone)
    · obtain ⟨log, performed⟩ := perform_made running made
      exact .inr (.inr ⟨part.data, .appends named full found size performed⟩)

/-- The next byte of a segment stays where it is until data are appended there. -/
theorem ends_run (h : s.Regular) (ends : s.window.Ends n st) (events : List Event) :
    (s.run events).window.Ends n st ∨ (s.run events).window.isEvicted n = true ∨
      ∃ sooner event data, sooner ++ [event] <+: events ∧
        (s.run sooner).AppendsAt n st event data := by
  -- by the last event: once the next byte has been appended, that event stays where it is
  induction events using List.reverseRecOn with
  | nil => exact .inl ends
  | append_singleton events event ih =>
      have regular := run_regular h events
      have moves := (s.run events).step_moves event
      have front : events <+: events ++ [event] := List.prefix_append _ _
      rw [show s.run (events ++ [event]) = (s.run events).step event from run_append ..]
      rcases ih with still | gone | ⟨sooner, appending, data, inside, appends⟩
      · rcases moves.ends regular still with still | gone | ⟨data, appends⟩
        · exact .inl still
        · exact .inr (.inl gone)
        · exact .inr (.inr ⟨events, event, data, List.prefix_rfl, appends⟩)
      · exact .inr (.inl ((moves.precedes regular.toConsistent).evicted n gone))
      · exact .inr (.inr ⟨sooner, appending, data, inside.trans front, appends⟩)

/-- What a request for the data from an offset on is told, and why, if the segment ends there when
the request is made. -/
inductive Fetched (s : Stream) (request n st : Nat) (events : List Event) : Outcome → Prop
  | part {sooner : List Event} {event : Event} {data : Bytes} {response : SegmentResponse}
      (front : sooner ++ [event] <+: events) (appends : (s.run sooner).AppendsAt n st event data)
      (status : response.status = 206)
      (begins : st + data.length ≤ openEnd + 1 → data <+: response.body) :
      Fetched s request n st events (.ok (.segment response))
  | sealed {sooner : List Event} {a : Segment} (front : sooner <+: events)
      (found : (s.run sooner).window.find? n = some a) (complete : a.complete = true)
      (size : a.content.length = st) : Fetched s request n st events (.error (.rangeStart st st))
  | evicted {sooner : List Event} {name : Numeral} (front : sooner <+: events)
      (gone : (s.run sooner).window.isEvicted n = true) :
      Fetched s request n st events (.error (.evicted name))
  | stopped {sooner : List Event} (front : sooner <+: events)
      (stopped : (s.run sooner).stopped = true) :
      Fetched s request n st events (.error (.stopped (s.run sooner).id))
  | left {sooner : List Event} (front : sooner <+: events)
      (gone : (s.run sooner).left.contains request = true) :
      Fetched s request n st events (.error .abandoned)

theorem find?_mem (h : s.Regular) {a : Segment} (found : s.window.find? n = some a) :
    a ∈ s.window.segments := ((find?_eq_some_iff h.wellFormed.consecutive n a).mp found).1

theorem not_evicted_of_find? (h : s.Regular) {a : Segment} (found : s.window.find? n = some a) :
    s.window.isEvicted n = false := by
  obtain ⟨member, named⟩ := (find?_eq_some_iff h.wellFormed.consecutive n a).mp found
  rw [← named]
  exact not_evicted_of_mem h.wellFormed.consecutive member

/-- A segment that was there is there, or has been dropped. -/
theorem found_or_evicted (h : s.Regular) {sooner : List Event} (front : sooner <+: events)
    {a : Segment} (found : (s.run sooner).window.find? n = some a) :
    (∃ b, (s.run events).window.find? n = some b) ∨ (s.run events).window.isEvicted n = true := by
  obtain ⟨rest, rfl⟩ := front
  rw [run_append]
  rcases (run_precedes (run_regular h sooner).toConsistent rest).kept n a found with
    gone | ⟨b, there, -⟩
  · exact .inr gone
  · exact .inl ⟨b, there⟩

theorem fetched_part (h : s.Regular) (ends : s.window.Ends n st) {sooner : List Event}
    (front : sooner <+: events) {a : Segment} {response : SegmentResponse}
    (found : (s.run sooner).window.find? n = some a) (exact : Partial a ⟨st, openEnd⟩ response) :
    s.Fetched request n st events (.ok (.segment response)) := by
  have regular := run_regular h sooner
  have starts : (st : Int) < a.content.length := exact.starts
  -- the segment has grown past the offset, so data have been appended there
  rcases ends_run h ends sooner with still | gone | ⟨early, event, data, inside, appends⟩
  · rw [still.size regular.wellFormed.consecutive found] at starts
    exact absurd starts (Int.lt_irrefl _)
  · rw [not_evicted_of_find? regular found] at gone
    cases gone
  · refine .part (inside.trans front) appends exact.status fun fits => ?_
    obtain ⟨rest, rfl⟩ := inside
    rw [run_append, run_append] at found
    have begins := appends.begins (run_regular h early) rest found
    have body : response.body = (a.content.take (lastOf a ⟨st, openEnd⟩ + 1).toNat).drop st :=
      exact.body
    have length := begins.length_le
    rw [List.length_drop] at length
    rw [body, List.drop_take, List.prefix_take_iff]
    refine ⟨begins, ?_⟩
    simp only [lastOf]
    omega

/-- The segment to come is there after the next put or part. -/
theorem found_of_produces (h : s.Regular) (ends : s.window.Ends n st) {w : Window}
    (produces : s.Produces events w) : (∃ a, w.find? n = some a) ∨ w.isEvicted n = true := by
  obtain ⟨sooner, call, now, t, log, -, -, performed, rfl⟩ := produces
  have regular := run_regular h sooner
  have front : sooner <+: sooner ++ [.call call now] := List.prefix_append _ _
  have after : s.run (sooner ++ [.call call now]) = t :=
    (run_append ..).trans (step_call_ok performed)
  rw [← after]
  rcases ends_run h ends sooner with still | gone | ⟨early, event, data, inside, appends⟩
  · cases still with
    | here found size => exact found_or_evicted h front found
    | next newest complete follows first =>
        obtain ⟨-, w, made, rfl⟩ := perform_ok performed
        obtain ⟨new, found⟩ := started_of_sealed regular.wellFormed regular.positive newest complete
          follows made
        rw [after]
        exact .inl ⟨_, found⟩
  · refine .inr ?_
    rw [run_append]
    exact (run_precedes regular.toConsistent [.call call now]).evicted n gone
  · obtain ⟨a, found⟩ := appends.found
    exact found_or_evicted h (((List.prefix_append _ _).trans inside).trans front) found

theorem fetched_of_justified (h : s.Regular) (ends : s.window.Ends n st) {outcome : Outcome}
    (why : s.Justified request (.whole n) (some ⟨st, openEnd⟩) events outcome) :
    s.Fetched request n st events outcome := by
  cases why with
  | exact passes found exact =>
      obtain ⟨sooner, front, rfl⟩ := passes
      exact fetched_part h ends front found exact
  | @beyond w a passes found beyond =>
      obtain ⟨sooner, front, rfl⟩ := passes
      have least : st ≤ a.content.length := by
        cases ends with
        | here old size => exact size ▸ (run_content_grows h sooner old found).length_le
        | next newest complete follows first => omega
      obtain ⟨size, complete⟩ : (a.content.length : Int) = st ∧ a.complete = true := by
        rcases beyond with past | last
        · exact absurd past (by simp only [startOf]; omega)
        · exact last
      have size : a.content.length = st := by omega
      rw [size]
      exact .sealed front found complete size
  | evicted passes gone =>
      obtain ⟨sooner, front, rfl⟩ := passes
      exact .evicted front gone
  | missing produces absent inside =>
      rcases found_of_produces h ends produces with ⟨a, found⟩ | gone
      · cases absent.symm.trans found
      · exact absurd (inside.symm.trans gone) Bool.false_ne_true
  | stopped front stopped => exact .stopped front stopped
  | left front gone => exact .left front gone

/-! ### Arrival -/

/-- A reader asks for all data of a segment from an offset on. -/
def fetch (request n st : Nat) : Event := .segment request (.whole n) (some ⟨st, openEnd⟩)

variable {sooner rest : List Event} {appending : Event}

/-- Once data have been appended at the offset nobody waits for them. -/
theorem AppendsAt.not_held (h : s.Regular) (appends : (s.run sooner).AppendsAt n st event data)
    (front : sooner ++ [event] <+: events) {stage : Stage} :
    ¬ (s.run events).At request (.waits stage (.bytes n st)) := by
  intro waits
  have regular := run_regular h events
  obtain ⟨waiter, member, -, target⟩ := waits.parked
  have pending := regular.pending waiter member
  rw [target] at pending
  obtain ⟨inside, short⟩ := WaitTarget.bytes_pending_iff.mp pending
  obtain ⟨a, found⟩ := appends.found
  rcases found_or_evicted h ((List.prefix_append _ _).trans front) found with ⟨b, there⟩ | gone
  · have size := (short b there).2
    rw [← (regular.tiled b (find?_mem regular there)).length] at size
    obtain ⟨later, rfl⟩ := front
    rw [run_append, run_append] at there
    have length := (appends.begins (run_regular h sooner) later there).length_le
    have appended := List.length_pos_of_ne_nil appends.full
    rw [List.length_drop] at length
    omega
  · rw [inside] at gone
    cases gone

/-- What is known of a request for data that have been appended among the events or not yet. -/
structure Underway (s : Stream) (request n st : Nat) (appended events : List Event)
    (phase : Phase) : Prop where
  sound : s.Sound request (.whole n) (some ⟨st, openEnd⟩) (fetch request n st :: events) phase
  work : phase.work ≤ 4
  arrived : phase = .absent →
    ∃ outcome, (request, outcome) ∈ (s.step (fetch request n st)).outcomes events
  appeared : appended <+: events → ∀ number range target,
    phase ≠ .waits (.appearance number range) target

/-- It wakes whoever waits for the segment to appear. -/
theorem AppendsAt.unsettled (appends : s.AppendsAt n st event data) {target : WaitTarget}
    (unsettled : ∀ call now w, event = .call call now → s.stopped = false →
      s.window.perform s.buffer.stream s.buffer.capacity now call = .ok w →
        target.evaluate w (some call.event) = .pending) :
    ∃ w, target.evaluate w (some .part) = .pending := by
  cases appends with
  | appends named full found size performed =>
      obtain ⟨running, w, made, -⟩ := perform_ok performed
      exact ⟨w, unsettled _ _ w rfl running made⟩

theorem underway_first (h : s.Regular) (appended : List Event) (later : appended ≠ []) :
    s.Underway request n st appended []
      (s.segmentAsked request (.whole n) (some ⟨st, openEnd⟩)) := by
  have below := s.segmentAsked_below request (.whole n) (some ⟨st, openEnd⟩)
  have positive : 0 ≤ startOf (some ⟨st, openEnd⟩) := Int.natCast_nonneg st
  refine ⟨(segmentAsked_sound h positive).mono List.nil_prefix, ?_, ?_, ?_⟩
  · rcases below with ⟨stage, target, same⟩ | ⟨-, less⟩
    · rw [same]
      exact Nat.zero_le 4
    · exact Nat.le_of_lt_succ less
  · exact fun gone => absurd gone below.there
  · exact fun front => absurd (List.prefix_nil.mp front) later

theorem Underway.step (h : s.Regular)
    (appends : ((s.step (fetch request n st)).run sooner).AppendsAt n st appending data)
    (now : ((s.step (fetch request n st)).run events).At request phase)
    {next : Phase}
    (step : Phase.Step ((s.step (fetch request n st)).run events) request event phase next)
    (underway : s.Underway request n st (sooner ++ [appending]) events phase) :
    s.Underway request n st (sooner ++ [appending]) (events ++ [event]) next := by
  have positive : 0 ≤ startOf (some ⟨st, openEnd⟩) := Int.natCast_nonneg st
  refine ⟨underway.sound.step h positive step, work_step step underway.work,
    fun gone => arrived_step underway.arrived now step gone, ?_⟩
  intro front number range target same
  cases step with
  | undisturbed unsettled stopped stays =>
      rcases List.prefix_concat_iff.mp front with last | inside
      · obtain ⟨rfl, event⟩ := List.append_inj' last rfl
        obtain rfl := List.singleton_inj.mp event
        cases same
        obtain ⟨w, pending⟩ := appends.unsettled unsettled
        cases underway.sound with
        | appears => cases pending
      · exact underway.appeared inside number range target same
  | resumed => exact absurd same (resuming_ne_appearance _ _ _ _ _ _ _)
  | idle => cases same
  | settled running made judged => cases same
  | halted running => cases same
  | abandoned => cases same
  | resumesLater other => cases same
  | toldLater other => cases same
  | relayed => cases same
  | arrived => cases same

theorem Underway.not_waiting (h : s.Regular)
    (appends : ((s.step (fetch request n st)).run sooner).AppendsAt n st appending data)
    (front : sooner ++ [appending] <+: events)
    (now : ((s.step (fetch request n st)).run events).At request phase)
    (underway : s.Underway request n st (sooner ++ [appending]) events phase) (stage : Stage)
    (target : WaitTarget) : phase ≠ .waits stage target := by
  rintro rfl
  cases underway.sound with
  | appears => exact underway.appeared front _ _ _ rfl
  | held named =>
      obtain rfl : n = _ := Int.natCast_inj.mp (Option.some.inj named)
      exact appends.not_held ((s.step_moves _).regular h) front now

/-- Once data have been appended where it starts a request is answered within four turns. -/
theorem fetch_arrives (h : s.Regular) (absent : s.At request .absent)
    (unasked : Unasked request (sooner ++ [appending] ++ rest))
    (appends : ((s.step (fetch request n st)).run sooner).AppendsAt n st appending data)
    (enough : 4 ≤ rest.countP (Event.isTurnOf request)) :
    ∃ outcome, (request, outcome) ∈
      (s.step (fetch request n st)).outcomes (sooner ++ [appending] ++ rest) := by
  have asked : (s.step (fetch request n st)).At request
    (s.segmentAsked request (.whole n) (some ⟨st, openEnd⟩)) := absent.segment
  have first : s.Underway request n st (sooner ++ [appending]) []
    (s.segmentAsked request (.whole n) (some ⟨st, openEnd⟩)) := underway_first h _ (by simp)
  have always : ∀ events, events <+: sooner ++ [appending] ++ rest → ∃ phase,
      ((s.step (fetch request n st)).run events).At request phase ∧
        s.Underway request n st (sooner ++ [appending]) events phase := by
    intro events front
    exact asked.run (unasked.of_prefix front) first
      fun _ _ _ _ _ now _ step underway => underway.step h appends now step
  obtain ⟨phase, now, underway⟩ := always (sooner ++ [appending]) (List.prefix_append _ _)
  rw [outcomes_append]
  by_cases gone : phase = .absent
  · obtain ⟨outcome, arrives⟩ := underway.arrived gone
    exact ⟨outcome, List.mem_append_left _ arrives⟩
  · have quiet : Unasked request rest := (unasked_append.mp unasked).2
    have moving : ∀ later stage target, later <+: rest →
        ¬ (((s.step (fetch request n st)).run (sooner ++ [appending])).run later).At request
          (.waits stage target) := by
      intro later stage target front waits
      rw [← run_append] at waits
      obtain ⟨p, now, underway⟩ := always (sooner ++ [appending] ++ later)
        ((List.prefix_append_right_inj _).mpr front)
      exact underway.not_waiting h appends (List.prefix_append _ _) now stage target
        (now.unique waits)
    obtain ⟨outcome, arrives⟩ := now.arrives quiet gone moving (underway.work.trans enough)
    exact ⟨outcome, List.mem_append_right _ arrives⟩

end LiveHls.Stream
