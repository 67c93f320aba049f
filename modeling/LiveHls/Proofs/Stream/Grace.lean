import LiveHls.Proofs.Stream.NextPart
/-! One production step of grace. A request for a segment that has yet to be started waits for the
next put or part. That one decides what becomes of the request, whatever happens before the request
goes on; only who is held at the start of the segment depends on the stream as it is by then. -/
namespace LiveHls

/-- The call starts the segment with that number. -/
inductive ProducerCall.Starts (number : Numeral) : ProducerCall → Prop
  | put {new : NewSegment} {n : Int} (made : new.number.toInt? = some n)
      (named : number.toInt? = some n) : Starts number (.put new)

namespace Window

variable {w v : Window} {capacity : Nat} {stream : String} {now : Int} {call : ProducerCall}
  {number : Numeral}

/-- A segment that is missing stays so unless the call starts it. -/
theorem perform_missing (wellFormed : w.WellFormed capacity) (positive : 1 ≤ capacity)
    (ok : w.perform stream capacity now call = .ok v) (missing : w.named? number = none)
    (other : ¬ call.Starts number) : v.named? number = none := by
  have hw := wellFormed.consecutive
  have hv := (perform_advances positive wellFormed ok).1.consecutive
  cases found : v.named? number with
  | none => rfl
  | some b =>
      obtain ⟨member, named⟩ := (named?_eq_some_iff hv number b).mp found
      rcases perform_becomes hw ok b member with
        ⟨a, old, becomes⟩ | ⟨new, sequence, rfl, rfl, made, -⟩
      · have there : w.named? number = some a :=
          (named?_eq_some_iff hw number a).mpr ⟨old, by rw [named, becomes.grows.sequence]⟩
        rw [missing] at there
        cases there
      · exact absurd (.put made named) other

theorem perform_starts (wellFormed : w.WellFormed capacity) (positive : 1 ≤ capacity)
    (ok : w.perform stream capacity now call = .ok v) (starts : call.Starts number) :
    ∃ new sequence, v.named? number = some (.start sequence new now) := by
  have hv := (perform_advances positive wellFormed ok).1.consecutive
  cases starts with
  | @put new n made named =>
      obtain ⟨sequence, newest, same, -⟩ := put_last? positive ok
      refine ⟨new, sequence, (named?_eq_some_iff hv number _).mpr ⟨List.mem_of_getLast? newest, ?_⟩⟩
      exact named.trans (made.symm.trans same)

end Window

namespace Stream

open SegmentRequest

variable {s t : Stream} {request : Nat} {number : Numeral} {range : Option ByteRange}
  {events : List Event} {stage : Stage} {moment : Int} {call : ProducerCall} {log : Log}

/-! ### The wait for a production step -/

/-- Neither a seal nor a call that fails ends the wait for the next put or part. -/
theorem At.production_stays (h : s.At request (.waits stage .production))
    (unasked : Unasked request events) (stays : .leave request ∉ events) (runs : .stop ∉ events)
    (idle : ∀ w, ¬ s.Produces events w) : (s.run events).At request (.waits stage .production) := by
  have keeps : s.Keeps request events fun _ p => p = .waits stage .production := by
    rintro sooner event p next front - - step rfl
    have inside : event ∈ events := front.subset (by simp)
    cases step with
    | undisturbed unsettled stopped stays => rfl
    | @settled call moment w _ _ outcome running made judged =>
        obtain ⟨kind, -⟩ := WaitTarget.production_settled judged
        obtain ⟨log, performed⟩ := perform_made running made
        exact absurd ⟨sooner, call, moment, _, log, front, kind, performed, rfl⟩ (idle w)
    | halted running => exact absurd inside runs
    | abandoned => exact absurd inside stays
  obtain ⟨p, after, rfl⟩ := h.run unasked rfl keeps
  exact after

/-- No segment is started but by a put. -/
theorem missing_stays (h : s.Regular) (missing : s.window.named? number = none)
    (idle : ∀ w, ¬ s.Produces events w) : (s.run events).window.named? number = none := by
  induction events using List.reverseRecOn with
  | nil => exact missing
  | append_singleton events event ih =>
      have before := ih fun w produces => idle w (produces.mono (List.prefix_append _ _))
      have regular := run_regular h events
      rw [show s.run (events ++ [event]) = (s.run events).step event from run_append ..]
      rcases ((s.run events).step_moves event).window with same | ⟨call, moment, rfl, running, made⟩
      · exact same ▸ before
      · refine Window.perform_missing regular.wellFormed regular.positive made before ?_
        rintro ⟨-, -⟩
        obtain ⟨log, performed⟩ := perform_made running made
        exact idle _ ⟨events, _, moment, _, log, List.prefix_rfl, .inl rfl, performed, rfl⟩

/-- The next put or part ends the wait with its own window. -/
theorem At.production_released (h : s.At request (.waits stage .production))
    (kind : call.event = .put ∨ call.event = .part)
    (performed : s.perform moment call = .ok (t, log)) :
    t.At request (.resumes stage (.ok t.window)) := by
  obtain ⟨-, w, -, rfl⟩ := perform_ok performed
  have next := h.produced_waits moment w call.event
  have settled : (WaitTarget.production.evaluate w (some call.event)).outcome? w = some (.ok w) := by
    rcases kind with put | part
    · rw [put]
      rfl
    · rw [part]
      rfl
  rw [settled] at next
  exact next

/-! ### What becomes of the request -/

theorem At.missing_destined {w : Window}
    (h : s.At request (.resumes (.appearance number range) (.ok w)))
    (missing : w.named? number = none) :
    s.Destined request
      (.error (if w.isPast number then .evicted number else .noSuchSegment number)) := by
  refine h.resumes_destined fun sooner => ⟨0, ?_⟩
  simp only [resuming, missing]

theorem At.past_destined {w : Window} {new : NewSegment} {sequence : Nat}
    (h : s.At request (.resumes (.appearance number range) (.ok w)))
    (found : w.named? number = some (.start sequence new moment)) (past : 0 < startOf range) :
    s.Destined request (.error (.rangeStart (startOf range) 0)) := by
  refine h.resumes_destined fun sooner => ⟨2, ?_⟩
  have refused : ∀ settings, judge (.start sequence new moment) range settings =
      .answer (.error (.rangeStart (startOf range) 0)) := by
    intro settings
    simp [judge, Segment.start, past]
  simp only [resuming, found, serving, refused]
  rfl

/-- The stream runs, and the client is there. -/
structure Attended (s : Stream) (request : Nat) : Prop where
  running : s.stopped = false
  present : s.left.contains request = false

/-- What becomes of a request for a segment from its first byte on that takes its turn. The segment
is judged as it is in the window of that moment. -/
inductive FromFirst (u : Stream) (request : Nat) (number : Numeral) (range : Option ByteRange) : Prop
  | stopped (stopped : u.stopped = true)
      (fails : (u.step (.turn request)).Destined request (.error (.stopped u.id)))
  | left (running : u.stopped = false) (gone : u.left.contains request = true)
      (fails : (u.step (.turn request)).Destined request (.error .abandoned))
  | evicted (attended : u.Attended request) {n : Int} (named : number.toInt? = some n)
      (gone : u.window.isEvicted n = true)
      (fails : (u.step (.turn request)).Destined request (.error (.evicted (.whole n))))
  | served (attended : u.Attended request) {a : Segment} {response : SegmentResponse}
      (found : u.window.named? number = some a) (exact : Exact a range response)
      (serves : (u.step (.turn request)).Destined request (.ok (.segment response)))
  | bare (attended : u.Attended request) {a : Segment} (found : u.window.named? number = some a)
      (ranged : range.isSome = true) (complete : a.complete = true) (empty : a.content = [])
      (fails : (u.step (.turn request)).Destined request (.error (.rangeStart 0 0)))
  | held (attended : u.Attended request) {a : Segment} (found : u.window.named? number = some a)
      (opened : a.complete = false) (empty : a.content = [])
      (waits : (u.step (.turn request)).At request
        (.waits (.hold a.sequence range) (.bytes a.sequence 0)))

theorem starting_serving (s : Stream) (new : NewSegment) (sequence : Nat) (first : startOf range = 0) :
    s.serving request (.start sequence new moment) range =
      s.awaiting request (.hold sequence range) (.bytes sequence 0) := by
  have held := @judge_edge (.start sequence new moment) range rfl first s.settings
  rw [serving, held]
  rfl

/-- A hold at the first byte ends with the data that the segment has then, or with their lack. -/
theorem FromFirst.of_ready {u : Stream} {sequence : Nat} {a : Segment} (h : u.Regular)
    (attended : u.Attended request) (named : number.toInt? = some (sequence : Int))
    (found : u.window.find? sequence = some a) (first : startOf range = 0)
    (ended : a.complete = true ∨ startOf range < a.dataSize) (settings : Settings)
    (destined : (u.step (.turn request)).Destined request
      ((conclude u.window sequence range settings).map .segment)) :
    u.FromFirst request number range := by
  have there := (u.window.named?_of_toInt? named).trans found
  have judged := conclude_judged found (h.tiled a (find?_mem h found)) (Int.le_of_eq first.symm)
    ended settings
  cases concluded : conclude u.window sequence range settings with
  | ok response =>
      rw [concluded] at judged destined
      cases judged with
      | exact exact => exact .served attended there exact destined
  | error fault =>
      rw [concluded] at judged destined
      cases range with
      | none =>
          rw [conclude_none found] at concluded
          cases concluded
      | some range =>
          cases judged with
          | beyond beyond =>
              obtain ⟨size, complete⟩ : (a.content.length : Int) = 0 ∧ a.complete = true := by
                rcases beyond with past | last
                · omega
                · exact first ▸ last
              have empty := List.eq_nil_of_length_eq_zero (Int.natCast_eq_zero.mp size)
              rw [first, empty] at destined
              exact .bare attended there rfl complete empty destined

theorem FromFirst.of_awaiting {u : Stream} {sequence : Nat} (h : u.Regular)
    (named : number.toInt? = some (sequence : Int)) (first : startOf range = 0)
    (there : (∃ a, u.window.find? sequence = some a) ∨ u.window.isEvicted sequence = true)
    (after : (u.step (.turn request)).At request
      (u.awaiting request (.hold sequence range) (.bytes sequence 0))) :
    u.FromFirst request number range := by
  rw [awaiting_eq h] at after
  split_ifs at after with stopped gone
  · exact .stopped stopped after.hold_destined
  · exact .left (Bool.eq_false_iff.mpr stopped) gone after.hold_destined
  have attended : u.Attended request := ⟨Bool.eq_false_iff.mpr stopped, Bool.eq_false_iff.mpr gone⟩
  split at after
  · rename_i outcome settled
    rcases WaitTarget.bytes_settled settled with ⟨lost, rfl⟩ | ⟨a, found, ended, rfl⟩
    · exact .evicted attended named lost after.hold_destined
    · exact .of_ready h attended named found first (first ▸ ended) _ after.hold_destined
  · rename_i unsettled
    obtain ⟨inside, short⟩ :=
      WaitTarget.bytes_pending_iff.mp (Verdict.eq_pending_of_outcome? unsettled)
    rcases there with ⟨a, found⟩ | lost
    · obtain ⟨opened, size⟩ := short a found
      obtain ⟨member, same⟩ := (Window.find?_eq_some_iff h.wellFormed.consecutive _ a).mp found
      obtain rfl : a.sequence = sequence := Int.natCast_inj.mp same
      have empty : a.content = [] := by
        refine List.eq_nil_of_length_eq_zero ?_
        rw [(h.tiled a member).length]
        omega
      exact .held attended ((u.window.named?_of_toInt? named).trans found) opened empty after
    · cases inside.symm.trans lost

/-- A request that goes on once its segment has been started is judged as if it came then. -/
theorem At.from_first (h : s.Regular) {new : NewSegment} {sequence : Nat}
    (goes : s.At request (.resumes (.appearance number range) (.ok s.window)))
    (found : s.window.named? number = some (.start sequence new moment))
    (first : startOf range = 0) {meanwhile : List Event} (unasked : Unasked request meanwhile)
    (untaken : .turn request ∉ meanwhile) : (s.run meanwhile).FromFirst request number range := by
  have named : number.toInt? = some (sequence : Int) :=
    ((Window.named?_eq_some_iff h.wellFormed.consecutive number _).mp found).2
  have old := (s.window.named?_of_toInt? named).symm.trans found
  have there := @found_or_evicted s sequence meanwhile h [] List.nil_prefix _ old
  obtain ⟨next, step, after⟩ := (goes.resumes_stays unasked untaken).step (.turn request) nofun
  cases step with
  | resumesLater other => exact absurd rfl other
  | resumed =>
      simp only [resuming, found, starting_serving _ new sequence first] at after
      exact .of_awaiting (run_regular h meanwhile) named first there after

/-- A request is made for a segment that has yet to be started. Since then nobody has stopped the
stream, the client has stayed, and no put and no part has succeeded. -/
structure Ahead (s : Stream) (request : Nat) (number : Numeral) (range : Option ByteRange)
    (events : List Event) : Prop where
  attended : s.Attended request
  missing : s.window.named? number = none
  inside : s.window.isPast number = false
  stays : .leave request ∉ events
  runs : .stop ∉ events
  idle : ∀ w, ¬ (s.step (.segment request number range)).Produces events w

theorem Ahead.asked (h : s.Regular) (ahead : s.Ahead request number range events)
    (absent : s.At request .absent) : (s.step (.segment request number range)).At request
      (.waits (.appearance number range) .production) := by
  have asked : (s.step (.segment request number range)).At request
      (s.segmentAsked request number range) := absent.segment
  simp only [segmentAsked, ahead.attended.running, ahead.missing, ahead.inside, awaiting_eq h,
    ahead.attended.present, Bool.false_eq_true, if_false] at asked
  exact asked

theorem Ahead.still_missing (h : s.Regular) (ahead : s.Ahead request number range events) :
    (s.run (.segment request number range :: events)).window.named? number = none := by
  have asking := s.step_moves (.segment request number range)
  have asked : (s.step (.segment request number range)).window.named? number = none := by
    cases asking with
    | segment reads => exact reads.window ▸ ahead.missing
  rw [run_cons]
  exact missing_stays (asking.regular h) asked ahead.idle

/-- One production step of grace. A request for a segment that has yet to be started waits until the
next put or part, and that one releases it. If the call does not start the segment the request fails;
if it does, a range past the first byte is refused, and any other request is judged against the stream
as it is when the request goes on. Nothing that happens in between makes a difference otherwise. -/
theorem one_step_of_grace {id : String} {settings : Settings} {size : Float} {now : Int}
    {start : Stream} (created : Stream.create id settings size now = .ok start)
    (before sooner : List Event) {request : Nat} {number : Numeral} {range : Option ByteRange}
    (single : Unasked request (before ++ sooner))
    (ahead : (start.run before).Ahead request number range sooner) :
    let s := (start.run before).run (.segment request number range :: sooner)
    s.At request (.waits (.appearance number range) .production) ∧
    ∀ call moment t log, call.event = .put ∨ call.event = .part →
      s.perform moment call = .ok (t, log) →
        t.At request (.resumes (.appearance number range) (.ok t.window)) ∧
        (¬ call.Starts number → t.Destined request
          (.error (if t.window.isPast number then .evicted number else .noSuchSegment number))) ∧
        (call.Starts number → 0 < startOf range →
          t.Destined request (.error (.rangeStart (startOf range) 0))) ∧
        (call.Starts number → startOf range = 0 → ∀ meanwhile, Unasked request meanwhile →
          .turn request ∉ meanwhile → (t.run meanwhile).FromFirst request number range) := by
  intro s
  have h := run_regular (create_regular created) before
  obtain ⟨early, quiet⟩ := unasked_append.mp single
  have absent : (start.run before).At request .absent :=
    (create_at created request).1.run_absent early
  have missing : s.window.named? number = none := ahead.still_missing h
  have waits : s.At request (.waits (.appearance number range) .production) :=
    (ahead.asked h absent).production_stays quiet ahead.stays ahead.runs ahead.idle
  have regular : s.Regular := run_regular h _
  refine ⟨waits, fun call moment t log kind performed => ?_⟩
  have goes := waits.production_released kind performed
  obtain ⟨-, w, made, rfl⟩ := perform_ok performed
  refine ⟨goes, ?_, ?_, ?_⟩
  · intro other
    exact goes.missing_destined
      (Window.perform_missing regular.wellFormed regular.positive made missing other)
  · intro starts past
    obtain ⟨new, sequence, found⟩ :=
      Window.perform_starts regular.wellFormed regular.positive made starts
    exact goes.past_destined found past
  · intro starts first meanwhile unasked untaken
    obtain ⟨new, sequence, found⟩ :=
      Window.perform_starts regular.wellFormed regular.positive made starts
    have after : (s.produced moment w call.event).Regular :=
      (Moves.produced (perform_ok performed).1 made).regular regular
    exact goes.from_first after found first unasked untaken

/-- A request for the next segment is held by the put that starts it, and is served what has been
appended by the time it goes on. -/
theorem one_step_of_grace_of_next :
    let before : List Event := [.call (.put ⟨.whole 0, [], none, false⟩) 1]
    let sooner : List Event := [.call (.close (.whole 0) none) 2]
    let s := ((plain 2).run before).run (.segment 0 (.whole 1) none :: sooner)
    let t := s.step (.call (.put ⟨.whole 1, [], none, false⟩) 3)
    let u := t.run [.call (.append (.whole 1) ⟨1.0, true, [5, 5]⟩ false) 4,
      .call (.append (.whole 1) ⟨1.0, false, [6, 6]⟩ false) 5]
    Stream.create "live" plainSettings 2.0 0 = .ok (plain 2) ∧ Unasked 0 (before ++ sooner) ∧
    ((plain 2).run before).Ahead 0 (.whole 1) none sooner ∧
    ∃ response, (u.step (.turn 0)).Destined 0 (.ok (.segment response)) ∧
      response.body = [5, 5, 6, 6] := by
  intro before sooner s t u
  have created := @create_plain 2.0 2 (by decide) (by decide)
  have single : Unasked 0 (before ++ sooner) := by simp [Unasked, before, sooner, Event.asks]
  have ahead : ((plain 2).run before).Ahead 0 (.whole 1) none sooner := by
    refine ⟨⟨rfl, rfl⟩, rfl, rfl, by simp [sooner], by simp [sooner], ?_⟩
    rintro w ⟨early, call, now, t, log, front, kind, -⟩
    have only : Event.call call now ∈ sooner := front.subset (by simp)
    cases List.mem_singleton.mp only
    rcases kind with put | part
    · cases put
    · cases part
  obtain ⟨log, performed⟩ : ∃ log, s.perform 3 (.put ⟨.whole 1, [], none, false⟩) = .ok (t, log) :=
    ⟨_, rfl⟩
  obtain ⟨-, -, -, held⟩ := (one_step_of_grace created before sooner single ahead).2 _ _ _ _
    (.inl rfl) performed
  have first : u.FromFirst 0 (.whole 1) none :=
    held (.put rfl rfl) rfl _ (by simp [Unasked, Event.asks]) (by simp)
  have stays : u.stopped = false ∧ u.left.contains 0 = false ∧ u.window.isEvicted 1 = false := by
    decide +kernel
  have content : (u.window.named? (.whole 1)).map Segment.content = some [5, 5, 6, 6] := by
    decide +kernel
  refine ⟨created, single, ahead, ?_⟩
  cases first with
  | stopped stopped fails => cases stays.1.symm.trans stopped
  | left running gone fails => cases stays.2.1.symm.trans gone
  | evicted attended named gone fails =>
      cases named
      cases stays.2.2.symm.trans gone
  | served attended found exact serves =>
      rw [found] at content
      exact ⟨_, serves, exact.body.trans (Option.some.inj content)⟩
  | bare attended found ranged complete empty fails => cases ranged
  | held attended found opened empty waits =>
      rw [found, Option.map_some, empty] at content
      cases content

end Stream

end LiveHls
