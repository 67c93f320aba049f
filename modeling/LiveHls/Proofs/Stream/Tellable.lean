import LiveHls.Proofs.Answerable
import LiveHls.Proofs.PlaylistLines
import LiveHls.Proofs.Stream.Content
import LiveHls.Proofs.Stream.Eviction
/-! What a stream has to tell its readers. Whoever comes back from a wait finds what it needs in the
window it comes back with: a playlist request finds segments that start at valid times, a held request
finds its segment. So each request ends with an answer, with a failure that has a status code, or
with nothing if its client has left. -/
namespace LiveHls

/-- A failure that a request can end with. -/
def Fault.Tellable (left : List Nat) (request : Nat) (fault : Fault) : Prop :=
  fault.status?.isSome = true ∨ fault = .abandoned ∧ request ∈ left

/-- A window holds segments, all of which start at a valid time. -/
def Window.Listable (w : Window) : Prop := w.segments ≠ [] ∧ w.Timed

/-- A request at this stage can go on with a window. -/
def Stage.GoesOn (w : Window) : Stage → Prop
  | .playlist _ => w.Listable
  | .appearance .. => True
  | .hold sequence _ => (w.find? sequence).isSome = true

/-- A request at this stage may wait for a target. -/
def Stage.MayAwait (target : WaitTarget) : Stage → Prop
  | .playlist _ | .appearance .. => True
  | .hold sequence _ => ∃ offset, target = .bytes sequence offset

def Outcome.Tellable (left : List Nat) (request : Nat) : Outcome → Prop
  | .ok (.playlist _) => True
  | .ok (.segment response) => response.status ∈ [200, 206]
  | .error fault => fault.Tellable left request

def Turn.Tellable (left : List Nat) : Turn → Prop
  | .resume ticket (.ok w) => ticket.stage.GoesOn w
  | .resume ticket (.error fault) => fault.Tellable left ticket.request
  | .relay request _ outcome => Outcome.Tellable left request outcome

theorem Fault.Tellable.mono {left more : List Nat} {request : Nat} {fault : Fault}
    (tellable : fault.Tellable left request) (sub : left ⊆ more) : fault.Tellable more request :=
  tellable.imp_right fun ⟨same, gone⟩ => ⟨same, sub gone⟩

/-- What can be told still can when more clients have left. -/
theorem Turn.Tellable.mono {left more : List Nat} {turn : Turn} (tellable : turn.Tellable left)
    (sub : left ⊆ more) : turn.Tellable more := by
  cases turn with
  | resume ticket outcome =>
      cases outcome with
      | error fault => exact Fault.Tellable.mono tellable sub
      | ok w => exact tellable
  | relay request steps outcome =>
      cases outcome with
      | error fault => exact Fault.Tellable.mono tellable sub
      | ok answer =>
          cases answer with
          | playlist playlist => trivial
          | segment response => exact tellable

/-! ### Outcomes of waits -/

namespace WaitTarget

variable {w : Window} {target : WaitTarget}

theorem find?_of_ready {n : Int} {holds : Segment → Bool}
    (ready : evaluateSegment w n holds = .ready) : (w.find? n).isSome = true := by
  obtain ⟨-, a, found, -⟩ := evaluateSegment_eq_ready_iff.mp ready
  rw [found]
  rfl

theorem nonempty_of_find? {n : Int} (found : (w.find? n).isSome = true) : w.segments ≠ [] := by
  intro empty
  rw [Window.find?, Window.segmentsFrom, Window.place?, Window.first?, empty] at found
  cases found

/-- Nothing is ready in an empty window unless something has just been produced. -/
theorem nonempty_of_ready (ready : target.evaluate w none = .ready) : w.segments ≠ [] := by
  cases target with
  | live =>
      intro empty
      simp [evaluate, Verdict.readyIf, empty] at ready
  | production => simp [evaluate, Verdict.readyIf] at ready
  | segment n => exact nonempty_of_find? (find?_of_ready ready)
  | complete n => exact nonempty_of_find? (find?_of_ready ready)
  | part n index => exact nonempty_of_find? (find?_of_ready ready)
  | bytes n offset => exact nonempty_of_find? (find?_of_ready ready)

end WaitTarget

/-- What a wait ends with, other than by a stop or by its client, lets the request go on. -/
theorem Turn.tellable_of_settled {w : Window} {target : WaitTarget} {event : Option Production}
    {ticket : Ticket} {outcome : WaitOutcome} {left : List Nat}
    (may : ticket.stage.MayAwait target)
    (listable : target.evaluate w event = .ready → w.Listable)
    (settled : (target.evaluate w event).outcome? w = some outcome) :
    Turn.Tellable left (.resume ticket outcome) := by
  cases verdict : target.evaluate w event with
  | pending =>
      rw [verdict] at settled
      cases settled
  | rejected fault =>
      rw [verdict] at settled
      cases settled
      obtain ⟨n, -, -, rfl⟩ := WaitTarget.evaluate_eq_rejected verdict
      exact .inl rfl
  | ready =>
      rw [verdict] at settled
      cases settled
      obtain ⟨request, stage⟩ := ticket
      cases stage with
      | playlist blocking => exact listable verdict
      | appearance number range => trivial
      | hold sequence range =>
          obtain ⟨offset, rfl⟩ := may
          exact WaitTarget.find?_of_ready verdict

/-! ### Answers -/

theorem RenderedPlaylist.ofWindow_of_listable {w : Window} (listable : w.Listable)
    (settings : Settings) (blocking : Bool) :
    ∃ playlist, RenderedPlaylist.ofWindow w settings blocking = .ok playlist := by
  obtain ⟨nonempty, timed⟩ := listable
  obtain ⟨first, after, front⟩ := List.exists_cons_of_ne_nil nonempty
  obtain ⟨before, last, back⟩ := (List.eq_nil_or_concat' w.segments).resolve_left nonempty
  have lines := Playlist.lines_of_timed timed front back settings
  exact ⟨_, by rw [ofWindow, Playlist.render, lines]; rfl⟩

namespace SegmentRequest

theorem respond_status (a : Segment) (range : Option ByteRange) (settings : Settings) :
    (respond a range settings).status ∈ [200, 206] := by
  unfold respond
  cases range with
  | none => exact List.mem_cons_self
  | some range => exact List.mem_cons_of_mem _ List.mem_cons_self

theorem judge_tellable {a : Segment} {range : Option ByteRange} {settings : Settings}
    {outcome : Except Fault SegmentResponse} (answered : judge a range settings = .answer outcome)
    (left : List Nat) (request : Nat) :
    Outcome.Tellable left request (outcome.map .segment) := by
  unfold judge at answered
  simp only at answered
  split_ifs at answered
  · cases answered
    exact .inl rfl
  · cases answered
    exact respond_status a range settings

theorem conclude_tellable {w : Window} {sequence : Int} {settings : Settings}
    (range : Option ByteRange) (left : List Nat) (request : Nat) :
    Outcome.Tellable left request ((conclude w sequence range settings).map .segment) := by
  unfold conclude
  split
  · exact .inl rfl
  · split_ifs
    · exact .inl rfl
    · exact respond_status _ range settings

end SegmentRequest

namespace PlaylistRequest

variable {what : PlaylistRequest} {w : Window} {limit : PartLimit}

theorem planNext_cases (sequence : Int) (part : Option Int) (limit : PartLimit) :
    (∃ fault, planNext sequence part limit = .refuse fault ∧ fault.status?.isSome = true) ∨
      ∃ target, planNext sequence part limit = .wait target := by
  unfold planNext
  split
  · exact .inr ⟨_, rfl⟩
  · split_ifs
    · exact .inl ⟨_, rfl, rfl⟩
    · exact .inr ⟨_, rfl⟩

theorem planPresent_refuse {a : Segment} {sequence last : Int} {part : Option Int} {fault : Fault}
    (refused : planPresent a sequence last part limit = .refuse fault) :
    fault.status?.isSome = true := by
  unfold planPresent at refused
  split at refused
  · split_ifs at refused
  · simp only at refused
    split_ifs at refused
    cases refused
    rfl

theorem plan_refuse {fault : Fault} (refused : what.plan w limit = .refuse fault) :
    fault.status?.isSome = true := by
  unfold plan at refused
  split at refused
  · split_ifs at refused
    cases refused
    rfl
  · rename_i sequence named
    simp only at refused
    split_ifs at refused
    · cases refused
      rfl
    · cases refused
      rfl
    · rcases planNext_cases sequence what.part limit with ⟨other, same, coded⟩ | ⟨target, same⟩
      · rw [same] at refused
        cases refused
        exact coded
      · rw [same] at refused
        cases refused
    · split at refused
      · cases refused
        rfl
      · exact planPresent_refuse refused

/-- A playlist is served at once only from a window with segments. -/
theorem plan_serve (served : what.plan w limit = .serve) : w.segments ≠ [] := by
  unfold plan at served
  split at served
  · split_ifs at served with part empty
    simpa using empty
  · rename_i sequence named
    simp only at served
    split_ifs at served
    · rcases planNext_cases sequence what.part limit with ⟨other, same, coded⟩ | ⟨target, same⟩
      · rw [same] at served
        cases served
      · rw [same] at served
        cases served
    · split at served
      · cases served
      · rename_i a found
        exact WaitTarget.nonempty_of_find? (by rw [found]; rfl)

end PlaylistRequest

/-! ### Streams -/

theorem Segment.Becomes.startTime {call : ProducerCall} {a b : Segment}
    (becomes : Becomes call a b) : b.startTime = a.startTime := by
  cases becomes with
  | same other => rfl
  | appended named ok =>
      unfold append at ok
      split_ifs at ok
      cases ok
      rfl
  | closed ok =>
      unfold close at ok
      split_ifs at ok
      cases ok
      rfl
  | sealed =>
      unfold closeIfOpen
      split
      · rfl
      · rfl

theorem Window.perform_timed {w v : Window} {stream : String} {capacity : Nat} {now : Int}
    {call : ProducerCall} (h : Consecutive w.segments) (timed : w.Timed) (dated : call.Dated)
    (valid : Timestamp.ofMillis now ≠ .invalid)
    (ok : w.perform stream capacity now call = .ok v) : v.Timed := by
  intro b member
  rcases perform_becomes h ok b member with ⟨a, old, becomes⟩ | ⟨new, sequence, rfl, rfl, -⟩
  · rw [becomes.startTime]
    exact timed a old
  · cases given : new.startTime with
    | none => simpa only [Segment.start, given, Option.getD_none] using valid
    | some time =>
        intro invalid
        simp only [Segment.start, given, Option.getD_some] at invalid
        exact dated (by rw [given, invalid])

namespace Stream

variable {s t : Stream}

/-- Everything that a stream has to tell can be told. -/
structure Tellable (s : Stream) : Prop where
  timed : s.window.Timed
  parked : ∀ waiter ∈ s.waiters.parked, waiter.tag.stage.MayAwait waiter.target
  turns : ∀ turn ∈ s.turns, Turn.Tellable s.left turn

theorem Tellable.enqueue (h : s.Tellable) {turn : Turn} (tellable : Turn.Tellable s.left turn) :
    (s.enqueue turn).Tellable :=
  ⟨h.timed, h.parked, List.forall_mem_append.mpr ⟨h.turns, List.forall_mem_singleton.mpr tellable⟩⟩

theorem Tellable.waitFor (h : s.Tellable) (regular : s.Regular) {ticket : Ticket}
    {target : WaitTarget} (may : ticket.stage.MayAwait target) :
    (s.waitFor ticket target).1.Tellable := by
  rw [waitFor_eq]
  cases answered : s.answered? ticket.request target with
  | none =>
      refine ⟨h.timed, ?_, h.turns⟩
      exact List.forall_mem_append.mpr ⟨h.parked, List.forall_mem_singleton.mpr may⟩
  | some outcome =>
      refine h.enqueue ?_
      unfold answered? at answered
      split at answered
      · rename_i fault closed
        cases answered
        have stopped := regular.closedWith
        rw [closed] at stopped
        split_ifs at stopped
        cases stopped
        exact .inl rfl
      · split_ifs at answered with gone
        · cases answered
          exact .inr ⟨rfl, by simpa using gone⟩
        · exact Turn.tellable_of_settled may
            (fun ready => ⟨WaitTarget.nonempty_of_ready ready, h.timed⟩) answered

theorem Tellable.serveFrom (h : s.Tellable) (regular : s.Regular) (request : Nat) (a : Segment)
    (range : Option ByteRange) : (s.serveFrom request a range).1.Tellable := by
  unfold Stream.serveFrom
  cases judged : SegmentRequest.judge a range s.settings with
  | answer outcome => exact h.enqueue (SegmentRequest.judge_tellable judged s.left request)
  | hold offset => exact h.waitFor regular ⟨offset, rfl⟩

theorem renderFor_tellable {w : Window} (listable : w.Listable) (s : Stream) (blocking : Bool)
    (left : List Nat) (request : Nat) :
    Outcome.Tellable left request (s.renderFor w blocking) := by
  obtain ⟨playlist, rendered⟩ := RenderedPlaylist.ofWindow_of_listable listable s.settings blocking
  rw [renderFor, rendered]
  trivial

theorem Tellable.playlist (h : s.Tellable) (regular : s.Regular) (request : Nat)
    (what : PlaylistRequest) : (s.playlist request what).1.Tellable := by
  unfold Stream.playlist
  split
  · exact h.enqueue (.inl rfl)
  · cases planned : what.plan s.window s.settings.partLimit with
    | refuse fault => exact h.enqueue (.inl (PlaylistRequest.plan_refuse planned))
    | serve =>
        exact h.enqueue (renderFor_tellable ⟨PlaylistRequest.plan_serve planned, h.timed⟩ s _ _ _)
    | wait target => exact h.waitFor regular trivial

theorem Tellable.segment (h : s.Tellable) (regular : s.Regular) (request : Nat) (number : Numeral)
    (range : Option ByteRange) : (s.segment request number range).1.Tellable := by
  unfold Stream.segment
  split
  · exact h.enqueue (.inl rfl)
  · cases s.window.named? number with
    | some a => exact h.serveFrom regular request a range
    | none =>
        simp only
        split
        · exact h.enqueue (.inl rfl)
        · exact h.waitFor regular trivial

theorem Tellable.resume (h : s.Tellable) (regular : s.Regular) {ticket : Ticket}
    {outcome : WaitOutcome} (tellable : Turn.Tellable s.left (.resume ticket outcome)) :
    (s.resume ticket outcome).1.Tellable := by
  obtain ⟨request, stage⟩ := ticket
  cases outcome with
  | error fault =>
      cases stage with
      | playlist blocking => exact h.enqueue tellable
      | appearance number range => exact h.enqueue tellable
      | hold sequence range => exact h.enqueue tellable
  | ok w =>
      cases stage with
      | playlist blocking => exact h.enqueue (renderFor_tellable tellable s blocking _ _)
      | hold sequence range => exact h.enqueue (SegmentRequest.conclude_tellable range _ _)
      | appearance number range =>
          unfold Stream.resume
          cases found : w.named? number with
          | some a =>
              simp only [found]
              exact h.serveFrom regular request a range
          | none =>
              simp only [found]
              refine h.enqueue (.inl ?_)
              split
              · rfl
              · rfl

theorem Tellable.turn (h : s.Tellable) (regular : s.Regular) (request : Nat) :
    (s.step (.turn request)).Tellable := by
  cases found : s.turns.find? (·.request = request) with
  | none =>
      rw [(step_turn_none found).1]
      exact h
  | some next =>
      rw [(step_turn_some found).1]
      have tellable := h.turns next (List.mem_of_find?_eq_some found)
      have others : (s.without request).Tellable :=
        ⟨h.timed, h.parked, fun turn member => h.turns turn (List.mem_of_mem_eraseP member)⟩
      have steady : (s.without request).Regular :=
        (@Moves.turn s request _ (.pass (s.turns.eraseP (·.request = request)))).regular regular
      cases next with
      | resume ticket outcome => exact others.resume steady tellable
      | relay asker steps outcome =>
          cases steps with
          | zero => exact others
          | succ steps => exact others.enqueue tellable

theorem Tellable.produced (h : s.Tellable) (regular : s.Regular) {call : ProducerCall} {now : Int}
    {w : Window} (dated : call.Dated) (valid : Timestamp.ofMillis now ≠ .invalid)
    (made : s.window.perform s.buffer.stream s.buffer.capacity now call = .ok w) :
    (s.produced now w call.event).Tellable := by
  obtain ⟨-, dropped, advances⟩ :=
    Window.perform_advances regular.positive regular.wellFormed made
  have timed : w.Timed :=
    Window.perform_timed regular.wellFormed.consecutive h.timed dated valid made
  refine ⟨timed, ?_, List.forall_mem_append.mpr ⟨h.turns, ?_⟩⟩
  · intro waiter member
    obtain ⟨old, there, -, rfl⟩ := (Waiters.mem_judge_left _ w _ _ waiter).mp member
    exact h.parked old there
  · intro turn member
    obtain ⟨⟨ticket, outcome⟩, released, rfl⟩ := List.mem_map.mp member
    rw [Waiters.broadcast_released, Waiters.judge_released] at released
    obtain ⟨waiter, there, settled⟩ := List.mem_filterMap.mp released
    obtain ⟨outcome, judged, same⟩ := Option.map_eq_some_iff.mp settled
    cases same
    exact Turn.tellable_of_settled (h.parked waiter there) (fun _ => ⟨advances.nonempty, timed⟩)
      judged

theorem Tellable.halted (h : s.Tellable) : s.halted.Tellable := by
  refine ⟨h.timed, List.forall_mem_nil _, List.forall_mem_append.mpr ⟨h.turns, ?_⟩⟩
  intro turn member
  obtain ⟨⟨ticket, outcome⟩, released, rfl⟩ := List.mem_map.mp member
  obtain ⟨waiter, -, same⟩ := List.mem_map.mp released
  cases same
  exact .inl rfl

theorem Tellable.leave (h : s.Tellable) (request : Nat) : (s.step (.leave request)).Tellable := by
  refine ⟨h.timed, fun waiter member => ?_, List.forall_mem_append.mpr ⟨fun turn member => ?_, ?_⟩⟩
  · exact h.parked waiter (List.mem_filter.mp member).1
  · exact (h.turns turn member).mono (List.subset_cons_self ..)
  · intro turn member
    obtain ⟨⟨ticket, outcome⟩, released, rfl⟩ := List.mem_map.mp member
    obtain ⟨waiter, leaves, same⟩ := List.mem_map.mp released
    cases same
    have own : waiter.tag.request = request := by simpa using (List.mem_filter.mp leaves).2
    exact .inr ⟨rfl, own ▸ List.mem_cons_self⟩

/-- Every step keeps it, if the producer gives valid times. -/
theorem Tellable.step (h : s.Tellable) (regular : s.Regular) {event : Event}
    (times : ∀ call now, event = .call call now →
      call.Dated ∧ Timestamp.ofMillis now ≠ .invalid) : (s.step event).Tellable := by
  cases event with
  | call call now =>
      obtain ⟨dated, valid⟩ := times call now rfl
      cases done : s.perform now call with
      | error fault =>
          rw [step_call_error done]
          exact h
      | ok result =>
          obtain ⟨t, log⟩ := result
          obtain ⟨-, w, made, rfl⟩ := perform_ok done
          rw [step_call_ok done]
          exact h.produced regular dated valid made
  | stop =>
      rw [step_stop]
      split
      · exact h
      · exact h.halted
  | leave request => exact h.leave request
  | playlist request what => exact h.playlist regular request what
  | segment request number range => exact h.segment regular request number range
  | turn request => exact h.turn regular request

theorem create_tellable {id : String} {settings : Settings} {size : Float} {now : Int}
    (created : Stream.create id settings size now = .ok s) : s.Tellable := by
  obtain ⟨capacity, -, -, rfl⟩ := (create_eq_ok_iff id settings size now s).mp created
  exact ⟨List.forall_mem_nil _, List.forall_mem_nil _, List.forall_mem_nil _⟩

/-- What is delivered is an outcome that can be told. -/
theorem Tellable.delivery (h : s.Tellable) {event : Event} {request : Nat} {outcome : Outcome}
    (delivered : s.delivery event = some (request, outcome)) :
    Outcome.Tellable s.left request outcome := by
  cases event with
  | turn taker =>
      cases found : s.turns.find? (·.request = taker) with
      | none =>
          rw [(step_turn_none found).2] at delivered
          cases delivered
      | some next =>
          have tellable := h.turns next (List.mem_of_find?_eq_some found)
          rw [(step_turn_some found).2] at delivered
          unfold Turn.arrives? at delivered
          split at delivered
          · cases delivered
            exact tellable
          · cases delivered
  | call call now | stop | playlist asker what | segment asker number range | leave asker =>
      cases delivered

end Stream
end LiveHls
