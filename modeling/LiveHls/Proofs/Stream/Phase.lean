import LiveHls.Proofs.Stream.Run
/-! One request at a time. At every moment a request waits for one target, or has one turn to
take, or neither. What an event makes of that depends on the stream, but not on other requests. -/
namespace LiveHls

/-- The number of the request that is made. -/
def Event.asks : Event → Option Nat
  | .playlist request _ => some request
  | .segment request _ _ => some request
  | _ => none

@[simp] theorem Turn.request_resume (ticket : Ticket) (outcome : WaitOutcome) :
    (Turn.resume ticket outcome).request = ticket.request := rfl

@[simp] theorem Turn.request_relay (request steps : Nat) (outcome : Outcome) :
    (Turn.relay request steps outcome).request = request := rfl

/-- Where a request stands. -/
inductive Phase where
  /-- It has not been made yet, or its outcome has arrived. -/
  | absent
  | waits (stage : Stage) (target : WaitTarget)
  | resumes (stage : Stage) (outcome : WaitOutcome)
  | told (steps : Nat) (outcome : Outcome)

namespace Phase

def waiting (request : Nat) : Phase → List (Ticket × WaitTarget)
  | .waits stage target => [(⟨request, stage⟩, target)]
  | _ => []

def turns (request : Nat) : Phase → List Turn
  | .resumes stage outcome => [.resume ⟨request, stage⟩ outcome]
  | .told steps outcome => [.relay request steps outcome]
  | _ => []

end Phase

namespace Stream

/-- What a request waits for. -/
def waitsOf (s : Stream) (request : Nat) : List (Ticket × WaitTarget) :=
  (s.waiters.parked.filter (·.tag.request = request)).map fun waiter => (waiter.tag, waiter.target)

/-- The turns that a request has to take. -/
def turnsOf (s : Stream) (request : Nat) : List Turn := s.turns.filter (·.request = request)

structure At (s : Stream) (request : Nat) (phase : Phase) : Prop where
  waiting : s.waitsOf request = phase.waiting request
  turns : s.turnsOf request = phase.turns request

variable {s t : Stream} {request : Nat} {phase : Phase}

theorem At.unique {other : Phase} (h : s.At request phase) (h' : s.At request other) :
    phase = other := by
  have waiting := h.waiting.symm.trans h'.waiting
  have turns := h.turns.symm.trans h'.turns
  cases phase <;> cases other <;> simp_all [Phase.waiting, Phase.turns]

theorem At.parked {stage : Stage} {target : WaitTarget} (h : s.At request (.waits stage target)) :
    ∃ waiter ∈ s.waiters.parked, waiter.tag = ⟨request, stage⟩ ∧ waiter.target = target := by
  have listed : (⟨request, stage⟩, target) ∈ s.waitsOf request := by
    rw [h.waiting]
    exact List.mem_singleton_self _
  obtain ⟨waiter, member, same⟩ := List.mem_map.mp listed
  exact ⟨waiter, List.mem_of_mem_filter member, congrArg Prod.fst same, congrArg Prod.snd same⟩

theorem create_at {id : String} {settings : Settings} {size : Float} {now : Int}
    (created : Stream.create id settings size now = .ok s) (request : Nat) :
    s.At request .absent ∧ s.settings = settings := by
  obtain ⟨capacity, -, -, rfl⟩ := (create_eq_ok_iff id settings size now s).mp created
  exact ⟨⟨rfl, rfl⟩, rfl⟩

/-! ### What a stream does, seen from one request -/

theorem enqueue_turnsOf (s : Stream) (turn : Turn) (request : Nat) :
    (s.enqueue turn).turnsOf request =
      s.turnsOf request ++ if turn.request = request then [turn] else [] := by
  simp only [turnsOf, enqueue, List.filter_append, List.filter_cons, List.filter_nil,
    decide_eq_true_eq]

theorem park_waitsOf (s : Stream) (ticket : Ticket) (target : WaitTarget) (request : Nat) :
    (s.park ticket target).waitsOf request =
      s.waitsOf request ++ if ticket.request = request then [(ticket, target)] else [] := by
  simp only [waitsOf, park, waiters, List.filter_append, List.filter_cons, List.filter_nil,
    decide_eq_true_eq, List.map_append]
  split <;> rfl

theorem produced_waitsOf (s : Stream) (now : Int) (w : Window) (event : Production)
    (request : Nat) : (s.produced now w event).waitsOf request =
      (s.waitsOf request).filter fun wait =>
        ((wait.2.evaluate w (some event)).outcome? w).isNone := by
  simp only [waitsOf, produced, waiters, Waiters.broadcast, Waiters.judge_left, List.filter_map,
    List.map_map, List.filter_filter]
  congr 1
  exact List.filter_congr fun _ _ => Bool.and_comm _ _

/-- Those of the released waiters that a request has are released as if they were alone. -/
theorem resumes_of_released (f : WaitTarget → Option WaitOutcome) (request : Nat)
    (parked : List (Waiter Ticket)) :
    ((parked.filterMap fun waiter => (f waiter.target).map (waiter.tag, ·)).map
        fun (ticket, outcome) => Turn.resume ticket outcome).filter (·.request = request) =
      ((parked.filter (·.tag.request = request)).map fun waiter =>
          (waiter.tag, waiter.target)).filterMap fun wait => (f wait.2).map (.resume wait.1 ·) := by
  induction parked with
  | nil => rfl
  | cons first rest ih =>
      cases settled : f first.target with
      | none =>
          by_cases own : first.tag.request = request
          · simp [settled, own, ih]
          · simp [settled, own, ih]
      | some outcome =>
          by_cases own : first.tag.request = request
          · simp [settled, own, ih]
          · simp [settled, own, ih]

theorem produced_turnsOf (s : Stream) (now : Int) (w : Window) (event : Production)
    (request : Nat) : (s.produced now w event).turnsOf request =
      s.turnsOf request ++ (s.waitsOf request).filterMap fun wait =>
        ((wait.2.evaluate w (some event)).outcome? w).map (.resume wait.1 ·) := by
  simp only [turnsOf, waitsOf, produced, List.filter_append, Waiters.broadcast_released,
    Waiters.judge_released]
  rw [resumes_of_released fun target => (target.evaluate w (some event)).outcome? w]

theorem halted_turnsOf (s : Stream) (request : Nat) :
    s.halted.turnsOf request = s.turnsOf request ++ (s.waitsOf request).map fun wait =>
      .resume wait.1 (.error (.stopped s.id)) := by
  have released :=
    resumes_of_released (fun _ => some (.error (.stopped s.id))) request s.waiters.parked
  simp only [Option.map_some, List.filterMap_eq_map'] at released
  simp only [turnsOf, waitsOf, halted, List.filter_append, Waiters.close]
  rw [released]

theorem abandon_waitsOf (s : Stream) (gone request : Nat) :
    (s.abandon gone).1.waitsOf request = if gone = request then [] else s.waitsOf request := by
  simp only [waitsOf, abandon, release, waiters, Waiters.abandon, List.filter_filter]
  split
  · rename_i same
    subst same
    simp
  · rename_i other
    congr 1
    refine List.filter_congr fun waiter _ => ?_
    by_cases own : waiter.tag.request = request
    · simp [own, Ne.symm other]
    · simp [own]

theorem abandon_turnsOf (s : Stream) (gone request : Nat) :
    (s.abandon gone).1.turnsOf request = s.turnsOf request ++
      if gone = request then (s.waitsOf request).map fun wait => .resume wait.1 (.error .abandoned)
      else [] := by
  have released := resumes_of_released (fun _ => some (.error .abandoned)) request
    (s.waiters.parked.filter (·.tag.request = gone))
  simp only [Option.map_some, List.filterMap_eq_map'] at released
  simp only [turnsOf, waitsOf, abandon, release, Waiters.abandon, List.filter_append]
  rw [released, List.filter_filter]
  split
  · rename_i same
    subst same
    simp
  · rename_i other
    have apart : (s.waiters.parked.filter fun waiter =>
        decide (waiter.tag.request = request) && decide (waiter.tag.request = gone)) = [] := by
      refine List.filter_eq_nil_iff.mpr fun waiter _ both => ?_
      obtain ⟨first, second⟩ := (Bool.and_eq_true _ _).mp both
      exact other ((of_decide_eq_true second).symm.trans (of_decide_eq_true first))
    rw [apart]
    rfl

/-! ### Others -/

theorem At.of_eq {t : Stream} (h : s.At request phase)
    (waiting : t.waitsOf request = s.waitsOf request) (turns : t.turnsOf request = s.turnsOf request) :
    t.At request phase :=
  ⟨waiting.trans h.waiting, turns.trans h.turns⟩

theorem At.enqueue_other {turn : Turn} (h : s.At request phase) (other : turn.request ≠ request) :
    (s.enqueue turn).At request phase := by
  refine h.of_eq rfl ?_
  rw [enqueue_turnsOf, if_neg other, List.append_nil]

theorem At.waitFor_other {ticket : Ticket} {target : WaitTarget} (h : s.At request phase)
    (other : ticket.request ≠ request) : (s.waitFor ticket target).1.At request phase := by
  rcases s.waitFor_cases ticket target with ⟨outcome, same, -⟩ | ⟨-, same⟩
  · rw [same]
    exact h.enqueue_other other
  · rw [same]
    refine h.of_eq ?_ rfl
    rw [park_waitsOf, if_neg other, List.append_nil]

theorem At.serveFrom_other {asker : Nat} {a : Segment} {range : Option ByteRange}
    (h : s.At request phase) (other : asker ≠ request) :
    (s.serveFrom asker a range).1.At request phase := by
  unfold serveFrom
  cases SegmentRequest.judge a range s.settings with
  | answer outcome => exact h.enqueue_other other
  | hold offset => exact h.waitFor_other other

theorem At.playlist_other {asker : Nat} {what : PlaylistRequest} (h : s.At request phase)
    (other : asker ≠ request) : (s.playlist asker what).1.At request phase := by
  unfold playlist
  split
  · exact h.enqueue_other other
  · cases what.plan s.window s.settings.partLimit with
    | refuse fault => exact h.enqueue_other other
    | serve => exact h.enqueue_other other
    | wait target => exact h.waitFor_other other

theorem At.segment_other {asker : Nat} {number : Numeral} {range : Option ByteRange}
    (h : s.At request phase) (other : asker ≠ request) :
    (s.segment asker number range).1.At request phase := by
  unfold segment
  split
  · exact h.enqueue_other other
  · cases s.window.named? number with
    | some a => exact h.serveFrom_other other
    | none =>
        simp only
        split
        · exact h.enqueue_other other
        · exact h.waitFor_other other

theorem At.resume_other {ticket : Ticket} {outcome : WaitOutcome} (h : s.At request phase)
    (other : ticket.request ≠ request) : (s.resume ticket outcome).1.At request phase := by
  unfold resume
  cases ticket.stage with
  | playlist blocking => exact h.enqueue_other other
  | hold sequence range => exact h.enqueue_other other
  | appearance number range =>
      cases outcome with
      | error fault => exact h.enqueue_other other
      | ok w =>
          cases named : w.named? number with
          | some a =>
              simp only [named]
              exact h.serveFrom_other other
          | none =>
              simp only [named]
              exact h.enqueue_other other

/-! ### The request itself -/

theorem At.enqueue {turn : Turn} (h : s.At request .absent) (own : turn.request = request) :
    (s.enqueue turn).waitsOf request = [] ∧ (s.enqueue turn).turnsOf request = [turn] := by
  refine ⟨h.waiting, ?_⟩
  rw [enqueue_turnsOf, if_pos own, h.turns]
  rfl

theorem At.told {steps : Nat} {outcome : Outcome} (h : s.At request .absent) :
    (s.enqueue (.relay request steps outcome)).At request (.told steps outcome) :=
  ⟨(h.enqueue rfl).1, (h.enqueue rfl).2⟩

theorem At.resumes {stage : Stage} {outcome : WaitOutcome} (h : s.At request .absent) :
    (s.enqueue (.resume ⟨request, stage⟩ outcome)).At request (.resumes stage outcome) :=
  ⟨(h.enqueue rfl).1, (h.enqueue rfl).2⟩

/-- What a request comes to that is to wait for a target. -/
def awaiting (s : Stream) (request : Nat) (stage : Stage) (target : WaitTarget) : Phase :=
  match (s.waiters.wait ⟨request, stage⟩ target s.window (s.left.contains request)).2.1 with
  | some outcome => .resumes stage outcome
  | none => .waits stage target

theorem At.waitFor {stage : Stage} {target : WaitTarget} (h : s.At request .absent) :
    (s.waitFor ⟨request, stage⟩ target).1.At request (s.awaiting request stage target) := by
  unfold Stream.waitFor awaiting
  rcases s.waiters.wait_cases ⟨request, stage⟩ target s.window (s.left.contains request) with
    ⟨outcome, same, -⟩ | ⟨-, -, -, log, same⟩
  · rw [same]
    exact h.resumes
  · rw [same]
    refine ⟨?_, h.turns⟩
    have parked := park_waitsOf s ⟨request, stage⟩ target request
    rw [if_pos rfl, h.waiting] at parked
    exact parked

/-- The outcome is that of the target only if nothing else can be said: the stream has not stopped
and the client is there. -/
theorem awaiting_cases (s : Stream) (request : Nat) (stage : Stage) (target : WaitTarget) :
    (∃ fault, s.waiters.closedWith = some fault ∧
      s.awaiting request stage target = .resumes stage (.error fault)) ∨
    (s.left.contains request = true ∧
      s.awaiting request stage target = .resumes stage (.error .abandoned)) ∨
    (∃ outcome, (target.evaluate s.window none).outcome? s.window = some outcome ∧
      s.awaiting request stage target = .resumes stage outcome) ∨
    s.Parkable ⟨request, stage⟩ target ∧ s.awaiting request stage target = .waits stage target := by
  unfold awaiting
  cases closed : s.waiters.closedWith with
  | some fault =>
      left
      refine ⟨fault, rfl, ?_⟩
      simp only [Waiters.wait, closed]
  | none =>
      right
      cases gone : s.left.contains request with
      | true =>
          left
          simp [Waiters.wait, closed]
      | false =>
          right
          cases verdict : target.evaluate s.window none with
          | pending =>
              right
              exact ⟨⟨closed, gone, verdict⟩, by simp [Waiters.wait, closed, verdict]⟩
          | ready => exact .inl ⟨.ok s.window, rfl, by simp [Waiters.wait, closed, verdict]⟩
          | rejected fault =>
              exact .inl ⟨.error fault, rfl, by simp [Waiters.wait, closed, verdict]⟩

/-- What a request comes to that is to be served from a segment. -/
def serving (s : Stream) (request : Nat) (a : Segment) (range : Option ByteRange) : Phase :=
  match SegmentRequest.judge a range s.settings with
  | .answer outcome => .told 2 (outcome.map .segment)
  | .hold offset => s.awaiting request (.hold a.sequence range) (.bytes a.sequence offset)

theorem At.serveFrom {a : Segment} {range : Option ByteRange} (h : s.At request .absent) :
    (s.serveFrom request a range).1.At request (s.serving request a range) := by
  unfold Stream.serveFrom serving
  cases SegmentRequest.judge a range s.settings with
  | answer outcome => exact h.told
  | hold offset => exact h.waitFor

def playlistAsked (s : Stream) (request : Nat) (what : PlaylistRequest) : Phase :=
  if s.stopped then .told 0 (.error (.stopped s.id))
  else
    match what.plan s.window s.settings.partLimit with
    | .refuse fault => .told 0 (.error fault)
    | .serve => .told 0 (s.renderFor s.window what.isBlocking)
    | .wait target => s.awaiting request (.playlist what.isBlocking) target

theorem At.playlist {what : PlaylistRequest} (h : s.At request .absent) :
    (s.playlist request what).1.At request (s.playlistAsked request what) := by
  unfold Stream.playlist playlistAsked
  split
  · exact h.told
  · cases what.plan s.window s.settings.partLimit with
    | refuse fault => exact h.told
    | serve => exact h.told
    | wait target => exact h.waitFor

def segmentAsked (s : Stream) (request : Nat) (number : Numeral) (range : Option ByteRange) :
    Phase :=
  if s.stopped then .told 0 (.error (.stopped s.id))
  else
    match s.window.named? number with
    | some a => s.serving request a range
    | none =>
        if s.window.isPast number then .told 0 (.error (.evicted number))
        else s.awaiting request (.appearance number range) .production

theorem At.segment {number : Numeral} {range : Option ByteRange} (h : s.At request .absent) :
    (s.segment request number range).1.At request (s.segmentAsked request number range) := by
  unfold Stream.segment segmentAsked
  split
  · exact h.told
  · cases s.window.named? number with
    | some a => exact h.serveFrom
    | none =>
        simp only
        split
        · exact h.told
        · exact h.waitFor

/-- What a request comes to that goes on with the outcome of its wait. -/
def resuming (s : Stream) (request : Nat) (stage : Stage) (outcome : WaitOutcome) : Phase :=
  match stage with
  | .playlist blocking => .told 0 (outcome.bind (s.renderFor · blocking))
  | .hold sequence range =>
      .told 1 ((outcome.bind fun w =>
        SegmentRequest.conclude w sequence range s.settings).map .segment)
  | .appearance number range =>
      match outcome with
      | .error fault => .told 0 (.error fault)
      | .ok w =>
          match w.named? number with
          | some a => s.serving request a range
          | none =>
              .told 0 (.error (if w.isPast number then .evicted number else .noSuchSegment number))

theorem At.resume {stage : Stage} {outcome : WaitOutcome} (h : s.At request .absent) :
    (s.resume ⟨request, stage⟩ outcome).1.At request (s.resuming request stage outcome) := by
  unfold Stream.resume resuming
  cases stage with
  | playlist blocking => exact h.told
  | hold sequence range => exact h.told
  | appearance number range =>
      cases outcome with
      | error fault => exact h.told
      | ok w =>
          cases named : w.named? number with
          | some a =>
              simp only [named]
              exact h.serveFrom
          | none =>
              simp only [named]
              exact h.told

end Stream

end LiveHls
