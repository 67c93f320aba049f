import LiveHls.Stream
import LiveHls.Proofs.Broadcast
import LiveHls.Proofs.BufferCalls
/-! Runs of a stream. The producer, the readers and their clients act in any order, and the
requests that have something to do take their turns in any order. Each event makes one of a few
moves, and every invariant of a stream is one case analysis over the moves. -/
namespace LiveHls

inductive Event where
  | call (call : ProducerCall) (now : Int)
  | stop
  | playlist (request : Nat) (what : PlaylistRequest)
  | segment (request : Nat) (number : Numeral) (range : Option ByteRange)
  /-- The client of a request leaves, at the latest when its answer arrives, at the earliest
  before it asks. -/
  | leave (request : Nat)
  /-- A request takes its next turn, if it has one. -/
  | turn (request : Nat)

def Turn.request : Turn → Nat
  | .resume ticket _ => ticket.request
  | .relay request _ _ => request

namespace Stream

/-- A stream that nothing has happened to. -/
def fresh (id : String) (settings : Settings) (capacity : Nat) (now : Int) : Stream :=
  { id, settings, buffer := ⟨id, capacity, .empty, .start id⟩, stopped := false,
    lastActivity := now, left := [], turns := [] }

theorem create_eq_ok_iff (id : String) (settings : Settings) (size : Float) (now : Int)
    (s : Stream) :
    Stream.create id settings size now = .ok s ↔
      ∃ capacity : Nat, 1 ≤ capacity ∧ Binary64.integer? size = some (capacity : Int) ∧
        s = fresh id settings capacity now := by
  simp only [create, LiveBuffer.create, ← and_assoc, ← LiveBuffer.capacity?_eq_ok_iff]
  cases named : LiveBuffer.capacity? size with
  | error fault => simp [Except.map]
  | ok capacity => simp [Except.map, fresh, eq_comm]

/-- Segments of four seconds and parts of one. -/
def plainSettings : Settings := ⟨4.0, 1.0, 1.0, 4.0, 3.0, 2.0, 2.0⟩

def plain (capacity : Nat) : Stream := fresh "live" plainSettings capacity 0

theorem create_plain {size : Float} {capacity : Nat} (positive : 1 ≤ capacity)
    (whole : Binary64.integer? size = some (capacity : Int)) :
    Stream.create "live" plainSettings size 0 = .ok (plain capacity) :=
  (create_eq_ok_iff ..).mpr ⟨capacity, positive, whole, rfl⟩

def perform (s : Stream) (now : Int) : ProducerCall → Except Fault (Stream × Log)
  | .put new => s.put new now
  | .append number part discontinuity => s.append number part discontinuity now
  | .close number duration => s.close number duration now

/-- The first turn of a request, taken before those of all others. -/
def turnOf (s : Stream) (request : Nat) : Option (Stream × Log × Option (Nat × Outcome)) :=
  match s.turns.find? (·.request = request) with
  | none => none
  | some next => { s with turns := next :: s.turns.eraseP (·.request = request) }.turn

/-- The stream after an event. A call that fails changes nothing. -/
def step (s : Stream) : Event → Stream
  | .call call now =>
      match s.perform now call with
      | .ok (next, _) => next
      | .error _ => s
  | .stop => s.stop.1
  | .playlist request what => (s.playlist request what).1
  | .segment request number range => (s.segment request number range).1
  | .leave request => (s.abandon request).1
  | .turn request =>
      match s.turnOf request with
      | some (next, _) => next
      | none => s

def run (s : Stream) (events : List Event) : Stream := events.foldl step s

@[simp] theorem run_cons (s : Stream) (event : Event) (events : List Event) :
    s.run (event :: events) = (s.step event).run events := rfl

theorem run_append (s : Stream) (events later : List Event) :
    s.run (events ++ later) = (s.run events).run later := List.foldl_append

/-- Taking the turns first come, first served is one way of taking them. -/
theorem turnOf_head {s : Stream} {next : Turn} {rest : List Turn} (turns : s.turns = next :: rest) :
    s.turnOf next.request = s.turn := by
  have same : { s with turns := next :: rest } = s := by rw [← turns]
  simp only [turnOf, turns, List.find?_cons, List.eraseP_cons, decide_true, cond_true, same]

/-- One more request is parked. -/
def park (s : Stream) (ticket : Ticket) (target : WaitTarget) : Stream :=
  let waiter : Waiter Ticket := ⟨ticket, target, target.key s.window⟩
  { s with buffer := { s.buffer with
      waiters := { s.waiters with parked := s.waiters.parked ++ [waiter] } } }

/-- The window becomes `w`, and those whose targets are settled by that go on. -/
def produced (s : Stream) (now : Int) (w : Window) (event : Production) : Stream :=
  { s with
    buffer := { s.buffer with window := w, waiters := (s.waiters.broadcast w event).1 }
    lastActivity := now
    turns := s.turns ++ (s.waiters.broadcast w event).2.released.map fun (ticket, outcome) =>
      .resume ticket outcome }

/-- The stream stops, and all who wait go on with that. -/
def halted (s : Stream) : Stream :=
  { s with
    stopped := true
    buffer := { s.buffer with waiters := (s.waiters.close (.stopped s.id)).1 }
    turns := s.turns ++ (s.waiters.close (.stopped s.id)).2.released.map fun (ticket, outcome) =>
      .resume ticket outcome }

/-- A request is parked only if nothing else can be said to it: the stream runs, the client is
there, and the target is open. -/
structure Parkable (s : Stream) (ticket : Ticket) (target : WaitTarget) : Prop where
  opened : s.waiters.closedWith = none
  present : s.left.contains ticket.request = false
  pending : target.evaluate s.window none = .pending

/-- What a reader does: turns are taken or added, and at most one request is parked. -/
inductive Reads (s : Stream) : Stream → Prop
  | pass (turns : List Turn) : Reads s { s with turns }
  | park (turns : List Turn) {ticket : Ticket} {target : WaitTarget} :
      s.Parkable ticket target → Reads s ({ s with turns }.park ticket target)

theorem Reads.refl (s : Stream) : Reads s s := .pass s.turns

theorem Reads.of_turns {s t : Stream} {turns : List Turn} (h : Reads { s with turns } t) :
    Reads s t := by
  cases h with
  | pass later => exact .pass later
  | park later parkable => exact .park later ⟨parkable.opened, parkable.present, parkable.pending⟩

theorem Reads.window {s t : Stream} (reads : Reads s t) : t.window = s.window := by
  cases reads <;> rfl

theorem Reads.stopped {s t : Stream} (reads : Reads s t) : t.stopped = s.stopped := by
  cases reads <;> rfl

theorem Reads.left {s t : Stream} (reads : Reads s t) : t.left = s.left := by
  cases reads <;> rfl

theorem Reads.settings {s t : Stream} (reads : Reads s t) : t.settings = s.settings := by
  cases reads <;> rfl

theorem Reads.capacity {s t : Stream} (reads : Reads s t) :
    t.buffer.capacity = s.buffer.capacity := by
  cases reads <;> rfl

theorem waitFor_cases (s : Stream) (ticket : Ticket) (target : WaitTarget) :
    (∃ outcome, (s.waitFor ticket target).1 = s.enqueue (.resume ticket outcome) ∧
      (s.waiters.closedWith = none → s.left.contains ticket.request = false →
        (target.evaluate s.window none).outcome? s.window = some outcome)) ∨
      s.Parkable ticket target ∧ (s.waitFor ticket target).1 = s.park ticket target := by
  unfold waitFor
  rcases s.waiters.wait_cases ticket target s.window (s.left.contains ticket.request) with
    ⟨outcome, same, judged⟩ | ⟨opened, present, pending, log, same⟩
  · rw [same]
    exact .inl ⟨outcome, rfl, judged⟩
  · rw [same]
    exact .inr ⟨⟨opened, present, pending⟩, rfl⟩

/-- The outcome that a wait has at once, if it has one. -/
def answered? (s : Stream) (request : Nat) (target : WaitTarget) : Option WaitOutcome :=
  match s.waiters.closedWith with
  | some fault => some (.error fault)
  | none =>
      if s.left.contains request then some (.error .abandoned)
      else (target.evaluate s.window none).outcome? s.window

theorem waitFor_eq (s : Stream) (ticket : Ticket) (target : WaitTarget) :
    (s.waitFor ticket target).1 =
      match s.answered? ticket.request target with
      | some outcome => s.enqueue (.resume ticket outcome)
      | none => s.park ticket target := by
  unfold waitFor answered? Waiters.wait
  cases closed : s.waiters.closedWith with
  | some fault => rfl
  | none =>
      cases gone : s.left.contains ticket.request with
      | true => rfl
      | false =>
          cases verdict : target.evaluate s.window none with
          | pending => simp [Verdict.outcome?, park, closed]
          | ready => rfl
          | rejected fault => rfl

theorem waitFor_reads (s : Stream) (ticket : Ticket) (target : WaitTarget) :
    Reads s (s.waitFor ticket target).1 := by
  rcases s.waitFor_cases ticket target with ⟨outcome, same, -⟩ | ⟨parkable, same⟩
  · rw [same]
    exact .pass _
  · rw [same]
    exact .park s.turns parkable

theorem serveFrom_reads (s : Stream) (request : Nat) (a : Segment) (range : Option ByteRange) :
    Reads s (s.serveFrom request a range).1 := by
  unfold serveFrom
  cases SegmentRequest.judge a range s.settings with
  | answer outcome => exact .pass _
  | hold offset => exact s.waitFor_reads _ _

theorem playlist_reads (s : Stream) (request : Nat) (what : PlaylistRequest) :
    Reads s (s.playlist request what).1 := by
  unfold playlist
  split
  · exact .pass _
  · cases what.plan s.window s.settings.partLimit with
    | refuse fault => exact .pass _
    | serve => exact .pass _
    | wait target => exact s.waitFor_reads _ _

theorem segment_reads (s : Stream) (request : Nat) (number : Numeral)
    (range : Option ByteRange) : Reads s (s.segment request number range).1 := by
  unfold segment
  split
  · exact .pass _
  · cases s.window.named? number with
    | some found => exact s.serveFrom_reads request found range
    | none =>
        simp only
        split
        · exact .pass _
        · exact s.waitFor_reads _ _

theorem resume_reads (s : Stream) (ticket : Ticket) (outcome : WaitOutcome) :
    Reads s (s.resume ticket outcome).1 := by
  unfold resume
  cases ticket.stage with
  | playlist blocking => exact .pass _
  | hold sequence range => exact .pass _
  | appearance number range =>
      cases outcome with
      | error fault => exact .pass _
      | ok w =>
          cases found : w.named? number with
          | some a =>
              simp only [found]
              exact s.serveFrom_reads ticket.request a range
          | none =>
              simp only [found]
              exact .pass _

theorem turnOf_reads {s : Stream} {request : Nat} {result : Stream × Log × Option (Nat × Outcome)}
    (taken : s.turnOf request = some result) : Reads s result.1 := by
  unfold turnOf at taken
  split at taken
  · cases taken
  · rename_i next found
    cases next with
    | resume ticket outcome =>
        cases taken
        exact .of_turns (resume_reads _ ticket outcome)
    | relay request steps outcome =>
        cases steps with
        | zero =>
            cases taken
            exact .pass _
        | succ steps =>
            cases taken
            exact .pass _

/-- What a stream may do at an event. -/
inductive Moves (s : Stream) : Event → Stream → Prop
  | produced {call : ProducerCall} {now : Int} {w : Window} (running : s.stopped = false)
      (made : s.window.perform s.buffer.stream s.buffer.capacity now call = .ok w) :
      Moves s (.call call now) (s.produced now w call.event)
  | refused {call : ProducerCall} {now : Int} {fault : Fault}
      (failed : s.perform now call = .error fault) : Moves s (.call call now) s
  | halted (running : s.stopped = false) : Moves s .stop s.halted
  | idle (stopped : s.stopped = true) : Moves s .stop s
  | left (request : Nat) : Moves s (.leave request) (s.abandon request).1
  | playlist {request : Nat} {what : PlaylistRequest} {t : Stream} (reads : Reads s t) :
      Moves s (.playlist request what) t
  | segment {request : Nat} {number : Numeral} {range : Option ByteRange} {t : Stream}
      (reads : Reads s t) : Moves s (.segment request number range) t
  | turn {request : Nat} {t : Stream} (reads : Reads s t) : Moves s (.turn request) t

/-- The window stays as it is, unless a call makes another of it. -/
theorem Moves.window {s t : Stream} {event : Event} (moves : Moves s event t) :
    t.window = s.window ∨ ∃ call now, event = .call call now ∧ s.stopped = false ∧
      s.window.perform s.buffer.stream s.buffer.capacity now call = .ok t.window := by
  cases moves with
  | produced running made => exact .inr ⟨_, _, rfl, running, made⟩
  | refused failed => exact .inl rfl
  | halted running => exact .inl rfl
  | idle stopped => exact .inl rfl
  | left request => exact .inl rfl
  | playlist reads => exact .inl reads.window
  | segment reads => exact .inl reads.window
  | turn reads => exact .inl reads.window

theorem perform_eq (s : Stream) (now : Int) (call : ProducerCall) :
    s.perform now call = s.produce now fun buffer => buffer.perform now call := by
  cases call <;> rfl

theorem perform_ok {s t : Stream} {now : Int} {call : ProducerCall} {log : Log}
    (ok : s.perform now call = .ok (t, log)) :
    s.stopped = false ∧
      ∃ w, s.window.perform s.buffer.stream s.buffer.capacity now call = .ok w ∧
        t = s.produced now w call.event := by
  rw [perform_eq, produce] at ok
  split at ok
  · cases ok
  · rename_i running
    refine ⟨Bool.eq_false_iff.mpr running, ?_⟩
    cases done : s.buffer.perform now call with
    | error fault =>
        rw [done] at ok
        cases ok
    | ok result =>
        obtain ⟨buffer, effects⟩ := result
        obtain ⟨w, lines, made, rfl, rfl⟩ := LiveBuffer.perform_ok done
        rw [done] at ok
        exact ⟨w, made, (congrArg Prod.fst (Except.ok.inj ok)).symm⟩

/-- A call that the window of a running stream allows is carried out. -/
theorem step_produced {s : Stream} {now : Int} {call : ProducerCall} {w : Window}
    (running : s.stopped = false)
    (made : s.window.perform s.buffer.stream s.buffer.capacity now call = .ok w) :
    s.step (.call call now) = s.produced now w call.event := by
  obtain ⟨log, same⟩ := s.buffer.perform_eq now call
  rw [show s.buffer.window.perform s.buffer.stream s.buffer.capacity now call = .ok w from made]
    at same
  rw [step, perform_eq, produce, if_neg (Bool.eq_false_iff.mp running), same]
  rfl

theorem step_call_ok {s t : Stream} {now : Int} {call : ProducerCall} {log : Log}
    (ok : s.perform now call = .ok (t, log)) : s.step (.call call now) = t := by
  simp only [step, ok]

theorem step_call_error {s : Stream} {now : Int} {call : ProducerCall} {fault : Fault}
    (failed : s.perform now call = .error fault) : s.step (.call call now) = s := by
  simp only [step, failed]

theorem step_stop (s : Stream) : s.step .stop = if s.stopped then s else s.halted := by
  rw [step, stop]
  split <;> rfl

theorem step_turn (s : Stream) (request : Nat) : Reads s (s.step (.turn request)) := by
  cases taken : s.turnOf request with
  | none =>
      simp only [step, taken]
      exact .refl s
  | some result =>
      simp only [step, taken]
      exact turnOf_reads taken

theorem step_moves (s : Stream) (event : Event) : Moves s event (s.step event) := by
  cases event with
  | call call now =>
      cases done : s.perform now call with
      | error fault =>
          rw [step_call_error done]
          exact .refused done
      | ok result =>
          obtain ⟨t, log⟩ := result
          obtain ⟨running, w, made, rfl⟩ := perform_ok done
          rw [step_call_ok done]
          exact .produced running made
  | stop =>
      rw [step_stop]
      split
      · rename_i stopped
        exact .idle stopped
      · rename_i running
        exact .halted (Bool.eq_false_iff.mpr running)
  | playlist request what => exact .playlist (s.playlist_reads request what)
  | segment request number range => exact .segment (s.segment_reads request number range)
  | leave request => exact .left request
  | turn request => exact .turn (s.step_turn request)

theorem Moves.settings {s t : Stream} {event : Event} (moves : Moves s event t) :
    t.settings = s.settings := by
  cases moves with
  | produced running made => rfl
  | refused failed => rfl
  | halted running => rfl
  | idle stopped => rfl
  | left request => rfl
  | playlist reads => exact reads.settings
  | segment reads => exact reads.settings
  | turn reads => exact reads.settings

theorem run_settings (s : Stream) (events : List Event) : (s.run events).settings = s.settings := by
  induction events generalizing s with
  | nil => rfl
  | cons event events ih => exact (ih _).trans (s.step_moves event).settings

theorem Moves.capacity {s t : Stream} {event : Event} (moves : Moves s event t) :
    t.buffer.capacity = s.buffer.capacity := by
  cases moves with
  | produced running made => rfl
  | refused failed => rfl
  | halted running => rfl
  | idle stopped => rfl
  | left request => rfl
  | playlist reads => exact reads.capacity
  | segment reads => exact reads.capacity
  | turn reads => exact reads.capacity

theorem run_capacity (s : Stream) (events : List Event) :
    (s.run events).buffer.capacity = s.buffer.capacity := by
  induction events generalizing s with
  | nil => rfl
  | cons event events ih => exact (ih _).trans (s.step_moves event).capacity

end Stream

end LiveHls
