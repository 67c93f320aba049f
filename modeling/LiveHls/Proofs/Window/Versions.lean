import LiveHls.Proofs.Servability
/-! Windows that differ in how often they have changed, and in nothing else. No call looks at the
version, so two such windows go the same way under all calls; and this is all that is left of the
difference between a segment that its producer seals and one that is sealed by the next. -/
namespace LiveHls

namespace Window

/-- The same window, which has changed more often. -/
def raised (n : Nat) (w : Window) : Window := { w with version := w.version + n }

theorem setAt_raised (n : Nat) (w : Window) (i : Nat) (a : Segment) :
    (w.raised n).setAt i a = (w.setAt i a).raised n := by
  simp only [setAt, raised, Nat.add_right_comm]

theorem put_eq (capacity : Nat) (w : Window) (new : NewSegment) (now : Int) :
    w.put capacity new now = (w.accept new.number).map fun sequence =>
      { evict capacity { w with segments := Segment.started w.segments (.start sequence new now) }
        with version := w.version + 1 } := by
  unfold put
  rw [closeLast_eq]
  rfl

theorem put_raised (n capacity : Nat) (w : Window) (new : NewSegment) (now : Int) :
    (w.raised n).put capacity new now = (w.put capacity new now).map (raised n) := by
  have same : (w.raised n).accept new.number = w.accept new.number := rfl
  rw [put_eq, put_eq, same]
  cases w.accept new.number with
  | error fault => rfl
  | ok sequence => simp only [Except.map, raised, evict, Nat.add_right_comm]

theorem revise_raised (n : Nat) (stream : String) (w : Window) (number : Numeral)
    (f : Segment → Except Fault Segment) :
    (w.raised n).revise stream number f = (w.revise stream number f).map (raised n) := by
  have same : (w.raised n).locate stream number = w.locate stream number := rfl
  unfold revise
  rw [same]
  cases w.locate stream number with
  | error fault => rfl
  | ok place =>
      obtain ⟨i, a⟩ := place
      cases made : f a with
      | error fault => simp only [bind, Except.bind, made, Except.map]
      | ok b =>
          simp only [bind, Except.bind, made, setAt_raised]
          rfl

/-- A call makes the same of a window whatever its version is. -/
theorem perform_raised (n : Nat) (stream : String) (capacity : Nat) (w : Window) (now : Int)
    (call : ProducerCall) :
    (w.raised n).perform stream capacity now call =
      (w.perform stream capacity now call).map (raised n) := by
  cases call with
  | put new => exact put_raised n capacity w new now
  | append number part discontinuity =>
      exact revise_raised n stream w number (·.append part discontinuity)
  | close number duration =>
      simp only [perform, close_eq_revise]
      exact revise_raised n stream w number _

/-- A segment of the window is found in its place. -/
theorem locate_of_split {w : Window} {before after : List Segment} {a : Segment}
    (h : Consecutive w.segments) (split : w.segments = before ++ a :: after) (stream : String)
    {number : Numeral} (named : number.toInt? = some (a.sequence : Int)) :
    w.locate stream number = .ok (before.length, a) := by
  have place : w.place? a.sequence = some before.length := by
    cases segments : w.segments with
    | nil => simp [segments] at split
    | cons first rest =>
        rw [segments] at h split
        have distance := h.sequence_of_split split
        have inside : ¬ (a.sequence : Int) < first.sequence := by omega
        simp only [place?, first?, segments, List.head?_cons, if_neg inside]
        congr 1
        omega
  have here : w.segments[before.length]? = some a := by simp [split]
  simp only [locate, named, Option.bind_some, place, here]

end Window

/-! ### Buffers -/

namespace LiveBuffer

variable {τ : Type} {b c : LiveBuffer τ} {n : Nat}

/-- What a producer is told of a call: at which offset its part lies, or why the call failed. -/
def reply (b : LiveBuffer τ) (now : Int) : ProducerCall → Except Fault (Option Nat)
  | .put new => (b.put new now).map fun _ => none
  | .append number part discontinuity =>
      (b.append number part discontinuity).map fun done => some done.1
  | .close number duration => (b.close number duration).map fun _ => none

/-- What a producer is told of calls, each made on what the calls before it have left. -/
def replies (b : LiveBuffer τ) : List (Int × ProducerCall) → List (Except Fault (Option Nat))
  | [] => []
  | call :: rest => b.reply call.1 call.2 :: (b.step call).replies rest

/-- The offset that a part gets: the size of the segment it is meant for. -/
def offset? (w : Window) : ProducerCall → Option Nat
  | .append number .. => (w.named? number).map (·.dataSize)
  | .put _ | .close .. => none

/-- What a producer is told depends on the window alone. -/
theorem reply_eq (b : LiveBuffer τ) (now : Int) (call : ProducerCall) :
    b.reply now call =
      (b.window.perform b.stream b.capacity now call).map fun _ => offset? b.window call := by
  cases call with
  | put new =>
      rw [reply, LiveBuffer.put, Window.perform]
      cases b.window.put b.capacity new now <;> rfl
  | append number part discontinuity =>
      rw [reply, LiveBuffer.append, Window.perform, Window.append]
      cases located : b.window.locate b.stream number with
      | error fault => rfl
      | ok place =>
          obtain ⟨i, a⟩ := place
          rw [offset?, (Window.locate_eq_ok located).1]
          cases made : a.append part discontinuity <;>
            simp only [bind, Except.bind, made] <;> rfl
  | close number duration =>
      rw [reply, LiveBuffer.close, Window.perform, Window.close]
      cases b.window.locate b.stream number with
      | error fault => rfl
      | ok place =>
          obtain ⟨i, a⟩ := place
          cases made : a.close (duration.getD a.partsDuration) <;>
            simp only [bind, Except.bind, made] <;> rfl

/-- Two buffers of one stream whose windows differ in the version only. Who waits does not matter. -/
structure Agree (n : Nat) (b c : LiveBuffer τ) : Prop where
  stream : c.stream = b.stream
  capacity : c.capacity = b.capacity
  window : c.window = b.window.raised n

theorem Agree.reply (agree : Agree n b c) (now : Int) (call : ProducerCall) :
    c.reply now call = b.reply now call := by
  have same : offset? (b.window.raised n) call = offset? b.window call := by cases call <;> rfl
  rw [reply_eq, reply_eq, agree.stream, agree.capacity, agree.window, Window.perform_raised, same]
  cases b.window.perform b.stream b.capacity now call <;> rfl

theorem Agree.step (agree : Agree n b c) (call : Int × ProducerCall) :
    Agree n (b.step call) (c.step call) := by
  obtain ⟨log, own⟩ := b.perform_eq call.1 call.2
  obtain ⟨log', other⟩ := c.perform_eq call.1 call.2
  rw [agree.stream, agree.capacity, agree.window, Window.perform_raised] at other
  unfold LiveBuffer.step
  rw [own, other]
  cases b.window.perform b.stream b.capacity call.1 call.2 with
  | error fault => exact agree
  | ok w => exact ⟨agree.stream, agree.capacity, rfl⟩

/-- Two buffers that agree are told the same and go on agreeing. -/
theorem Agree.run (agree : Agree n b c) (calls : List (Int × ProducerCall)) :
    c.replies calls = b.replies calls ∧ Agree n (b.run calls) (c.run calls) := by
  induction calls generalizing b c with
  | nil => exact ⟨rfl, agree⟩
  | cons call calls ih =>
      obtain ⟨replies, after⟩ := ih (agree.step call)
      refine ⟨?_, after⟩
      rw [LiveBuffer.replies, LiveBuffer.replies, agree.reply, replies]

/-! ### Sealing by the next segment -/

/-- What becomes of a window if its last segment, still open, is sealed without a duration before
the next is started: what becomes of it anyway, in one change more. -/
theorem close_put_eq {w : Window} {capacity : Nat} (h : w.WellFormed capacity) {last : Segment}
    (newest : w.last? = some last) (opened : last.complete = false) (stream : String)
    {number : Numeral} (named : number.toInt? = some (last.sequence : Int)) (new : NewSegment)
    (now : Int) :
    ∃ v, w.close stream number none = .ok v ∧
      v.put capacity new now = (w.put capacity new now).map (Window.raised 1) := by
  obtain ⟨before, segments⟩ := List.getLast?_eq_some_iff.mp newest
  have located := Window.locate_of_split h.consecutive segments stream named
  have closed : last.close last.partsDuration = .ok last.closeIfOpen := by
    rw [Segment.closeIfOpen, Segment.close, if_neg (Bool.eq_false_iff.mp opened),
      if_neg (Bool.eq_false_iff.mp opened)]
  refine ⟨w.setAt before.length last.closeIfOpen, ?_, ?_⟩
  · simp only [Window.close, located, bind, Except.bind, Option.getD_none, closed]
    rfl
  · have sealed : w.setAt before.length last.closeIfOpen =
        { w with segments := before ++ [last.closeIfOpen], version := w.version + 1 } := by
      simp [Window.setAt, segments]
    have accepts : (w.setAt before.length last.closeIfOpen).accept new.number =
        w.accept new.number := by
      simp only [sealed, Window.accept, Window.last?, segments, List.getLast?_concat,
        last.closeIfOpen_grows.sequence]
    have again : last.closeIfOpen.closeIfOpen = last.closeIfOpen :=
      if_pos last.closeIfOpen_complete
    have started : ∀ a, Segment.started (before ++ [last.closeIfOpen]) a =
        Segment.started w.segments a := by
      intro a
      rw [segments, Segment.started_concat, Segment.started_concat, again]
    rw [Window.put_eq, Window.put_eq, accepts, sealed]
    cases w.accept new.number with
    | error fault => rfl
    | ok sequence => simp only [Except.map, started, Window.raised, Window.evict]

/-- What the window allows is done, and the window is all that changes but for who waits. -/
theorem perform_of_window (b : LiveBuffer τ) (now : Int) (call : ProducerCall) {w : Window}
    (made : b.window.perform b.stream b.capacity now call = .ok w) :
    ∃ next effects, b.perform now call = .ok (next, effects) ∧ next.stream = b.stream ∧
      next.capacity = b.capacity ∧ next.window = w := by
  obtain ⟨log, same⟩ := b.perform_eq now call
  rw [made] at same
  exact ⟨_, _, same, rfl, rfl, rfl⟩

/-- A segment that is still open when the next one comes is sealed just as if its producer had
sealed it, without a duration, right before. In every buffer, whoever waits there, whose last
segment is open: starting the next segment leaves the window that sealing and starting leave, one
change less apart; and from there on all calls succeed or fail alike, with the same answers, and
leave the same windows up to that one change. -/
theorem implicit_seal_is_explicit {stream : String} {size : Float} {created : LiveBuffer τ}
    (create : LiveBuffer.create stream size = .ok created) (calls : List (Int × ProducerCall))
    (waiters : Waiters τ) (last : Segment) (number : Numeral) (new : NewSegment) (now : Int)
    (newest : (created.run calls).window.last? = some last) (opened : last.complete = false)
    (named : number.toInt? = some (last.sequence : Int))
    (next : new.number.toNat? = some (last.sequence + 1)) :
    let b := { created.run calls with waiters }
    ∃ implicit sealed explicit : LiveBuffer τ,
      (∃ effects, b.put new now = .ok (implicit, effects)) ∧
      (∃ effects, b.close number none = .ok (sealed, effects)) ∧
      (∃ effects, sealed.put new now = .ok (explicit, effects)) ∧
      explicit.window = implicit.window.raised 1 ∧
      ∀ later, explicit.replies later = implicit.replies later ∧
        (explicit.run later).window = (implicit.run later).window.raised 1 := by
  intro b
  obtain ⟨positive, fresh⟩ := create_wellFormed create
  obtain ⟨capacity, wellFormed, -⟩ := run_precedes positive fresh calls
  obtain ⟨v, closed, put⟩ := close_put_eq wellFormed newest opened b.stream named new now
  rw [← capacity] at put
  have accepted : b.window.accept new.number = .ok (last.sequence + 1) := by
    rw [Window.accept, next, show b.window.last? = some last from newest]
    exact if_pos rfl
  obtain ⟨w, started⟩ : ∃ w, b.window.put b.capacity new now = .ok w := by
    rw [Window.put_eq, accepted]
    exact ⟨_, rfl⟩
  obtain ⟨implicit, effects, done, stream₁, capacity₁, rfl⟩ :=
    b.perform_of_window now (.put new) started
  obtain ⟨sealed, effects₂, done₂, stream₂, capacity₂, rfl⟩ :=
    b.perform_of_window now (.close number none) closed
  have followed : sealed.window.perform sealed.stream sealed.capacity now (.put new) =
      .ok (implicit.window.raised 1) := by
    rw [Window.perform, capacity₂]
    exact put.trans (congrArg (Except.map _) started)
  obtain ⟨explicit, effects₃, done₃, stream₃, capacity₃, window₃⟩ :=
    sealed.perform_of_window now (.put new) followed
  have agree : Agree 1 implicit explicit :=
    ⟨by rw [stream₃, stream₂, stream₁], by rw [capacity₃, capacity₂, capacity₁], window₃⟩
  refine ⟨implicit, sealed, explicit, ⟨_, done⟩, ⟨_, done₂⟩, ⟨_, done₃⟩, window₃, fun later => ?_⟩
  obtain ⟨replies, after⟩ := agree.run later
  exact ⟨replies, after.window⟩

/-- In a window of one segment, which the second drops; its one part lasts a second. -/
theorem implicit_seal_is_explicit_of_one :
    let created : LiveBuffer Unit := ⟨"live", 1, .empty, .start "live"⟩
    let calls := [(0, ProducerCall.put ⟨.whole 0, [], none, false⟩),
      (1, .append (.whole 0) ⟨1.0, true, [7]⟩ true)]
    let new : NewSegment := ⟨.whole 1, [], none, false⟩
    LiveBuffer.create "live" 1.0 = .ok created ∧
    (∃ last, (created.run calls).window.last? = some last ∧ last.complete = false ∧
      (Numeral.whole 0).toInt? = some (last.sequence : Int) ∧
      new.number.toNat? = some (last.sequence + 1)) ∧
    ∃ implicit explicit : LiveBuffer Unit,
      (∃ effects, (created.run calls).put new 2 = .ok (implicit, effects)) ∧
      implicit.window.segments.map (·.sequence) = [1] ∧
      implicit.window.discontinuitySequence = 1 ∧ implicit.window.version = 3 ∧
      explicit.window = implicit.window.raised 1 ∧
      explicit.replies [(3, .close (.whole 0) none), (4, .append (.whole 1) ⟨1.0, true, [8]⟩ false)] =
        implicit.replies
          [(3, .close (.whole 0) none), (4, .append (.whole 1) ⟨1.0, true, [8]⟩ false)] := by
  intro created calls new
  have create : LiveBuffer.create "live" 1.0 = .ok created := by rfl
  obtain ⟨implicit, sealed, explicit, ⟨effects, done⟩, -, -, window, alike⟩ :=
    implicit_seal_is_explicit create calls (created.run calls).waiters
      ⟨0, .whole 0, [], .ofMillis 0, true, [⟨0, 1.0, true, [7]⟩], 1, none⟩ (.whole 0) new 2
      (by rfl) (by rfl) (by rfl) (by rfl)
  refine ⟨create, ⟨_, rfl, rfl, rfl, rfl⟩, implicit, explicit, ⟨effects, done⟩, ?_, ?_, ?_, window,
    (alike _).1⟩
  · cases done
    rfl
  · cases done
    rfl
  · cases done
    rfl

end LiveBuffer
end LiveHls
