import LiveHls.Proofs.Stream.Run
/-! The calls of a producer as they are carried out, one change of the stream after the other.
Nothing is rolled back: what fails on the way leaves the stream as the steps before have left it.
A call that fails has still changed nothing, for all that can fail comes before the first change.
Where a step behind it could fail, as the sealing of the previous segment could, the checks before
have made sure that it does not. -/
namespace LiveHls

/-- A segment with one more part, whether it is open or not. -/
def Segment.withPart (a : Segment) (part : Part) (discontinuity : Bool) : Segment :=
  { a with
    parts := placeAt a.dataSize part a.parts
    dataSize := a.dataSize + part.data.length
    discontinuity := a.discontinuity || discontinuity }

/-- A stream with another window. -/
def Stream.withWindow (s : Stream) (w : Window) : Stream :=
  { s with buffer := { s.buffer with window := w } }

/-- Work on a stream, step by step. A failure leaves the stream as it is by then. -/
abbrev Procedure := EStateM Fault Stream

namespace Procedure

def check {α : Type} : Except Fault α → Procedure α
  | .ok a => pure a
  | .error fault => throw fault

def ensureRunning : Procedure Unit := do
  let s ← get
  if s.stopped then throw (.stopped s.id)

def changeWindow (change : Window → Window) : Procedure Unit :=
  modify fun s => s.withWindow (change s.window)

/-- Changes the segment at a place. -/
def revise (i : Nat) (change : Segment → Segment) : Procedure Unit :=
  changeWindow fun w => { w with segments := w.segments.modify i change }

/-- A segment is sealed once. -/
def sealAt (i : Nat) (segment : Segment) (duration : Float) : Procedure Unit :=
  if segment.complete then throw (.sealed segment.sequence)
  else revise i fun a => { a with duration := some duration }

/-- Adds a part to the segment at a place. -/
def addPart (i : Nat) (part : Part) (discontinuity : Bool) : Procedure Unit := do
  revise i fun a => { a with parts := Segment.placeAt a.dataSize part a.parts }
  revise i fun a => { a with dataSize := a.dataSize + part.data.length }
  if discontinuity then revise i fun a => { a with discontinuity := true }

/-- Seals the newest segment if it is still open. -/
def sealNewest : Procedure Unit := do
  let w := (← get).window
  match w.last? with
  | some newest =>
      if newest.complete then return
      else sealAt (w.segments.length - 1) newest newest.partsDuration
  | none => return

def dropOldest (w : Window) : Window :=
  match w.segments with
  | oldest :: rest =>
      { w with
        segments := rest
        discontinuitySequence :=
          if oldest.discontinuity then w.discontinuitySequence + 1 else w.discontinuitySequence }
  | [] => w

/-- Drops the oldest segments one by one while there are more than the window may hold, but not
more than so many. -/
def dropExcess : Nat → Procedure Unit
  | 0 => return
  | most + 1 => do
      let s ← get
      if s.buffer.capacity < s.window.segments.length then
        changeWindow dropOldest
        dropExcess most

/-- Counts the change and tells those who wait about it. -/
def signal (event : Production) : Procedure Unit := do
  changeWindow fun w => { w with version := w.version + 1 }
  modify fun s =>
    let (waiters, effects) := s.waiters.broadcast s.window event
    { s with buffer := { s.buffer with waiters } }.release effects

def noteActivity (now : Int) : Procedure Unit := modify fun s => { s with lastActivity := now }

def accept (number : Numeral) : Procedure Nat := do
  match number.toNat? with
  | none => throw (.invalidSequence number)
  | some sequence =>
      match (← get).window.last? with
      | none => return sequence
      | some newest =>
          if sequence ≠ newest.sequence + 1 then
            throw (.outOfSequence sequence newest.sequence)
          return sequence

/-- All that a put does once the sequence is accepted. -/
def start (sequence : Nat) (new : NewSegment) (now : Int) : Procedure Unit := do
  sealNewest
  changeWindow fun w => { w with segments := w.segments ++ [Segment.start sequence new now] }
  dropExcess (← get).window.segments.length
  signal .put
  noteActivity now

def put (new : NewSegment) (now : Int) : Procedure Unit := do
  ensureRunning
  let sequence ← accept new.number
  start sequence new now

def append (number : Numeral) (part : Part) (discontinuity : Bool) (now : Int) :
    Procedure Unit := do
  ensureRunning
  let s ← get
  let (i, segment) ← check (s.window.locate s.buffer.stream number)
  if segment.complete then throw (.sealed segment.sequence)
  addPart i part discontinuity
  signal .part
  noteActivity now

def close (number : Numeral) (duration : Option Float) (now : Int) : Procedure Unit := do
  ensureRunning
  let s ← get
  let (i, segment) ← check (s.window.locate s.buffer.stream number)
  sealAt i segment (duration.getD segment.partsDuration)
  signal .seal
  noteActivity now

def perform (now : Int) : ProducerCall → Procedure Unit
  | .put new => put new now
  | .append number part discontinuity => append number part discontinuity now
  | .close number duration => close number duration now

/-! ### What the steps come to -/

variable {s : Stream}

theorem run_check {α : Type} (result : Except Fault α) (s : Stream) :
    (check result).run s =
      match result with
      | .ok a => .ok a s
      | .error fault => .error fault s := by
  cases result <;> rfl

theorem run_changeWindow (change : Window → Window) (s : Stream) :
    (changeWindow change).run s = .ok () (s.withWindow (change s.window)) := rfl

theorem modify_eq_set {segments : List Segment} {i : Nat} {a : Segment}
    (here : segments[i]? = some a) (change : Segment → Segment) :
    segments.modify i change = segments.set i (change a) := by
  rw [List.modify_eq_set_getElem?, here]
  rfl

theorem run_revise {i : Nat} {a : Segment} (here : s.window.segments[i]? = some a)
    (change : Segment → Segment) :
    (revise i change).run s =
      .ok () (s.withWindow { s.window with segments := s.window.segments.set i (change a) }) := by
  rw [revise, run_changeWindow, modify_eq_set here]

/-- The newest segment is sealed only if it is open, so its sealing does not fail. -/
theorem run_sealNewest (s : Stream) :
    sealNewest.run s = .ok () (s.withWindow s.window.closeLast) := by
  simp only [sealNewest, EStateM.run_bind, EStateM.run_get]
  rcases List.eq_nil_or_concat' s.window.segments with segments | ⟨before, newest, segments⟩
  · simp only [Window.last?, Window.closeLast, segments, List.getLast?_nil]
    rfl
  · have last : s.window.last? = some newest := by
      rw [Window.last?, segments, List.getLast?_concat]
    cases complete : newest.complete with
    | true =>
        have same : s.window.closeLast = s.window := by
          simp only [Window.closeLast, last, Segment.closeIfOpen, complete, if_true, segments,
            List.dropLast_concat]
          rw [← segments]
        simp only [last, complete, if_true, same]
        rfl
    | false =>
        have here : s.window.segments[s.window.segments.length - 1]? = some newest := by
          rw [← List.getLast?_eq_getElem?]
          exact last
        simp only [last, complete, sealAt, Bool.false_eq_true, if_false, run_revise here,
          Window.closeLast, Segment.closeIfOpen]
        simp [segments]

theorem dropOldest_evict {capacity : Nat} {w : Window} (excess : capacity < w.segments.length) :
    (dropOldest w).evict capacity = w.evict capacity := by
  obtain ⟨segments, count, version⟩ := w
  cases segments with
  | nil => exact absurd excess (Nat.not_lt_zero _)
  | cons oldest rest =>
      have more : (oldest :: rest).length - capacity = (rest.length - capacity) + 1 := by
        rw [List.length_cons] at excess ⊢
        omega
      simp only [dropOldest, Window.evict, more, List.drop_succ_cons, List.take_succ_cons,
        List.countP_cons]
      split <;> simp only [Nat.add_zero, Nat.add_assoc, Nat.add_comm 1]

theorem dropOldest_length (w : Window) :
    (dropOldest w).segments.length = w.segments.length - 1 := by
  obtain ⟨segments, count, version⟩ := w
  cases segments <;> rfl

theorem evict_of_le {capacity : Nat} {w : Window} (few : w.segments.length ≤ capacity) :
    w.evict capacity = w := by
  simp only [Window.evict, Nat.sub_eq_zero_of_le few, List.drop_zero, List.take_zero,
    List.countP_nil, Nat.add_zero]

theorem run_dropExcess (most : Nat) (s : Stream)
    (enough : s.window.segments.length ≤ most + s.buffer.capacity) :
    (dropExcess most).run s = .ok () (s.withWindow (s.window.evict s.buffer.capacity)) := by
  induction most generalizing s with
  | zero =>
      rw [evict_of_le (by omega)]
      rfl
  | succ most ih =>
      simp only [dropExcess, EStateM.run_bind, EStateM.run_get]
      split
      · rename_i excess
        have fewer := dropOldest_length s.window
        have rest := ih (s.withWindow (dropOldest s.window)) (by
          show (dropOldest s.window).segments.length ≤ most + s.buffer.capacity
          omega)
        simp only [EStateM.run_bind, run_changeWindow, rest]
        rw [← dropOldest_evict excess]
        rfl
      · rw [evict_of_le (by omega)]
        rfl

/-! ### The calls -/

/-- What a call comes to when its checks come to `made`. -/
def settled (s : Stream) (now : Int) (event : Production) (made : Except Fault Window) :
    EStateM.Result Fault Stream Unit :=
  match made with
  | .ok w => .ok () (s.produced now w event)
  | .error fault => .error fault s

theorem run_ensureRunning (s : Stream) :
    ensureRunning.run s = if s.stopped then .error (.stopped s.id) s else .ok () s := by
  simp only [ensureRunning, EStateM.run_bind, EStateM.run_get]
  split <;> rfl

theorem run_accept (number : Numeral) (s : Stream) :
    (accept number).run s = (check (s.window.accept number)).run s := by
  unfold accept Window.accept
  cases number.toNat? with
  | none => rfl
  | some sequence =>
      simp only [EStateM.run_bind, EStateM.run_get]
      cases s.window.last? with
      | none => rfl
      | some newest =>
          by_cases next : sequence = newest.sequence + 1
          · simp only [next, ne_eq, not_true_eq_false, if_false, if_true]
            rfl
          · simp only [next, ne_eq, not_false_eq_true, if_true, if_false]
            rfl

theorem run_start (sequence : Nat) (new : NewSegment) (now : Int) (s : Stream)
    (accepted : s.window.accept new.number = .ok sequence) :
    (start sequence new now).run s =
      settled s now .put (s.window.put s.buffer.capacity new now) := by
  simp only [start, EStateM.run_bind, run_sealNewest, run_changeWindow, EStateM.run_get]
  simp only [run_dropExcess _ _ (Nat.le_add_right _ _), Window.put, accepted]
  rfl

theorem run_put (running : s.stopped = false) (new : NewSegment) (now : Int) :
    (put new now).run s = settled s now .put (s.window.put s.buffer.capacity new now) := by
  simp only [put, EStateM.run_bind, run_ensureRunning, running, Bool.false_eq_true, if_false,
    run_accept, run_check]
  cases accepted : s.window.accept new.number with
  | error fault => simp only [Window.put, accepted, Except.map, settled]
  | ok sequence => exact run_start sequence new now s accepted

theorem run_addPart {i : Nat} {a : Segment} (here : s.window.segments[i]? = some a) (part : Part)
    (discontinuity : Bool) :
    (addPart i part discontinuity).run s =
      .ok () (s.withWindow { s.window with
        segments := s.window.segments.set i (a.withPart part discontinuity) }) := by
  rw [← modify_eq_set here fun b => b.withPart part discontinuity]
  have placed (segments : List Segment) : (segments.modify i fun b =>
      { b with parts := Segment.placeAt b.dataSize part b.parts }).modify i (fun b =>
        { b with dataSize := b.dataSize + part.data.length }) =
      segments.modify i fun b => b.withPart part false := by
    rw [List.modify_modify_eq]
    congr 1
    funext b
    simp [Segment.withPart]
  have marked (segments : List Segment) : (segments.modify i fun b => b.withPart part false).modify i
      (fun b => { b with discontinuity := true }) =
      segments.modify i fun b => b.withPart part true := by
    rw [List.modify_modify_eq]
    congr 1
    funext b
    simp [Segment.withPart]
  simp only [addPart, revise, EStateM.run_bind, run_changeWindow, Stream.withWindow, Stream.window,
    placed]
  cases discontinuity with
  | true => simp only [if_true, run_changeWindow, Stream.withWindow, Stream.window, marked]
  | false => rfl

theorem run_append (running : s.stopped = false) (number : Numeral) (part : Part)
    (discontinuity : Bool) (now : Int) :
    (append number part discontinuity now).run s =
      settled s now .part (s.window.append s.buffer.stream number part discontinuity) := by
  simp only [append, EStateM.run_bind, run_ensureRunning, running, Bool.false_eq_true, if_false,
    run_check, EStateM.run_get]
  cases located : s.window.locate s.buffer.stream number with
  | error fault =>
      rw [Window.append, located]
      rfl
  | ok place =>
      obtain ⟨i, a⟩ := place
      have here := (Window.locate_eq_ok located).2
      have made : s.window.append s.buffer.stream number part discontinuity =
          (a.append part discontinuity).map (s.window.setAt i) := by
        rw [Window.append, located]
        rfl
      rw [made, Segment.append]
      dsimp only
      split
      · rfl
      · simp only [EStateM.run_bind, run_addPart here]
        rfl

theorem run_close (running : s.stopped = false) (number : Numeral) (duration : Option Float)
    (now : Int) :
    (close number duration now).run s =
      settled s now .seal (s.window.close s.buffer.stream number duration) := by
  simp only [close, EStateM.run_bind, run_ensureRunning, running, Bool.false_eq_true, if_false,
    run_check, EStateM.run_get]
  cases located : s.window.locate s.buffer.stream number with
  | error fault =>
      rw [Window.close, located]
      rfl
  | ok place =>
      obtain ⟨i, a⟩ := place
      have here := (Window.locate_eq_ok located).2
      have made : s.window.close s.buffer.stream number duration =
          (a.close (duration.getD a.partsDuration)).map (s.window.setAt i) := by
        rw [Window.close, located]
        rfl
      rw [made, Segment.close]
      simp only [sealAt]
      cases a.complete with
      | true => rfl
      | false =>
          simp only [Bool.false_eq_true, if_false, run_revise here]
          rfl

/-- A call carried out step by step comes to what it comes to at once. In particular it leaves the
stream as it is where it fails. -/
theorem run_perform (s : Stream) (now : Int) (call : ProducerCall) :
    (perform now call).run s =
      match s.perform now call with
      | .ok (t, _) => .ok () t
      | .error fault => .error fault s := by
  cases stopped : s.stopped with
  | true =>
      have refused : s.perform now call = .error (.stopped s.id) := by
        rw [Stream.perform_eq, Stream.produce, stopped, if_pos rfl]
      rw [refused]
      cases call <;>
        simp only [perform, put, append, close, EStateM.run_bind, run_ensureRunning, stopped, if_true]
  | false =>
      have made : (perform now call).run s =
          settled s now call.event
            (s.window.perform s.buffer.stream s.buffer.capacity now call) := by
        cases call with
        | put new => exact run_put stopped new now
        | append number part discontinuity => exact run_append stopped number part discontinuity now
        | close number duration => exact run_close stopped number duration now
      obtain ⟨log, same⟩ := s.buffer.perform_eq now call
      have window : s.buffer.window = s.window := rfl
      rw [made, Stream.perform_eq, Stream.produce, if_neg (Bool.eq_false_iff.mp stopped), same, window]
      cases s.window.perform s.buffer.stream s.buffer.capacity now call <;> rfl

end Procedure
end LiveHls
