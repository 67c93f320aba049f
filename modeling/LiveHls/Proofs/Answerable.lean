import LiveHls.Origin.Delivery
import LiveHls.Origin.Ingest
import LiveHls.Proofs.Stream.Run
/-! Failures that a client is told about. Whatever goes wrong with the parameters of a call, or with
what a call asks of a stream, has a status code; it is an error of the client and not of the server. -/
namespace LiveHls

/-- If the computation fails, its fault has a status code. -/
def Answerable {α : Type} (x : Except Fault α) : Prop :=
  ∀ fault, x = .error fault → fault.status?.isSome = true

namespace Answerable

variable {α β : Type}

theorem ok (a : α) : Answerable (.ok a) := fun _ failed => by cases failed

theorem error {fault : Fault} (coded : fault.status?.isSome = true) :
    Answerable (.error fault : Except Fault α) := fun _ failed => by
  cases failed
  exact coded

theorem bind {x : Except Fault α} {f : α → Except Fault β} (first : Answerable x)
    (next : ∀ a, x = .ok a → Answerable (f a)) : Answerable (x >>= f) := by
  cases x with
  | error fault => exact .error (first fault rfl)
  | ok a => exact next a rfl

theorem map {x : Except Fault α} (first : Answerable x) (f : α → β) : Answerable (x.map f) := by
  cases x with
  | error fault => exact .error (first fault rfl)
  | ok a => exact .ok (f a)

theorem ite {x y : Except Fault α} (c : Prop) [Decidable c] (one : Answerable x)
    (other : Answerable y) : Answerable (if c then x else y) := by
  split
  · exact one
  · exact other

end Answerable

/-! ### Parameters -/

namespace Http.Param

theorem integer_answerable (name : String) (p : Param) : Answerable (p.integer name) := by
  unfold integer
  split
  · exact .ok none
  · exact .error rfl
  · refine .ite _ (.error rfl) ?_
    split
    · exact .ok _
    · exact .error rfl

theorem duration_answerable (name : String) (p : Param) : Answerable (p.duration name) := by
  unfold duration
  split
  · exact .ok none
  · exact .error rfl
  · exact .ite _ (.ok _) (.error rfl)

theorem required_answerable {α : Type} (name : String) {x : Except Fault (Option α)}
    (given : Answerable x) : Answerable (required name x) := by
  unfold required
  split
  · exact .ok _
  · exact .error rfl
  · exact .error (given _ rfl)

end Http.Param

theorem Call.readSequence_answerable (call : Call) : Answerable call.readSequence :=
  Http.Param.required_answerable _ (Http.Param.integer_answerable _ _)

namespace Origin

theorem readTime_answerable (name : String) (p : Http.Param) : Answerable (readTime name p) := by
  unfold readTime
  split
  · exact .ok none
  · exact .error rfl
  · split
    · exact .error rfl
    · exact .ok _

/-- A start time that is given is a valid time. -/
theorem readTime_ne_invalid {name : String} {p : Http.Param} {time : Option Timestamp}
    (read : readTime name p = .ok time) : time ≠ some .invalid := by
  unfold readTime at read
  split at read
  · cases read
    exact nofun
  · cases read
  · split at read
    · cases read
    · rename_i valid
      cases read
      intro same
      exact valid (Option.some.inj same)

theorem readNewSegment_answerable (call : Call) (init : Bytes) :
    Answerable (readNewSegment call init) :=
  .bind call.readSequence_answerable fun _ _ => .bind (readTime_answerable _ _) fun _ _ => .ok _

theorem readPart_answerable (call : Call) (data : Bytes) : Answerable (readPart call data) :=
  .bind call.readSequence_answerable fun _ _ =>
    .bind (Http.Param.required_answerable _ (Http.Param.duration_answerable _ _)) fun _ _ => .ok _

theorem readSeal_answerable (call : Call) : Answerable (readSeal call) :=
  .bind call.readSequence_answerable fun _ _ =>
    .bind (Http.Param.duration_answerable _ _) fun _ _ => .ok _

theorem readDirectives_answerable (call : Call) : Answerable (readDirectives call) :=
  .bind (Http.Param.integer_answerable _ _) fun _ _ =>
    .bind (Http.Param.integer_answerable _ _) fun _ _ => .ok _

end Origin

/-! ### Calls of the producer -/

/-- If a start time is given with the call, it is a valid time. -/
def ProducerCall.Dated : ProducerCall → Prop
  | .put new => new.startTime ≠ some .invalid
  | .append .. | .close .. => True

/-- No duration that is given with the call is negative. -/
def ProducerCall.Measured : ProducerCall → Prop
  | .put _ => True
  | .append _ part _ => 0.0 ≤ part.duration
  | .close _ duration => ∀ seconds ∈ duration, 0.0 ≤ seconds

/-- What is given with the call makes sense as a time or as a duration. -/
structure ProducerCall.Sound (call : ProducerCall) : Prop where
  dated : call.Dated
  measured : call.Measured

namespace Segment

theorem append_answerable (a : Segment) (part : Part) (discontinuity : Bool) :
    Answerable (a.append part discontinuity) := .ite _ (.error rfl) (.ok _)

theorem close_answerable (a : Segment) (duration : Float) : Answerable (a.close duration) :=
  .ite _ (.error rfl) (.ok _)

end Segment

namespace Window

theorem accept_answerable (w : Window) (number : Numeral) : Answerable (w.accept number) := by
  unfold accept
  split
  · exact .error rfl
  · split
    · exact .ite _ (.ok _) (.error rfl)
    · exact .ok _

theorem locate_answerable (w : Window) (stream : String) (number : Numeral) :
    Answerable (w.locate stream number) := by
  unfold locate
  split
  · split
    · exact .ok _
    · exact .error rfl
  · exact .error rfl

theorem revise_answerable (w : Window) (stream : String) (number : Numeral)
    {f : Segment → Except Fault Segment} (each : ∀ a, Answerable (f a)) :
    Answerable (w.revise stream number f) :=
  .bind (w.locate_answerable stream number) fun place _ => .bind (each place.2) fun _ _ => .ok _

theorem perform_answerable (w : Window) (stream : String) (capacity : Nat) (now : Int)
    (call : ProducerCall) : Answerable (w.perform stream capacity now call) := by
  cases call with
  | put new => exact .map (w.accept_answerable _) _
  | append number part discontinuity =>
      exact w.revise_answerable stream number fun a => a.append_answerable part discontinuity
  | close number duration =>
      rw [perform, close_eq_revise]
      exact w.revise_answerable stream number fun a => a.close_answerable _

end Window

theorem Stream.perform_answerable (s : Stream) (now : Int) (call : ProducerCall) :
    Answerable (s.perform now call) := by
  obtain ⟨log, same⟩ := s.buffer.perform_eq now call
  rw [perform_eq, produce, same]
  exact .ite _ (.error rfl) (.map (.map (s.buffer.window.perform_answerable _ _ now call) _) _)

end LiveHls
