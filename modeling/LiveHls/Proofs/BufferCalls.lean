import LiveHls.LiveBuffer
import LiveHls.Proofs.Window.Calls
/-! The calls of a producer on a buffer. Whether a call succeeds, and what becomes of the window,
does not depend on who is waiting. -/
namespace LiveHls.LiveBuffer

variable {τ : Type}

theorem capacity?_eq_ok_iff (size : Float) (capacity : Nat) :
    capacity? size = .ok capacity ↔ 1 ≤ capacity ∧ Binary64.integer? size = some (capacity : Int) := by
  unfold capacity?
  cases whole : Binary64.integer? size with
  | none => simp
  | some n =>
      simp only [Option.some.injEq]
      split
      · simp only [Except.ok.injEq]
        omega
      · simp only [reduceCtorEq, false_iff]
        omega

def perform (b : LiveBuffer τ) (now : Int) : ProducerCall → Except Fault (LiveBuffer τ × Effects τ)
  | .put new => b.put new now
  | .append number part discontinuity => (b.append number part discontinuity).map (·.2)
  | .close number duration => b.close number duration

/-- A call makes of the window what it would make of the window alone, and tells the waiters. -/
theorem perform_eq (b : LiveBuffer τ) (now : Int) (call : ProducerCall) :
    ∃ log, b.perform now call =
      (b.window.perform b.stream b.capacity now call).map fun w => b.signal w call.event log := by
  cases call with
  | put new => exact ⟨_, rfl⟩
  | append number part discontinuity =>
      simp only [perform, LiveBuffer.append, Window.perform, Window.append]
      cases b.window.locate b.stream number with
      | error fault => exact ⟨[], rfl⟩
      | ok place =>
          refine ⟨[b.partLog number place.2 part], ?_⟩
          obtain ⟨i, a⟩ := place
          cases added : a.append part discontinuity <;> simp only [bind, Except.bind, added] <;> rfl
  | close number duration =>
      simp only [perform, LiveBuffer.close, Window.perform, Window.close]
      cases b.window.locate b.stream number with
      | error fault => exact ⟨[], rfl⟩
      | ok place =>
          obtain ⟨i, a⟩ := place
          refine ⟨[b.sealLog number a (duration.getD a.partsDuration)], ?_⟩
          cases closed : a.close (duration.getD a.partsDuration) <;>
            simp only [bind, Except.bind, closed] <;> rfl

theorem perform_ok {b c : LiveBuffer τ} {now : Int} {call : ProducerCall} {effects : Effects τ}
    (ok : b.perform now call = .ok (c, effects)) :
    ∃ w log, b.window.perform b.stream b.capacity now call = .ok w ∧
      c = (b.signal w call.event log).1 ∧ effects = (b.signal w call.event log).2 := by
  obtain ⟨log, same⟩ := b.perform_eq now call
  rw [same] at ok
  cases done : b.window.perform b.stream b.capacity now call with
  | error fault =>
      rw [done] at ok
      cases ok
  | ok w =>
      rw [done] at ok
      have result := Except.ok.inj ok
      exact ⟨w, log, rfl, congrArg Prod.fst result.symm, congrArg Prod.snd result.symm⟩

/-- The buffer after a call. A call that fails changes nothing. -/
def step (b : LiveBuffer τ) (call : Int × ProducerCall) : LiveBuffer τ :=
  match b.perform call.1 call.2 with
  | .ok (next, _) => next
  | .error _ => b

/-- The buffer after calls, each at its time. -/
def run (b : LiveBuffer τ) (calls : List (Int × ProducerCall)) : LiveBuffer τ := calls.foldl step b

theorem run_append (b : LiveBuffer τ) (calls more : List (Int × ProducerCall)) :
    b.run (calls ++ more) = (b.run calls).run more := List.foldl_append

/-- A part that its segment takes is appended where the data of that segment end. -/
theorem append_of_located {b : LiveBuffer τ} {number : Numeral} {part : Part} {discontinuity : Bool}
    {i : Nat} {a c : Segment} (located : b.window.locate b.stream number = .ok (i, a))
    (added : a.append part discontinuity = .ok c) :
    ∃ next effects, b.append number part discontinuity = .ok (a.dataSize, next, effects) ∧
      next.window = b.window.setAt i c := by
  have made : b.window.append b.stream number part discontinuity = .ok (b.window.setAt i c) := by
    simp only [Window.append, located, bind, Except.bind, added]
    rfl
  let signalled := b.signal (b.window.setAt i c) .part [b.partLog number a part]
  refine ⟨signalled.1, signalled.2, ?_, rfl⟩
  simp only [LiveBuffer.append, located, bind, Except.bind, made]
  rfl

end LiveHls.LiveBuffer
