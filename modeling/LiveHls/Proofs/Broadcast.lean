import LiveHls.Waiters
/-! What a broadcast does: each waiter is judged by its own target against the one new window, and
either stays with the key of that window or is released. A target on a segment is judged by whether
the window has dropped the segment, and by the segment if it is there. -/
namespace LiveHls

/-- What a verdict releases a waiter with. While it is pending the waiter stays. -/
def Verdict.outcome? (w : Window) : Verdict → Option WaitOutcome
  | .pending => none
  | .ready => some (.ok w)
  | .rejected fault => some (.error fault)

theorem Verdict.eq_pending_of_outcome? {w : Window} {verdict : Verdict}
    (unsettled : verdict.outcome? w = none) : verdict = .pending := by
  cases verdict with
  | pending => rfl
  | ready => cases unsettled
  | rejected fault => cases unsettled

namespace WaitTarget

variable {w : Window} {n : Int} {holds : Segment → Bool} {fault : Fault}

theorem evaluateSegment_eq_ready_iff : evaluateSegment w n holds = .ready ↔
    w.isEvicted n = false ∧ ∃ a, w.find? n = some a ∧ holds a = true := by
  unfold evaluateSegment Verdict.readyIf
  cases w.isEvicted n with
  | true => simp
  | false => simp [Option.any_eq_true]

theorem evaluateSegment_eq_pending_iff : evaluateSegment w n holds = .pending ↔
    w.isEvicted n = false ∧ ∀ a, w.find? n = some a → holds a = false := by
  unfold evaluateSegment Verdict.readyIf
  cases w.isEvicted n with
  | true => simp
  | false => cases w.find? n <;> simp

theorem evaluateSegment_eq_rejected_iff : evaluateSegment w n holds = .rejected fault ↔
    w.isEvicted n = true ∧ fault = .evicted (.whole n) := by
  unfold evaluateSegment Verdict.readyIf
  cases w.isEvicted n with
  | true => simp [eq_comm]
  | false => cases (w.find? n).any holds <;> simp

end WaitTarget

namespace Waiters

variable {τ : Type}

theorem mem_judge_left (label : String) (w : Window) (event : Production)
    (parked : List (Waiter τ)) (waiter : Waiter τ) :
    waiter ∈ (judge label w event parked).1 ↔
      ∃ old ∈ parked, old.target.evaluate w (some event) = .pending ∧
        waiter = { old with key := old.target.key w } := by
  induction parked with
  | nil => simp [judge]
  | cons first rest ih =>
      unfold judge
      cases verdict : first.target.evaluate w (some event) with
      | pending => simp [verdict, ih]
      | ready => simp [verdict, ih]
      | rejected fault => simp [verdict, ih]

theorem judge_left (label : String) (w : Window) (event : Production) (parked : List (Waiter τ)) :
    (judge label w event parked).1 =
      (parked.filter fun waiter => ((waiter.target.evaluate w (some event)).outcome? w).isNone).map
        fun waiter => { waiter with key := waiter.target.key w } := by
  induction parked with
  | nil => rfl
  | cons first rest ih =>
      unfold judge
      cases verdict : first.target.evaluate w (some event) with
      | pending => simp [verdict, ih, Verdict.outcome?]
      | ready => simp [verdict, ih, Verdict.outcome?]
      | rejected fault => simp [verdict, ih, Verdict.outcome?]

theorem judge_released (label : String) (w : Window) (event : Production)
    (parked : List (Waiter τ)) :
    (judge label w event parked).2.released = parked.filterMap fun waiter =>
      ((waiter.target.evaluate w (some event)).outcome? w).map (waiter.tag, ·) := by
  induction parked with
  | nil => rfl
  | cons first rest ih =>
      unfold judge
      cases verdict : first.target.evaluate w (some event) with
      | pending => simp [verdict, ih, Verdict.outcome?]
      | ready => simp [verdict, ih, Verdict.outcome?]
      | rejected fault => simp [verdict, ih, Verdict.outcome?]

@[simp] theorem broadcast_released (ws : Waiters τ) (w : Window) (event : Production) :
    (ws.broadcast w event).2.released = (judge ws.label w event ws.parked).2.released := rfl

/-- A wait has its outcome at once, that of its target if nothing is closed and the client is there,
or the target is pending and the request is parked. -/
theorem wait_cases (ws : Waiters τ) (tag : τ) (target : WaitTarget) (w : Window)
    (clientLeft : Bool) :
    (∃ outcome, ws.wait tag target w clientLeft = (ws, some outcome, []) ∧
      (ws.closedWith = none → clientLeft = false →
        (target.evaluate w none).outcome? w = some outcome)) ∨
      ws.closedWith = none ∧ clientLeft = false ∧ target.evaluate w none = .pending ∧
        ∃ log, ws.wait tag target w clientLeft =
          ({ ws with parked := ws.parked ++ [⟨tag, target, target.key w⟩] }, none, log) := by
  obtain ⟨label, parked, closedWith⟩ := ws
  cases closedWith with
  | some fault => exact .inl ⟨_, rfl, fun opened => by cases opened⟩
  | none =>
      cases clientLeft with
      | true => exact .inl ⟨_, rfl, fun _ present => by cases present⟩
      | false =>
          unfold wait
          cases verdict : target.evaluate w none with
          | ready => exact .inl ⟨_, rfl, fun _ _ => rfl⟩
          | rejected fault => exact .inl ⟨_, rfl, fun _ _ => rfl⟩
          | pending => exact .inr ⟨rfl, rfl, rfl, _, rfl⟩

end Waiters

end LiveHls
