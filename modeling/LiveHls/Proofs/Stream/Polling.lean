import LiveHls.Proofs.PlaylistPlan
import LiveHls.Proofs.Stream.Content
import LiveHls.Proofs.Stream.Wakeup
/-! Waiting is as good as asking again. A playlist request that waits is judged, against every
later window, as the same request would be if it were made then. -/
namespace LiveHls.Stream

variable {s : Stream} {request : Nat} {what : PlaylistRequest}

/-- What is parked for a playlist request is the target that was planned for it. -/
theorem plan_of_parked {waiter : Waiter Ticket}
    (parked : (s.step (.playlist request what)).waiters.parked = s.waiters.parked ++ [waiter]) :
    what.plan s.window s.settings.partLimit = .wait waiter.target := by
  have grown : ∀ turn, (s.enqueue turn).waiters.parked ≠ s.waiters.parked ++ [waiter] := by
    intro turn same
    have length := congrArg List.length same
    simp [enqueue, waiters] at length
  rw [step, playlist] at parked
  split at parked
  · exact absurd parked (grown _)
  · cases planned : what.plan s.window s.settings.partLimit with
    | refuse fault =>
        simp only [planned] at parked
        exact absurd parked (grown _)
    | serve =>
        simp only [planned] at parked
        exact absurd parked (grown _)
    | wait target =>
        simp only [planned] at parked
        rcases s.waitFor_cases ⟨request, .playlist what.isBlocking⟩ target with
          ⟨outcome, same, -⟩ | ⟨parkable, same⟩
        · rw [same] at parked
          exact absurd parked (grown _)
        · rw [same] at parked
          have added := List.append_cancel_left parked
          rw [← List.head_eq_of_cons_eq added]

/-- What becomes of a request that is made now and gets this verdict: it is parked if that is open,
and goes on with its outcome if not. -/
def Follows (s : Stream) (request : Nat) (what : PlaylistRequest) (verdict : Verdict) : Prop :=
  match verdict.outcome? s.window with
  | none => ∃ target, (s.playlist request what).1 =
      s.park ⟨request, .playlist what.isBlocking⟩ target
  | some outcome =>
      (s.playlist request what).1 = s.enqueue
          (.relay request 0 (outcome.bind fun w => s.renderFor w what.isBlocking)) ∨
        (s.playlist request what).1 =
          s.enqueue (.resume ⟨request, .playlist what.isBlocking⟩ outcome)

theorem follows_polled (h : s.Regular) (running : s.stopped = false)
    (present : s.left.contains request = false) :
    s.Follows request what (what.polled s.window s.settings.partLimit) := by
  have opened : s.waiters.closedWith = none := by
    rw [h.closedWith, running]
    rfl
  rw [Follows, playlist, if_neg (Bool.eq_false_iff.mp running), PlaylistRequest.polled]
  cases what.plan s.window s.settings.partLimit with
  | refuse fault => exact .inl rfl
  | serve => exact .inl rfl
  | wait target =>
      simp only
      rcases s.waitFor_cases ⟨request, .playlist what.isBlocking⟩ target with
        ⟨outcome, same, judged⟩ | ⟨parkable, same⟩
      · rw [judged opened present]
        exact .inr same
      · rw [parkable.pending]
        exact ⟨target, same⟩

/-- A request that waits is judged, against each later window, as the same request would be judged
if it were made then, and that verdict is what such a request then follows. It is never turned away but
for a segment that has left the window, so the limit that it kept to when it came is never held against
it. -/
theorem waiting_is_polling {id : String} {settings : Settings} {size : Float} {now : Int}
    {start : Stream} (created : Stream.create id settings size now = .ok start)
    (before : List Event) {request : Nat} {what : PlaylistRequest} {waiter : Waiter Ticket}
    (directed : what.part.isSome = true ∨ what.sequence = none)
    (parked : ((start.run before).step (.playlist request what)).waiters.parked =
      (start.run before).waiters.parked ++ [waiter])
    (later : List Event) (event : Option Production) :
    let s := start.run (before ++ .playlist request what :: later)
    waiter.target.evaluate s.window event = what.polled s.window s.settings.partLimit ∧
    (∀ fault, what.polled s.window s.settings.partLimit = .rejected fault →
      ∃ n, what.sequence = some n ∧ s.window.isEvicted n = true ∧ fault = .evicted (.whole n)) ∧
    ∀ other, s.stopped = false → s.left.contains other = false →
      s.Follows other what (what.polled s.window s.settings.partLimit) := by
  intro s
  have consistent := run_consistent (create_consistent created) before
  have held := plan_of_parked parked
  have reached : s = (start.run before).run (.playlist request what :: later) := run_append ..
  have precedes := run_precedes consistent (.playlist request what :: later)
  have after := (run_consistent consistent (.playlist request what :: later)).wellFormed.consecutive
  have limit := run_settings (start.run before) (.playlist request what :: later)
  rw [← reached] at precedes after limit
  have same := PlaylistRequest.evaluate_eq_polled consistent.wellFormed.consecutive after precedes
    directed held event
  have regular : s.Regular :=
    run_regular (create_regular created) (before ++ .playlist request what :: later)
  refine ⟨?_, ?_, fun other running present => follows_polled regular running present⟩
  · rw [limit]
    exact same
  · intro fault rejected
    rw [limit] at rejected
    exact PlaylistRequest.evicted_of_evaluate consistent.wellFormed.consecutive directed held
      (same.trans rejected)

/-- In a window of one segment the next put turns away who waits for the next part of the last. -/
theorem waiting_is_polling_of_one :
    let s := (plain 1).run [.call (.put ⟨.whole 0, [], none, false⟩) 1,
      .playlist 0 ⟨some 0, some 1⟩, .call (.put ⟨.whole 1, [], none, false⟩) 2]
    Stream.create "live" plainSettings 1.0 0 = .ok (plain 1) ∧
    (WaitTarget.part 0 1).evaluate s.window (some .put) = .rejected (.evicted (.whole 0)) ∧
    (PlaylistRequest.mk (some 0) (some 1)).polled s.window s.settings.partLimit =
      .rejected (.evicted (.whole 0)) := by
  have created := @create_plain 1.0 1 (by decide) (by decide)
  have agrees := (@waiting_is_polling _ _ _ _ _ created [.call (.put ⟨.whole 0, [], none, false⟩) 1]
    0 ⟨some 0, some 1⟩ ⟨⟨0, .playlist true⟩, .part 0 1, "part:0.1"⟩ (.inl rfl) rfl
    [.call (.put ⟨.whole 1, [], none, false⟩) 2] (some .put)).1
  exact ⟨created, rfl, agrees.symm⟩

end LiveHls.Stream
