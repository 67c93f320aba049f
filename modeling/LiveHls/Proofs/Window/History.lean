import LiveHls.Proofs.BufferCalls
/-! The window as the end of an unbounded history. The history keeps every segment that was ever
started, as its own calls have left it; the window always shows the last segments of it, and its
discontinuity sequence counts the discontinuities among the others. -/
namespace LiveHls

/-- All segments that were ever started, in order. -/
structure History where
  segments : List Segment
  /-- How many calls have succeeded. -/
  calls : Nat

namespace History

def empty : History := ⟨[], 0⟩

/-- Makes a call on the segments whose sequence is named. -/
def revise (number : Numeral) (call : Segment → Except Fault Segment)
    (segments : List Segment) : List Segment :=
  segments.map fun a => if number.toInt? = some (a.sequence : Int) then a.after call else a

/-- Enters a call that has succeeded. -/
def record (h : History) (now : Int) : ProducerCall → History
  | .put new =>
      match new.number.toNat? with
      | some sequence =>
          ⟨Segment.started h.segments (.start sequence new now), h.calls + 1⟩
      | none => h
  | .append number part discontinuity =>
      ⟨revise number (·.append part discontinuity) h.segments, h.calls + 1⟩
  | .close number duration =>
      ⟨revise number (fun a => a.close (duration.getD a.sumOfParts)) h.segments, h.calls + 1⟩

theorem revise_of_ne {segments : List Segment} {sequence : Nat} {number : Numeral}
    {call : Segment → Except Fault Segment} (named : number.toInt? = some (sequence : Int))
    (distinct : ∀ a ∈ segments, a.sequence ≠ sequence) :
    revise number call segments = segments := by
  rw [revise, List.map_congr_left (g := id), List.map_id]
  intro a member
  refine if_neg ?_
  rw [named, Option.some.injEq, Int.natCast_inj]
  exact (distinct a member).symm

/-- A call on a segment touches no other segment of the history. -/
theorem revise_split {before after : List Segment} {a b : Segment} {number : Numeral}
    {call : Segment → Except Fault Segment} (h : Consecutive (before ++ a :: after))
    (named : number.toInt? = some (a.sequence : Int)) (made : call a = .ok b) :
    revise number call (before ++ a :: after) = before ++ b :: after := by
  obtain ⟨-, later, earlier⟩ := List.pairwise_append.mp h.sorted
  have hb : revise number call before = before :=
    revise_of_ne named fun c member => Nat.ne_of_lt (earlier c member a List.mem_cons_self)
  have ha : revise number call after = after :=
    revise_of_ne named fun c member => Nat.ne_of_gt (List.rel_of_pairwise_cons later member)
  have here : a.after call = b := by simp only [Segment.after, made]
  rw [revise] at hb ha ⊢
  rw [List.map_append, List.map_cons, hb, ha, if_pos named, here]

end History

/-- The window shows the last segments of the history; the others have been dropped. -/
structure Window.IsEndOf (capacity : Nat) (w : Window) (h : History) : Prop where
  consecutive : Consecutive h.segments
  split : ∃ dropped, h.segments = dropped ++ w.segments ∧
    w.discontinuitySequence = dropped.countP (·.discontinuity)
  length : w.segments.length = min capacity h.segments.length
  version : w.version = h.calls

namespace Window

theorem IsEndOf.empty (capacity : Nat) : IsEndOf capacity .empty .empty :=
  ⟨.nil, ⟨[], rfl, rfl⟩, (Nat.min_zero _).symm, rfl⟩

section

variable {w v : Window} {capacity : Nat} {h : History}

theorem IsEndOf.history_empty (positive : 1 ≤ capacity) (inv : w.IsEndOf capacity h)
    (empty : w.segments = []) : h.segments = [] := by
  have length := inv.length
  rw [empty, List.length_nil] at length
  exact List.eq_nil_of_length_eq_zero (by omega)

theorem IsEndOf.getLast?_eq (positive : 1 ≤ capacity) (inv : w.IsEndOf capacity h) :
    h.segments.getLast? = w.segments.getLast? := by
  obtain ⟨dropped, split, -⟩ := inv.split
  by_cases empty : w.segments = []
  · rw [empty, inv.history_empty positive empty]
  · rw [split, List.getLast?_append_of_ne_nil _ empty]

theorem IsEndOf.started {dropped : List Segment} (positive : 1 ≤ capacity)
    (inv : w.IsEndOf capacity h) (split : h.segments = dropped ++ w.segments) (new : Segment) :
    Segment.started h.segments new = dropped ++ Segment.started w.segments new := by
  by_cases empty : w.segments = []
  · rw [inv.history_empty positive empty, empty, List.append_nil] at split
    rw [inv.history_empty positive empty, empty, ← split, List.nil_append]
  · rw [split, Segment.started_append dropped new empty]

theorem IsEndOf.put {new : NewSegment} {now : Int} (positive : 1 ≤ capacity)
    (inv : w.IsEndOf capacity h) (ok : w.put capacity new now = .ok v) :
    v.IsEndOf capacity (h.record now (.put new)) := by
  obtain ⟨sequence, whole, next, rfl⟩ := put_eq_ok ok
  obtain ⟨dropped, split, count⟩ := inv.split
  rw [← inv.getLast?_eq positive] at next
  have consecutive := inv.consecutive.started (.start sequence new now) next
  have length := inv.length
  have total := congrArg List.length split
  have size := Segment.started_length w.segments (.start sequence new now)
  simp only [History.record, whole]
  rw [inv.started positive split] at consecutive ⊢
  rw [List.length_append] at total
  generalize Segment.started w.segments (.start sequence new now) = segments at *
  refine ⟨consecutive, ⟨dropped ++ segments.take (segments.length - capacity), ?_, ?_⟩, ?_, ?_⟩
  · simp only [evict, List.append_assoc, List.take_append_drop]
  · simp only [evict, count, List.countP_append]
  · simp only [evict, List.length_drop, List.length_append]
    omega
  · simp only [inv.version]

theorem IsEndOf.revise {stream : String} {number : Numeral}
    {call : Segment → Except Fault Segment} (grows : ∀ a b, call a = .ok b → a.Grows b)
    (inv : w.IsEndOf capacity h) (ok : w.revise stream number call = .ok v) :
    v.IsEndOf capacity ⟨History.revise number call h.segments, h.calls + 1⟩ := by
  obtain ⟨dropped, split, count⟩ := inv.split
  have consecutive := inv.consecutive
  have length := inv.length
  obtain ⟨before, a, b, after, segments, named, made, rfl⟩ :=
    revise_eq_ok (split ▸ consecutive).right ok
  rw [segments, ← List.append_assoc] at split
  rw [split] at consecutive
  have revised := History.revise_split consecutive named made
  rw [← split] at revised
  refine ⟨?_, ⟨dropped, ?_, count⟩, ?_, ?_⟩
  · rw [revised]
    exact consecutive.replace (grows a b made)
  · rw [revised, List.append_assoc]
  · rw [revised]
    simp only [split, segments, List.length_append, List.length_cons] at length ⊢
    exact length
  · simp only [inv.version]

theorem IsEndOf.perform {stream : String} {now : Int} {call : ProducerCall}
    (positive : 1 ≤ capacity) (inv : w.IsEndOf capacity h)
    (ok : w.perform stream capacity now call = .ok v) :
    v.IsEndOf capacity (h.record now call) := by
  cases call with
  | put new => exact inv.put positive ok
  | append number part discontinuity =>
      exact inv.revise (fun a b made => (Segment.append_grows made).2) ok
  | close number duration =>
      rw [Window.perform, close_eq_revise] at ok
      simp only [Segment.partsDuration_eq] at ok
      exact inv.revise (fun a b made => (Segment.close_grows made).2) ok

end

end Window

namespace LiveBuffer

variable {τ : Type}

/-- Makes calls one after the other, each at its time, and keeps the history of the segments. A
call that fails changes nothing. -/
def chronicle (b : LiveBuffer τ) (h : History) :
    List (Int × ProducerCall) → LiveBuffer τ × History
  | [] => (b, h)
  | (now, call) :: rest =>
      match b.perform now call with
      | .ok (next, _) => next.chronicle (h.record now call) rest
      | .error _ => b.chronicle h rest

theorem chronicle_isEndOf (b : LiveBuffer τ) (h : History) (calls : List (Int × ProducerCall))
    (positive : 1 ≤ b.capacity) (inv : b.window.IsEndOf b.capacity h) :
    (b.chronicle h calls).1.window.IsEndOf b.capacity (b.chronicle h calls).2 := by
  induction calls generalizing b h with
  | nil => exact inv
  | cons first rest ih =>
      obtain ⟨now, call⟩ := first
      unfold chronicle
      cases done : b.perform now call with
      | error fault => exact ih b h positive inv
      | ok result =>
          obtain ⟨next, effects⟩ := result
          obtain ⟨w, log, made, rfl, -⟩ := perform_ok done
          exact ih (b.signal w call.event log).1 _ positive (inv.perform positive made)

/-- The rolling window refines the unbounded history: it shows exactly the newest segments, as
many as it may hold, counts what has been dropped, and finds each segment by its sequence. -/
theorem window_refines_history (stream : String) (capacity : Nat) (positive : 1 ≤ capacity)
    (waiters : Waiters τ) (calls : List (Int × ProducerCall)) :
    let run := (LiveBuffer.mk stream capacity .empty waiters).chronicle .empty calls
    let w := run.1.window
    let h := run.2
    (∃ dropped, h.segments = dropped ++ w.segments ∧
      w.segments.length = min capacity h.segments.length ∧
      w.discontinuitySequence = dropped.countP (·.discontinuity)) ∧
    w.version = h.calls ∧
    Consecutive w.segments ∧
    (∀ (s : Int) (a : Segment), w.find? s = some a ↔ a ∈ w.segments ∧ (a.sequence : Int) = s) ∧
    ∀ (number : Numeral) (a : Segment),
      w.named? number = some a ↔ a ∈ w.segments ∧ number.toInt? = some (a.sequence : Int) := by
  intro run w h
  have inv : w.IsEndOf capacity h :=
    chronicle_isEndOf (LiveBuffer.mk stream capacity .empty waiters) .empty calls positive
      (Window.IsEndOf.empty capacity)
  obtain ⟨dropped, split, count⟩ := inv.split
  have consecutive : Consecutive w.segments := (split ▸ inv.consecutive).right
  exact ⟨⟨dropped, split, inv.length, count⟩, inv.version, consecutive,
    Window.find?_eq_some_iff consecutive, Window.named?_eq_some_iff consecutive⟩

/-- A window of two segments after three have been started, the first with a discontinuity. -/
theorem window_refines_history_of_three :
    1 ≤ 2 ∧
    let run := (LiveBuffer.mk "live" 2 .empty (.start "live") : LiveBuffer Unit).chronicle .empty
      [(0, .put ⟨.whole 7, [], none, false⟩), (1, .append (.whole 7) ⟨1.0, true, [1, 2]⟩ true),
        (2, .put ⟨.whole 8, [], none, false⟩), (3, .append (.whole 7) ⟨1.0, true, [3]⟩ false),
        (4, .close (.whole 8) (some 0.0)), (5, .put ⟨.whole 9, [], none, false⟩)]
    run.2.segments.map (·.sequence) = [7, 8, 9] ∧ run.1.window.version = 5 ∧
    run.1.window.discontinuitySequence = 1 ∧
    ∃ dropped, run.2.segments = dropped ++ run.1.window.segments ∧
      run.1.window.segments.length = min 2 run.2.segments.length ∧
      run.1.window.discontinuitySequence = dropped.countP (·.discontinuity) :=
  ⟨by decide, by rfl, by rfl, by rfl,
    (window_refines_history "live" 2 (by decide) (.start "live") _).1⟩

end LiveBuffer

end LiveHls
