import LiveHls.WaitTarget
import LiveHls.Proofs.Window.Succession
/-! Waiting for a part. Following a part number through sealed segments comes down to one question
about the segments from its own on: whether the part is among them. -/
namespace LiveHls

/-- Whether the part with a number, counted from the first of the segments, exists. -/
def partExists : List Segment → Int → Bool
  | [], _ => false
  | a :: rest, index =>
      if a.complete && decide ((a.partCount : Int) ≤ index) then partExists rest 0
      else decide (index < a.partCount)

namespace Window

variable {w : Window}

theorem segmentsFrom_succ {s : Int} {a : Segment} {rest : List Segment}
    (here : w.segmentsFrom s = a :: rest) :
    w.segmentsFrom (s + 1) = rest ∧ w.isEvicted (s + 1) = false := by
  cases segments : w.segments with
  | nil => simp [segmentsFrom, place?, first?, segments] at here
  | cons first others =>
      rw [segmentsFrom_of_head segments] at here ⊢
      rw [isEvicted_of_head segments]
      split_ifs at here with before
      have after : ¬ s + 1 < first.sequence := by omega
      have place : (s + 1 - first.sequence).toNat = (s - first.sequence).toNat + 1 := by omega
      refine ⟨?_, decide_eq_false after⟩
      rw [if_neg after, place, List.drop_add_one_eq_tail_drop, here, List.tail_cons]

theorem segmentsFrom_of_evicted {s : Int} (evicted : w.isEvicted s = true) :
    w.segmentsFrom s = [] := by
  cases segments : w.segments with
  | nil =>
      rw [isEvicted_nil segments] at evicted
      cases evicted
  | cons first others =>
      rw [isEvicted_of_head segments] at evicted
      rw [segmentsFrom_of_head segments, if_pos (of_decide_eq_true evicted)]

theorem evaluateSegment_rollOver (segments : List Segment) (s index : Int)
    (here : w.segmentsFrom s = segments) (inside : w.isEvicted s = false) :
    (WaitTarget.evaluateSegment w (rollOver segments s index).1
        fun a => decide ((rollOver segments s index).2 < a.partCount)) =
      .readyIf (partExists segments index) := by
  induction segments generalizing s index with
  | nil =>
      simp only [rollOver, WaitTarget.evaluateSegment, inside, find?, here, partExists]
      rfl
  | cons a rest ih =>
      obtain ⟨next, present⟩ := segmentsFrom_succ here
      unfold rollOver partExists
      split
      · exact ih (s + 1) 0 next present
      · simp only [WaitTarget.evaluateSegment, inside, find?, here]
        rfl

end Window

namespace WaitTarget

variable {w : Window}

theorem evaluate_part_of_evicted {s : Int} (evicted : w.isEvicted s = true) (index : Int)
    (event : Option Production) :
    (WaitTarget.part s index).evaluate w event = .rejected (.evicted (.whole s)) := by
  simp only [evaluate, canonicalPart, Window.segmentsFrom_of_evicted evicted, rollOver,
    evaluateSegment, evicted, if_true]

/-- While its segment has not left the window, a part is waited for until it exists. -/
theorem evaluate_part {s : Int} (inside : w.isEvicted s = false) (index : Int)
    (event : Option Production) :
    (WaitTarget.part s index).evaluate w event =
      .readyIf (partExists (w.segmentsFrom s) index) :=
  Window.evaluateSegment_rollOver _ s index rfl inside

theorem evaluate_part_eq_pending_iff {s index : Int} {event : Option Production} :
    (WaitTarget.part s index).evaluate w event = .pending ↔
      w.isEvicted s = false ∧ partExists (w.segmentsFrom s) index = false := by
  cases evicted : w.isEvicted s with
  | true =>
      rw [evaluate_part_of_evicted evicted]
      simp only [reduceCtorEq, Bool.true_eq_false, false_and]
  | false =>
      rw [evaluate_part evicted]
      cases partExists (w.segmentsFrom s) index with
      | true => simp only [Verdict.readyIf, if_true, reduceCtorEq, Bool.true_eq_false, and_false]
      | false => simp only [Verdict.readyIf, Bool.false_eq_true, if_false, and_self]

theorem evaluate_part_eq_rejected_iff {s index : Int} {event : Option Production} {fault : Fault} :
    (WaitTarget.part s index).evaluate w event = .rejected fault ↔
      w.isEvicted s = true ∧ fault = .evicted (.whole s) := by
  cases evicted : w.isEvicted s with
  | true =>
      rw [evaluate_part_of_evicted evicted]
      simp only [Verdict.rejected.injEq, true_and, eq_comm]
  | false =>
      rw [evaluate_part evicted]
      cases partExists (w.segmentsFrom s) index with
      | true => simp only [Verdict.readyIf, if_true, reduceCtorEq, Bool.false_eq_true, false_and]
      | false => simp only [Verdict.readyIf, Bool.false_eq_true, if_false, reduceCtorEq, false_and]

/-- Past the end of a sealed segment a part has two names, and both are judged alike. -/
theorem evaluate_past_sealed {a : Segment} {s index : Int} (here : w.find? s = some a)
    (complete : a.complete = true) (past : (a.partCount : Int) ≤ index)
    (event : Option Production) :
    (WaitTarget.part s index).evaluate w event = (WaitTarget.part (s + 1) 0).evaluate w event := by
  obtain ⟨rest, split⟩ := List.head?_eq_some_iff.mp here
  obtain ⟨next, inside'⟩ := Window.segmentsFrom_succ split
  have inside : w.isEvicted s = false := by
    cases evicted : w.isEvicted s with
    | true =>
        rw [Window.segmentsFrom_of_evicted evicted] at split
        cases split
    | false => rfl
  rw [evaluate_part inside, evaluate_part inside', split, next, partExists, complete,
    decide_eq_true past]
  rfl

end WaitTarget

theorem partExists_of_lt {a : Segment} {index : Int} (present : index < a.partCount)
    (rest : List Segment) : partExists (a :: rest) index = true := by
  have within : ¬ (a.partCount : Int) ≤ index := by omega
  rw [partExists, decide_eq_false within, Bool.and_false, if_neg Bool.false_ne_true]
  exact decide_eq_true present

theorem partExists_zero {segments : List Segment} (h : Consecutive segments) :
    partExists segments 0 = segments.any fun a => decide (0 < a.partCount) := by
  induction segments with
  | nil => rfl
  | cons a rest ih =>
      rw [partExists, List.any_cons]
      by_cases empty : a.partCount = 0
      · cases complete : a.complete with
        | true =>
            rw [ih h.tail]
            simp [empty]
        | false =>
            have first : Consecutive ([] ++ a :: rest) := h
            have last : rest = [] := first.after_eq_nil complete
            simp [empty, last]
      · simp [empty]
        omega

end LiveHls
