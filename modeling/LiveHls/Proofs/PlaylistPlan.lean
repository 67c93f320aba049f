import LiveHls.PlaylistRequest
import LiveHls.Proofs.PartTarget
/-! Plans for playlist requests, and how they change with the window. A request for a part that
one window admits is admitted by every later one, and its plan then says what its target says. -/
namespace LiveHls

theorem PartLimit.refuses_mono (limit : PartLimit) {base later part : Int} (le : base ≤ later)
    (refused : limit.refuses later part = true) : limit.refuses base part = true := by
  cases limit with
  | count n =>
      have reach := of_decide_eq_true refused
      exact decide_eq_true (by omega)
  | unlimited => exact refused
  | refuseAll => rfl

namespace Window

variable {w v : Window}

/-- The index of the newest part of a segment, or -1 if there is none yet. -/
def newestPart (w : Window) (sequence : Int) : Int :=
  match w.find? sequence with
  | some a => a.partCount - 1
  | none => -1

theorem newestPart_of_find? {s : Int} {a : Segment} (found : w.find? s = some a) :
    w.newestPart s = a.partCount - 1 := by
  rw [newestPart, found]

theorem Precedes.newestPart_le {s : Int} (precedes : w.Precedes v)
    (inside : v.isEvicted s = false) : w.newestPart s ≤ v.newestPart s := by
  cases old : w.find? s with
  | none =>
      rw [newestPart, old, newestPart]
      cases v.find? s with
      | none => exact Int.le_refl _
      | some b =>
          simp only
          omega
  | some a =>
      rcases precedes.kept s a old with gone | ⟨b, new, grows⟩
      · exact absurd (inside.symm.trans gone) Bool.false_ne_true
      · rw [newestPart_of_find? old, newestPart_of_find? new]
        have more := grows.partCount
        omega

theorem neg_one_le_lastSequence (w : Window) : -1 ≤ w.lastSequence := by
  unfold lastSequence
  split
  · omega
  · exact Int.le_refl _

theorem lt_lastSequence_of_evicted (h : Consecutive w.segments) {s : Int}
    (evicted : w.isEvicted s = true) : s < w.lastSequence := by
  cases segments : w.segments with
  | nil =>
      rw [isEvicted_nil segments] at evicted
      cases evicted
  | cons first rest =>
      rw [isEvicted_of_head segments] at evicted
      have before := of_decide_eq_true evicted
      have newest := le_lastSequence h (segments ▸ List.mem_cons_self)
      omega

theorem next_not_evicted (h : Consecutive w.segments) :
    w.isEvicted (w.lastSequence + 1) = false := by
  apply Bool.eq_false_iff.mpr
  intro evicted
  have before := lt_lastSequence_of_evicted h evicted
  omega

/-- The window can answer for a part: its segment is or was there or comes next, and the part is
not too far behind the live edge. -/
structure Admits (w : Window) (limit : PartLimit) (sequence part : Int) : Prop where
  known : w.isEvicted sequence = true ∨ (∃ a, w.find? sequence = some a) ∨
    sequence = w.lastSequence + 1
  reach : w.lastSequence ≤ sequence → limit.refuses (w.newestPart sequence) part = false

/-- No later window shuts out what an earlier one admits. -/
theorem Admits.mono {limit : PartLimit} {sequence part : Int} (h : Consecutive v.segments)
    (precedes : w.Precedes v) (admits : w.Admits limit sequence part) :
    v.Admits limit sequence part := by
  have forward := precedes.lastSequence
  constructor
  · rcases admits.known with gone | ⟨a, found⟩ | next
    · exact .inl (precedes.evicted sequence gone)
    · rcases precedes.kept sequence a found with gone | ⟨b, found, -⟩
      · exact .inl gone
      · exact .inr (.inl ⟨b, found⟩)
    · rcases evicted_or_found_or_ahead h sequence with gone | found | empty | ahead
      · exact .inl gone
      · exact .inr (.inl found)
      · have least := w.neg_one_le_lastSequence
        rw [lastSequence_nil empty] at forward ⊢
        exact .inr (.inr (by omega))
      · exact .inr (.inr (by omega))
  · intro edge
    have inside : v.isEvicted sequence = false := by
      apply Bool.eq_false_iff.mpr
      intro evicted
      have before := lt_lastSequence_of_evicted h evicted
      omega
    apply Bool.eq_false_iff.mpr
    intro refused
    have before := limit.refuses_mono (precedes.newestPart_le inside) refused
    rw [admits.reach (by omega)] at before
    cases before

end Window

namespace PlaylistRequest

variable {w v : Window} {limit : PartLimit}

theorem plan_of_evicted (h : Consecutive w.segments) {s : Int} (evicted : w.isEvicted s = true)
    (part : Option Int) :
    (PlaylistRequest.mk (some s) part).plan w limit = .refuse (.evicted (.whole s)) := by
  have before := Window.lt_lastSequence_of_evicted h evicted
  simp only [plan, evicted, if_true]
  rw [if_neg (by omega)]

theorem plan_of_find? (h : Consecutive w.segments) {s : Int} {a : Segment}
    (found : w.find? s = some a) (part : Option Int) :
    (PlaylistRequest.mk (some s) part).plan w limit =
      planPresent a s w.lastSequence part limit := by
  obtain ⟨member, rfl⟩ := (Window.find?_eq_some_iff h s a).mp found
  have inside := Window.not_evicted_of_mem h member
  have newest := Window.le_lastSequence h member
  simp only [plan, inside, found, Bool.false_eq_true, if_false]
  rw [if_neg (by omega), if_neg (by omega)]

theorem plan_next (h : Consecutive w.segments) (part : Option Int) :
    (PlaylistRequest.mk (some (w.lastSequence + 1)) part).plan w limit =
      planNext (w.lastSequence + 1) part limit := by
  simp only [plan, Window.next_not_evicted h, Int.lt_irrefl, Bool.false_eq_true, if_false, if_true]

theorem find?_next (h : Consecutive w.segments) : w.find? (w.lastSequence + 1) = none := by
  apply Option.eq_none_iff_forall_ne_some.mpr
  intro a found
  obtain ⟨member, named⟩ := (Window.find?_eq_some_iff h _ a).mp found
  have newest := Window.le_lastSequence h member
  omega

/-- What a request gets if it is made now: the plan for it, and if the plan is to wait, what its
target says. -/
def polled (request : PlaylistRequest) (w : Window) (limit : PartLimit) : Verdict :=
  match request.plan w limit with
  | .refuse fault => .rejected fault
  | .serve => .ready
  | .wait target => target.evaluate w none

theorem admits_of_plan (h : Consecutive w.segments) {s part : Int} {target : WaitTarget}
    (held : (PlaylistRequest.mk (some s) (some part)).plan w limit = .wait target) :
    w.Admits limit s part ∧ target = .part s part := by
  cases found : w.find? s with
  | some a =>
      obtain ⟨member, rfl⟩ := (Window.find?_eq_some_iff h s a).mp found
      rw [plan_of_find? h found, planPresent] at held
      split_ifs at held with beyond served
      cases held
      refine ⟨⟨.inr (.inl ⟨a, found⟩), ?_⟩, rfl⟩
      intro edge
      have newest := Window.le_lastSequence h member
      have last : (a.sequence : Int) = w.lastSequence := by omega
      rw [Window.newestPart_of_find? found]
      simpa [last] using beyond
  | none =>
      unfold plan at held
      simp only [found] at held
      split_ifs at held with beyond gone next
      subst next
      rw [planNext] at held
      split_ifs at held with beyond
      cases held
      refine ⟨⟨.inr (.inr rfl), ?_⟩, rfl⟩
      intro edge
      rw [Window.newestPart, found]
      exact Bool.eq_false_iff.mpr beyond

theorem polled_of_admits (h : Consecutive w.segments) {s part : Int}
    (admits : w.Admits limit s part) (event : Option Production) :
    (PlaylistRequest.mk (some s) (some part)).polled w limit =
      (WaitTarget.part s part).evaluate w event := by
  rcases admits.known with gone | ⟨a, found⟩ | next
  · rw [polled, plan_of_evicted h gone, WaitTarget.evaluate_part_of_evicted gone]
  · obtain ⟨member, rfl⟩ := (Window.find?_eq_some_iff h s a).mp found
    have reach : ¬ ((decide ((a.sequence : Int) = w.lastSequence) &&
        limit.refuses (a.partCount - 1) part) = true) := by
      intro refused
      obtain ⟨edge, refused⟩ := (Bool.and_eq_true _ _).mp refused
      have reach := admits.reach (Int.le_of_eq (of_decide_eq_true edge).symm)
      rw [Window.newestPart_of_find? found, refused] at reach
      cases reach
    rw [polled, plan_of_find? h found, planPresent, if_neg reach]
    by_cases served : part ≤ a.partCount - 1
    · obtain ⟨rest, here⟩ := List.head?_eq_some_iff.mp found
      rw [if_pos served, WaitTarget.evaluate_part (Window.not_evicted_of_mem h member), here,
        partExists_of_lt (by omega)]
      rfl
    · rw [if_neg served]
      rfl
  · subst next
    have reach := admits.reach (by omega)
    rw [Window.newestPart, find?_next h] at reach
    rw [polled, plan_next h, planNext]
    simp only [reach, Bool.false_eq_true, if_false]
    rfl

theorem polled_of_no_directives (w : Window) (limit : PartLimit) (event : Option Production) :
    (PlaylistRequest.mk none none).polled w limit = WaitTarget.live.evaluate w event := by
  unfold polled plan
  cases segments : w.segments with
  | nil => simp [WaitTarget.evaluate, segments]
  | cons first rest => simp [WaitTarget.evaluate, segments, Verdict.readyIf]

/-- What a request with a part directive, or without directives, can have to wait for. -/
theorem target_of_plan {request : PlaylistRequest} {target : WaitTarget}
    (h : Consecutive w.segments) (directed : request.part.isSome = true ∨ request.sequence = none)
    (held : request.plan w limit = .wait target) :
    (∃ s part, request = ⟨some s, some part⟩ ∧ w.Admits limit s part ∧ target = .part s part) ∨
      request = ⟨none, none⟩ ∧ target = .live := by
  obtain ⟨sequence, part⟩ := request
  cases part with
  | some part =>
      cases sequence with
      | some s => exact .inl ⟨s, part, rfl, admits_of_plan h held⟩
      | none => cases held
  | none =>
      obtain rfl : sequence = none := directed.resolve_left Bool.false_ne_true
      unfold plan at held
      simp only [Option.isSome_none, Bool.false_eq_true, if_false] at held
      split_ifs at held
      cases held
      exact .inr ⟨rfl, rfl⟩

/-- Such a request is told by its target what it would be told if it were made again, whatever the
window has become. -/
theorem evaluate_eq_polled {request : PlaylistRequest} {target : WaitTarget}
    (hw : Consecutive w.segments) (hv : Consecutive v.segments) (precedes : w.Precedes v)
    (directed : request.part.isSome = true ∨ request.sequence = none)
    (held : request.plan w limit = .wait target) (event : Option Production) :
    target.evaluate v event = request.polled v limit := by
  rcases target_of_plan hw directed held with ⟨s, part, rfl, admits, rfl⟩ | ⟨rfl, rfl⟩
  · exact (polled_of_admits hv (admits.mono hv precedes) event).symm
  · exact (polled_of_no_directives v limit event).symm

/-- It can only be turned away because its segment has left the window. -/
theorem evicted_of_evaluate {request : PlaylistRequest} {target : WaitTarget} {fault : Fault}
    (hw : Consecutive w.segments) (directed : request.part.isSome = true ∨ request.sequence = none)
    (held : request.plan w limit = .wait target) {event : Option Production}
    (rejected : target.evaluate v event = .rejected fault) :
    ∃ s, request.sequence = some s ∧ v.isEvicted s = true ∧ fault = .evicted (.whole s) := by
  rcases target_of_plan hw directed held with ⟨s, part, rfl, admits, rfl⟩ | ⟨rfl, rfl⟩
  · obtain ⟨gone, same⟩ := WaitTarget.evaluate_part_eq_rejected_iff.mp rejected
    exact ⟨s, rfl, gone, same⟩
  · unfold WaitTarget.evaluate Verdict.readyIf at rejected
    simp only at rejected
    split_ifs at rejected

end PlaylistRequest

end LiveHls
