import LiveHls.Proofs.Window.Data
/-! The live edge. The next byte of the stream comes behind the data of the last segment while it
is open, and starts the next segment once it is sealed. -/
namespace LiveHls

theorem Consecutive.all_complete {before : List Segment} {last : Segment}
    (h : Consecutive (before ++ [last])) (complete : last.complete = true) :
    ∀ a ∈ before ++ [last], a.complete = true := by
  intro a member
  rcases List.mem_append.mp member with earlier | final
  · exact h.complete_before a earlier
  · rw [List.mem_singleton.mp final]
    exact complete

namespace Window

variable {w v : Window} {capacity : Nat} {stream : String} {now : Int} {call : ProducerCall}
  {n st : Nat}

/-- The next byte of a segment comes at an offset: its data end there, or it is the next segment
to be started. -/
inductive Ends (w : Window) (n st : Nat) : Prop
  | here {a : Segment} (found : w.find? n = some a) (size : a.content.length = st)
  | next {last : Segment} (newest : w.last? = some last) (complete : last.complete = true)
      (follows : n = last.sequence + 1) (first : st = 0)

theorem lastSequence_of_last? {last : Segment} (newest : w.last? = some last) :
    w.lastSequence = last.sequence := by
  simp only [lastSequence, newest]

theorem Ends.size (h : Consecutive w.segments) (ends : w.Ends n st) {a : Segment}
    (found : w.find? n = some a) : a.content.length = st := by
  cases ends with
  | here there size =>
      rw [found] at there
      cases there
      exact size
  | next newest complete follows first =>
      obtain ⟨member, named⟩ := (find?_eq_some_iff h n a).mp found
      have inside := le_lastSequence h member
      rw [lastSequence_of_last? newest] at inside
      omega

/-- The segment that a put starts is the last one after it. -/
theorem put_last? {new : NewSegment} (positive : 1 ≤ capacity)
    (ok : w.put capacity new now = .ok v) :
    ∃ sequence : Nat, v.last? = some (.start sequence new now) ∧
      new.number.toInt? = some (sequence : Int) ∧
      ∀ last, w.last? = some last → sequence = last.sequence + 1 := by
  obtain ⟨sequence, whole, next, rfl⟩ := put_eq_ok ok
  refine ⟨sequence, ?_, Numeral.toInt?_of_toNat? whole, next⟩
  have length := Segment.started_length w.segments (.start sequence new now)
  simp only [last?, evict, List.getLast?_drop]
  rw [if_neg (by omega), Segment.started, List.getLast?_concat]

theorem find?_of_last? (h : Consecutive w.segments) {last : Segment}
    (newest : w.last? = some last) : w.find? last.sequence = some last :=
  (find?_eq_some_iff h _ last).mpr ⟨List.mem_of_getLast? newest, rfl⟩

/-- Once the last segment is sealed only a put can succeed. -/
theorem put_of_sealed (h : Consecutive w.segments) {last : Segment} (newest : w.last? = some last)
    (complete : last.complete = true) (ok : w.perform stream capacity now call = .ok v) :
    ∃ new, call = .put new ∧ w.put capacity new now = .ok v := by
  obtain ⟨before, segments⟩ := List.getLast?_eq_some_iff.mp newest
  have sealed : ∀ a ∈ w.segments, a.complete = true := by
    rw [segments] at h ⊢
    exact h.all_complete complete
  have refused : ∀ number (f : Segment → Except Fault Segment),
      (∀ a b, f a = .ok b → a.complete = false) → w.revise stream number f ≠ .ok v := by
    intro number f opens ok
    obtain ⟨front, a, b, rest, split, -, made, -⟩ := revise_eq_ok h ok
    have closed := sealed a (by rw [split]; simp)
    rw [opens a b made] at closed
    cases closed
  cases call with
  | put new => exact ⟨new, rfl, ok⟩
  | append number part discontinuity =>
      exact absurd ok (refused number _ fun a b made => (Segment.append_grows made).1)
  | close number duration =>
      rw [perform, close_eq_revise] at ok
      exact absurd ok (refused number _ fun a b made => (Segment.close_grows made).1)

theorem started_of_sealed (wellFormed : w.WellFormed capacity) (positive : 1 ≤ capacity)
    {last : Segment} (newest : w.last? = some last) (complete : last.complete = true)
    (follows : n = last.sequence + 1) (ok : w.perform stream capacity now call = .ok v) :
    ∃ new, v.find? n = some (.start n new now) := by
  obtain ⟨new, rfl, put⟩ := put_of_sealed wellFormed.consecutive newest complete ok
  obtain ⟨sequence, started, -, next⟩ := put_last? positive put
  obtain rfl : sequence = n := (next last newest).trans follows.symm
  exact ⟨new, find?_of_last? (perform_advances positive wellFormed ok).1.consecutive started⟩

/-- A call moves the next byte of a segment only by appending data at it, or by dropping the
segment. -/
theorem Ends.perform (wellFormed : w.WellFormed capacity) (positive : 1 ≤ capacity)
    (tiled : w.Tiled) (ends : w.Ends n st) (ok : w.perform stream capacity now call = .ok v) :
    v.Ends n st ∨ v.isEvicted n = true ∨
      ∃ number part discontinuity a, call = .append number part discontinuity ∧
        number.toInt? = some (n : Int) ∧ part.data ≠ [] ∧ w.find? n = some a ∧
        a.content.length = st := by
  obtain ⟨-, dropped, advances⟩ := perform_advances positive wellFormed ok
  cases ends with
  | @here a found size =>
      rcases (advances.precedes wellFormed.consecutive).kept n a found with gone | ⟨b, new, -⟩
      · exact .inr (.inl gone)
      · obtain ⟨member, named⟩ := (find?_eq_some_iff wellFormed.consecutive n a).mp found
        have becomes := perform_find? wellFormed positive ok found new
        rcases (becomes.content (tiled a member)).2 with
          same | ⟨number, part, discontinuity, rfl, same, added⟩
        · exact .inl (.here new (same ▸ size))
        · by_cases bare : part.data = []
          · rw [bare, List.append_nil] at added
            exact .inl (.here new (added ▸ size))
          · exact .inr (.inr ⟨number, part, discontinuity, a, rfl, same.trans (congrArg some named),
              bare, found, size⟩)
  | next newest complete follows first =>
      -- only a put can succeed, and it starts that segment without data
      obtain ⟨new, found⟩ := started_of_sealed wellFormed positive newest complete follows ok
      exact .inl (.here found first.symm)

/-- Parts that are appended are found where the segment ended. -/
theorem append_find? {number : Numeral} {part : Part} {discontinuity : Bool} {a : Segment}
    (wellFormed : w.WellFormed capacity) (positive : 1 ≤ capacity) (tiled : w.Tiled)
    (ok : w.perform stream capacity now (.append number part discontinuity) = .ok v)
    (named : number.toInt? = some (n : Int)) (found : w.find? n = some a) :
    ∃ b, v.find? n = some b ∧ b.content = a.content ++ part.data := by
  obtain ⟨member, sequence⟩ := (find?_eq_some_iff wellFormed.consecutive n a).mp found
  rcases perform_advances_or_put wellFormed ok with ⟨after, advances⟩ | ⟨new, same, -⟩
  · obtain ⟨b, stays, grows⟩ := advances.kept a member
    have new : v.find? n = some b :=
      (find?_eq_some_iff after.consecutive n b).mpr ⟨stays, by rw [grows.sequence, sequence]⟩
    cases perform_find? wellFormed positive ok found new with
    | same other => exact absurd (named.trans (congrArg some sequence.symm)) other
    | appended _ made => exact ⟨b, new, (Segment.append_tiled (tiled a member) made).2⟩
  · cases same

end Window

end LiveHls
