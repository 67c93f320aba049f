import LiveHls.Proofs.Window.Succession
/-! Discontinuities are never lost: one that leaves the window with its segment is counted. So the
number of those up to a sealed segment stays the same for as long as that is in the window. -/
namespace LiveHls

theorem Segment.closeIfOpen_discontinuity (a : Segment) :
    a.closeIfOpen.discontinuity = a.discontinuity := by
  unfold closeIfOpen
  split <;> rfl

/-- What is counted before another segment is started is counted after that, if sealing does not
matter to it. -/
theorem Segment.countP_started {p : Segment → Bool} (blind : ∀ a : Segment, p a.closeIfOpen = p a)
    (segments : List Segment) (new : Segment) :
    (started segments new).countP p = segments.countP p + if p new then 1 else 0 := by
  rcases List.eq_nil_or_concat' segments with rfl | ⟨before, last, rfl⟩
  · rw [List.countP_nil, Nat.zero_add]
    exact List.countP_singleton
  · rw [started_concat]
    simp only [List.countP_append, List.countP_singleton, blind]

namespace Window

/-- How many discontinuities there have been up to a sequence. -/
def discontinuitiesUpTo (w : Window) (n : Nat) : Nat :=
  w.discontinuitySequence + w.segments.countP fun a => decide (a.sequence ≤ n) && a.discontinuity

variable {w v : Window} {capacity : Nat} {stream : String} {now : Int} {call : ProducerCall}

theorem discontinuitiesUpTo_of_split {before after : List Segment} {a : Segment}
    (h : Consecutive w.segments) (split : w.segments = before ++ a :: after) :
    w.discontinuitiesUpTo a.sequence =
      w.discontinuitySequence + (before ++ [a]).countP (·.discontinuity) := by
  obtain ⟨-, behind, ahead⟩ := List.pairwise_append.mp (split ▸ h).sorted
  have earlier : before.countP (fun b => decide (b.sequence ≤ a.sequence) && b.discontinuity) =
      before.countP (·.discontinuity) := by
    refine List.countP_congr fun b member => ?_
    have less := ahead b member a List.mem_cons_self
    simp [Nat.le_of_lt less]
  have later : after.countP (fun b => decide (b.sequence ≤ a.sequence) && b.discontinuity) = 0 := by
    rw [List.countP_eq_zero]
    intro b member
    have less := List.rel_of_pairwise_cons behind member
    simp [Nat.not_le_of_lt less]
  rw [discontinuitiesUpTo, split]
  simp only [List.countP_append, List.countP_cons, earlier, later, Nat.le_refl, decide_true,
    Bool.true_and, List.countP_nil]

theorem revise_discontinuities {number : Numeral} {f : Segment → Except Fault Segment}
    (h : Consecutive w.segments) (grows : ∀ a b, f a = .ok b → a.complete = false ∧ a.Grows b)
    (ok : w.revise stream number f = .ok v) :
    w.discontinuitySequence = v.discontinuitySequence ∧
      ∀ a ∈ w.segments, a.complete = true →
        v.discontinuitiesUpTo a.sequence = w.discontinuitiesUpTo a.sequence := by
  obtain ⟨before, old, new, after, segments, -, made, rfl⟩ := revise_eq_ok h ok
  obtain ⟨opened, grow⟩ := grows old new made
  refine ⟨rfl, fun a member complete => ?_⟩
  rw [segments] at h member
  obtain rfl : after = [] := h.after_eq_nil opened
  -- the segment that is revised is the last one, so it comes behind every sealed one
  have earlier : a ∈ before := by
    rcases List.mem_append.mp member with earlier | same
    · exact earlier
    · rw [List.mem_singleton.mp same, opened] at complete
      cases complete
  have less := (List.pairwise_append.mp h.sorted).2.2 a earlier old List.mem_cons_self
  simp only [discontinuitiesUpTo, segments, List.countP_append, List.countP_singleton,
    grow.sequence, Nat.not_le_of_lt less, decide_false, Bool.false_and]

/-- What is dropped lies before what is not. -/
theorem lt_of_evicted {s n : Int} (gone : w.isEvicted s = true) (inside : w.isEvicted n = false) :
    s < n := by
  cases segments : w.segments with
  | nil =>
      rw [isEvicted_nil segments] at gone
      cases gone
  | cons first rest =>
      rw [isEvicted_of_head segments] at gone inside
      have before := of_decide_eq_true gone
      have after := of_decide_eq_false inside
      omega

/-- Those that are dropped are counted with all that come up to a segment that is left. -/
theorem discontinuitiesUpTo_of_dropped {dropped : List Segment} {n : Nat}
    (h : Consecutive (dropped ++ v.segments)) (nonempty : v.segments ≠ [])
    (counted : v.discontinuitySequence =
      w.discontinuitySequence + dropped.countP (·.discontinuity))
    (inside : v.isEvicted n = false) :
    v.discontinuitiesUpTo n = w.discontinuitySequence +
      (dropped ++ v.segments).countP fun a => decide (a.sequence ≤ n) && a.discontinuity := by
  have all : dropped.countP (fun a => decide (a.sequence ≤ n) && a.discontinuity) =
      dropped.countP (·.discontinuity) := by
    refine List.countP_congr fun b member => ?_
    have less := lt_of_evicted (isEvicted_of_dropped h nonempty member) inside
    simp [show b.sequence ≤ n by omega]
  rw [discontinuitiesUpTo, counted, List.countP_append, all, Nat.add_assoc]

theorem put_discontinuities {new : NewSegment} (positive : 1 ≤ capacity)
    (wellFormed : w.WellFormed capacity) (ok : w.put capacity new now = .ok v) :
    w.discontinuitySequence ≤ v.discontinuitySequence ∧
      ∀ a ∈ w.segments, v.isEvicted a.sequence = false →
        v.discontinuitiesUpTo a.sequence = w.discontinuitiesUpTo a.sequence := by
  obtain ⟨sequence, -, next, rfl⟩ := put_eq_ok ok
  refine ⟨Nat.le_add_right _ _, fun a member inside => ?_⟩
  have newer : ¬ sequence ≤ a.sequence := by
    obtain ⟨before, last, concat⟩ := (List.eq_nil_or_concat' w.segments).resolve_left
      (List.ne_nil_of_mem member)
    have least := le_lastSequence wellFormed.consecutive member
    rw [lastSequence_concat concat] at least
    have follows := next last (by rw [concat, List.getLast?_concat])
    omega
  have length := Segment.started_length w.segments (.start sequence new now)
  have h := wellFormed.consecutive.started (.start sequence new now) next
  have count := Segment.countP_started
    (p := fun b => decide (b.sequence ≤ a.sequence) && b.discontinuity)
    (fun b => by rw [b.closeIfOpen_grows.sequence, b.closeIfOpen_discontinuity])
    w.segments (.start sequence new now)
  rw [if_neg (by simp [Segment.start, newer]), Nat.add_zero] at count
  generalize Segment.started w.segments (.start sequence new now) = segments at *
  have left : segments.drop (segments.length - capacity) ≠ [] := by
    rw [ne_eq, List.drop_eq_nil_iff]
    omega
  rw [← List.take_append_drop (segments.length - capacity) segments] at h count
  rw [discontinuitiesUpTo_of_dropped h left rfl inside]
  exact congrArg _ count

/-- No call takes back a discontinuity, and none changes how many there are up to a sealed segment
that is left. -/
theorem perform_discontinuities (positive : 1 ≤ capacity) (wellFormed : w.WellFormed capacity)
    (ok : w.perform stream capacity now call = .ok v) :
    w.discontinuitySequence ≤ v.discontinuitySequence ∧
      ∀ a ∈ w.segments, a.complete = true → v.isEvicted a.sequence = false →
        v.discontinuitiesUpTo a.sequence = w.discontinuitiesUpTo a.sequence := by
  cases call with
  | put new =>
      obtain ⟨less, same⟩ := put_discontinuities positive wellFormed ok
      exact ⟨less, fun a member _ => same a member⟩
  | append number part discontinuity =>
      obtain ⟨unchanged, same⟩ := revise_discontinuities wellFormed.consecutive
        (fun a b made => Segment.append_grows made) ok
      exact ⟨Nat.le_of_eq unchanged, fun a member complete _ => same a member complete⟩
  | close number duration =>
      rw [perform, close_eq_revise] at ok
      obtain ⟨unchanged, same⟩ := revise_discontinuities wellFormed.consecutive
        (fun a b made => Segment.close_grows made) ok
      exact ⟨Nat.le_of_eq unchanged, fun a member complete _ => same a member complete⟩

end Window

end LiveHls
