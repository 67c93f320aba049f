import LiveHls.Proofs.CanonicalPart
import LiveHls.Proofs.Stream.Wakeup
/-! The canonical name of a part, in all windows of a stream. -/
namespace LiveHls

namespace Stream

/-- The canonical name of a part: moving on from sealed segments ends there within as many rounds as
the window has segments; it is the name itself, or the start of the first later segment that is
missing, open or has a part; it is its own canonical name; and it goes on naming the same part as
long as the segment of the first name is in the window. -/
theorem canonical_name_exact {id : String} {settings : Settings} {size : Float} {now : Int}
    {start : Stream} (created : Stream.create id settings size now = .ok start)
    (before later : List Event) (s k : Int) :
    let w := (start.run before).window
    let v := (start.run (before ++ later)).window
    let last := canonicalPart w s k
    (∃ rounds ≤ w.segments.length, ∀ n name, w.RollsTo n s k name ↔ n = rounds ∧ name = last) ∧
    (w.Rests s k → last = (s, k)) ∧
    (¬ w.Rests s k → IsLeast {t | s < t ∧ w.Rests t 0} last.1 ∧ last.2 = 0 ∧
      ∀ u, s < u → u < last.1 → w.Blank u) ∧
    canonicalPart w last.1 last.2 = last ∧
    (v.find? s ≠ none → canonicalPart v s k = canonicalPart v last.1 last.2) := by
  intro w v last
  have consistent := run_consistent (create_consistent created) before
  have precedes : w.Precedes v := by
    simp only [v, run_append]
    exact run_precedes consistent later
  obtain ⟨rounds, few, rolls⟩ := w.exists_rollsTo s k
  refine ⟨⟨rounds, Nat.le_trans few (w.segmentsFrom_length_le s), Window.rollsTo_iff rolls⟩,
    Window.canonicalPart_of_rests, Window.canonicalPart_isLeast, w.canonicalPart_idem s k, ?_⟩
  intro present
  obtain ⟨a, found⟩ := Option.ne_none_iff_exists'.mp present
  exact precedes.canonicalPart_eq (Window.not_evicted_of_found found)

/-- A segment with one part and one without any are sealed, and later a third one without any. -/
theorem canonical_name_exact_of_three :
    let before : List Event := [.call (.put ⟨.whole 0, [], none, false⟩) 1,
      .call (.append (.whole 0) ⟨1.0, true, [7]⟩ false) 2,
      .call (.put ⟨.whole 1, [], none, false⟩) 3, .call (.close (.whole 1) none) 4]
    let later : List Event := [.call (.put ⟨.whole 2, [], none, false⟩) 5,
      .call (.close (.whole 2) none) 6]
    let w := ((plain 3).run before).window
    let v := ((plain 3).run (before ++ later)).window
    Stream.create "live" plainSettings 3.0 0 = .ok (plain 3) ∧
    canonicalPart w 0 1 = (2, 0) ∧ (∃ rounds, w.RollsTo rounds 0 1 (2, 0)) ∧
    IsLeast {t | 0 < t ∧ w.Rests t 0} 2 ∧
    v.find? 0 ≠ none ∧ canonicalPart v 0 1 = (3, 0) ∧
    canonicalPart v 0 1 = canonicalPart v 2 0 := by
  intro before later w v
  have created := @create_plain 3.0 3 (by decide) (by decide)
  have last : canonicalPart w 0 1 = (2, 0) := by rfl
  have present : v.find? 0 ≠ none := by
    rw [← Option.isSome_iff_ne_none]
    rfl
  have past : ¬ w.Rests 0 1 := fun rests =>
    absurd (last.symm.trans (Window.canonicalPart_of_rests rests)) (by decide)
  obtain ⟨⟨rounds, -, ends⟩, -, least, -, onward⟩ := canonical_name_exact created before later 0 1
  refine ⟨created, last, ⟨rounds, (ends _ _).mpr ⟨rfl, last.symm⟩⟩, (least past).1, present, by rfl,
    onward present⟩

end Stream

end LiveHls
