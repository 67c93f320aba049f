import Mathlib.Data.List.Chain
import LiveHls.Window.Production
/-! Lookups in a window. Its segments follow one another without a gap and all but the last are
sealed; only therefore is the distance from the first sequence the place of a segment. -/
namespace LiveHls

/-- One segment is directly before another: it is sealed, and its sequence is one less. -/
structure Segment.Before (a b : Segment) : Prop where
  next : b.sequence = a.sequence + 1
  complete : a.complete = true

/-- Segments without a gap, of which only the last may be open. -/
def Consecutive (segments : List Segment) : Prop := segments.IsChain Segment.Before

namespace Consecutive

theorem tail {a : Segment} {rest : List Segment} (h : Consecutive (a :: rest)) :
    Consecutive rest := List.IsChain.tail h

theorem right {before after : List Segment} (h : Consecutive (before ++ after)) :
    Consecutive after := List.IsChain.right_of_append h

theorem sequence_getElem {first : Segment} {rest : List Segment}
    (h : Consecutive (first :: rest)) (i : Nat) (hi : i < (first :: rest).length) :
    (first :: rest)[i].sequence = first.sequence + i := by
  induction i with
  | zero => rfl
  | succ i ih =>
      have step := (List.IsChain.getElem h i hi).next
      rw [step, ih (Nat.lt_of_succ_lt hi)]
      omega

theorem sequence_of_split {first a : Segment} {rest before after : List Segment}
    (h : Consecutive (first :: rest)) (split : first :: rest = before ++ a :: after) :
    a.sequence = first.sequence + before.length := by
  have hi : before.length < (first :: rest).length := by
    rw [split, List.length_append, List.length_cons]
    omega
  rw [← h.sequence_getElem before.length hi]
  simp only [split, List.getElem_append_right (Nat.le_refl _), Nat.sub_self,
    List.getElem_cons_zero]

theorem sorted {segments : List Segment} (h : Consecutive segments) :
    segments.Pairwise fun a b => a.sequence < b.sequence := by
  rw [List.pairwise_iff_getElem]
  intro i j hi hj less
  cases segments with
  | nil => exact absurd hi (Nat.not_lt_zero i)
  | cons first rest =>
      rw [h.sequence_getElem i hi, h.sequence_getElem j hj]
      omega

theorem complete_of_split {before after : List Segment} {a b : Segment}
    (h : Consecutive (before ++ a :: b :: after)) : a.complete = true :=
  (List.isChain_cons_cons.mp h.right).1.complete

theorem complete_before {before after : List Segment} {a : Segment}
    (h : Consecutive (before ++ a :: after)) : ∀ b ∈ before, b.complete = true := by
  intro b member
  obtain ⟨front, back, rfl⟩ := List.append_of_mem member
  cases back with
  | nil =>
      rw [List.append_assoc, List.singleton_append] at h
      exact h.complete_of_split
  | cons c back =>
      rw [List.append_assoc, List.cons_append, List.cons_append] at h
      exact h.complete_of_split

theorem after_eq_nil {before after : List Segment} {a : Segment}
    (h : Consecutive (before ++ a :: after)) (opened : a.complete = false) : after = [] := by
  cases after with
  | nil => rfl
  | cons b after => exact absurd h.complete_of_split (by rw [opened]; decide)

/-- The only segment that may be open is the last. -/
theorem eq_last_of_open {before : List Segment} {a last : Segment}
    (h : Consecutive (before ++ [last])) (member : a ∈ before ++ [last])
    (opened : a.complete = false) : a = last := by
  rcases List.mem_append.mp member with earlier | final
  · have complete := h.complete_before a earlier
    rw [opened] at complete
    cases complete
  · exact List.mem_singleton.mp final

end Consecutive

namespace Window

variable {w : Window}

theorem segmentsFrom_of_head {first : Segment} {rest : List Segment}
    (segments : w.segments = first :: rest) (s : Int) :
    w.segmentsFrom s =
      if s < first.sequence then [] else (first :: rest).drop (s - first.sequence).toNat := by
  have head : w.first? = some first := by rw [first?, segments]; rfl
  simp only [segmentsFrom, place?, head, segments]
  split <;> simp_all

theorem segmentsFrom_of_split {before after : List Segment} {a : Segment}
    (h : Consecutive w.segments) (split : w.segments = before ++ a :: after) :
    w.segmentsFrom a.sequence = a :: after := by
  cases segments : w.segments with
  | nil => simp [segments] at split
  | cons first rest =>
      rw [segments] at h split
      have place := h.sequence_of_split split
      have inside : ¬ (a.sequence : Int) < first.sequence := by omega
      have distance : ((a.sequence : Int) - first.sequence).toNat = before.length := by omega
      rw [segmentsFrom_of_head segments, if_neg inside, distance, split]
      exact List.drop_left' rfl

theorem split_of_find? {s : Int} {a : Segment} (h : Consecutive w.segments)
    (found : w.find? s = some a) :
    (a.sequence : Int) = s ∧ ∃ before after, w.segments = before ++ a :: after := by
  cases segments : w.segments with
  | nil => simp [find?, segmentsFrom, place?, first?, segments] at found
  | cons first rest =>
      rw [segments] at h
      rw [find?, segmentsFrom_of_head segments] at found
      split_ifs at found with outside
      · exact absurd found (by simp)
      · rw [List.head?_drop] at found
        obtain ⟨hi, rfl⟩ := List.getElem?_eq_some_iff.mp found
        refine ⟨?_, List.append_of_mem (List.getElem_mem hi)⟩
        rw [h.sequence_getElem _ hi]
        omega

/-- Looking a sequence up finds the segment that carries it, and nothing else. -/
theorem find?_eq_some_iff (h : Consecutive w.segments) (s : Int) (a : Segment) :
    w.find? s = some a ↔ a ∈ w.segments ∧ (a.sequence : Int) = s := by
  constructor
  · intro found
    obtain ⟨same, before, after, split⟩ := split_of_find? h found
    refine ⟨?_, same⟩
    rw [split]
    exact List.mem_append_right _ (List.mem_cons_self)
  · rintro ⟨member, rfl⟩
    obtain ⟨before, after, split⟩ := List.append_of_mem member
    rw [find?, segmentsFrom_of_split h split]
    rfl

/-- A sequence names one segment only. -/
theorem eq_of_sequence (h : Consecutive w.segments) {a b : Segment} (first : a ∈ w.segments)
    (second : b ∈ w.segments) (same : a.sequence = b.sequence) : a = b := by
  have found := (find?_eq_some_iff h b.sequence a).mpr ⟨first, by rw [same]⟩
  rw [(find?_eq_some_iff h b.sequence b).mpr ⟨second, rfl⟩] at found
  exact (Option.some.inj found).symm

theorem named?_eq_some_iff (h : Consecutive w.segments) (number : Numeral) (a : Segment) :
    w.named? number = some a ↔ a ∈ w.segments ∧ number.toInt? = some (a.sequence : Int) := by
  simp only [named?, Option.bind_eq_some_iff, find?_eq_some_iff h]
  constructor
  · rintro ⟨s, named, member, rfl⟩
    exact ⟨member, named⟩
  · rintro ⟨member, named⟩
    exact ⟨_, named, member, rfl⟩

theorem isEvicted_nil (segments : w.segments = []) (s : Int) : w.isEvicted s = false := by
  simp only [isEvicted, first?, segments, List.head?_nil]

theorem isEvicted_of_head {first : Segment} {rest : List Segment}
    (segments : w.segments = first :: rest) (s : Int) :
    w.isEvicted s = decide (s < first.sequence) := by
  simp only [isEvicted, first?, segments, List.head?_cons]

theorem segmentsFrom_first {first : Segment} {rest : List Segment}
    (segments : w.segments = first :: rest) :
    w.isEvicted first.sequence = false ∧ w.segmentsFrom first.sequence = w.segments := by
  rw [isEvicted_of_head segments, segmentsFrom_of_head segments, if_neg (by omega), Int.sub_self,
    segments]
  exact ⟨decide_eq_false (by omega), rfl⟩

theorem lastSequence_nil (segments : w.segments = []) : w.lastSequence = -1 := by
  simp only [lastSequence, last?, segments, List.getLast?_nil]

theorem lastSequence_concat {before : List Segment} {last : Segment}
    (segments : w.segments = before ++ [last]) : w.lastSequence = last.sequence := by
  simp only [lastSequence, last?, segments, List.getLast?_concat]

theorem first_le {first a : Segment} {rest : List Segment} (h : Consecutive (first :: rest))
    (member : a ∈ first :: rest) : first.sequence ≤ a.sequence := by
  obtain ⟨before, after, split⟩ := List.append_of_mem member
  rw [h.sequence_of_split split]
  exact Nat.le_add_right _ _

theorem le_lastSequence (h : Consecutive w.segments) {a : Segment} (member : a ∈ w.segments) :
    (a.sequence : Int) ≤ w.lastSequence := by
  rcases List.eq_nil_or_concat' w.segments with segments | ⟨before, last, segments⟩
  · rw [segments] at member
    cases member
  · rw [lastSequence_concat segments]
    rw [segments] at h member
    rcases List.mem_append.mp member with earlier | same
    · have sorted := (List.pairwise_append.mp h.sorted).2.2 a earlier last (List.mem_singleton_self _)
      omega
    · exact Int.le_of_eq (congrArg (fun b : Segment => (b.sequence : Int)) (List.mem_singleton.mp same))

theorem not_evicted_of_mem (h : Consecutive w.segments) {a : Segment} (member : a ∈ w.segments) :
    w.isEvicted a.sequence = false := by
  cases segments : w.segments with
  | nil => exact isEvicted_nil segments _
  | cons first rest =>
      rw [segments] at h member
      have least := first_le h member
      rw [isEvicted_of_head segments]
      exact decide_eq_false (by omega)

/-- A sequence lies before a window that is not empty, in it, or past its end. -/
theorem evicted_or_found_or_ahead (h : Consecutive w.segments) (s : Int) :
    w.isEvicted s = true ∨ (∃ a, w.find? s = some a) ∨ w.segments = [] ∨ w.lastSequence < s := by
  cases segments : w.segments with
  | nil => exact .inr (.inr (.inl rfl))
  | cons first rest =>
      have consecutive := h
      rw [segments] at consecutive
      by_cases before : s < first.sequence
      · exact .inl (by rw [isEvicted_of_head segments]; exact decide_eq_true before)
      · by_cases inside : (s - first.sequence).toNat < (first :: rest).length
        · refine .inr (.inl ⟨(first :: rest)[(s - first.sequence).toNat], ?_⟩)
          rw [find?_eq_some_iff h, segments, consecutive.sequence_getElem _ inside]
          exact ⟨List.getElem_mem inside, by omega⟩
        · refine .inr (.inr (.inr ?_))
          obtain ⟨before, last, concat⟩ := List.eq_nil_or_concat' (first :: rest) |>.resolve_left (by simp)
          rw [lastSequence_concat (segments.trans concat), consecutive.sequence_of_split concat]
          rw [concat, List.length_append, List.length_singleton] at inside
          omega

end Window

end LiveHls
