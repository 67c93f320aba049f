import Mathlib.Order.Bounds.Defs
import LiveHls.Proofs.PartTarget
/-! The last of the names of a part. It is found by moving on, segment by segment, from part numbers
past the end of a sealed segment; that ends within the window, at the first segment where the part
can still come to be. Later windows agree with it for as long as the first segment stays. -/
namespace LiveHls

namespace Window

/-- Nothing moves a part number on: its segment is missing or open, or has the part. -/
def Rests (w : Window) (s k : Int) : Prop :=
  ∀ a, w.find? s = some a → a.complete = false ∨ k < a.partCount

/-- The segment is in the window, sealed without parts. -/
def Blank (w : Window) (s : Int) : Prop :=
  ∃ a, w.find? s = some a ∧ a.complete = true ∧ a.partCount = 0

/-- So many rounds, each from past the end of a sealed segment to the start of the next one, lead
from a part number to a name that rests. -/
inductive RollsTo (w : Window) : Nat → Int → Int → Int × Int → Prop
  | rest {s k : Int} (rests : w.Rests s k) : RollsTo w 0 s k (s, k)
  | next {rounds : Nat} {s k : Int} {a : Segment} {last : Int × Int} (found : w.find? s = some a)
      (complete : a.complete = true) (past : (a.partCount : Int) ≤ k)
      (onward : RollsTo w rounds (s + 1) 0 last) : RollsTo w (rounds + 1) s k last

variable {w v : Window} {s k : Int}

theorem rests_or_past (w : Window) (s k : Int) :
    w.Rests s k ∨ ∃ a, w.find? s = some a ∧ a.complete = true ∧ (a.partCount : Int) ≤ k := by
  cases found : w.find? s with
  | none => exact .inl fun a here => by rw [found] at here; cases here
  | some a =>
      by_cases past : a.complete = true ∧ (a.partCount : Int) ≤ k
      · exact .inr ⟨a, rfl, past⟩
      · refine .inl fun b here => ?_
        rw [found] at here
        cases here
        rw [not_and_or, Bool.not_eq_true, Int.not_le] at past
        exact past

theorem Rests.not_past {a : Segment} (rests : w.Rests s k) (found : w.find? s = some a)
    (complete : a.complete = true) : ¬ (a.partCount : Int) ≤ k := by
  rcases rests a found with opened | within
  · rw [complete] at opened
    cases opened
  · omega

theorem Blank.not_rests (blank : w.Blank s) : ¬ w.Rests s 0 := by
  obtain ⟨a, found, complete, few⟩ := blank
  intro rests
  exact rests.not_past found complete (by omega)

theorem canonicalPart_of_rests (rests : w.Rests s k) : canonicalPart w s k = (s, k) := by
  rw [canonicalPart]
  cases here : w.segmentsFrom s with
  | nil => rfl
  | cons a rest =>
      have stays := rests a (by rw [find?, here]; rfl)
      rw [rollOver, if_neg]
      rw [Bool.and_eq_true, decide_eq_true_iff, not_and_or, Bool.not_eq_true, Int.not_le]
      exact stays

theorem canonicalPart_past {a : Segment} (found : w.find? s = some a)
    (complete : a.complete = true) (past : (a.partCount : Int) ≤ k) :
    canonicalPart w s k = canonicalPart w (s + 1) 0 := by
  obtain ⟨rest, here⟩ := List.head?_eq_some_iff.mp found
  rw [canonicalPart, canonicalPart, here, (segmentsFrom_succ here).1, rollOver, complete,
    decide_eq_true past, Bool.and_self, if_pos rfl]

/-- Moving on ends, since each round leaves one segment of the window behind. -/
theorem exists_rollsTo (w : Window) (s k : Int) :
    ∃ rounds ≤ (w.segmentsFrom s).length, w.RollsTo rounds s k (canonicalPart w s k) := by
  generalize behind : w.segmentsFrom s = segments
  induction segments generalizing s k with
  | nil =>
      have rests : w.Rests s k := fun a found => by rw [find?, behind] at found; cases found
      exact ⟨0, Nat.zero_le _, canonicalPart_of_rests rests ▸ .rest rests⟩
  | cons a rest ih =>
      rcases w.rests_or_past s k with rests | ⟨b, found, complete, past⟩
      · exact ⟨0, Nat.zero_le _, canonicalPart_of_rests rests ▸ .rest rests⟩
      · obtain ⟨rounds, few, onward⟩ := ih (s + 1) 0 (segmentsFrom_succ behind).1
        rw [← canonicalPart_past found complete past] at onward
        exact ⟨rounds + 1, Nat.succ_le_succ few, .next found complete past onward⟩

theorem segmentsFrom_length_le (w : Window) (s : Int) :
    (w.segmentsFrom s).length ≤ w.segments.length := by
  unfold segmentsFrom
  cases w.place? s with
  | none => exact Nat.zero_le _
  | some i =>
      rw [List.length_drop]
      exact Nat.sub_le _ _

namespace RollsTo

variable {rounds : Nat} {last : Int × Int}

theorem rests (rolls : w.RollsTo rounds s k last) : w.Rests last.1 last.2 := by
  induction rolls with
  | rest rests => exact rests
  | next found complete past onward ih => exact ih

theorem canonical (rolls : w.RollsTo rounds s k last) : last = canonicalPart w s k := by
  induction rolls with
  | rest rests => exact (canonicalPart_of_rests rests).symm
  | next found complete past onward ih => exact ih.trans (canonicalPart_past found complete past).symm

theorem sequence (rolls : w.RollsTo rounds s k last) : last.1 = s + rounds := by
  induction rolls with
  | rest rests => exact (Int.add_zero _).symm
  | next found complete past onward ih =>
      rw [ih]
      omega

theorem part (rolls : w.RollsTo rounds s k last) : last.2 = if rounds = 0 then k else 0 := by
  induction rolls with
  | rest rests => rfl
  | next found complete past onward ih =>
      rw [ih, ite_self]
      rfl

/-- The segments that are passed over have no part. -/
theorem blank (rolls : w.RollsTo rounds s k last) :
    ∀ u, s < u → u < last.1 → w.Blank u := by
  induction rolls with
  | rest rests =>
      intro u after before
      exact absurd (Int.lt_trans after before) (Int.lt_irrefl _)
  | @next rounds s k a last found complete past onward ih =>
      intro u after before
      by_cases later : s + 1 < u
      · exact ih u later before
      · obtain rfl : u = s + 1 := by omega
        -- the next segment is itself passed over, from its start
        cases onward with
        | rest rests => exact absurd before (Int.lt_irrefl _)
        | next found complete past onward => exact ⟨_, found, complete, by omega⟩

/-- Whoever moves past the start of a segment moves on from there. -/
theorem through (rolls : w.RollsTo rounds s k last) {u : Int} (after : s < u) (before : u ≤ last.1) :
    ∃ n, w.RollsTo n u 0 last := by
  induction rolls with
  | rest rests => exact absurd (Int.lt_of_lt_of_le after before) (Int.lt_irrefl _)
  | @next rounds s k a last found complete past onward ih =>
      by_cases later : s + 1 < u
      · exact ih later before
      · obtain rfl : u = s + 1 := by omega
        exact ⟨rounds, onward⟩

end RollsTo

/-- Moving on leads to the canonical name, and after one number of rounds only. -/
theorem rollsTo_iff {rounds : Nat} (rolls : w.RollsTo rounds s k (canonicalPart w s k)) (n : Nat)
    (last : Int × Int) :
    w.RollsTo n s k last ↔ n = rounds ∧ last = canonicalPart w s k := by
  constructor
  · intro other
    have same := other.canonical
    have first := other.sequence
    rw [same, rolls.sequence] at first
    exact ⟨by omega, same⟩
  · rintro ⟨rfl, rfl⟩
    exact rolls

theorem canonicalPart_rests (w : Window) (s k : Int) :
    w.Rests (canonicalPart w s k).1 (canonicalPart w s k).2 := by
  obtain ⟨rounds, -, rolls⟩ := w.exists_rollsTo s k
  exact rolls.rests

/-- From past the end of a sealed segment the first later segment is taken where the first part can
still come to be, or is there. -/
theorem canonicalPart_isLeast (past : ¬ w.Rests s k) :
    IsLeast {t | s < t ∧ w.Rests t 0} (canonicalPart w s k).1 ∧ (canonicalPart w s k).2 = 0 ∧
      ∀ u, s < u → u < (canonicalPart w s k).1 → w.Blank u := by
  obtain ⟨rounds, -, rolls⟩ := w.exists_rollsTo s k
  generalize canonicalPart w s k = last at rolls ⊢
  cases rounds with
  | zero =>
      cases rolls with
      | rest rests => exact absurd rests past
  | succ rounds =>
      have part : last.2 = 0 := rolls.part
      have first := rolls.sequence
      have rests := rolls.rests
      rw [part] at rests
      refine ⟨⟨⟨by omega, rests⟩, ?_⟩, part, rolls.blank⟩
      rintro t ⟨after, stays⟩
      by_contra before
      exact (rolls.blank t after (Int.not_le.mp before)).not_rests stays

theorem canonicalPart_idem (w : Window) (s k : Int) :
    canonicalPart w (canonicalPart w s k).1 (canonicalPart w s k).2 = canonicalPart w s k :=
  canonicalPart_of_rests (w.canonicalPart_rests s k)

theorem canonicalPart_through {u : Int} (after : s < u) (before : u ≤ (canonicalPart w s k).1) :
    canonicalPart w s k = canonicalPart w u 0 := by
  obtain ⟨rounds, -, rolls⟩ := w.exists_rollsTo s k
  obtain ⟨n, onward⟩ := rolls.through after before
  exact onward.canonical

/-- A later window that still has the segment takes both names of a part to one. -/
theorem Precedes.canonicalPart_eq (later : w.Precedes v) (inside : v.isEvicted s = false) :
    canonicalPart v s k = canonicalPart v (canonicalPart w s k).1 (canonicalPart w s k).2 := by
  obtain ⟨rounds, -, rolls⟩ := w.exists_rollsTo s k
  generalize canonicalPart w s k = last at rolls
  induction rolls with
  | rest rests => rfl
  | @next rounds s k a last found complete past onward ih =>
      rcases later.kept s a found with gone | ⟨b, stays, grows⟩
      · rw [inside] at gone
        cases gone
      · -- a sealed segment is the same in all windows that have it
        rw [grows.complete complete] at stays
        obtain ⟨rest, here⟩ := List.head?_eq_some_iff.mp stays
        rw [canonicalPart_past stays complete past]
        exact ih (segmentsFrom_succ here).2

theorem not_evicted_of_found {a : Segment} (found : w.find? s = some a) :
    w.isEvicted s = false := by
  cases evicted : w.isEvicted s with
  | false => rfl
  | true =>
      rw [find?, segmentsFrom_of_evicted evicted] at found
      cases found

end Window

end LiveHls
