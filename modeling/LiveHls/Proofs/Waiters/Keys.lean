import Mathlib
import LiveHls.Proofs.CanonicalPart
import LiveHls.Proofs.Decimal.Reading
import LiveHls.Proofs.Playlist.Reader
import LiveHls.Waiters
/-! The keys under which waiting requests are counted. A key can be read back: it tells what is
waited for, up to the names of a part, and that is all that a verdict depends on. -/
namespace LiveHls

open Playlist (cut cut_append mem_cut number? number?_digits number?_eq_some integerText_eq)

/-- A number that is not negative and not above the limit. -/
def UpTo (limit : Nat) (n : Int) : Prop := 0 ≤ n ∧ n ≤ limit

instance (limit : Nat) (n : Int) : Decidable (UpTo limit n) := inferInstanceAs (Decidable (_ ∧ _))

theorem UpTo.exists {limit : Nat} {n : Int} (within : UpTo limit n) :
    ∃ m : Nat, n = m ∧ m ≤ limit := by
  obtain ⟨nonneg, le⟩ := within
  exact ⟨n.toNat, by omega, by omega⟩

namespace WaitTarget

variable {w : Window} {target : WaitTarget}

/-- The target with the canonical name of its part. -/
def canonical (w : Window) : WaitTarget → WaitTarget
  | .part sequence index =>
      .part (canonicalPart w sequence index).1 (canonicalPart w sequence index).2
  | target => target

/-- All numbers of the target are within the limit. -/
def Within (limit : Nat) : WaitTarget → Prop
  | .live | .production => True
  | .segment sequence | .complete sequence => UpTo limit sequence
  | .part sequence index => UpTo limit sequence ∧ UpTo limit index
  | .bytes sequence offset => UpTo limit sequence ∧ UpTo limit offset

instance (limit : Nat) : (target : WaitTarget) → Decidable (target.Within limit)
  | .live | .production => .isTrue trivial
  | .segment sequence | .complete sequence =>
      inferInstanceAs (Decidable (UpTo limit sequence))
  | .part _ _ | .bytes _ _ => inferInstanceAs (Decidable (_ ∧ _))

theorem key_canonical (w : Window) (target : WaitTarget) :
    (target.canonical w).key w = target.key w := by
  cases target with
  | part sequence index => simp only [canonical, key, Window.canonicalPart_idem]
  | live | production | segment sequence | complete sequence | bytes sequence offset => rfl

theorem evaluate_canonical (w : Window) (event : Option Production) (target : WaitTarget) :
    (target.canonical w).evaluate w event = target.evaluate w event := by
  cases target with
  | part sequence index => simp only [canonical, evaluate, Window.canonicalPart_idem]
  | live | production | segment sequence | complete sequence | bytes sequence offset => rfl

/-! ### Reading a key back -/

/-- Two numbers with a mark between them. -/
def pair? (mark : Char) (text : List Char) : Option (Nat × Nat) :=
  match number? (cut mark text).1, number? (cut mark text).2 with
  | some m, some n => some (m, n)
  | _, _ => none

/-- The target of a kind with the numbers written. -/
def ofParts? (kind : String) (numbers : List Char) : Option WaitTarget :=
  if kind = "live" then some .live
  else if kind = "production" then some .production
  else if kind = "segment" then (number? numbers).map fun n => .segment n
  else if kind = "complete" then (number? numbers).map fun n => .complete n
  else if kind = "part" then (pair? '.' numbers).map fun (m, n) => .part m n
  else if kind = "bytes" then (pair? '@' numbers).map fun (m, n) => .bytes m n
  else none

/-- The target that a key names. -/
def ofKey? (text : List Char) : Option WaitTarget :=
  ofParts? (String.ofList (cut ':' text).1) (cut ':' text).2

theorem pair?_digits {mark : Char} (other : mark.isDigit = false) (m n : Nat) :
    pair? mark (Nat.toDigits 10 m ++ mark :: Nat.toDigits 10 n) = some (m, n) := by
  have outside : mark ∉ Nat.toDigits 10 m := by
    intro member
    rw [Nat.isDigit_of_mem_toDigits (by decide) (by decide) member] at other
    cases other
  simp only [pair?, cut_append outside, number?_digits]

theorem key_segment {m : Nat} (le : m ≤ 2 ^ 53 - 1) : ((WaitTarget.segment m).key w).toList =
    "segment".toList ++ ':' :: Nat.toDigits 10 m := by
  change ("segment:" ++ integerText m).toList = _
  rw [String.toList_append, integerText_eq (Nat.le_trans le (by decide))]
  rfl

theorem key_complete {m : Nat} (le : m ≤ 2 ^ 53 - 1) : ((WaitTarget.complete m).key w).toList =
    "complete".toList ++ ':' :: Nat.toDigits 10 m := by
  change ("complete:" ++ integerText m).toList = _
  rw [String.toList_append, integerText_eq (Nat.le_trans le (by decide))]
  rfl

theorem key_bytes {m n : Nat} (le : m ≤ 2 ^ 53 - 1) (le' : n ≤ 2 ^ 53 - 1) :
    ((WaitTarget.bytes m n).key w).toList =
      "bytes".toList ++ ':' :: (Nat.toDigits 10 m ++ '@' :: Nat.toDigits 10 n) := by
  change ("bytes:" ++ integerText m ++ "@" ++ integerText n).toList = _
  simp only [String.toList_append, integerText_eq (Nat.le_trans le (by decide)),
    integerText_eq (Nat.le_trans le' (by decide)), List.append_assoc]
  rfl

theorem key_part (w : Window) (s k : Int) : ((WaitTarget.part s k).key w).toList =
    "part".toList ++ ':' :: ((integerText (canonicalPart w s k).1).toList ++
      '.' :: (integerText (canonicalPart w s k).2).toList) := by
  change ("part:" ++ integerText (canonicalPart w s k).1 ++ "." ++
    integerText (canonicalPart w s k).2).toList = _
  simp only [String.toList_append, List.append_assoc]
  rfl

theorem ofKey?_append {kind : List Char} (plain : ':' ∉ kind) (numbers : List Char) :
    ofKey? (kind ++ ':' :: numbers) = ofParts? (String.ofList kind) numbers := by
  rw [ofKey?, cut_append plain]

/-- A key tells the canonical target, if its numbers are exact. -/
theorem ofKey?_key (within : (target.canonical w).Within (2 ^ 53 - 1)) :
    ofKey? (target.key w).toList = some (target.canonical w) := by
  cases target with
  | live => exact (by decide : ofKey? "live".toList = some .live)
  | production => exact (by decide : ofKey? "production".toList = some .production)
  | segment sequence =>
      obtain ⟨m, rfl, le⟩ := UpTo.exists within
      rw [key_segment le, ofKey?_append (by decide)]
      simp [ofParts?, number?_digits, canonical]
  | complete sequence =>
      obtain ⟨m, rfl, le⟩ := UpTo.exists within
      rw [key_complete le, ofKey?_append (by decide)]
      simp [ofParts?, number?_digits, canonical]
  | bytes sequence offset =>
      obtain ⟨m, rfl, le⟩ := UpTo.exists within.1
      obtain ⟨n, rfl, le'⟩ := UpTo.exists within.2
      rw [key_bytes le le', ofKey?_append (by decide)]
      simp [ofParts?, pair?_digits, canonical]
  | part sequence index =>
      obtain ⟨m, first, le⟩ := UpTo.exists within.1
      obtain ⟨n, second, le'⟩ := UpTo.exists within.2
      rw [key_part, first, second, integerText_eq (Nat.le_trans le (by decide)),
        integerText_eq (Nat.le_trans le' (by decide)), ofKey?_append (by decide)]
      simp [ofParts?, pair?_digits, canonical, first, second]

/-! ### Parts of segments past the exact numbers -/

/-- What reads as two numbers has no letters but the mark. -/
theorem pair?_eq_some {mark : Char} {text : List Char} {m n : Nat}
    (read : pair? mark text = some (m, n)) :
    (∀ c ∈ text, c.isDigit = true ∨ c = mark) ∧ number? (cut mark text).1 = some m := by
  unfold pair? at read
  split at read
  · rename_i first second
    cases read
    refine ⟨fun c member => ?_, first⟩
    rcases mem_cut member with before | here | behind
    · exact .inl ((number?_eq_some first).1 c before)
    · exact .inr here
    · exact .inl ((number?_eq_some second).1 c behind)
  · cases read

theorem integerText_of_large {n : Nat} (large : 2 ^ 53 ≤ n) :
    Decimal.Digits (integerText n).toList ∧ 2 ^ 53 ≤ Nat.ofDigitChars 10 (integerText n).toList 0 ∨
      'e' ∈ (integerText n).toList ∨ 'I' ∈ (integerText n).toList := by
  rw [integerText, if_neg (show ¬ (n : Int).natAbs < Nat.pow 2 53 from Nat.not_lt.mpr large)]
  exact Decimal.text_of_atLeast (Binary64.atLeast_ofNat (by decide) (Nat.le_refl _) large)

/-- The key of a part in a segment from `2 ^ 53` on does not read as exact numbers. -/
theorem ofKey?_large {s k : Int} (far : 2 ^ 53 ≤ (canonicalPart w s k).1)
    (read : ofKey? ((WaitTarget.part s k).key w).toList = some target) :
    ¬ target.Within (2 ^ 53 - 1) := by
  obtain ⟨n, same⟩ := Int.eq_ofNat_of_zero_le (show 0 ≤ (canonicalPart w s k).1 by omega)
  have large : 2 ^ 53 ≤ n := by omega
  rw [key_part, same, ofKey?_append (by decide)] at read
  obtain ⟨⟨i, j⟩, parts, rfl⟩ := Option.map_eq_some_iff.mp (show (pair? '.' _).map _ = _ from read)
  obtain ⟨digits, first⟩ := pair?_eq_some parts
  have no {c : Char} (other : c.isDigit = false) (point : c ≠ '.') :
      c ∉ (integerText n).toList := by
    intro member
    rcases digits c (List.mem_append_left _ member) with digit | same
    · rw [other] at digit
      cases digit
    · exact point same
  rcases integerText_of_large large with ⟨all, least⟩ | letter | letter
  · have outside : '.' ∉ (integerText n).toList := fun member => absurd (all '.' member) (by decide)
    rw [cut_append outside] at first
    rw [(number?_eq_some first).2] at least
    intro within
    have most : (i : Int) ≤ (2 ^ 53 - 1 : Nat) := within.1.2
    omega
  · exact absurd letter (no (by decide) (by decide))
  · exact absurd letter (no (by decide) (by decide))

/-- The canonical name of a part with exact numbers is exact too, or moving on has led past all
exact numbers. Then it went through the start of segment `2 ^ 53`, and all parts for which it did
have one canonical name. -/
theorem canonical_cases (w : Window) (within : target.Within (2 ^ 53 - 1)) :
    (target.canonical w).Within (2 ^ 53 - 1) ∨
    target.canonical w = (WaitTarget.part (2 ^ 53) 0).canonical w ∧
      ∃ s k, target = .part s k ∧ 2 ^ 53 ≤ (canonicalPart w s k).1 := by
  cases target with
  | live | production | segment sequence | complete sequence | bytes sequence offset =>
      exact .inl within
  | part s k =>
      obtain ⟨first, second⟩ := within
      obtain ⟨rounds, -, rolls⟩ := w.exists_rollsTo s k
      have sequence := rolls.sequence
      have part := rolls.part
      have low := first.1
      have high := first.2
      by_cases near : (canonicalPart w s k).1 < 2 ^ 53
      · refine .inl ⟨⟨by omega, by omega⟩, ?_⟩
        rw [part]
        split_ifs
        · exact second
        · exact ⟨Int.le_refl 0, by omega⟩
      · have same := @Window.canonicalPart_through w s k (2 ^ 53) (by omega) (by omega)
        refine .inr ⟨?_, s, k, rfl, by omega⟩
        simp only [canonical, same]

/-- Keys tell targets apart, up to the names of a part. -/
theorem key_eq_iff {a b : WaitTarget} (first : a.Within (2 ^ 53 - 1))
    (second : b.Within (2 ^ 53 - 1)) : a.key w = b.key w ↔ a.canonical w = b.canonical w := by
  constructor
  · intro same
    rcases canonical_cases w first with near | ⟨far, s, k, rfl, large⟩ <;>
      rcases canonical_cases w second with near' | ⟨far', s', k', rfl, large'⟩
    · have read := ofKey?_key near
      rw [same, ofKey?_key near'] at read
      exact (Option.some.inj read).symm
    · have read := ofKey?_key near
      rw [same] at read
      exact absurd near (ofKey?_large large' read)
    · have read := ofKey?_key near'
      rw [← same] at read
      exact absurd near' (ofKey?_large large read)
    · exact far.trans far'.symm
  · intro same
    rw [← key_canonical, same, key_canonical]

end WaitTarget

/-! ### Counting -/

namespace Waiters

variable {τ : Type}

theorem lookup_tally (key k : String) (counts : List (String × Nat)) :
    (tally key counts).lookup k =
      if k = key then some ((counts.lookup key).getD 0 + 1) else counts.lookup k := by
  induction counts with
  | nil => by_cases own : k = key <;> simp [tally, List.lookup_cons, own, beq_eq_false_iff_ne.mpr]
  | cons first rest ih =>
      obtain ⟨name, n⟩ := first
      unfold tally
      by_cases here : name = key
      · subst here
        by_cases own : k = name
        · simp [own]
        · simp [own, List.lookup_cons, beq_eq_false_iff_ne.mpr own]
      · by_cases own : k = name
        · subst own
          simp [here]
        · rw [if_neg here, List.lookup_cons, List.lookup_cons, List.lookup_cons, ih]
          simp [beq_eq_false_iff_ne.mpr own, beq_eq_false_iff_ne.mpr (Ne.symm here)]

theorem tally_keys (key : String) (counts : List (String × Nat)) :
    (tally key counts).map Prod.fst =
      if key ∈ counts.map Prod.fst then counts.map Prod.fst else counts.map Prod.fst ++ [key] := by
  induction counts with
  | nil => rfl
  | cons first rest ih =>
      obtain ⟨name, n⟩ := first
      unfold tally
      by_cases here : name = key
      · simp [here]
      · rw [if_neg here, List.map_cons, ih]
        by_cases listed : key ∈ rest.map Prod.fst
        · simp [listed]
        · simp [listed, Ne.symm here]

theorem tally_sum (key : String) (counts : List (String × Nat)) :
    ((tally key counts).map Prod.snd).sum = (counts.map Prod.snd).sum + 1 := by
  induction counts with
  | nil => rfl
  | cons first rest ih =>
      obtain ⟨name, n⟩ := first
      unfold tally
      split_ifs with here
      · simp [Nat.add_right_comm]
      · simp [ih, Nat.add_assoc]

/-- Each key is listed once. -/
theorem pendingByKey_nodup (ws : Waiters τ) : (ws.pendingByKey.map Prod.fst).Nodup := by
  obtain ⟨label, parked, closed⟩ := ws
  induction parked using List.reverseRecOn with
  | nil => exact List.nodup_nil
  | append_singleton parked waiter ih =>
      rw [pendingByKey, List.foldl_append, List.foldl_cons, List.foldl_nil, tally_keys]
      split_ifs with listed
      · exact ih
      · rw [← List.concat_eq_append]
        exact ih.concat listed

/-- How many wait under a key. -/
def waitingFor (ws : Waiters τ) (key : String) : Nat := ws.parked.countP (·.key = key)

theorem getD_listed (n : Nat) : (if n = 0 then none else some n).getD 0 = n := by
  split_ifs with empty
  · exact empty.symm
  · rfl

/-- A key is listed with the number of those who wait under it, if there are any. -/
theorem lookup_pendingByKey (ws : Waiters τ) (key : String) :
    ws.pendingByKey.lookup key =
      if ws.waitingFor key = 0 then none else some (ws.waitingFor key) := by
  obtain ⟨label, parked, closed⟩ := ws
  induction parked using List.reverseRecOn with
  | nil => rfl
  | append_singleton parked waiter ih =>
      rw [pendingByKey, waitingFor] at ih
      rw [pendingByKey, List.foldl_append, List.foldl_cons, List.foldl_nil, lookup_tally,
        waitingFor, List.countP_append, List.countP_singleton]
      by_cases own : key = waiter.key
      · subst own
        rw [if_pos rfl, ih, getD_listed, decide_eq_true rfl, if_pos rfl,
          if_neg (Nat.succ_ne_zero _)]
      · rw [if_neg own, ih]
        simp [Ne.symm own]

/-- The counts add up to the number of all who wait. -/
theorem pendingByKey_sum (ws : Waiters τ) : (ws.pendingByKey.map Prod.snd).sum = ws.size := by
  obtain ⟨label, parked, closed⟩ := ws
  induction parked using List.reverseRecOn with
  | nil => rfl
  | append_singleton parked waiter ih =>
      rw [pendingByKey, List.foldl_append, List.foldl_cons, List.foldl_nil, tally_sum, size,
        List.length_append]
      exact congrArg (· + 1) ih

end Waiters

end LiveHls
