import LiveHls.Proofs.Window.Lookup
/-! The calls of a producer, and what each makes of a window. A call that succeeds either revises
one open segment in its place or starts a segment behind the last. -/
namespace LiveHls

/-- Two steps end well only if the first gives a value and the second does with it. -/
theorem bind_eq_ok {ε α β : Type} {x : Except ε α} {f : α → Except ε β} {y : β}
    (ok : x >>= f = .ok y) : ∃ a, x = .ok a ∧ f a = .ok y := by
  cases x with
  | error fault => cases ok
  | ok a => exact ⟨a, rfl, ok⟩

theorem Numeral.toInt?_of_toNat? {number : Numeral} {n : Nat} (whole : number.toNat? = some n) :
    number.toInt? = some (n : Int) := by
  obtain ⟨m, integer, natural⟩ := Option.bind_eq_some_iff.mp whole
  split_ifs at natural with positive
  cases natural
  rw [integer, Int.toNat_of_nonneg positive]

/-- What a producer asks for. -/
inductive ProducerCall where
  | put (new : NewSegment)
  | append (number : Numeral) (part : Part) (discontinuity : Bool)
  | close (number : Numeral) (duration : Option Float)

namespace ProducerCall

def event : ProducerCall → Production
  | .put _ => .put
  | .append .. => .part
  | .close .. => .seal

end ProducerCall

/-- One segment is a later state of another: parts are only added, and nothing changes once the
segment is sealed. -/
structure Segment.Grows (a b : Segment) : Prop where
  sequence : b.sequence = a.sequence
  partCount : a.partCount ≤ b.partCount
  complete : a.complete = true → b = a

namespace Segment

theorem Grows.refl (a : Segment) : a.Grows a := ⟨rfl, Nat.le_refl _, fun _ => rfl⟩

theorem Grows.trans {a b c : Segment} (hab : a.Grows b) (hbc : b.Grows c) : a.Grows c := by
  refine ⟨hbc.sequence.trans hab.sequence, Nat.le_trans hab.partCount hbc.partCount, ?_⟩
  intro complete
  have same := hab.complete complete
  subst same
  exact hbc.complete complete

theorem Grows.sealed {a b : Segment} (h : a.Grows b) (complete : a.complete = true) :
    b.complete = true := by
  rw [h.complete complete]
  exact complete

theorem placeAt_length (offset : Nat) (part : Part) (parts : List PlacedPart) :
    parts.length ≤ (placeAt offset part parts).length := by
  induction parts with
  | nil => exact Nat.zero_le _
  | cons p rest ih =>
      simp only [placeAt]
      split
      · exact Nat.le_refl _
      · exact Nat.succ_le_succ ih

theorem append_grows {a b : Segment} {part : Part} {discontinuity : Bool}
    (ok : a.append part discontinuity = .ok b) : a.complete = false ∧ a.Grows b := by
  unfold append at ok
  split at ok
  · cases ok
  · rename_i opened
    cases ok
    refine ⟨Bool.eq_false_iff.mpr opened, rfl, placeAt_length _ _ _, ?_⟩
    intro complete
    exact absurd complete opened

theorem close_grows {a b : Segment} {duration : Float} (ok : a.close duration = .ok b) :
    a.complete = false ∧ a.Grows b := by
  unfold close at ok
  split at ok
  · cases ok
  · rename_i opened
    cases ok
    exact ⟨Bool.eq_false_iff.mpr opened, rfl, Nat.le_refl _, fun complete => absurd complete opened⟩

theorem closeIfOpen_complete (a : Segment) : a.closeIfOpen.complete = true := by
  unfold closeIfOpen
  split
  · assumption
  · rfl

theorem closeIfOpen_grows (a : Segment) : a.Grows a.closeIfOpen := by
  unfold closeIfOpen
  split
  · exact .refl a
  · rename_i opened
    exact ⟨rfl, Nat.le_refl _, fun complete => absurd complete opened⟩

theorem closeIfOpen_partCount (a : Segment) : a.closeIfOpen.partCount = a.partCount := by
  unfold closeIfOpen
  split <;> rfl

/-- A segment after a call on it. A call that fails leaves it as it is. -/
def after (a : Segment) (call : Segment → Except Fault Segment) : Segment :=
  match call a with
  | .ok b => b
  | .error _ => a

/-- The sum of durations, from the first on. -/
def sumFrom (sum : Float) : List Float → Float
  | [] => sum
  | duration :: rest => sumFrom (sum + duration) rest

/-- The sum of the durations of the parts. -/
def sumOfParts (a : Segment) : Float := sumFrom 0.0 (a.parts.map fun p => p.part.duration)

theorem partsDuration_eq (a : Segment) : a.partsDuration = a.sumOfParts := by
  unfold partsDuration sumOfParts
  generalize (0.0 : Float) = sum
  induction a.parts generalizing sum with
  | nil => rfl
  | cons p rest ih => exact ih (sum + p.part.duration)

theorem after_close (a : Segment) :
    (a.after fun a => a.close a.sumOfParts) = a.closeIfOpen := by
  by_cases complete : a.complete = true
  · simp only [after, close, closeIfOpen, if_pos complete]
  · simp only [after, close, closeIfOpen, if_neg complete, partsDuration_eq]

/-- Seals the last segment with the sum of its part durations. -/
def sealLast : List Segment → List Segment
  | [] => []
  | [last] => [last.after fun a => a.close a.sumOfParts]
  | a :: b :: rest => a :: sealLast (b :: rest)

/-- The segments after another one has been started behind them, before any is dropped. -/
def started (segments : List Segment) (new : Segment) : List Segment :=
  sealLast segments ++ [new]

theorem sealLast_concat (before : List Segment) (last : Segment) :
    sealLast (before ++ [last]) = before ++ [last.closeIfOpen] := by
  induction before with
  | nil => simp only [List.nil_append, sealLast, after_close]
  | cons a before ih =>
      cases before with
      | nil => simp only [List.cons_append, List.nil_append, sealLast, after_close]
      | cons b before => exact congrArg (a :: ·) ih

theorem started_concat (before : List Segment) (last new : Segment) :
    started (before ++ [last]) new = before ++ [last.closeIfOpen] ++ [new] := by
  rw [started, sealLast_concat]

theorem started_append {segments : List Segment} (dropped : List Segment) (new : Segment)
    (nonempty : segments ≠ []) :
    started (dropped ++ segments) new = dropped ++ started segments new := by
  obtain ⟨before, last, rfl⟩ := (List.eq_nil_or_concat' segments).resolve_left nonempty
  rw [← List.append_assoc, started_concat, started_concat]
  simp only [List.append_assoc]

theorem started_length (segments : List Segment) (new : Segment) :
    (started segments new).length = segments.length + 1 := by
  rcases List.eq_nil_or_concat' segments with rfl | ⟨before, last, rfl⟩
  · rfl
  · rw [started_concat]
    simp only [List.length_append, List.length_singleton]

theorem started_partCounts (segments : List Segment) (new : Segment) :
    (started segments new).map partCount = segments.map partCount ++ [new.partCount] := by
  rcases List.eq_nil_or_concat' segments with rfl | ⟨before, last, rfl⟩
  · rfl
  · rw [started_concat]
    simp only [List.map_append, List.map_cons, List.map_nil, closeIfOpen_partCount]

theorem started_cons (a : Segment) (rest : List Segment) (new : Segment) :
    ∃ b, a.Grows b ∧ started (a :: rest) new = b :: started rest new := by
  cases rest with
  | nil => exact ⟨_, closeIfOpen_grows a, started_concat [] a new⟩
  | cons b rest => exact ⟨a, .refl a, rfl⟩

/-- Room for the new segment is made, if at all, by dropping the first. -/
theorem drop_started (a : Segment) {rest : List Segment} {capacity : Nat}
    (bounded : rest.length + 1 ≤ capacity) (new : Segment) :
    let all := started (a :: rest) new
    all.drop (all.length - capacity) = all ∨
      rest.length + 1 = capacity ∧ all.drop (all.length - capacity) = started rest new := by
  intro all
  have length : all.length = rest.length + 1 + 1 := started_length (a :: rest) new
  by_cases room : rest.length + 1 < capacity
  · left
    rw [length, Nat.sub_eq_zero_of_le (by omega), List.drop_zero]
  · right
    obtain ⟨b, -, cons⟩ := started_cons a rest new
    have one : rest.length + 1 + 1 - capacity = 1 := by omega
    refine ⟨by omega, ?_⟩
    rw [length, one, show all = b :: started rest new from cons, List.drop_one, List.tail_cons]

/-- Every segment is still there, at most sealed, right after another one has been started. -/
theorem started_kept {segments : List Segment} {a : Segment} (member : a ∈ segments)
    (new : Segment) : ∃ b ∈ started segments new, a.Grows b := by
  rcases List.eq_nil_or_concat' segments with rfl | ⟨before, last, rfl⟩
  · cases member
  · rw [started_concat]
    rcases List.mem_append.mp member with earlier | same
    · exact ⟨a, by simp [earlier], .refl a⟩
    · rw [List.mem_singleton.mp same]
      exact ⟨last.closeIfOpen, by simp, last.closeIfOpen_grows⟩

end Segment

namespace Consecutive

theorem replace {before after : List Segment} {a b : Segment}
    (h : Consecutive (before ++ a :: after)) (grows : a.Grows b) :
    Consecutive (before ++ b :: after) := by
  obtain ⟨hl, hr, link⟩ := List.isChain_append.mp h
  refine List.isChain_append.mpr ⟨hl, ?_, ?_⟩
  · cases after with
    | nil => exact .singleton b
    | cons c after =>
        obtain ⟨first, rest⟩ := List.isChain_cons_cons.mp hr
        refine .cons_cons ⟨?_, grows.sealed first.complete⟩ rest
        rw [first.next, grows.sequence]
  · intro x hx y hy
    obtain rfl : b = y := by simpa using hy
    have last := link x hx a rfl
    exact ⟨by rw [grows.sequence, last.next], last.complete⟩

theorem concat {before : List Segment} {a b : Segment} (h : Consecutive (before ++ [a]))
    (ha : a.complete = true) (next : b.sequence = a.sequence + 1) :
    Consecutive (before ++ [a] ++ [b]) := by
  refine List.IsChain.append h (.singleton b) ?_
  intro x hx y hy
  obtain rfl : a = x := by simpa using hx
  obtain rfl : b = y := by simpa using hy
  exact ⟨next, ha⟩

/-- The next segment may be started behind the last one. -/
theorem started {segments : List Segment} (h : Consecutive segments) (new : Segment)
    (next : ∀ last, segments.getLast? = some last → new.sequence = last.sequence + 1) :
    Consecutive (Segment.started segments new) := by
  rcases List.eq_nil_or_concat' segments with rfl | ⟨before, last, rfl⟩
  · exact .singleton new
  · rw [Segment.started_concat]
    refine (h.replace last.closeIfOpen_grows).concat last.closeIfOpen_complete ?_
    rw [last.closeIfOpen_grows.sequence]
    exact next last List.getLast?_concat

end Consecutive

namespace Window

/-- What every window of a buffer satisfies. -/
structure WellFormed (capacity : Nat) (w : Window) : Prop where
  consecutive : Consecutive w.segments
  bounded : w.segments.length ≤ capacity

theorem WellFormed.empty (capacity : Nat) : WellFormed capacity .empty :=
  ⟨.nil, Nat.zero_le _⟩

def perform (stream : String) (capacity : Nat) (w : Window) (now : Int) :
    ProducerCall → Except Fault Window
  | .put new => w.put capacity new now
  | .append number part discontinuity => w.append stream number part discontinuity
  | .close number duration => w.close stream number duration

/-- Replaces the segment that a producer names by what `f` makes of it. -/
def revise (stream : String) (w : Window) (number : Numeral)
    (f : Segment → Except Fault Segment) : Except Fault Window := do
  let (i, segment) ← w.locate stream number
  return w.setAt i (← f segment)

theorem close_eq_revise (stream : String) (w : Window) (number : Numeral)
    (duration : Option Float) : w.close stream number duration =
      w.revise stream number fun a => a.close (duration.getD a.partsDuration) := rfl

theorem locate_eq_ok {stream : String} {w : Window} {number : Numeral} {i : Nat} {a : Segment}
    (ok : w.locate stream number = .ok (i, a)) :
    w.named? number = some a ∧ w.segments[i]? = some a := by
  unfold locate at ok
  split at ok
  · rename_i place named
    obtain ⟨s, whole, place⟩ := Option.bind_eq_some_iff.mp named
    split at ok
    · rename_i segment here
      cases ok
      refine ⟨?_, here⟩
      simp only [named?, whole, Option.bind_some, find?, segmentsFrom, place, List.head?_drop, here]
    · cases ok
  · cases ok

/-- A revision that succeeds replaces the one segment that carries the sequence named. -/
theorem revise_eq_ok {stream : String} {w v : Window} {number : Numeral}
    {f : Segment → Except Fault Segment} (h : Consecutive w.segments)
    (ok : w.revise stream number f = .ok v) :
    ∃ before a b after, w.segments = before ++ a :: after ∧
      number.toInt? = some (a.sequence : Int) ∧ f a = .ok b ∧
      v = { w with segments := before ++ b :: after, version := w.version + 1 } := by
  obtain ⟨⟨i, a⟩, located, ok⟩ := bind_eq_ok ok
  obtain ⟨b, revised, ok⟩ := bind_eq_ok ok
  cases ok
  obtain ⟨named, here⟩ := locate_eq_ok located
  obtain ⟨hi, rfl⟩ := List.getElem?_eq_some_iff.mp here
  refine ⟨w.segments.take i, w.segments[i], b, w.segments.drop (i + 1), ?_,
    ((named?_eq_some_iff h number _).mp named).2, revised, ?_⟩
  · rw [List.getElem_cons_drop, List.take_append_drop]
  · rw [setAt, List.set_eq_take_append_cons_drop, if_pos hi]

theorem accept_eq_ok {w : Window} {number : Numeral} {sequence : Nat}
    (ok : w.accept number = .ok sequence) :
    number.toNat? = some sequence ∧ ∀ last, w.last? = some last → sequence = last.sequence + 1 := by
  unfold accept at ok
  split at ok
  · cases ok
  · rename_i n whole
    split at ok
    · rename_i last newest
      split at ok
      · rename_i next
        cases ok
        refine ⟨whole, fun other same => ?_⟩
        rw [newest] at same
        cases same
        exact next
      · cases ok
    · rename_i absent
      cases ok
      exact ⟨whole, fun last named => by rw [absent] at named; cases named⟩

theorem closeLast_eq (w : Window) :
    w.closeLast = { w with segments := Segment.sealLast w.segments } := by
  rcases List.eq_nil_or_concat' w.segments with segments | ⟨before, last, segments⟩
  · simp only [closeLast, last?, segments, List.getLast?_nil, Segment.sealLast]
    rw [← segments]
  · simp only [closeLast, last?, segments, List.getLast?_concat, List.dropLast_concat,
      Segment.sealLast_concat]

/-- A put that succeeds starts the next segment and drops the segments beyond the capacity. -/
theorem put_eq_ok {capacity : Nat} {w v : Window} {new : NewSegment} {now : Int}
    (ok : w.put capacity new now = .ok v) :
    ∃ sequence, new.number.toNat? = some sequence ∧
      (∀ last, w.segments.getLast? = some last → sequence = last.sequence + 1) ∧
      v = { Window.evict capacity
              { w with segments := Segment.started w.segments (.start sequence new now) } with
            version := w.version + 1 } := by
  unfold put at ok
  cases accepted : w.accept new.number with
  | error fault =>
      rw [accepted] at ok
      cases ok
  | ok sequence =>
      rw [accepted] at ok
      cases ok
      obtain ⟨whole, next⟩ := accept_eq_ok accepted
      refine ⟨sequence, whole, next, ?_⟩
      rw [closeLast_eq]
      rfl

end Window

end LiveHls
