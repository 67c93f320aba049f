import LiveHls.Proofs.PlaylistPlan
import LiveHls.Proofs.Stream.Wakeup
/-! Plans by position. Where a playlist request lies, counted from the first segment of the window and
from its live edge, decides alone whether it is refused, served or parked. Whoever is parked waits
for something that the window still leaves open, or for a part that has come under another name. -/
namespace LiveHls

namespace PartLimit

/-- The limit is `d` parts or less. -/
def AtMost (d : Int) : PartLimit → Prop
  | .count n => n ≤ d
  | .unlimited => False
  | .refuseAll => True

/-- The limit is `d` parts or more. -/
def AtLeast (d : Int) : PartLimit → Prop
  | .count n => d ≤ n
  | .unlimited => True
  | .refuseAll => False

theorem refuses_iff (limit : PartLimit) (base part : Int) :
    limit.refuses base part = true ↔ limit.AtMost (part - base) := by
  cases limit with
  | count n =>
      simp only [refuses, AtMost, decide_eq_true_eq]
      omega
  | unlimited => simp [refuses, AtMost]
  | refuseAll => simp [refuses, AtMost]

theorem AtLeast.le {limit : PartLimit} {least d : Int} (atLeast : limit.AtLeast least)
    (atMost : limit.AtMost d) : least ≤ d := by
  cases limit with
  | count n => exact Int.le_trans atLeast atMost
  | unlimited => exact atMost.elim
  | refuseAll => exact atLeast.elim

end PartLimit

/-- A request is refused because it lies too far past the live edge. -/
def Fault.OutOfRange : Fault → Prop
  | .beyondNextSegment .. | .beyondFirstParts .. | .beyondLastPart .. => True
  | _ => False

/-! ### Positions -/

namespace Window

variable {w : Window} {limit : PartLimit} {sequence part : Option Nat}

/-- Too far past the live edge: behind the next segment, or as many parts past the newest one as the
limit says. The next segment has no parts yet. -/
def TooFar (w : Window) (limit : PartLimit) (sequence part : Option Nat) : Prop :=
  ∃ n ∈ sequence, w.lastSequence + 1 < n ∨ ∃ k ∈ part,
    (n = w.lastSequence + 1 ∧ limit.AtMost (k + 1)) ∨
    ∃ last, w.last? = some last ∧ n = last.sequence ∧ limit.AtMost (k + 1 - last.partCount)

/-- Before the first segment. -/
def Gone (w : Window) (sequence : Option Nat) : Prop :=
  ∃ n ∈ sequence, ∃ first, w.first? = some first ∧ n < first.sequence

/-- A part without its segment. -/
def Astray (sequence part : Option Nat) : Prop := sequence = none ∧ part ≠ none

theorem not_astray {n : Nat} : ¬ Astray (some n) part := by
  rintro ⟨⟨⟩, -⟩

/-- There is what is asked for: any segment, a part of a segment, or a segment that is sealed. -/
def AtHand (w : Window) (sequence part : Option Nat) : Prop :=
  sequence = none ∧ part = none ∧ w.segments ≠ [] ∨
    ∃ n ∈ sequence, ∃ a ∈ w.segments, a.sequence = n ∧
      ((∃ k ∈ part, k < a.partCount) ∨ part = none ∧ a.complete = true)

/-- A part past the end of a sealed segment that is not the last is there under its last name. -/
def RolledOver (w : Window) (sequence part : Option Nat) : Prop :=
  ∃ n ∈ sequence, ∃ k ∈ part, ∃ a ∈ w.segments, a.sequence = n ∧ a.complete = true ∧
    a.partCount ≤ k ∧ n < w.lastSequence ∧
    ∃ b ∈ w.segments, b.sequence = (canonicalPart w n k).1 ∧ (canonicalPart w n k).2 < b.partCount

theorem isEvicted_iff (n : Int) :
    w.isEvicted n = true ↔ ∃ first, w.first? = some first ∧ n < first.sequence := by
  unfold isEvicted
  cases w.first? with
  | none => simp
  | some first => simp

theorem gone_iff {n : Nat} : w.Gone (some n) ↔ w.isEvicted n = true := by
  rw [isEvicted_iff]
  constructor
  · rintro ⟨m, ⟨⟩, first, oldest, before⟩
    exact ⟨first, oldest, by omega⟩
  · rintro ⟨first, oldest, before⟩
    exact ⟨n, rfl, first, oldest, by omega⟩

theorem Gone.not_tooFar (h : Consecutive w.segments) (gone : w.Gone sequence) :
    ¬ w.TooFar limit sequence part := by
  obtain ⟨n, rfl, -⟩ := id gone
  have before := lt_lastSequence_of_evicted h (gone_iff.mp gone)
  rintro ⟨m, ⟨⟩, beyond | ⟨k, -, ⟨next, -⟩ | ⟨last, newest, own, -⟩⟩⟩
  · omega
  · omega
  · rw [lastSequence, newest] at before
    simp only at before
    omega

theorem Gone.not_atHand (h : Consecutive w.segments) (gone : w.Gone sequence) :
    ¬ w.AtHand sequence part := by
  obtain ⟨n, rfl, -⟩ := id gone
  have outside := gone_iff.mp gone
  rintro (⟨unnamed, -⟩ | ⟨m, ⟨⟩, a, member, rfl, -⟩)
  · cases unnamed
  · have inside := not_evicted_of_mem h member
    rw [outside] at inside
    cases inside

/-- What is there is within any limit of three parts or more. -/
theorem AtHand.not_tooFar (h : Consecutive w.segments) (three : limit.AtLeast 3)
    (atHand : w.AtHand sequence part) : ¬ w.TooFar limit sequence part := by
  rintro ⟨n, rfl, far⟩
  rcases atHand with ⟨unnamed, -⟩ | ⟨m, ⟨⟩, a, member, rfl, exists?⟩
  · cases unnamed
  · have newest := le_lastSequence h member
    rcases far with beyond | ⟨k, rfl, ⟨next, -⟩ | ⟨last, final, own, reached⟩⟩
    · omega
    · omega
    · rcases exists? with ⟨j, ⟨⟩, there⟩ | ⟨wanted, -⟩
      · obtain rfl := eq_of_sequence h member (List.mem_of_getLast? final) own
        have few := three.le reached
        omega
      · cases wanted

end Window

/-! ### Plans -/

namespace PlaylistRequest

open Window

variable {w : Window} {limit : PartLimit} {sequence part : Option Nat}

/-- The request for a part, for a segment, or for neither. -/
def of (sequence part : Option Nat) : PlaylistRequest :=
  ⟨sequence.map Int.ofNat, part.map Int.ofNat⟩

/-- What a request that cannot be answered yet waits for. -/
inductive WaitsFor (w : Window) : Option Nat → Option Nat → WaitTarget → Prop
  | live (empty : w.segments = []) : WaitsFor w none none .live
  | next {n : Nat} (next : n = w.lastSequence + 1) : WaitsFor w (some n) none (.segment n)
  | nextPart {n : Nat} (next : n = w.lastSequence + 1) (k : Nat) :
      WaitsFor w (some n) (some k) (.part n k)
  | complete {a : Segment} (member : a ∈ w.segments) (opened : a.complete = false) :
      WaitsFor w (some a.sequence) none (.complete a.sequence)
  | part {a : Segment} {k : Nat} (member : a ∈ w.segments) (past : a.partCount ≤ k) :
      WaitsFor w (some a.sequence) (some k) (.part a.sequence k)

/-- What is planned for a request, with its position. -/
inductive Placed (w : Window) (limit : PartLimit) (sequence part : Option Nat) : Plan → Prop
  | tooFar {fault : Fault} (far : w.TooFar limit sequence part) (kind : fault.OutOfRange) :
      Placed w limit sequence part (.refuse fault)
  | gone {n : Nat} (named : n ∈ sequence) (gone : w.Gone sequence) :
      Placed w limit sequence part (.refuse (.evicted (.whole n)))
  | astray (astray : Astray sequence part) :
      Placed w limit sequence part (.refuse .partWithoutSequence)
  | served (atHand : w.AtHand sequence part) : Placed w limit sequence part .serve
  | parked {target : WaitTarget} (within : ¬ w.TooFar limit sequence part)
      (inside : ¬ w.Gone sequence) (directed : ¬ Astray sequence part)
      (absent : ¬ w.AtHand sequence part) (waits : WaitsFor w sequence part target) :
      Placed w limit sequence part (.wait target)

theorem placed_undirected (w : Window) (limit : PartLimit) (part : Option Nat) :
    Placed w limit none part ((of none part).plan w limit) := by
  cases part with
  | some k => exact .astray ⟨rfl, nofun⟩
  | none =>
      unfold plan of
      cases empty : w.segments with
      | nil =>
          refine .parked ?_ ?_ ?_ ?_ (.live empty)
          · rintro ⟨n, ⟨⟩, -⟩
          · rintro ⟨n, ⟨⟩, -⟩
          · rintro ⟨-, given⟩
            exact given rfl
          · rintro (⟨-, -, filled⟩ | ⟨n, ⟨⟩, -⟩)
            exact filled empty
      | cons first rest => exact .served (.inl ⟨rfl, rfl, by rw [empty]; exact nofun⟩)

theorem placed_beyond {n : Nat} (beyond : w.lastSequence + 1 < n) (part : Option Nat) :
    Placed w limit (some n) part ((of (some n) part).plan w limit) := by
  have refused : (of (some n) part).plan w limit =
      .refuse (.beyondNextSegment n (w.lastSequence + 1)) := by
    simp only [plan, of, Option.map_some, Int.ofNat_eq_natCast]
    rw [if_pos beyond]
  rw [refused]
  exact .tooFar ⟨n, rfl, .inl beyond⟩ trivial

theorem placed_gone (h : Consecutive w.segments) {n : Nat} (evicted : w.isEvicted n = true)
    (part : Option Nat) : Placed w limit (some n) part ((of (some n) part).plan w limit) := by
  rw [of, Option.map_some, Int.ofNat_eq_natCast, plan_of_evicted h evicted]
  exact .gone rfl (gone_iff.mpr evicted)

theorem placed_next (h : Consecutive w.segments) {n : Nat} (next : (n : Int) = w.lastSequence + 1)
    (part : Option Nat) : Placed w limit (some n) part ((of (some n) part).plan w limit) := by
  have inside : ¬ w.Gone (some n) := by
    rw [gone_iff, next, next_not_evicted h]
    exact Bool.false_ne_true
  have absent : ¬ w.AtHand (some n) part := by
    rintro (⟨⟨⟩, -⟩ | ⟨m, ⟨⟩, a, member, rfl, -⟩)
    have newest := le_lastSequence h member
    omega
  rw [of, Option.map_some, Int.ofNat_eq_natCast, next, plan_next h]
  cases part with
  | none =>
      refine .parked ?_ inside not_astray absent (next ▸ .next next)
      rintro ⟨m, ⟨⟩, beyond | ⟨k, ⟨⟩, -⟩⟩
      exact absurd beyond (by omega)
  | some k =>
      simp only [Option.map_some, Int.ofNat_eq_natCast, planNext]
      split
      · rename_i refused
        have reached := (limit.refuses_iff _ _).mp refused
        rw [Int.sub_neg] at reached
        exact .tooFar ⟨n, rfl, .inr ⟨k, rfl, .inl ⟨next, reached⟩⟩⟩ trivial
      · rename_i admitted
        refine .parked ?_ inside not_astray absent (next ▸ .nextPart next k)
        rintro ⟨m, ⟨⟩, beyond | ⟨j, ⟨⟩, ⟨-, reached⟩ | ⟨last, newest, own, -⟩⟩⟩
        · omega
        · refine admitted ((limit.refuses_iff _ _).mpr ?_)
          rwa [Int.sub_neg]
        · rw [lastSequence, newest] at next
          simp only at next
          omega

theorem not_gone_of_mem (h : Consecutive w.segments) {a : Segment} (member : a ∈ w.segments) :
    ¬ w.Gone (some a.sequence) := by
  rw [gone_iff, not_evicted_of_mem h member]
  exact Bool.false_ne_true

theorem placed_segment (h : Consecutive w.segments) {a : Segment} (member : a ∈ w.segments) :
    Placed w limit (some a.sequence) none ((of (some a.sequence) none).plan w limit) := by
  have newest := le_lastSequence h member
  rw [of, Option.map_some, Int.ofNat_eq_natCast,
    plan_of_find? h ((find?_eq_some_iff h _ a).mpr ⟨member, rfl⟩)]
  simp only [Option.map_none, planPresent]
  split
  · rename_i complete
    exact .served (.inr ⟨_, rfl, a, member, rfl, .inr ⟨rfl, complete⟩⟩)
  · rename_i opened
    refine .parked ?_ (not_gone_of_mem h member) not_astray ?_
      (.complete member (Bool.eq_false_iff.mpr opened))
    · rintro ⟨m, ⟨⟩, beyond | ⟨k, ⟨⟩, -⟩⟩
      exact absurd beyond (by omega)
    · rintro (⟨⟨⟩, -⟩ | ⟨m, ⟨⟩, b, there, same, ⟨k, ⟨⟩, -⟩ | ⟨-, complete⟩⟩)
      rw [eq_of_sequence h there member same] at complete
      exact opened complete

/-- Past the newest part, the limit counts from the first part that is not there. -/
theorem refuses_newest_iff {last : Segment} (k : Nat) :
    limit.refuses (last.partCount - 1) k = true ↔ limit.AtMost (k + 1 - last.partCount) := by
  rw [limit.refuses_iff]
  rw [show (k : Int) - (last.partCount - 1) = k + 1 - last.partCount by omega]

theorem placed_part (h : Consecutive w.segments) {a : Segment} (member : a ∈ w.segments) (k : Nat) :
    Placed w limit (some a.sequence) (some k)
      ((of (some a.sequence) (some k)).plan w limit) := by
  have newest := le_lastSequence h member
  rw [of, Option.map_some, Int.ofNat_eq_natCast,
    plan_of_find? h ((find?_eq_some_iff h _ a).mpr ⟨member, rfl⟩)]
  simp only [Option.map_some, Int.ofNat_eq_natCast, planPresent]
  split
  · rename_i refused
    obtain ⟨edge, refused⟩ := (Bool.and_eq_true _ _).mp refused
    have edge := of_decide_eq_true edge
    obtain ⟨before, last, concat⟩ := (List.eq_nil_or_concat' w.segments).resolve_left
      (List.ne_nil_of_mem member)
    have final : w.last? = some last := by rw [last?, concat, List.getLast?_concat]
    rw [lastSequence_concat concat] at edge
    obtain rfl := eq_of_sequence h (List.mem_of_getLast? final) member (by omega)
    exact .tooFar ⟨_, rfl, .inr ⟨k, rfl, .inr ⟨last, final, rfl,
      (refuses_newest_iff k).mp refused⟩⟩⟩ trivial
  · rename_i admitted
    split
    · rename_i there
      exact .served (.inr ⟨_, rfl, a, member, rfl, .inl ⟨k, rfl, by omega⟩⟩)
    · rename_i missing
      refine .parked ?_ (not_gone_of_mem h member) not_astray ?_
        (.part member (by omega))
      · rintro ⟨m, ⟨⟩, beyond | ⟨j, ⟨⟩, ⟨next, -⟩ | ⟨last, final, same, reached⟩⟩⟩
        · omega
        · omega
        · obtain rfl := eq_of_sequence h (List.mem_of_getLast? final) member same.symm
          refine admitted ((Bool.and_eq_true _ _).mpr
            ⟨decide_eq_true ?_, (refuses_newest_iff k).mpr reached⟩)
          rw [lastSequence, final]
      · rintro (⟨⟨⟩, -⟩ | ⟨m, ⟨⟩, b, there, same, ⟨j, ⟨⟩, exists?⟩ | ⟨⟨⟩, -⟩⟩)
        rw [eq_of_sequence h there member same] at exists?
        omega

/-- Every request has its place, and the place decides. -/
theorem placed (h : Consecutive w.segments) (limit : PartLimit) (sequence part : Option Nat) :
    Placed w limit sequence part ((of sequence part).plan w limit) := by
  cases sequence with
  | none => exact placed_undirected w limit part
  | some n =>
      rcases evicted_or_found_or_ahead h n with gone | ⟨a, found⟩ | empty | ahead
      · exact placed_gone h gone part
      · obtain ⟨member, same⟩ := (find?_eq_some_iff h _ a).mp found
        obtain rfl : a.sequence = n := by omega
        cases part with
        | none => exact placed_segment h member
        | some k => exact placed_part h member k
      · have last := lastSequence_nil empty
        by_cases next : (n : Int) = w.lastSequence + 1
        · exact placed_next h next part
        · exact placed_beyond (by omega) part
      · by_cases next : (n : Int) = w.lastSequence + 1
        · exact placed_next h next part
        · exact placed_beyond (by omega) part

/-- The position of a request decides its plan. -/
structure ByPosition (w : Window) (limit : PartLimit) (sequence part : Option Nat) (plan : Plan) :
    Prop where
  /-- Too far past the live edge is out of range. -/
  tooFar : (∃ fault, plan = .refuse fault ∧ fault.OutOfRange) ↔ w.TooFar limit sequence part
  /-- Before the first segment is what has left the window. -/
  gone : (∃ n ∈ sequence, plan = .refuse (.evicted (.whole n))) ↔ w.Gone sequence
  astray : plan = .refuse .partWithoutSequence ↔ Astray sequence part
  served : plan = .serve ↔ w.AtHand sequence part
  /-- The rest waits. -/
  parked : (∃ target, plan = .wait target) ↔
    ¬ w.TooFar limit sequence part ∧ ¬ w.Gone sequence ∧ ¬ Astray sequence part ∧
      ¬ w.AtHand sequence part

/-- No two of the places overlap, so each plan is made in its own place only. -/
theorem Placed.byPosition {plan : Plan} (h : Consecutive w.segments) (three : limit.AtLeast 3)
    (placed : Placed w limit sequence part plan) : ByPosition w limit sequence part plan := by
  have unnamed : Astray sequence part → ∀ n, n ∉ sequence := by
    rintro ⟨rfl, -⟩ n ⟨⟩
  have far_named : w.TooFar limit sequence part → ¬ Astray sequence part :=
    fun ⟨n, named, _⟩ astray => unnamed astray n named
  have gone_named : w.Gone sequence → ¬ Astray sequence part :=
    fun ⟨n, named, _⟩ astray => unnamed astray n named
  have absent : Astray sequence part → ¬ w.AtHand sequence part := by
    rintro astray (⟨-, unnumbered, -⟩ | ⟨n, named, -⟩)
    · exact astray.2 unnumbered
    · exact unnamed astray n named
  have never {p q : Prop} (refuted : ¬ p) (other : ¬ q) : p ↔ q := iff_of_false refuted other
  cases placed with
  | tooFar far kind =>
      rename_i fault
      refine ⟨iff_of_true ⟨fault, rfl, kind⟩ far, ?_, ?_, ?_, ?_⟩
      · refine never ?_ fun gone => gone.not_tooFar h far
        rintro ⟨n, -, ⟨⟩⟩
        exact kind
      · refine never ?_ (far_named far)
        rintro ⟨⟩
        exact kind
      · exact never nofun fun atHand => atHand.not_tooFar h three far
      · exact never nofun fun rest => rest.1 far
  | gone named gone =>
      refine ⟨never ?_ (gone.not_tooFar h), iff_of_true ⟨_, named, rfl⟩ gone,
        never nofun (gone_named gone), never nofun (gone.not_atHand h),
        never nofun fun rest => rest.2.1 gone⟩
      rintro ⟨fault, ⟨⟩, kind⟩
      exact kind
  | astray astray =>
      refine ⟨never ?_ fun far => far_named far astray, never nofun fun gone => gone_named gone astray,
        iff_of_true rfl astray, never nofun (absent astray), never nofun fun rest => rest.2.2.1 astray⟩
      rintro ⟨fault, ⟨⟩, kind⟩
      exact kind
  | served atHand =>
      exact ⟨never nofun (atHand.not_tooFar h three), never nofun fun gone => gone.not_atHand h atHand,
        never nofun fun astray => absent astray atHand, iff_of_true rfl atHand,
        never nofun fun rest => rest.2.2.2 atHand⟩
  | parked within inside directed away waits =>
      exact ⟨never nofun within, never nofun inside, never nofun directed, never nofun away,
        iff_of_true ⟨_, rfl⟩ ⟨within, inside, directed, away⟩⟩

theorem Placed.waitsFor {target : WaitTarget} (placed : Placed w limit sequence part (.wait target)) :
    WaitsFor w sequence part target := by
  cases placed with
  | parked within inside directed away waits => exact waits

end PlaylistRequest

/-- What is neither behind the window nor ahead of it is found in it. -/
theorem Window.found_of_within {w : Window} (h : Consecutive w.segments) {n : Int} (nonneg : 0 ≤ n)
    (within : n ≤ w.lastSequence) (inside : w.isEvicted n = false) : (w.find? n).isSome = true := by
  rcases evicted_or_found_or_ahead h n with gone | ⟨a, found⟩ | empty | ahead
  · rw [gone] at inside
    cases inside
  · rw [found, Option.isSome_some]
  · rw [lastSequence_nil empty] at within
    omega
  · omega

/-! ### Targets of parked requests -/

namespace WaitTarget

variable {w : Window}

theorem ready_iff_mem (h : Consecutive w.segments) (s : Int) (holds : Segment → Bool) :
    evaluateSegment w s holds = .ready ↔
      ∃ a ∈ w.segments, (a.sequence : Int) = s ∧ holds a = true := by
  rw [evaluateSegment_eq_ready_iff]
  constructor
  · rintro ⟨-, a, found, held⟩
    obtain ⟨member, same⟩ := (Window.find?_eq_some_iff h s a).mp found
    exact ⟨a, member, same, held⟩
  · rintro ⟨a, member, rfl, held⟩
    exact ⟨Window.not_evicted_of_mem h member, a,
      (Window.find?_eq_some_iff h _ a).mpr ⟨member, rfl⟩, held⟩

/-- A part past the end of a segment is there only if that segment is sealed and others follow. -/
theorem past_of_ready (h : Consecutive w.segments) {a : Segment} (member : a ∈ w.segments) {k : Nat}
    (past : a.partCount ≤ k) {event : Option Production}
    (ready : (WaitTarget.part a.sequence k).evaluate w event = .ready) :
    a.complete = true ∧ (a.sequence : Int) < w.lastSequence := by
  obtain ⟨before, rest, split⟩ := List.append_of_mem member
  rw [evaluate_part (Window.not_evicted_of_mem h member), Window.segmentsFrom_of_split h split] at ready
  have there : partExists (a :: rest) k = true := by
    unfold Verdict.readyIf at ready
    split_ifs at ready with there
    exact there
  unfold partExists at there
  split_ifs at there with rolls
  · refine ⟨((Bool.and_eq_true _ _).mp rolls).1, ?_⟩
    cases rest with
    | nil => cases there
    | cons b rest =>
        have follows := (split ▸ h).right.rel.next
        have newest := Window.le_lastSequence h (a := b) (by rw [split]; simp)
        omega
  · have short := of_decide_eq_true there
    omega

end WaitTarget

namespace PlaylistRequest.WaitsFor

open Window

variable {w : Window} {sequence part : Option Nat} {target : WaitTarget}

/-- Nobody is parked for something that has left the window. -/
theorem not_rejected (h : Consecutive w.segments) (waits : WaitsFor w sequence part target)
    (event : Option Production) (fault : Fault) : target.evaluate w event ≠ .rejected fault := by
  have judged : ∀ s holds, w.isEvicted s = false →
      WaitTarget.evaluateSegment w s holds ≠ .rejected fault := by
    intro s holds inside rejected
    rw [(WaitTarget.evaluateSegment_eq_rejected_iff.mp rejected).1] at inside
    cases inside
  have partly : ∀ s index, w.isEvicted s = false →
      (WaitTarget.part s index).evaluate w event ≠ .rejected fault := by
    intro s index inside rejected
    rw [(WaitTarget.evaluate_part_eq_rejected_iff.mp rejected).1] at inside
    cases inside
  cases waits with
  | live empty =>
      rw [WaitTarget.evaluate, empty]
      rintro ⟨⟩
  | next next => exact judged _ _ (next ▸ next_not_evicted h)
  | complete member opened => exact judged _ _ (not_evicted_of_mem h member)
  | nextPart next k => exact partly _ _ (next ▸ next_not_evicted h)
  | part member past => exact partly _ _ (not_evicted_of_mem h member)

/-- Who is parked although the target holds is parked for a part that has another name. -/
theorem ready_iff (h : Consecutive w.segments) (waits : WaitsFor w sequence part target)
    (event : Option Production) :
    target.evaluate w event = .ready ↔ w.RolledOver sequence part := by
  cases waits with
  | live empty =>
      rw [WaitTarget.evaluate, empty]
      constructor
      · rintro ⟨⟩
      · rintro ⟨n, ⟨⟩, -⟩
  | next next =>
      rw [WaitTarget.evaluate, WaitTarget.ready_iff_mem h]
      constructor
      · rintro ⟨a, member, same, -⟩
        have newest := le_lastSequence h member
        omega
      · rintro ⟨n, -, k, ⟨⟩, -⟩
  | complete member opened =>
      rename_i a
      rw [WaitTarget.evaluate, WaitTarget.ready_iff_mem h]
      constructor
      · rintro ⟨b, there, same, complete⟩
        obtain rfl := eq_of_sequence h member there (Int.ofNat.inj same.symm)
        rw [opened] at complete
        cases complete
      · rintro ⟨n, -, k, ⟨⟩, -⟩
  | nextPart next k =>
      rename_i n
      have ended : w.segmentsFrom n = [] := List.head?_eq_none_iff.mp (next ▸ find?_next h)
      rw [WaitTarget.evaluate_part (next ▸ next_not_evicted h), ended]
      constructor
      · rintro ⟨⟩
      · rintro ⟨m, ⟨⟩, j, -, a, -, -, -, -, before, -⟩
        omega
  | part member past =>
      rename_i a k
      constructor
      · intro ready
        obtain ⟨complete, before⟩ := WaitTarget.past_of_ready h member past ready
        obtain ⟨b, there, same, holds⟩ := (WaitTarget.ready_iff_mem h _ _).mp ready
        exact ⟨_, rfl, k, rfl, a, member, rfl, complete, past, before, b, there, same,
          of_decide_eq_true holds⟩
      · rintro ⟨n, ⟨⟩, j, ⟨⟩, -, -, -, -, -, -, b, there, same, holds⟩
        exact (WaitTarget.ready_iff_mem h _ _).mpr
          ⟨b, there, same, decide_eq_true holds⟩

end PlaylistRequest.WaitsFor

namespace Stream

/-- The position of a playlist request decides its plan, on every window that a stream can reach.
No request waits for what is lost, and a request waits for what is there only under an older name of
a part. A segment that is neither behind the window nor ahead of it is always found. -/
theorem requests_are_planned_by_position {id : String} {settings : Settings} {size : Float}
    {now : Int} {start : Stream} (created : Stream.create id settings size now = .ok start)
    (events : List Event) {limit : PartLimit} (three : limit.AtLeast 3)
    (sequence part : Option Nat) :
    let w := (start.run events).window
    let plan := (PlaylistRequest.of sequence part).plan w limit
    PlaylistRequest.ByPosition w limit sequence part plan ∧
    (∀ target event, plan = .wait target →
      (∀ fault, target.evaluate w event ≠ .rejected fault) ∧
      (target.evaluate w event = .ready ↔ w.RolledOver sequence part)) ∧
    (∀ n ∈ sequence, (n : Int) ≤ w.lastSequence → w.isEvicted n = false →
      (w.find? n).isSome = true) := by
  intro w plan
  have h : Consecutive w.segments :=
    (run_consistent (create_consistent created) events).wellFormed.consecutive
  have placed := PlaylistRequest.placed h limit sequence part
  refine ⟨placed.byPosition h three, ?_, ?_⟩
  · intro target event waiting
    have parked : PlaylistRequest.Placed w limit sequence part (.wait target) := waiting ▸ placed
    exact ⟨parked.waitsFor.not_rejected h event, parked.waitsFor.ready_iff h event⟩
  · intro n _ within inside
    exact Window.found_of_within h (Int.natCast_nonneg n) within inside

/-- Under a limit of three parts, the third part past the live edge is out of range and the second
waits. -/
theorem requests_are_planned_by_position_of_three :
    let w := ((plain 2).run [.call (.put ⟨.whole 0, [], none, false⟩) 1]).window
    Stream.create "live" plainSettings 2.0 0 = .ok (plain 2) ∧
    (PartLimit.count 3).AtLeast 3 ∧
    (∃ fault, (PlaylistRequest.of (some 0) (some 2)).plan w (.count 3) = .refuse fault ∧
      fault.OutOfRange) ∧
    ∃ target, (PlaylistRequest.of (some 0) (some 1)).plan w (.count 3) = .wait target := by
  have created := @create_plain 2.0 2 (by decide) (by decide)
  have three : (PartLimit.count 3).AtLeast 3 := Int.le_refl 3
  have planned := @requests_are_planned_by_position _ _ _ _ _ created
    [.call (.put ⟨.whole 0, [], none, false⟩) 1] _ three
  have far := (planned (some 0) (some 2)).1.tooFar
  refine ⟨created, three, far.mpr ?_, _, rfl⟩
  exact ⟨0, rfl, .inr ⟨2, rfl, .inr ⟨_, rfl, rfl, Int.le_refl 3⟩⟩⟩

end Stream
end LiveHls
