import LiveHls.Proofs.Segment.Content
import LiveHls.Proofs.Window.Succession
/-! What a call does to the data in a window. Each segment that is left was there before and has
become what the call makes of it, or it has just been started. Data is only ever added at the end
of a segment. -/
namespace LiveHls

/-- Whether a call is made on the segment with a sequence. -/
def ProducerCall.Names (sequence : Nat) : ProducerCall → Prop
  | .put _ => False
  | .append number .. => number.toInt? = some (sequence : Int)
  | .close number _ => number.toInt? = some (sequence : Int)

namespace Segment

/-- What a call makes of a segment that is there. -/
inductive Becomes : ProducerCall → Segment → Segment → Prop
  | same {call : ProducerCall} {a : Segment} (other : ¬ call.Names a.sequence) : Becomes call a a
  | appended {number : Numeral} {part : Part} {discontinuity : Bool} {a b : Segment}
      (named : number.toInt? = some (a.sequence : Int))
      (ok : a.append part discontinuity = .ok b) : Becomes (.append number part discontinuity) a b
  | closed {number : Numeral} {given : Option Float} {a b : Segment} {duration : Float}
      (ok : a.close duration = .ok b) : Becomes (.close number given) a b
  | sealed {new : NewSegment} {a : Segment} : Becomes (.put new) a a.closeIfOpen

variable {call : ProducerCall} {a b : Segment}

theorem Becomes.grows (becomes : Becomes call a b) : a.Grows b := by
  cases becomes with
  | same other => exact .refl a
  | appended named ok => exact (append_grows ok).2
  | closed ok => exact (close_grows ok).2
  | sealed => exact a.closeIfOpen_grows

theorem tiled_of_parts {a b : Segment} (h : a.Tiled)
    (same : b.parts = a.parts ∧ b.dataSize = a.dataSize) : b.Tiled ∧ b.content = a.content := by
  refine ⟨?_, congrArg payload same.1⟩
  rw [Tiled, same.1, same.2]
  exact h

/-- Only a part changes the data, and it is added behind them. -/
theorem Becomes.content (h : a.Tiled) (becomes : Becomes call a b) :
    b.Tiled ∧ (b.content = a.content ∨
      ∃ number part discontinuity, call = .append number part discontinuity ∧
        number.toInt? = some (a.sequence : Int) ∧ b.content = a.content ++ part.data) := by
  cases becomes with
  | same other => exact ⟨h, .inl rfl⟩
  | appended named ok =>
      obtain ⟨tiled, added⟩ := append_tiled h ok
      exact ⟨tiled, .inr ⟨_, _, _, rfl, named, added⟩⟩
  | closed ok =>
      obtain ⟨tiled, same⟩ := tiled_of_parts h (close_parts ok)
      exact ⟨tiled, .inl same⟩
  | sealed =>
      obtain ⟨tiled, same⟩ := tiled_of_parts h a.closeIfOpen_parts
      exact ⟨tiled, .inl same⟩

theorem Becomes.content_grows (h : a.Tiled) (becomes : Becomes call a b) :
    a.content <+: b.content := by
  rcases (becomes.content h).2 with same | ⟨number, part, discontinuity, -, -, added⟩
  · exact same ▸ List.prefix_rfl
  · exact added ▸ List.prefix_append _ _

/-- Parts that hold data stay as they are; a part is placed behind them. -/
theorem Becomes.parts_grow (h : a.Tiled) (becomes : Becomes call a b) {front : List PlacedPart}
    (begins : front <+: a.parts) (full : ∀ p ∈ front, p.part.data ≠ []) : front <+: b.parts := by
  cases becomes with
  | same other => exact begins
  | closed ok => exact (close_parts ok).1 ▸ begins
  | sealed => exact a.closeIfOpen_parts.1 ▸ begins
  | appended named ok =>
      unfold append at ok
      split at ok
      · cases ok
      · cases ok
        obtain ⟨rest, parts⟩ := begins
        have other : ∀ p ∈ front, p.offset ≠ a.dataSize := by
          intro p member
          have inside := (Tiles.inside h (parts ▸ List.mem_append_left rest member)).2
          have size := List.length_pos_of_ne_nil (full p member)
          rw [PlacedPart.finish] at inside
          omega
        simp only [← parts, placeAt_append _ other]
        exact List.prefix_append _ _

end Segment

namespace Window

variable {w v : Window} {capacity : Nat} {stream : String} {now : Int} {call : ProducerCall}

theorem revise_becomes {number : Numeral} {f : Segment → Except Fault Segment}
    (h : Consecutive w.segments)
    (names : ∀ sequence : Nat, call.Names sequence → number.toInt? = some (sequence : Int))
    (makes : ∀ a b, number.toInt? = some (a.sequence : Int) → f a = .ok b →
      Segment.Becomes call a b)
    (ok : w.revise stream number f = .ok v) :
    ∀ b ∈ v.segments, ∃ a ∈ w.segments, Segment.Becomes call a b := by
  obtain ⟨before, a, b, after, segments, named, made, rfl⟩ := revise_eq_ok h ok
  obtain ⟨-, later, earlier⟩ := List.pairwise_append.mp (segments ▸ h).sorted
  have other : ∀ c : Segment, c.sequence ≠ a.sequence → Segment.Becomes call c c := by
    intro c distinct
    refine .same fun named' => distinct ?_
    have same := (names _ named').symm.trans named
    exact Int.natCast_inj.mp (Option.some.inj same)
  intro c member
  rw [segments]
  rcases List.mem_append.mp member with front | rest
  · have less := earlier c front a List.mem_cons_self
    exact ⟨c, List.mem_append_left _ front, other c (Nat.ne_of_lt less)⟩
  · rcases List.mem_cons.mp rest with rfl | back
    · exact ⟨a, by simp, makes a c named made⟩
    · have less := List.rel_of_pairwise_cons later back
      exact ⟨c, by simp [back], other c (Nat.ne_of_gt less)⟩

theorem put_becomes {new : NewSegment} (ok : w.put capacity new now = .ok v) :
    ∀ b ∈ v.segments, (∃ a ∈ w.segments, Segment.Becomes (.put new) a b) ∨
      ∃ sequence, b = .start sequence new now ∧ new.number.toInt? = some (sequence : Int) ∧
        w.lastSequence < sequence := by
  obtain ⟨sequence, whole, next, rfl⟩ := put_eq_ok ok
  have named := Numeral.toInt?_of_toNat? whole
  have newer : w.lastSequence < sequence := by
    rcases List.eq_nil_or_concat' w.segments with segments | ⟨before, last, segments⟩
    · rw [lastSequence_nil segments]
      omega
    · rw [lastSequence_concat segments, next last (by rw [segments, List.getLast?_concat])]
      omega
  have same : ∀ c : Segment, Segment.Becomes (.put new) c c := fun c => .same fun named => named
  intro b member
  have started : b ∈ Segment.started w.segments (.start sequence new now) :=
    List.mem_of_mem_drop member
  rcases List.eq_nil_or_concat' w.segments with segments | ⟨before, last, segments⟩
  · rw [segments] at started
    exact .inr ⟨sequence, List.mem_singleton.mp started, named, newer⟩
  · rw [segments, Segment.started_concat] at started
    rcases List.mem_append.mp started with old | added
    · rw [segments]
      rcases List.mem_append.mp old with earlier | final
      · exact .inl ⟨b, by simp [earlier], same b⟩
      · rw [List.mem_singleton.mp final]
        exact .inl ⟨last, by simp, .sealed⟩
    · exact .inr ⟨sequence, List.mem_singleton.mp added, named, newer⟩

/-- Where the segments of a window come from. -/
theorem perform_becomes (h : Consecutive w.segments)
    (ok : w.perform stream capacity now call = .ok v) :
    ∀ b ∈ v.segments, (∃ a ∈ w.segments, Segment.Becomes call a b) ∨
      ∃ new sequence, call = .put new ∧ b = .start sequence new now ∧
        new.number.toInt? = some (sequence : Int) ∧ w.lastSequence < sequence := by
  intro b member
  cases call with
  | put new =>
      rcases put_becomes ok b member with old | ⟨sequence, started, named, newer⟩
      · exact .inl old
      · exact .inr ⟨new, sequence, rfl, started, named, newer⟩
  | append number part discontinuity =>
      have revised : w.revise stream number (·.append part discontinuity) = .ok v := ok
      refine .inl (revise_becomes h ?_ ?_ revised b member)
      · exact fun _ named => named
      · exact fun _ _ named made => .appended named made
  | close number duration =>
      rw [perform, close_eq_revise] at ok
      refine .inl (revise_becomes h ?_ ?_ ok b member)
      · exact fun _ named => named
      · exact fun _ _ _ made => .closed made

/-- The parts of every segment fill it. -/
def Tiled (w : Window) : Prop := ∀ a ∈ w.segments, a.Tiled

theorem perform_tiled (h : Consecutive w.segments) (tiled : w.Tiled)
    (ok : w.perform stream capacity now call = .ok v) : v.Tiled := by
  intro b member
  rcases perform_becomes h ok b member with ⟨a, old, becomes⟩ | ⟨new, sequence, -, rfl, -⟩
  · exact (becomes.content (tiled a old)).1
  · exact Segment.start_tiled sequence new now

/-- The segment with a sequence has become what the call makes of it. -/
theorem perform_find? (wellFormed : w.WellFormed capacity) (positive : 1 ≤ capacity)
    (ok : w.perform stream capacity now call = .ok v) {s : Int} {a b : Segment}
    (old : w.find? s = some a) (new : v.find? s = some b) : Segment.Becomes call a b := by
  have hw := wellFormed.consecutive
  have hv := (perform_advances positive wellFormed ok).1.consecutive
  obtain ⟨there, rfl⟩ := (find?_eq_some_iff hw s a).mp old
  obtain ⟨here, same⟩ := (find?_eq_some_iff hv _ b).mp new
  rcases perform_becomes hw ok b here with
    ⟨c, member, becomes⟩ | ⟨added, sequence, -, rfl, -, newer⟩
  · have found : w.find? a.sequence = some c :=
      (find?_eq_some_iff hw _ c).mpr ⟨member, by rw [← same, becomes.grows.sequence]⟩
    rw [old] at found
    cases found
    exact becomes
  · have newest := le_lastSequence hw there
    rw [← same] at newest
    exact absurd newer (Int.not_lt.mpr newest)

end Window

end LiveHls
