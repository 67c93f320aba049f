import LiveHls.Proofs.Answerable
import LiveHls.Proofs.Binary64.Sums
import LiveHls.Proofs.Stream.Wakeup
import LiveHls.Proofs.Window.Data
/-! Durations. None is negative as long as none that is given with a call is: the duration of a
segment is given with its seal, or it is the sum of those of its parts. -/
namespace LiveHls

namespace Segment

/-- No duration of the segment is negative. -/
structure Measured (a : Segment) : Prop where
  parts : ∀ p ∈ a.parts, 0.0 ≤ p.part.duration
  duration : ∀ seconds ∈ a.duration, 0.0 ≤ seconds

variable {a b : Segment}

theorem Measured.partsDuration (measured : a.Measured) : 0.0 ≤ a.partsDuration := by
  refine Binary64.foldl_nonneg (fun x p member nonneg => ?_) (by decide)
  exact Binary64.add_nonneg nonneg (measured.parts p member)

theorem start_measured (sequence : Nat) (new : NewSegment) (now : Int) :
    (Segment.start sequence new now).Measured := ⟨List.forall_mem_nil _, nofun⟩

theorem mem_placeAt {offset : Nat} {part : Part} {parts : List PlacedPart} {p : PlacedPart}
    (member : p ∈ placeAt offset part parts) : p.part = part ∨ p ∈ parts := by
  induction parts with
  | nil => exact .inl (by rw [List.mem_singleton.mp member])
  | cons q rest ih =>
      rw [placeAt] at member
      split at member
      · rcases List.mem_cons.mp member with rfl | later
        · exact .inl rfl
        · exact .inr (List.mem_cons_of_mem q later)
      · rcases List.mem_cons.mp member with rfl | later
        · exact .inr List.mem_cons_self
        · exact (ih later).imp_right (List.mem_cons_of_mem q)

theorem Measured.append {part : Part} {discontinuity : Bool} (measured : a.Measured)
    (nonneg : 0.0 ≤ part.duration) (ok : a.append part discontinuity = .ok b) : b.Measured := by
  unfold Segment.append at ok
  split at ok
  · cases ok
  · cases ok
    refine ⟨fun p member => ?_, measured.duration⟩
    rcases mem_placeAt member with rfl | before
    · exact nonneg
    · exact measured.parts p before

theorem Measured.close {duration : Float} (measured : a.Measured) (nonneg : 0.0 ≤ duration)
    (ok : a.close duration = .ok b) : b.Measured := by
  unfold Segment.close at ok
  split at ok
  · cases ok
  · cases ok
    refine ⟨measured.parts, ?_⟩
    rintro seconds ⟨⟩
    exact nonneg

theorem Measured.closeIfOpen (measured : a.Measured) : a.closeIfOpen.Measured := by
  unfold Segment.closeIfOpen
  split
  · exact measured
  · refine ⟨measured.parts, ?_⟩
    rintro seconds ⟨⟩
    exact measured.partsDuration

end Segment

namespace Window

variable {w v : Window} {capacity : Nat} {stream : String} {now : Int} {call : ProducerCall}

/-- No duration in the window is negative. -/
def Measured (w : Window) : Prop := ∀ a ∈ w.segments, a.Measured

theorem Measured.revise {number : Numeral} {f : Segment → Except Fault Segment}
    (h : Consecutive w.segments) (measured : w.Measured)
    (makes : ∀ a b, a.Measured → f a = .ok b → b.Measured)
    (ok : w.revise stream number f = .ok v) : v.Measured := by
  obtain ⟨before, a, b, after, segments, -, made, rfl⟩ := revise_eq_ok h ok
  intro c member
  rcases List.mem_append.mp member with front | rest
  · exact measured c (by simp [segments, front])
  · rcases List.mem_cons.mp rest with rfl | back
    · exact makes a c (measured a (by simp [segments])) made
    · exact measured c (by simp [segments, back])

theorem Measured.perform (h : Consecutive w.segments) (measured : w.Measured)
    (given : call.Measured) (ok : w.perform stream capacity now call = .ok v) : v.Measured := by
  cases call with
  | put new =>
      intro b member
      rcases put_becomes ok b member with ⟨a, old, becomes⟩ | ⟨sequence, rfl, -, -⟩
      · cases becomes with
        | same other => exact measured b old
        | sealed => exact (measured a old).closeIfOpen
      · exact Segment.start_measured ..
  | append number part discontinuity =>
      exact measured.revise h (fun a b own made => own.append given made) ok
  | close number duration =>
      rw [Window.perform, close_eq_revise] at ok
      refine measured.revise h (fun a b own made => own.close ?_ made) ok
      cases duration with
      | none => exact own.partsDuration
      | some seconds => exact given seconds rfl

end Window

namespace Stream

variable {s t : Stream}

/-- A step keeps it if no duration that is given with a call is negative. -/
theorem Moves.measured {event : Event} (h : s.Consistent) (moves : Moves s event t)
    (given : ∀ call now, event = .call call now → call.Measured) (measured : s.window.Measured) :
    t.window.Measured := by
  rcases moves.window with same | ⟨call, now, calls, -, made⟩
  · exact same ▸ measured
  · exact measured.perform h.wellFormed.consecutive (given call now calls) made

end Stream
end LiveHls
