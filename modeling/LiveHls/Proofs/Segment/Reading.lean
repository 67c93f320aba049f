import LiveHls.Proofs.Segment.Tiling
import LiveHls.Proofs.Window.Data
/-! Byte ranges of the segments that a producer can make. Whatever is asked of a segment, its parts
fill it in the order in which they were taken; so a range is cut out of all payloads in a row, and
the room that is set aside for it is exactly what the pieces of the parts need. -/
namespace LiveHls

/-- What is asked of one segment. -/
inductive SegmentCall where
  | append (part : Part) (discontinuity : Bool)
  | close (duration : Float)

namespace Segment

def perform (a : Segment) : SegmentCall → Except Fault Segment
  | .append part discontinuity => a.append part discontinuity
  | .close duration => a.close duration

/-- The segment after calls on it. A call that fails leaves it as it is. -/
def run (a : Segment) (calls : List SegmentCall) : Segment :=
  calls.foldl (fun a call => a.after (·.perform call)) a

/-- The parts that an open segment takes: all until it is sealed. -/
def accepted : List SegmentCall → List Part
  | [] => []
  | .append part _ :: rest => part :: accepted rest
  | .close _ :: _ => []

variable {a : Segment}

theorem run_cons (a : Segment) (call : SegmentCall) (calls : List SegmentCall) :
    a.run (call :: calls) = (a.after (·.perform call)).run calls := rfl

/-- A sealed segment refuses every call. -/
theorem run_of_complete (complete : a.complete = true) (calls : List SegmentCall) :
    a.run calls = a := by
  induction calls with
  | nil => rfl
  | cons call calls ih =>
      have refused : a.perform call = .error (.sealed a.sequence) := by
        cases call <;> exact if_pos complete
      rw [run_cons, after, refused]
      exact ih

/-- The data grow by the payloads of the parts that are taken, and the parts go on filling them. -/
theorem run_content (tiled : a.Tiled) (opened : a.complete = false) (calls : List SegmentCall) :
    (a.run calls).Tiled ∧
      (a.run calls).content = a.content ++ ((accepted calls).map (·.data)).flatten := by
  induction calls generalizing a with
  | nil => exact ⟨tiled, (List.append_nil _).symm⟩
  | cons call calls ih =>
      have free := Bool.eq_false_iff.mp opened
      cases call with
      | append part discontinuity =>
          have made : a.perform (.append part discontinuity) = .ok _ := if_neg free
          obtain ⟨next, added⟩ := append_tiled tiled made
          obtain ⟨filled, whole⟩ := ih next opened
          rw [run_cons, after, made]
          refine ⟨filled, ?_⟩
          rw [whole, added, List.append_assoc]
          rfl
      | close duration =>
          have made : a.perform (.close duration) = .ok { a with duration := some duration } :=
            if_neg free
          rw [run_cons, after, made, run_of_complete rfl, accepted]
          exact ⟨tiled, (List.append_nil _).symm⟩

/-- Reading a byte range is a plain slice. In every state that a segment can get into, its data are
the payloads of the parts that it took, in the order of their offsets, and a range read from them is
what lies between its ends, up to the end of the data; the pieces of the parts that overlap the
range take exactly the room set aside for them, so nothing is padded and nothing is cut off. -/
theorem read_is_plain_slice (sequence : Nat) (new : NewSegment) (now : Int)
    (calls : List SegmentCall) (low high : Nat) :
    let a := (start sequence new now).run calls
    let data := (a.parts.map (·.part.data)).flatten
    let finish := min high a.dataSize
    data = ((accepted calls).map (·.data)).flatten ∧
    a.parts.Pairwise (fun p q => p.offset < q.offset) ∧
    a.dataSize = data.length ∧
    a.read low high = (data.take finish).drop low ∧
    (finish ≤ low → a.read low high = []) ∧
    (low < finish → (pieces low finish a.parts).flatten.length = finish - low ∧
      a.read low high = (pieces low finish a.parts).flatten) := by
  intro a data finish
  obtain ⟨tiled, whole⟩ := run_content (start_tiled sequence new now) rfl calls
  have size : data.length = a.dataSize := Tiled.length tiled
  have pieced : (pieces low finish a.parts).flatten = slice data low finish := by
    have same := flatten_pieces tiled low finish
    rw [Int.ofNat_zero, Int.sub_zero, Int.sub_zero] at same
    exact same
  have cut : a.read low high = slice data low finish := by
    rw [read_eq_slice tiled (Int.natCast_nonneg low), ← slice_min]
    rw [show ((finish : Nat) : Int) = min (high : Int) data.length by omega]
    rfl
  refine ⟨?_, tiled.increasing, size.symm, cut, ?_, ?_⟩
  · exact whole
  · intro past
    rw [cut, slice_of_le (Int.ofNat_le.mpr past)]
  · intro before
    refine ⟨?_, cut.trans pieced.symm⟩
    rw [pieced, length_slice (Int.natCast_nonneg low) (by omega)]
    omega

/-- A range from the middle of one part to the middle of another, with an empty part between. -/
example :
    let a := (start 0 ⟨.whole 0, [], none, false⟩ 0).run
      [.append ⟨1.0, true, [1, 2, 3]⟩ false, .append ⟨1.0, false, []⟩ false,
        .append ⟨1.0, false, [4, 5]⟩ false, .close 3.0, .append ⟨1.0, false, [6]⟩ false]
    a.read 1 4 = [2, 3, 4] ∧ a.read 4 9 = [5] ∧ a.read 5 9 = [] := by decide

end Segment
end LiveHls
