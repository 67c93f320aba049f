import LiveHls.Proofs.BufferCalls
import LiveHls.Proofs.Segment.Content
import Mathlib.Algebra.GroupWithZero.Nat
/-! How parts tile a segment. A part lies where the data end when it is appended, so an empty one
takes no room and the next one takes its place. What stays listed are the parts with data, and the
last one whether it has data or not. -/
namespace LiveHls.Segment

/-- The parts that stay listed of those that are appended: an empty one only as the last. -/
def listed (appended : List Part) : List Part :=
  appended.dropLast.filter (·.data ≠ []) ++ appended.getLast?.toList

/-- How many bytes the parts have together. -/
def bytesOf (parts : List Part) : Nat := (parts.map (·.data.length)).sum

/-- Parts are appended one after the other, each with its mark of a discontinuity. -/
def appendAll (a : Segment) (calls : List (Part × Bool)) : Except Fault Segment :=
  calls.foldlM (fun a call => a.append call.1 call.2) a

/-- The segment is sealed if a duration is given. -/
def closeWith (a : Segment) : Option Float → Except Fault Segment
  | none => .ok a
  | some duration => a.close duration

theorem listed_concat (appended : List Part) (part : Part) :
    listed (appended ++ [part]) = appended.filter (·.data ≠ []) ++ [part] := by
  rw [listed, List.dropLast_concat, List.getLast?_concat, Option.toList_some]

/-- Of what is listed only the last part may have to go. -/
theorem listed_filter (appended : List Part) :
    (listed appended).filter (·.data ≠ []) = appended.filter (·.data ≠ []) := by
  rcases List.eq_nil_or_concat' appended with rfl | ⟨before, part, rfl⟩
  · rfl
  · rw [listed_concat, List.filter_append, List.filter_append, List.filter_filter]
    simp only [Bool.and_self]

theorem bytesOf_concat (parts : List Part) (part : Part) :
    bytesOf (parts ++ [part]) = bytesOf parts + part.data.length := by
  rw [bytesOf, List.map_append, List.sum_append, List.map_singleton, List.sum_singleton, bytesOf]

/-! ### Tilings -/

namespace Tiles

variable {start finish : Nat} {parts : List PlacedPart}

theorem first (h : Tiles start parts finish) : ∀ p ∈ parts.head?, p.offset = start := by
  cases parts with
  | nil => exact nofun
  | cons p rest =>
      rintro _ ⟨⟩
      exact h.1

theorem next (h : Tiles start parts finish) :
    parts.IsChain fun p q => q.offset = p.offset + p.part.data.length := by
  induction parts generalizing start with
  | nil => exact .nil
  | cons p rest ih =>
      obtain ⟨-, -, tail⟩ := h
      exact List.isChain_cons.mpr ⟨tail.first, ih tail⟩

theorem full (h : Tiles start parts finish) : ∀ p ∈ parts.dropLast, p.part.data ≠ [] := by
  induction parts generalizing start with
  | nil => exact nofun
  | cons p rest ih =>
      obtain ⟨-, full, tail⟩ := h
      cases rest with
      | nil => exact nofun
      | cons q rest =>
          intro r member
          rcases List.mem_cons.mp member with rfl | later
          · exact full (List.cons_ne_nil q rest)
          · exact ih tail r later

/-- Only the last part may be empty, so no two parts lie at the same offset. -/
theorem increasing (h : Tiles start parts finish) :
    parts.Pairwise fun p q => p.offset < q.offset := by
  induction parts generalizing start with
  | nil => exact .nil
  | cons p rest ih =>
      obtain ⟨-, full, tail⟩ := h
      refine .cons (fun q member => ?_) (ih tail)
      have bytes := List.length_pos_of_ne_nil (full (List.ne_nil_of_mem member))
      have behind := (tail.inside member).1
      rw [PlacedPart.finish] at behind
      omega

theorem last (h : Tiles start parts finish) : ∀ p ∈ parts.getLast?, p.finish = finish := by
  induction parts generalizing start with
  | nil => exact nofun
  | cons p rest ih =>
      obtain ⟨-, -, tail⟩ := h
      cases rest with
      | nil =>
          rintro _ ⟨⟩
          exact tail
      | cons q rest =>
          rw [List.getLast?_cons_cons]
          exact ih tail

/-- A part that is placed where the data end is listed behind all parts that have data. -/
theorem placeAt_parts (part : Part) (h : Tiles start parts finish) :
    (Segment.placeAt finish part parts).map (·.part) =
      (parts.map (·.part)).filter (·.data ≠ []) ++ [part] := by
  induction parts generalizing start with
  | nil => rfl
  | cons p rest ih =>
      have edge := h.offset_eq_finish_iff
      have last := h.last_of_empty
      obtain ⟨-, -, tail⟩ := h
      unfold Segment.placeAt
      split
      · rename_i same
        have bare := edge.mp same
        simp [last bare, bare]
      · rename_i other
        simp [ih tail, mt edge.mpr other]

end Tiles

/-! ### Parts that are appended to an open segment -/

/-- The segment is open, and all its parts are what is listed of those that were appended. -/
structure Consists (a : Segment) (appended : List Part) : Prop where
  opened : a.complete = false
  tiled : a.Tiled
  parts : a.parts.map (·.part) = listed appended
  dataSize : a.dataSize = bytesOf appended

variable {a b : Segment} {appended : List Part}

theorem start_consists (sequence : Nat) (new : NewSegment) (now : Int) :
    (start sequence new now).Consists [] :=
  ⟨rfl, start_tiled sequence new now, rfl, rfl⟩

theorem Consists.append (h : a.Consists appended) (part : Part) (discontinuity : Bool) :
    ∃ b, a.append part discontinuity = .ok b ∧ b.Consists (appended ++ [part]) ∧
      ⟨bytesOf appended, part⟩ ∈ b.parts ∧ a.partCount ≤ b.partCount := by
  have made : a.append part discontinuity = .ok
      { a with
        parts := placeAt a.dataSize part a.parts
        dataSize := a.dataSize + part.data.length
        discontinuity := a.discontinuity || discontinuity } :=
    if_neg (Bool.eq_false_iff.mp h.opened)
  have placed := h.tiled.placeAt_parts part
  rw [h.parts, listed_filter, ← listed_concat] at placed
  refine ⟨_, made, ⟨h.opened, (append_tiled h.tiled made).1, placed, ?_⟩, ?_,
    (append_grows made).2.partCount⟩
  · rw [bytesOf_concat, ← h.dataSize]
  · rw [← h.dataSize]
    exact mem_placeAt_self a.dataSize part a.parts

theorem appendAll_concat (a : Segment) (calls : List (Part × Bool)) (call : Part × Bool) :
    a.appendAll (calls ++ [call]) = a.appendAll calls >>= fun b => b.append call.1 call.2 := by
  simp only [appendAll, List.foldlM_append, List.foldlM_cons, List.foldlM_nil, bind_pure]

/-- No part is refused, however many are appended. -/
theorem appendAll_consists (h : a.Consists []) (calls : List (Part × Bool)) :
    ∃ b, a.appendAll calls = .ok b ∧ b.Consists (calls.map Prod.fst) := by
  induction calls using List.reverseRecOn with
  | nil => exact ⟨a, rfl, h⟩
  | append_singleton calls call ih =>
      obtain ⟨b, made, consists⟩ := ih
      obtain ⟨c, added, consists, -⟩ := consists.append call.1 call.2
      refine ⟨c, ?_, ?_⟩
      · rw [appendAll_concat, made]
        exact added
      · rw [List.map_append]
        exact consists

theorem Consists.closeWith (h : a.Consists appended) (duration : Option Float) :
    ∃ b, a.closeWith duration = .ok b ∧ b.parts = a.parts ∧ b.dataSize = a.dataSize := by
  cases duration with
  | none => exact ⟨a, rfl, rfl, rfl⟩
  | some seconds =>
      have made : a.close seconds = .ok { a with duration := some seconds } :=
        if_neg (Bool.eq_false_iff.mp h.opened)
      exact ⟨_, made, rfl, rfl⟩

/-- What is listed of the parts that were appended fills the segment from the first byte to the
last. -/
structure TiledBy (a : Segment) (appended : List Part) : Prop where
  parts : a.parts.map (·.part) = listed appended
  first : ∀ p ∈ a.parts.head?, p.offset = 0
  next : a.parts.IsChain fun p q => q.offset = p.offset + p.part.data.length
  increasing : a.parts.Pairwise fun p q => p.offset < q.offset
  /-- Only the last part may be empty. -/
  full : ∀ p ∈ a.parts.dropLast, p.part.data ≠ []
  last : ∀ p ∈ a.parts.getLast?, p.finish = a.dataSize
  dataSize : a.dataSize = bytesOf appended
  duration : a.partsDuration = (listed appended).foldl (fun total p => total + p.duration) 0.0

theorem Consists.tiledBy (h : a.Consists appended) (parts : b.parts = a.parts)
    (dataSize : b.dataSize = a.dataSize) : b.TiledBy appended := by
  have tiles : Tiles 0 b.parts b.dataSize := by
    rw [parts, dataSize]
    exact h.tiled
  have own : b.parts.map (·.part) = listed appended := parts ▸ h.parts
  refine ⟨own, tiles.first, tiles.next, tiles.increasing, tiles.full, tiles.last,
    dataSize.trans h.dataSize, ?_⟩
  rw [← own, List.foldl_map]
  rfl

/-- The parts of a segment tile its data. Whatever is appended, and whether the segment is sealed
then or not, the parts listed are those that were appended except for every empty one with another
behind it; they lie one behind the other from the first byte to the last, and durations count as far
as they are listed. Each part is placed where the earlier ones end, which is the offset that the
producer is told, and no part is ever taken off the list. -/
theorem parts_tile_the_data (sequence : Nat) (new : NewSegment) (now : Int)
    (calls : List (Part × Bool)) (duration : Option Float) :
    let a := start sequence new now
    (∃ b c, a.appendAll calls = .ok b ∧ b.closeWith duration = .ok c ∧
      c.TiledBy (calls.map Prod.fst)) ∧
    ∀ before part discontinuity after, calls = before ++ (part, discontinuity) :: after →
      let offset := bytesOf (before.map Prod.fst)
      ∃ b c, a.appendAll before = .ok b ∧ b.append part discontinuity = .ok c ∧
        ⟨offset, part⟩ ∈ c.parts ∧ b.partCount ≤ c.partCount ∧
        ∀ (τ : Type) (buffer : LiveBuffer τ) number i,
          buffer.window.locate buffer.stream number = .ok (i, b) →
            ∃ next effects, buffer.append number part discontinuity = .ok (offset, next, effects) ∧
              next.window = buffer.window.setAt i c := by
  intro a
  have begun := start_consists sequence new now
  constructor
  · obtain ⟨b, made, consists⟩ := appendAll_consists begun calls
    obtain ⟨c, closed, parts, dataSize⟩ := consists.closeWith duration
    exact ⟨b, c, made, closed, consists.tiledBy parts dataSize⟩
  · intro before part discontinuity after split offset
    obtain ⟨b, made, consists⟩ := appendAll_consists begun before
    obtain ⟨c, added, -, member, count⟩ := consists.append part discontinuity
    refine ⟨b, c, made, added, member, count, ?_⟩
    intro τ buffer number i located
    rw [show offset = b.dataSize from consists.dataSize.symm]
    exact LiveBuffer.append_of_located located added

/-- The empty part is replaced by the one behind it. -/
example : listed [⟨1.0, true, []⟩, ⟨2.0, true, [7]⟩, ⟨3.0, true, []⟩] =
    [⟨2.0, true, [7]⟩, ⟨3.0, true, []⟩] := rfl

end LiveHls.Segment
