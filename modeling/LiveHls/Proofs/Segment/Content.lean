import Mathlib.Data.List.Basic
import LiveHls.Segment.Bytes
/-! The data of a segment. The parts lie one behind the other and only the last of them may be
empty; therefore a byte range of the segment is a slice of all payloads in a row. -/
namespace LiveHls.Segment

/-- The payloads in a row. -/
def payload (parts : List PlacedPart) : Bytes := (parts.map (·.part.data)).flatten

def content (a : Segment) : Bytes := payload a.parts

/-- The parts lie one behind the other from one offset to another. -/
def Tiles : Nat → List PlacedPart → Nat → Prop
  | start, [], finish => start = finish
  | start, p :: rest, finish =>
      p.offset = start ∧ (rest ≠ [] → p.part.data ≠ []) ∧ Tiles p.finish rest finish

/-- The parts fill the segment from the first byte to the last. -/
def Tiled (a : Segment) : Prop := Tiles 0 a.parts a.dataSize

@[simp] theorem payload_nil : payload [] = [] := rfl

@[simp] theorem payload_cons (p : PlacedPart) (rest : List PlacedPart) :
    payload (p :: rest) = p.part.data ++ payload rest := rfl

theorem Tiles.length {start finish : Nat} {parts : List PlacedPart}
    (h : Tiles start parts finish) : start + (payload parts).length = finish := by
  induction parts generalizing start with
  | nil => exact h
  | cons p rest ih =>
      obtain ⟨rfl, -, tail⟩ := h
      rw [payload_cons, List.length_append, ← ih tail, PlacedPart.finish, Nat.add_assoc]

theorem Tiled.length {a : Segment} (h : a.Tiled) : a.content.length = a.dataSize := by
  have whole := Tiles.length h
  rw [Nat.zero_add] at whole
  exact whole

theorem Tiles.last_of_empty {start finish : Nat} {p : PlacedPart} {rest : List PlacedPart}
    (h : Tiles start (p :: rest) finish) (bare : p.part.data = []) : rest = [] := by
  obtain ⟨-, full, -⟩ := h
  by_contra more
  exact full more bare

/-- A part that lies where the data end is empty, and the other way round. -/
theorem Tiles.offset_eq_finish_iff {start finish : Nat} {p : PlacedPart} {rest : List PlacedPart}
    (h : Tiles start (p :: rest) finish) : p.offset = finish ↔ p.part.data = [] := by
  have last := h.last_of_empty
  obtain ⟨rfl, -, tail⟩ := h
  have size : p.finish = p.offset + p.part.data.length := rfl
  constructor
  · intro same
    have reach := tail.length
    exact List.eq_nil_of_length_eq_zero (by omega)
  · intro bare
    obtain rfl := last bare
    have reach : p.finish = finish := tail
    rw [bare, List.length_nil] at size
    omega

/-- A part is placed behind all the others; the one that it replaces, if any, is empty. -/
theorem Tiles.placeAt {start finish : Nat} {parts : List PlacedPart} (part : Part)
    (h : Tiles start parts finish) :
    Tiles start (Segment.placeAt finish part parts) (finish + part.data.length) ∧
      payload (Segment.placeAt finish part parts) = payload parts ++ part.data := by
  induction parts generalizing start with
  | nil =>
      obtain rfl : start = finish := h
      exact ⟨⟨rfl, fun more => absurd rfl more, rfl⟩, by simp [Segment.placeAt]⟩
  | cons p rest ih =>
      have edge := h.offset_eq_finish_iff
      have last := h.last_of_empty
      obtain ⟨rfl, -, tail⟩ := h
      unfold Segment.placeAt
      split
      · -- what lies where the data end takes no room, and then nothing lies behind it
        rename_i same
        have bare := edge.mp same
        obtain rfl := last bare
        exact ⟨⟨same.symm, fun more => absurd rfl more, rfl⟩, by simp [bare]⟩
      · rename_i other
        obtain ⟨tiles, row⟩ := ih tail
        exact ⟨⟨rfl, fun _ bare => other (edge.mpr bare), tiles⟩, by simp [row]⟩

theorem placeAt_append {offset : Nat} {front : List PlacedPart} (part : Part)
    (other : ∀ p ∈ front, p.offset ≠ offset) (rest : List PlacedPart) :
    Segment.placeAt offset part (front ++ rest) = front ++ Segment.placeAt offset part rest := by
  induction front with
  | nil => rfl
  | cons p front ih =>
      have later := ih fun q member => other q (List.mem_cons_of_mem p member)
      rw [List.cons_append, Segment.placeAt, if_neg (other p List.mem_cons_self), later,
        List.cons_append]

theorem mem_placeAt_self (offset : Nat) (part : Part) (parts : List PlacedPart) :
    ⟨offset, part⟩ ∈ Segment.placeAt offset part parts := by
  induction parts with
  | nil => exact List.mem_singleton_self _
  | cons p rest ih =>
      unfold Segment.placeAt
      split
      · exact List.mem_cons_self
      · exact List.mem_cons_of_mem p ih

theorem start_tiled (sequence : Nat) (new : NewSegment) (now : Int) :
    (start sequence new now).Tiled := rfl

theorem append_tiled {a b : Segment} {part : Part} {discontinuity : Bool} (h : a.Tiled)
    (ok : a.append part discontinuity = .ok b) :
    b.Tiled ∧ b.content = a.content ++ part.data := by
  unfold append at ok
  split at ok
  · cases ok
  · cases ok
    exact Tiles.placeAt part h

theorem close_parts {a b : Segment} {duration : Float} (ok : a.close duration = .ok b) :
    b.parts = a.parts ∧ b.dataSize = a.dataSize := by
  unfold close at ok
  split at ok
  · cases ok
  · cases ok
    exact ⟨rfl, rfl⟩

theorem closeIfOpen_parts (a : Segment) :
    a.closeIfOpen.parts = a.parts ∧ a.closeIfOpen.dataSize = a.dataSize := by
  unfold closeIfOpen
  split <;> exact ⟨rfl, rfl⟩

/-! ### Byte ranges -/

theorem slice_append (xs ys : Bytes) (start finish : Int) :
    slice (xs ++ ys) start finish =
      slice xs start finish ++ slice ys (start - xs.length) (finish - xs.length) := by
  have before : (finish - xs.length).toNat = finish.toNat - xs.length := by omega
  unfold slice
  rw [List.take_append, List.drop_append, before, List.length_take]
  by_cases inside : finish.toNat ≤ xs.length
  · rw [Nat.sub_eq_zero_of_le inside]
    simp
  · have skipped : start.toNat - min finish.toNat xs.length = (start - xs.length).toNat := by omega
    rw [skipped]

theorem slice_of_length_le (xs : Bytes) {start : Int} (finish : Int)
    (past : (xs.length : Int) ≤ start) : slice xs start finish = [] := by
  unfold slice
  refine List.drop_eq_nil_of_le ?_
  rw [List.length_take]
  omega

theorem slice_of_le {xs : Bytes} {start finish : Int} (order : finish ≤ start) :
    slice xs start finish = [] := by
  unfold slice
  refine List.drop_eq_nil_of_le ?_
  rw [List.length_take]
  omega

theorem slice_min (xs : Bytes) (start finish : Int) :
    slice xs start (min finish xs.length) = slice xs start finish := by
  unfold slice
  congr 1
  rcases Int.le_total finish xs.length with inside | past
  · rw [Int.min_eq_left inside]
  · rw [Int.min_eq_right past, List.take_of_length_le (by omega), List.take_of_length_le (by omega)]

theorem length_slice {xs : Bytes} {start finish : Int} (positive : 0 ≤ start)
    (inside : finish ≤ xs.length) : (slice xs start finish).length = (finish - start).toNat := by
  unfold slice
  rw [List.length_drop, List.length_take]
  omega

theorem slice_whole (xs ys : Bytes) : slice (xs ++ ys) 0 xs.length = xs := by
  simp [slice]

theorem Tiles.inside {start finish : Nat} {parts : List PlacedPart} (h : Tiles start parts finish)
    {p : PlacedPart} (member : p ∈ parts) : start ≤ p.offset ∧ p.finish ≤ finish := by
  induction parts generalizing start with
  | nil => cases member
  | cons first rest ih =>
      obtain ⟨rfl, -, tail⟩ := h
      have size : first.finish = first.offset + first.part.data.length := rfl
      have reach := tail.length
      rcases List.mem_cons.mp member with rfl | later
      · omega
      · obtain ⟨low, high⟩ := ih tail later
        omega

/-- A part is read back from between its offset and that of the next. -/
theorem Tiles.slice_part {start finish : Nat} {parts : List PlacedPart}
    (h : Tiles start parts finish) {p : PlacedPart} (member : p ∈ parts) :
    slice (payload parts) (p.offset - start) (p.finish - start) = p.part.data := by
  induction parts generalizing start with
  | nil => cases member
  | cons first rest ih =>
      obtain ⟨rfl, -, tail⟩ := h
      have size : first.finish = first.offset + first.part.data.length := rfl
      rcases List.mem_cons.mp member with rfl | later
      · rw [payload_cons, Int.sub_self, size]
        have length : ((p.offset + p.part.data.length : Nat) : Int) - p.offset =
            p.part.data.length := by omega
        rw [length, slice_whole]
      · obtain ⟨low, -⟩ := tail.inside later
        have own := ih tail later
        rw [payload_cons, slice_append, slice_of_length_le _ _ (by omega), List.nil_append]
        have shift : ∀ x : Int, x - first.offset - first.part.data.length = x - first.finish := by
          intro x
          omega
        rw [shift, shift, own]

/-- The pieces of the parts in a range, one behind the other, are the slice of their payloads. -/
theorem flatten_pieces {first finish : Nat} {parts : List PlacedPart}
    (h : Tiles first parts finish) (low high : Int) :
    (pieces low high parts).flatten = slice (payload parts) (low - first) (high - first) := by
  induction parts generalizing first with
  | nil => simp [pieces, slice]
  | cons p rest ih =>
      obtain ⟨rfl, -, tail⟩ := h
      have size : p.finish = p.offset + p.part.data.length := rfl
      have split : slice (payload (p :: rest)) (low - p.offset) (high - p.offset) =
          slice p.part.data (low - p.offset) (high - p.offset) ++
            slice (payload rest) (low - p.finish) (high - p.finish) := by
        rw [payload_cons, slice_append]
        congr 2 <;> omega
      unfold pieces
      split_ifs with before behind
      · rw [split, ih tail, slice_of_length_le p.part.data _ (by omega), List.nil_append]
      · rw [List.flatten_nil]
        unfold slice
        rw [Int.toNat_of_nonpos (by omega : high - p.offset ≤ 0), List.take_zero, List.drop_nil]
      · have cut : min high p.finish - p.offset = min (high - p.offset) p.part.data.length := by
          omega
        rw [List.flatten_cons, split, ih tail, cut, slice_min]

theorem fill_of_length {size : Nat} {chunks : List Bytes} (exact : chunks.flatten.length = size) :
    fill size chunks = chunks.flatten := by
  unfold fill
  subst exact
  split
  · rename_i empty
    rw [List.isEmpty_iff.mp empty, List.flatten_nil]
  · simp only [List.take_length, Nat.sub_self, List.replicate_zero, List.append_nil]

/-- A range is read as the slice of the content: nothing is padded, and nothing cut off. -/
theorem read_eq_slice {a : Segment} (h : a.Tiled) {start : Int} (positive : 0 ≤ start)
    (finish : Int) : a.read start finish = slice a.content start finish := by
  have pieced : ∀ high : Int, (pieces start high a.parts).flatten = slice a.content start high := by
    intro high
    have same := flatten_pieces h start high
    rw [Int.ofNat_zero, Int.sub_zero, Int.sub_zero] at same
    exact same
  have clipped : slice a.content start (min finish a.dataSize) = slice a.content start finish := by
    rw [← h.length, slice_min]
  unfold read
  simp only
  split
  · rename_i empty
    rw [← clipped, slice_of_le empty]
  · have size : (slice a.content start (min finish a.dataSize)).length =
        (min finish a.dataSize - start).toNat := by
      refine length_slice positive ?_
      rw [h.length]
      exact Int.min_le_right _ _
    rw [← clipped, ← pieced, fill_of_length]
    rw [pieced, size]

end LiveHls.Segment
