import LiveHls.Segment
/-! Byte ranges read out of a segment. -/
namespace LiveHls.Segment

/-- The bytes `xs[start:finish]`, with a start before the first byte taken as the first. -/
def slice (xs : Bytes) (start finish : Int) : Bytes :=
  (xs.take finish.toNat).drop start.toNat

/-- The pieces of the parts that overlap `[start, finish)`. -/
def pieces (start finish : Int) : List PlacedPart → List Bytes
  | [] => []
  | p :: rest =>
      if (p.finish : Int) ≤ start then pieces start finish rest
      else if finish ≤ p.offset then []
      else
        slice p.part.data (start - p.offset) (min finish p.finish - p.offset)
          :: pieces start finish rest

/-- The pieces one behind the other in `size` bytes. Room that is left over holds zeros; without
a piece there is no room either. -/
def fill (size : Nat) (chunks : List Bytes) : Bytes :=
  if chunks.isEmpty then []
  else
    let data := chunks.flatten.take size
    data ++ List.replicate (size - data.length) 0

/-- The bytes in `[start, finish)`, as far as the segment has them. -/
def read (segment : Segment) (start finish : Int) : Bytes :=
  let finish := min finish segment.dataSize
  if finish ≤ start then []
  else fill (finish - start).toNat (pieces start finish segment.parts)

end LiveHls.Segment
