import LiveHls.Playlist
import LiveHls.WaitTarget
/-! Requests for a media playlist. A request may name a segment, and a part of it, that the
playlist has to contain; the answer is held back until it does. -/
namespace LiveHls

structure PlaylistRequest where
  sequence : Option Int
  part : Option Int

namespace PlaylistRequest

/-- Whether the request names what it waits for. -/
def isBlocking (request : PlaylistRequest) : Bool :=
  request.sequence.isSome || request.part.isSome

inductive Plan where
  | refuse (fault : Fault)
  | serve
  | wait (target : WaitTarget)

/-- The plan for a part of the segment after the last. Its first part is already one past the
live edge. -/
def planNext (sequence : Int) (part : Option Int) (limit : PartLimit) : Plan :=
  match part with
  | none => .wait (.segment sequence)
  | some part =>
      if limit.refuses (-1) part then .refuse (.beyondFirstParts part limit)
      else .wait (.part sequence part)

def planPresent (segment : Segment) (sequence last : Int) (part : Option Int) (limit : PartLimit) :
    Plan :=
  match part with
  | none => if segment.complete then .serve else .wait (.complete sequence)
  | some part =>
      let newest : Int := segment.partCount - 1
      if sequence = last && limit.refuses newest part then
        .refuse (.beyondLastPart part newest limit)
      else if part ≤ newest then .serve
      else .wait (.part sequence part)

/-- Decides against one window whether to refuse a request, to serve it, or to wait. -/
def plan (request : PlaylistRequest) (w : Window) (limit : PartLimit) : Plan :=
  match request.sequence with
  | none =>
      if request.part.isSome then .refuse .partWithoutSequence
      else if w.segments.isEmpty then .wait .live
      else .serve
  | some sequence =>
      let last := w.lastSequence
      if last + 1 < sequence then .refuse (.beyondNextSegment sequence (last + 1))
      else if w.isEvicted sequence then .refuse (.evicted (.whole sequence))
      else if sequence = last + 1 then planNext sequence request.part limit
      else
        match w.find? sequence with
        | none => .refuse (.evicted (.whole sequence))
        | some segment => planPresent segment sequence last request.part limit

def directiveText : Option Int → String
  | some n => integerText n
  | none => "-"

def text (request : PlaylistRequest) : String :=
  s!"msn={directiveText request.sequence} part={directiveText request.part}"

end PlaylistRequest

structure RenderedPlaylist where
  body : String
  /-- Whether the request named what it waited for. -/
  blocking : Bool

/-- The answer to a playlist request, rendered from the window that satisfied it. -/
def RenderedPlaylist.ofWindow (w : Window) (settings : Settings) (blocking : Bool) :
    Except Fault RenderedPlaylist :=
  (Playlist.render w settings).map fun body => ⟨body, blocking⟩

end LiveHls
