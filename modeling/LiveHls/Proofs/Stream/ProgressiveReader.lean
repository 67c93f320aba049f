import LiveHls.Proofs.Stream.ByteAnswers
/-! A reader that follows a segment while it grows. It asks for all data behind those that it has,
again and again, and puts the bodies of the responses one behind the other. -/
namespace LiveHls

namespace SegmentRequest

/-- The request of a reader for all data behind those that it has. -/
def behind (received : Bytes) : ByteRange := ⟨received.length, openEnd⟩

/-- A response to it continues what the reader has. -/
theorem Partial.continues {a : Segment} {received : Bytes} {response : SegmentResponse}
    (part : Partial a (behind received) response) (known : received <+: a.content) :
    received ++ response.body <+: a.content := by
  obtain ⟨rest, content⟩ := known
  have body : response.body =
      (a.content.take (lastOf a (behind received) + 1).toNat).drop received.length := part.body
  rw [body, ← content, List.drop_take, List.drop_left, List.prefix_append_right_inj]
  exact List.take_prefix _ _

/-- What is refused because there is no more is refused at the end of the segment. -/
theorem Beyond.received {a : Segment} {received : Bytes}
    (beyond : Beyond a (some (behind received))) (known : received <+: a.content) :
    a.complete = true ∧ a.content = received := by
  have length := known.length_le
  rcases beyond with past | ⟨last, complete⟩
  · exact absurd past (by simp only [startOf, behind]; omega)
  · exact ⟨complete, (known.eq_of_length (Int.natCast_inj.mp last).symm).symm⟩

end SegmentRequest

namespace Stream

open SegmentRequest

/-- What a reader has received of a segment when these events have happened. -/
inductive Receives (start : Stream) (number : Numeral) : List Event → Bytes → Prop
  | begins (events : List Event) : Receives start number events []
  | receives {events later : List Event} {received : Bytes} {request : Nat}
      {response : SegmentResponse} (before : Receives start number events received)
      (single : Unasked request (events ++ later))
      (arrives : (request, .ok (.segment response)) ∈ (start.run events).outcomes
        (.segment request number (some (behind received)) :: later)) :
      Receives start number (events ++ .segment request number (some (behind received)) :: later)
        (received ++ response.body)

variable {s : Stream} {request : Nat} {number : Numeral} {events later : List Event}
  {received : Bytes} {w : Window} {a : Segment}

/-- The segment has been there, and it began with these bytes. -/
def Known (s : Stream) (number : Numeral) (events : List Event) (received : Bytes) : Prop :=
  received = [] ∨
    ∃ sooner a, sooner <+: events ∧ (s.run sooner).window.named? number = some a ∧
      received <+: a.content

theorem named_content_grows (h : s.Regular) {sooner : List Event} (front : sooner <+: events)
    {b : Segment} (old : (s.run sooner).window.named? number = some a)
    (new : (s.run events).window.named? number = some b) : a.content <+: b.content := by
  obtain ⟨rest, rfl⟩ := front
  obtain ⟨n, named, found⟩ := Option.bind_eq_some_iff.mp old
  rw [run_append, Window.named?_of_toInt? _ named] at new
  exact run_content_grows (run_regular h sooner) rest found new

theorem Known.now (h : s.Regular) (known : s.Known number events received)
    (found : (s.run events).window.named? number = some a) : received <+: a.content := by
  rcases known with rfl | ⟨sooner, b, front, old, begun⟩
  · exact List.nil_prefix
  · exact begun.trans (named_content_grows h front old found)

theorem Known.mono {more : List Event} (known : s.Known number events received)
    (front : events <+: more) : s.Known number more received := by
  rcases known with rfl | ⟨sooner, b, inside, old, begun⟩
  · exact .inl rfl
  · exact .inr ⟨sooner, b, inside.trans front, old, begun⟩

/-- The windows that a later request sees are windows of the whole run. -/
theorem Passes.found_after {request : Nat} {range : Option ByteRange}
    (passes : (s.run events).Passes (.segment request number range :: later) w) :
    ∃ sooner, events <+: sooner ∧ sooner <+: events ++ .segment request number range :: later ∧
      (s.run sooner).window = w := by
  obtain ⟨sooner, front, same⟩ := passes
  refine ⟨events ++ sooner, List.prefix_append _ _, (List.prefix_append_right_inj _).mpr front, ?_⟩
  rw [run_append, same]

theorem Receives.known {start : Stream} (h : start.Regular)
    (absent : ∀ request, start.At request .absent) (receives : Receives start number events received) :
    start.Known number events received := by
  induction receives with
  | begins events => exact .inl rfl
  | @receives events later received request response before single arrives known =>
      have regular := run_regular h events
      have unasked := single.of_prefix (List.prefix_append events later)
      have quiet : Unasked request later := fun event member => single event (by simp [member])
      have positive : 0 ≤ startOf (some (behind received)) := Int.natCast_nonneg _
      cases justified_of_outcome regular ((absent request).run_absent unasked) positive quiet
        arrives with
      | exact passes found exact =>
          obtain ⟨sooner, after, front, rfl⟩ := passes.found_after
          exact .inr ⟨sooner, _, front, found, exact.continues ((known.mono after).now h found)⟩

/-- A reader that follows a segment gets it once and without gaps. What a segment holds in one
window is the beginning of what it holds in every later one; what the reader has received is always
the beginning of the segment; every response continues it with at least one byte; and it is told
that there is no more only when the segment is sealed and it has all of it. -/
theorem progressive_reader_exact {id : String} {settings : Settings} {size : Float} {now : Int}
    {start : Stream} (created : Stream.create id settings size now = .ok start) (number : Numeral) :
    (∀ sooner events a b, sooner <+: events → (start.run sooner).window.named? number = some a →
      (start.run events).window.named? number = some b → a.content <+: b.content) ∧
    ∀ events received, Receives start number events received →
      start.Known number events received ∧
      (∀ later a, (start.run (events ++ later)).window.named? number = some a →
        received <+: a.content) ∧
      ∀ request later, Unasked request (events ++ later) →
        let asked := Event.segment request number (some (behind received)) :: later
        (∀ answer, (request, .ok answer) ∈ (start.run events).outcomes asked →
          ∃ response, answer = .segment response ∧ response.status = 206 ∧
            (received.length ≤ openEnd → response.body ≠ [])) ∧
        ∀ fault dataSize, (request, .error fault) ∈ (start.run events).outcomes asked →
          fault.dataSize? = some dataSize → dataSize = received.length ∧
            ∃ sooner a, sooner <+: asked ∧
              ((start.run events).run sooner).window.named? number = some a ∧
              a.complete = true ∧ a.content = received := by
  have h := create_regular created
  have absent := fun request => (create_at created request).1
  refine ⟨fun sooner events a b front old new => named_content_grows h front old new, ?_⟩
  intro events received receives
  have known := receives.known h absent
  refine ⟨known, fun later a found => (known.mono (List.prefix_append _ _)).now h found, ?_⟩
  intro request later single asked
  have unasked := single.of_prefix (List.prefix_append events later)
  have quiet : Unasked request later := fun event member => single event (by simp [member])
  have positive : 0 ≤ startOf (some (behind received)) := Int.natCast_nonneg _
  have justified := fun outcome => @justified_of_outcome _ _ number (some (behind received)) _
    (run_regular h events) ((absent request).run_absent unasked) positive quiet outcome
  constructor
  · intro answer arrives
    cases justified _ arrives with
    | exact passes found exact => exact ⟨_, rfl, exact.status, exact.nonempty⟩
  · intro fault dataSize arrives sized
    cases justified _ arrives with
    | beyond passes found beyond =>
        cases sized
        obtain ⟨sooner, after, -, same⟩ := passes.found_after
        have begun := (known.mono after).now h (same ▸ found)
        obtain ⟨complete, content⟩ := beyond.received begun
        obtain ⟨inside, front, rfl⟩ := passes
        exact ⟨congrArg List.length content, inside, _, front, found, complete, content⟩
    | evicted passes gone => cases sized
    | missing produces absent inside => cases sized
    | stopped front stopped => cases sized
    | left front gone => cases sized

/-- The request of a reader, and what happens until it is answered. -/
def follows (request : Nat) (received : Bytes) (meanwhile : List Event) : List Event :=
  .segment request (.whole 0) (some (behind received)) ::
    (meanwhile ++ List.replicate 3 (.turn request))

def onePart : List Event :=
  [.call (.put ⟨.whole 0, [], none, false⟩) 1,
    .call (.append (.whole 0) ⟨1.0, true, [1, 2]⟩ false) 2]

def twoParts : List Event :=
  onePart ++ follows 0 [] [] ++
    follows 1 [1, 2] [.call (.append (.whole 0) ⟨1.0, false, [3]⟩ false) 3]

theorem receives_two_parts : Receives (plain 2) (.whole 0) twoParts [1, 2, 3] := by
  obtain ⟨first, arrives, body⟩ : ∃ response,
      ((plain 2).run onePart).outcomes (follows 0 [] []) = [(0, .ok (.segment response))] ∧
        response.body = [1, 2] := ⟨_, rfl, rfl⟩
  obtain ⟨second, arrives', body'⟩ : ∃ response,
      ((plain 2).run (onePart ++ follows 0 [] [])).outcomes
        (follows 1 [1, 2] [.call (.append (.whole 0) ⟨1.0, false, [3]⟩ false) 3]) =
          [(1, .ok (.segment response))] ∧ response.body = [3] := ⟨_, rfl, rfl⟩
  have one : Receives (plain 2) (.whole 0) (onePart ++ follows 0 [] []) ([] ++ first.body) :=
    .receives (.begins onePart) (by simp [Unasked, onePart, Event.asks])
      (arrives ▸ List.mem_singleton_self _)
  rw [body, List.nil_append] at one
  have two : Receives (plain 2) (.whole 0) twoParts ([1, 2] ++ second.body) :=
    .receives one (by simp [Unasked, onePart, follows, Event.asks])
      (arrives' ▸ List.mem_singleton_self _)
  rw [body'] at two
  exact two

/-- The reader has both parts, waits for a third, and is told that there is no more. -/
theorem progressive_reader_exact_of_two :
    let sealed : List Event := [.call (.close (.whole 0) none) 4]
    Stream.create "live" plainSettings 2.0 0 = .ok (plain 2) ∧
    Receives (plain 2) (.whole 0) twoParts [1, 2, 3] ∧
    ((plain 2).run twoParts).outcomes (follows 2 [1, 2, 3] sealed) =
      [(2, .error (.rangeStart 3 3))] ∧
    ∃ sooner a, sooner <+: follows 2 [1, 2, 3] sealed ∧
      (((plain 2).run twoParts).run sooner).window.named? (.whole 0) = some a ∧
      a.complete = true ∧ a.content = [1, 2, 3] := by
  have created := @create_plain 2.0 2 (by decide) (by decide)
  have arrives : ((plain 2).run twoParts).outcomes
      (follows 2 [1, 2, 3] [.call (.close (.whole 0) none) 4]) =
        [(2, .error (.rangeStart 3 3))] := rfl
  obtain ⟨-, -, next⟩ :=
    (progressive_reader_exact created (.whole 0)).2 twoParts [1, 2, 3] receives_two_parts
  obtain ⟨-, refused⟩ := next 2 ([.call (.close (.whole 0) none) 4] ++ List.replicate 3 (.turn 2))
    (by simp [Unasked, twoParts, onePart, follows, Event.asks])
  obtain ⟨-, whole⟩ := refused _ 3 (arrives ▸ List.mem_singleton_self _) rfl
  exact ⟨created, receives_two_parts, arrives, whole⟩

end Stream

end LiveHls
