import LiveHls.Proofs.AdvanceLimit
import LiveHls.Proofs.PlaylistLines
import LiveHls.Proofs.PlaylistPlan
import LiveHls.Proofs.Stream.NextPart
/-! What a playlist advertises. Renderer, planner and byte ranges agree on where the live edge is:
what is listed is there to be fetched at once, and what is hinted at is waited for. -/
namespace LiveHls

namespace Playlist

variable {w : Window} {n st : Nat} {last : Segment}

theorem ends_of_hint (h : Consecutive w.segments) (tiled : w.Tiled) (newest : w.last? = some last)
    (hint : hintLine last = .preloadHint n st) : w.Ends n st := by
  unfold hintLine at hint
  split at hint
  · rename_i complete
    cases hint
    exact .next newest complete rfl rfl
  · cases hint
    exact .here (Window.find?_of_last? h newest) (tiled last (List.mem_of_getLast? newest)).length

/-- The playlist request for the part that is hinted at behind the last segment. -/
def hinted (last : Segment) : PlaylistRequest :=
  if last.complete then ⟨some (last.sequence + 1), some 0⟩
  else ⟨some last.sequence, some last.partCount⟩

/-- A request for a playlist with that part has to wait for a part that does not exist yet. -/
theorem plan_hinted {limit : PartLimit} (h : Consecutive w.segments) (newest : w.last? = some last)
    (admits : ∀ part, limit.refuses part (part + 1) = false) :
    ∃ target, (hinted last).plan w limit = .wait target ∧ target.evaluate w none = .pending := by
  have edge := Window.lastSequence_of_last? newest
  have found := Window.find?_of_last? h newest
  have inside := Window.not_evicted_of_mem h (List.mem_of_getLast? newest)
  unfold hinted
  split
  · -- the first part of a segment that is still to be put
    have next := @PlaylistRequest.plan_next _ limit h (some 0)
    have missing := PlaylistRequest.find?_next h
    have ahead := Window.next_not_evicted h
    have admitted : limit.refuses (-1) 0 = false := admits (-1)
    rw [edge] at next missing ahead
    refine ⟨.part (last.sequence + 1) 0, ?_, ?_⟩
    · rw [next, PlaylistRequest.planNext]
      simp only [admitted, Bool.false_eq_true, if_false]
    · have behind : w.segmentsFrom (last.sequence + 1) = [] := List.head?_eq_none_iff.mp missing
      rw [WaitTarget.evaluate_part_eq_pending_iff, behind]
      exact ⟨ahead, rfl⟩
  · rename_i opened
    have opened : last.complete = false := Bool.eq_false_iff.mpr opened
    have admitted := admits (last.partCount - 1)
    rw [Int.sub_add_cancel] at admitted
    obtain ⟨rest, here⟩ := List.head?_eq_some_iff.mp found
    refine ⟨.part last.sequence last.partCount, ?_, ?_⟩
    · rw [PlaylistRequest.plan_of_find? h found, PlaylistRequest.planPresent]
      simp only [admitted, Bool.and_false, Bool.false_eq_true, if_false]
      exact if_neg (by omega)
    · rw [WaitTarget.evaluate_part_eq_pending_iff, here]
      refine ⟨inside, ?_⟩
      simp [partExists, opened]

end Playlist

namespace Stream

open SegmentRequest

variable {s : Stream} {request n st : Nat} {last : Segment}

/-! ### Answers that are there at once -/

/-- The request is not parked, and in three turns of its own its client has this outcome and never
another, whatever else happens. -/
structure AnsweredAtOnce (s : Stream) (request : Nat) (asks : Event) (outcome : Outcome) :
    Prop where
  unparked : (s.step asks).waiters = s.waiters
  arrives : ∀ later, Unasked request later → 3 ≤ later.countP (Event.isTurnOf request) →
    (request, outcome) ∈ (s.step asks).outcomes later
  only : ∀ later other, Unasked request later →
    (request, other) ∈ (s.step asks).outcomes later → other = outcome

theorem answered_of_served (absent : s.At request .absent) (running : s.stopped = false)
    {a : Segment} (found : s.window.find? n = some a) {range : Option ByteRange}
    (served : Served a range) :
    s.AnsweredAtOnce request (.segment request (.whole n) range)
      (.ok (.segment (respond a range s.settings))) := by
  have step : s.step (.segment request (.whole n) range) =
      s.enqueue (.relay request 2 (.ok (.segment (respond a range s.settings)))) := by
    have named : s.window.named? (.whole n) = some a := found
    simp only [Stream.step, Stream.segment, running, named, Stream.serveFrom,
      judge_served served, Bool.false_eq_true, if_false]
    rfl
  have told : (s.step (.segment request (.whole n) range)).At request
      (.told 2 (.ok (.segment (respond a range s.settings)))) := by
    rw [step]
    exact absent.told
  refine ⟨?_, ?_, ?_⟩
  · rw [step]
    rfl
  · exact fun later unasked enough => told.told_arrives unasked enough
  · exact fun later other unasked arrives => told.told_outcome unasked arrives

/-- The range of a part is answered at once with the data of that part and no others. -/
def GivesPart (s : Stream) (request n length offset : Nat) : Prop :=
  ∃ a p response, s.window.find? n = some a ∧ p ∈ a.parts ∧ p.offset = offset ∧
    p.part.data.length = length ∧ response.status = 206 ∧ response.body = p.part.data ∧
    s.AnsweredAtOnce request (.segment request (.whole n) (some ⟨offset, offset + length - 1⟩))
      (.ok (.segment response))

/-- A segment is answered at once with all its data. -/
def GivesSegment (s : Stream) (request n : Nat) : Prop :=
  ∃ a response, s.window.find? n = some a ∧ response.status = 200 ∧ response.body = a.content ∧
    s.AnsweredAtOnce request (.segment request (.whole n) none) (.ok (.segment response))

theorem gives_part (h : s.Regular) (absent : s.At request .absent) (running : s.stopped = false)
    {a : Segment} {p : PlacedPart} (inside : a ∈ s.window.segments) (member : p ∈ a.parts)
    (full : p.part.data ≠ []) :
    s.GivesPart request a.sequence p.part.data.length p.offset := by
  have found : s.window.find? a.sequence = some a :=
    (Window.find?_eq_some_iff h.wellFormed.consecutive _ a).mpr ⟨inside, rfl⟩
  obtain ⟨served, status, body⟩ := @respond_part a s.settings p (h.tiled a inside) member full
  exact ⟨a, p, _, found, member, rfl, rfl, status, body,
    answered_of_served absent running found served⟩

theorem gives_segment (h : s.Regular) (absent : s.At request .absent) (running : s.stopped = false)
    {a : Segment} (inside : a ∈ s.window.segments) (complete : a.complete = true) :
    s.GivesSegment request a.sequence := by
  have found : s.window.find? a.sequence = some a :=
    (Window.find?_eq_some_iff h.wellFormed.consecutive _ a).mpr ⟨inside, rfl⟩
  have served : Served a none := .inr ⟨rfl, complete⟩
  have whole := @respond_whole a s.settings (h.tiled a inside) served
  exact ⟨a, _, found, whole.status, whole.body, answered_of_served absent running found served⟩

/-! ### Requests that are parked -/

/-- All that comes of the request for now is that it waits. -/
def Parks (s : Stream) (request : Nat) (asks : Event) : Prop :=
  ∃ stage target, s.step asks = s.park ⟨request, stage⟩ target

theorem waitFor_parks (h : s.Regular) (running : s.stopped = false)
    (present : s.left.contains request = false) {stage : Stage} {target : WaitTarget}
    (pending : target.evaluate s.window none = .pending) :
    (s.waitFor ⟨request, stage⟩ target).1 = s.park ⟨request, stage⟩ target := by
  have opened : s.waiters.closedWith = none := by
    rw [h.closedWith, running]
    rfl
  rcases s.waitFor_cases ⟨request, stage⟩ target with ⟨outcome, -, settled⟩ | ⟨-, same⟩
  · have judged := settled opened present
    rw [pending] at judged
    cases judged
  · exact same

theorem playlist_parks (h : s.Regular) (running : s.stopped = false)
    (present : s.left.contains request = false) {what : PlaylistRequest} {target : WaitTarget}
    (planned : what.plan s.window s.settings.partLimit = .wait target)
    (pending : target.evaluate s.window none = .pending) :
    s.Parks request (.playlist request what) := by
  refine ⟨.playlist what.isBlocking, target, ?_⟩
  simp only [Stream.step, Stream.playlist, running, planned, Bool.false_eq_true, if_false]
  exact waitFor_parks h running present pending

/-- The segment behind a sealed one gets time to appear. -/
theorem fetch_next_parks (h : s.Regular) (running : s.stopped = false)
    (present : s.left.contains request = false) (newest : s.window.last? = some last) :
    s.Parks request (fetch request (last.sequence + 1) 0) := by
  have next : ((last.sequence + 1 : Nat) : Int) = s.window.lastSequence + 1 := by
    rw [Window.lastSequence_of_last? newest]
    rfl
  have missing : s.window.named? (.whole (last.sequence + 1 : Nat)) = none := by
    rw [s.window.named?_of_toInt? rfl, next]
    exact PlaylistRequest.find?_next h.wellFormed.consecutive
  have ahead : s.window.isPast (.whole (last.sequence + 1 : Nat)) = false := by
    rw [s.window.isPast_eq_isEvicted rfl, next]
    exact Window.next_not_evicted h.wellFormed.consecutive
  refine ⟨.appearance (.whole (last.sequence + 1 : Nat)) (some ⟨(0 : Nat), openEnd⟩),
    .production, ?_⟩
  simp only [fetch, Stream.step, Stream.segment, running, missing, ahead, Bool.false_eq_true,
    if_false]
  exact waitFor_parks h running present rfl

/-- At the end of the data of an open segment a request is held. -/
theorem fetch_here_parks (h : s.Regular) (running : s.stopped = false)
    (present : s.left.contains request = false) (newest : s.window.last? = some last)
    (opened : last.complete = false) :
    s.Parks request (fetch request last.sequence last.dataSize) := by
  have found := Window.find?_of_last? h.wellFormed.consecutive newest
  have named : s.window.named? (.whole last.sequence) = some last := found
  have inside := not_evicted_of_find? h found
  have held := @judge_edge last (some ⟨last.dataSize, openEnd⟩) opened rfl s.settings
  refine ⟨.hold last.sequence (some ⟨last.dataSize, openEnd⟩),
    .bytes last.sequence last.dataSize, ?_⟩
  simp only [fetch, Stream.step, Stream.segment, running, named, Stream.serveFrom, held,
    Bool.false_eq_true, if_false]
  refine waitFor_parks h running present (WaitTarget.bytes_pending_iff.mpr ⟨inside, ?_⟩)
  intro a there
  cases found.symm.trans there
  exact ⟨opened, Int.le_refl _⟩

theorem fetch_parks (h : s.Regular) (running : s.stopped = false)
    (present : s.left.contains request = false) (newest : s.window.last? = some last)
    (hint : Playlist.hintLine last = .preloadHint n st) : s.Parks request (fetch request n st) := by
  unfold Playlist.hintLine at hint
  split at hint
  · cases hint
    exact fetch_next_parks h running present newest
  · rename_i opened
    cases hint
    exact fetch_here_parks h running present newest (Bool.eq_false_iff.mpr opened)

/-- What a request for the part to come can rely on. -/
structure Promised (s : Stream) (request n st : Nat) : Prop where
  parks : s.Parks request (fetch request n st)
  fetched : ∀ later outcome, Unasked request later →
    (request, outcome) ∈ s.outcomes (fetch request n st :: later) →
      s.Fetched request n st (fetch request n st :: later) outcome
  arrives : ∀ sooner appending data rest, Unasked request (sooner ++ [appending] ++ rest) →
    ((s.step (fetch request n st)).run sooner).AppendsAt n st appending data →
      4 ≤ rest.countP (Event.isTurnOf request) →
        ∃ outcome, (request, outcome) ∈
          s.outcomes (fetch request n st :: (sooner ++ [appending] ++ rest))

theorem promised_of_hint (h : s.Regular) (absent : s.At request .absent)
    (running : s.stopped = false) (present : s.left.contains request = false)
    (newest : s.window.last? = some last) (hint : Playlist.hintLine last = .preloadHint n st) :
    s.Promised request n st := by
  have ends := Playlist.ends_of_hint h.wellFormed.consecutive h.tiled newest hint
  have positive : 0 ≤ startOf (some ⟨st, openEnd⟩) := Int.natCast_nonneg st
  refine ⟨fetch_parks h running present newest hint, ?_, ?_⟩
  · intro later outcome unasked arrives
    exact fetched_of_justified h ends (justified_of_outcome h absent positive unasked arrives)
  · intro sooner appending data rest unasked appends enough
    obtain ⟨outcome, arrives⟩ := fetch_arrives h absent unasked appends enough
    exact ⟨outcome, List.mem_append_right _ arrives⟩

/-- What the playlist advertises can be fetched. A listed part and a listed segment are given out at
once, and the request for the part that is hinted at is parked and not refused. So is the request for
a playlist with that part, if the settings are derived from durations that are positive: the part
limit admits the next part then. -/
theorem advertised_can_be_fetched {id : String} {settings : Settings} {size : Float} {now : Int}
    {start : Stream} (created : Stream.create id settings size now = .ok start)
    (before : List Event) {request : Nat} (single : Unasked request before)
    (running : (start.run before).stopped = false)
    (present : (start.run before).left.contains request = false)
    (full : ∀ a ∈ (start.run before).window.segments, ∀ p ∈ a.parts, p.part.data ≠ [])
    {lines : List Playlist.Line}
    (rendered : Playlist.lines (start.run before).window settings = .ok lines) :
    let s := start.run before
    (∀ seconds n length offset independent,
      .part seconds n length offset independent ∈ lines → s.GivesPart request n length offset) ∧
    (∀ n, .uri n ∈ lines → s.GivesSegment request n) ∧
    (∀ n st, .preloadHint n st ∈ lines → s.Promised request n st) ∧
    ∀ segmentDuration partDuration, settings = .derive segmentDuration partDuration →
      0.0 < partDuration → ∀ last, s.window.last? = some last →
        s.Parks request (.playlist request (Playlist.hinted last)) := by
  intro s
  have regular : s.Regular := run_regular (create_regular created) before
  obtain ⟨fresh, own⟩ := create_at created request
  have absent : s.At request .absent := fresh.run_absent single
  refine ⟨?_, ?_, ?_, ?_⟩
  · intro seconds n length offset independent member
    obtain ⟨a, inside, -, rfl, p, there, rfl, rfl⟩ := Playlist.part_of_mem rendered member
    exact gives_part regular absent running inside there (full a inside p there)
  · intro n member
    obtain ⟨a, inside, complete, rfl⟩ := Playlist.uri_of_mem rendered member
    exact gives_segment regular absent running inside complete
  · intro n st member
    obtain ⟨last, newest, hint⟩ := Playlist.preloadHint_of_mem rendered member
    exact promised_of_hint regular absent running present newest hint
  · intro segmentDuration partDuration derived positive last newest
    have same : s.settings = .derive segmentDuration partDuration :=
      (run_settings start before).trans (own.trans derived)
    have admits : ∀ part, s.settings.partLimit.refuses part (part + 1) = false := by
      rw [same]
      exact Settings.derive_admits_next segmentDuration positive
    obtain ⟨target, planned, pending⟩ :=
      Playlist.plan_hinted regular.wellFormed.consecutive newest admits
    exact playlist_parks regular running present planned pending

/-- A sealed segment, and a part of the next. -/
def sealedThenOpen : List Event :=
  [.call (.put ⟨.whole 0, [], none, false⟩) 1,
    .call (.append (.whole 0) ⟨1.0, true, [6, 7]⟩ false) 2, .call (.close (.whole 0) none) 3,
    .call (.put ⟨.whole 1, [], none, false⟩) 4,
    .call (.append (.whole 1) ⟨1.0, true, [8, 9]⟩ false) 5]

theorem advertised_can_be_fetched_of_two :
    let settings := Settings.derive 4.0 1.0
    let s := (fresh "live" settings 2 0).run sealedThenOpen
    Stream.create "live" settings 2.0 0 = .ok (fresh "live" settings 2 0) ∧
    (0.0 : Float) < 1.0 ∧ Unasked 0 sealedThenOpen ∧
    s.stopped = false ∧ s.left.contains 0 = false ∧
    (∀ a ∈ s.window.segments, ∀ p ∈ a.parts, p.part.data ≠ []) ∧
    ∃ lines part whole, Playlist.lines s.window settings = .ok lines ∧
      .part 1.0 1 2 0 true ∈ lines ∧ .uri 0 ∈ lines ∧ .preloadHint 1 2 ∈ lines ∧
      part.body = [8, 9] ∧
      s.AnsweredAtOnce 0 (.segment 0 (.whole 1) (some ⟨0, 1⟩)) (.ok (.segment part)) ∧
      whole.body = [6, 7] ∧
      s.AnsweredAtOnce 0 (.segment 0 (.whole 0) none) (.ok (.segment whole)) ∧
      s.Promised 0 1 2 ∧ s.Parks 0 (.playlist 0 ⟨some 1, some 1⟩) := by
  have created : Stream.create "live" (.derive 4.0 1.0) 2.0 0 =
      .ok (fresh "live" (.derive 4.0 1.0) 2 0) :=
    (create_eq_ok_iff ..).mpr ⟨2, by decide, by decide, rfl⟩
  have positive : (0.0 : Float) < 1.0 := by decide
  have single : Unasked 0 sealedThenOpen := by simp [Unasked, sealedThenOpen, Event.asks]
  have running : ((fresh "live" (.derive 4.0 1.0) 2 0).run sealedThenOpen).stopped = false := rfl
  have present : ((fresh "live" (.derive 4.0 1.0) 2 0).run sealedThenOpen).left.contains 0 =
      false := rfl
  have full : ∀ a ∈ ((fresh "live" (.derive 4.0 1.0) 2 0).run sealedThenOpen).window.segments,
      ∀ p ∈ a.parts, p.part.data ≠ [] := by decide
  obtain ⟨lines, rendered, listed, uri, hint⟩ : ∃ lines,
      Playlist.lines ((fresh "live" (.derive 4.0 1.0) 2 0).run sealedThenOpen).window
          (.derive 4.0 1.0) = .ok lines ∧
        .part 1.0 1 2 0 true ∈ lines ∧ .uri 0 ∈ lines ∧ .preloadHint 1 2 ∈ lines := by
    refine ⟨_, rfl, List.mem_of_getElem? (i := 13) ?_, List.mem_of_getElem? (i := 12) ?_,
      List.mem_of_getElem? (i := 14) ?_⟩
    · rfl
    · rfl
    · rfl
  obtain ⟨last, newest, next⟩ : ∃ last,
      ((fresh "live" (.derive 4.0 1.0) 2 0).run sealedThenOpen).window.last? = some last ∧
        Playlist.hinted last = ⟨some 1, some 1⟩ := ⟨_, rfl, rfl⟩
  obtain ⟨parts, sealed, promised, parked⟩ :=
    advertised_can_be_fetched created _ single running present full rendered
  obtain ⟨a, p, part, found, member, -, -, -, body, answered⟩ := parts _ _ _ _ _ listed
  cases found
  obtain rfl := List.mem_singleton.mp member
  obtain ⟨b, whole, found, -, all, served⟩ := sealed 0 uri
  cases found
  exact ⟨created, positive, single, running, present, full, lines, part, whole, rendered, listed,
    uri, hint, body, answered, all, served, promised 1 2 hint,
    next ▸ parked 4.0 1.0 rfl positive last newest⟩

end Stream

end LiveHls
