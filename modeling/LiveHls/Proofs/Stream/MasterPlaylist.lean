import LiveHls.Proofs.Binary64.Sums
import LiveHls.Proofs.Stream.Published
/-! When a stream has a master playlist. It has one exactly while its window holds a segment that was
sealed with a positive duration, so it loses the playlist with the last such segment, although the
segment has been sealed for good. -/
namespace LiveHls

namespace Playlist

theorem foldl_ratedSeconds (segments : List Segment) {seconds : Float} (nonneg : 0.0 ≤ seconds) :
    0.0 < segments.foldl
        (fun seconds s => if hasRate s then seconds + s.duration.getD 0.0 else seconds) seconds ↔
      0.0 < seconds ∨ ∃ a ∈ segments, hasRate a = true := by
  induction segments generalizing seconds with
  | nil => simp
  | cons a rest ih =>
      rw [List.foldl_cons, List.exists_mem_cons_iff]
      by_cases rated : hasRate a = true
      · have positive : 0.0 < a.duration.getD 0.0 := by
          unfold hasRate at rated
          split at rated
          · rename_i duration given
            rw [given]
            exact of_decide_eq_true rated
          · cases rated
        have more := Binary64.add_positive nonneg positive
        rw [if_pos rated, ih (Binary64.nonneg_iff.mpr (.inr more))]
        exact iff_of_true (.inl more) (.inr (.inl rated))
      · rw [if_neg rated, ih nonneg, or_iff_right rated]

/-- There is a bandwidth to announce as long as one segment counts for it. -/
theorem averageBandwidth_isSome_iff (w : Window) :
    (averageBandwidth w).isSome = true ↔ ∃ a ∈ w.segments, hasRate a = true := by
  have positive : 0.0 < ratedSeconds w.segments ↔ ∃ a ∈ w.segments, hasRate a = true := by
    refine (foldl_ratedSeconds w.segments (by decide)).trans (or_iff_right ?_)
    decide
  rw [← positive, averageBandwidth]
  split
  · rename_i rated
    exact iff_of_true rfl rated
  · rename_i unrated
    exact iff_of_false nofun unrated

theorem complete_of_hasRate {a : Segment} (rated : hasRate a = true) : a.complete = true := by
  unfold hasRate at rated
  split at rated
  · rename_i duration given
    rw [Segment.complete, given]
    rfl
  · cases rated

end Playlist

namespace Stream

open Playlist (hasRate)

variable {s t : Stream}

def HasMaster (s : Stream) : Prop := ∃ body, s.masterPlaylist = .ok (some body)

theorem hasMaster_iff (running : s.stopped = false) :
    s.HasMaster ↔ ∃ a ∈ s.window.segments, hasRate a = true := by
  rw [← Playlist.averageBandwidth_isSome_iff, HasMaster, masterPlaylist,
    if_neg (Bool.eq_false_iff.mp running), Playlist.masterText?]
  cases Playlist.averageBandwidth s.window with
  | none => exact iff_of_false nofun nofun
  | some bandwidth => exact iff_of_true ⟨_, rfl⟩ rfl

/-- A stream that runs has always run. -/
theorem Moves.running {event : Event} (moves : Moves s event t) (running : t.stopped = false) :
    s.stopped = false := by
  cases moves with
  | produced still made => exact still
  | refused failed => exact running
  | halted still => exact still
  | idle stopped => exact running
  | left request => exact running
  | playlist reads => exact reads.stopped ▸ running
  | segment reads => exact reads.stopped ▸ running
  | turn reads => exact reads.stopped ▸ running

theorem run_running {events : List Event} (running : (s.run events).stopped = false) :
    s.stopped = false := by
  induction events generalizing s with
  | nil => exact running
  | cons event events ih => exact (s.step_moves event).running (ih running)

/-- Only a put drops segments, and only the first of a full window. -/
theorem Moves.drops_first {event : Event} (h : s.Consistent) (moves : Moves s event t)
    {a : Segment} (member : a ∈ s.window.segments) (gone : t.window.isEvicted a.sequence = true) :
    ∃ new now rest, event = .call (.put new) now ∧ s.window.segments = a :: rest ∧
      s.window.segments.length = s.buffer.capacity := by
  have inside := Window.not_evicted_of_mem h.wellFormed.consecutive member
  rcases moves.window with same | ⟨call, now, rfl, -, made⟩
  · rw [same, inside] at gone
    cases gone
  · rcases Window.perform_advances_or_put h.wellFormed made with
      ⟨wellFormed, advances⟩ | ⟨new, rfl, put⟩
    · obtain ⟨b, stays, grows⟩ := advances.kept a member
      have kept := Window.not_evicted_of_mem wellFormed.consecutive stays
      rw [grows.sequence] at kept
      exact absurd (kept.symm.trans gone) Bool.false_ne_true
    · obtain ⟨rest, segments, full, -⟩ := Window.put_drops_first h.wellFormed put member gone
      exact ⟨new, now, rest, rfl, segments, full⟩

/-- The first segment of a full window is the only one that counts, and a put drops it. -/
structure DropsRate (s : Stream) (event : Event) : Prop where
  put : ∃ new now, event = .call (.put new) now
  full : s.window.segments.length = s.buffer.capacity
  only : ∃ first rest, s.window.segments = first :: rest ∧ hasRate first = true ∧
    ∀ b ∈ rest, hasRate b = false

/-- The master playlist is lost only with the last segment that counts. -/
theorem dropsRate_of_lost {event : Event} (h : s.Consistent)
    (running : (s.step event).stopped = false) (had : s.HasMaster)
    (lost : ¬ (s.step event).HasMaster) : s.DropsRate event := by
  have moves := s.step_moves event
  rw [hasMaster_iff running] at lost
  rw [hasMaster_iff (moves.running running)] at had
  have dropped : ∀ a ∈ s.window.segments, hasRate a = true →
      ∃ new now rest, event = .call (.put new) now ∧ s.window.segments = a :: rest ∧
        s.window.segments.length = s.buffer.capacity := by
    intro a member rated
    refine moves.drops_first h member (Bool.not_eq_false _ ▸ fun inside => lost ?_)
    exact ⟨a, run_sealed h [event] member (Playlist.complete_of_hasRate rated) inside, rated⟩
  obtain ⟨first, member, rated⟩ := had
  obtain ⟨new, now, rest, call, segments, full⟩ := dropped first member rated
  refine ⟨⟨new, now, call⟩, full, first, rest, segments, rated, fun b later => ?_⟩
  refine Bool.eq_false_iff.mpr fun also => ?_
  obtain ⟨-, -, others, -, again, -⟩ := dropped b (segments ▸ List.mem_cons_of_mem _ later) also
  obtain ⟨rfl, rfl⟩ := List.cons.inj (segments.symm.trans again)
  have sorted := (segments ▸ h.wellFormed.consecutive).sorted
  exact Nat.lt_irrefl _ ((List.pairwise_cons.mp sorted).1 first later)

/-- A stream that runs has a master playlist exactly while its window holds a segment that is sealed
with a positive duration. So it has one from the seal of such a segment until the segment leaves the
window, and it is lost, if at all, when a put drops the only one. -/
theorem master_playlist_while_rated {id : String} {settings : Settings} {size : Float} {now : Int}
    {start : Stream} (created : Stream.create id settings size now = .ok start)
    (events later : List Event) (running : (start.run (events ++ later)).stopped = false) :
    let s := start.run events
    let t := start.run (events ++ later)
    (t.HasMaster ↔ ∃ a ∈ t.window.segments, hasRate a = true) ∧
    (∀ a ∈ s.window.segments, hasRate a = true →
      s.HasMaster ∧ (t.window.isEvicted a.sequence = false → t.HasMaster)) ∧
    (∀ event, (t.step event).stopped = false → t.HasMaster → ¬ (t.step event).HasMaster →
      t.DropsRate event) := by
  intro s t
  have before := run_consistent (create_consistent created) events
  have after := run_consistent (create_consistent created) (events ++ later)
  have same : t = s.run later := run_append ..
  have still : s.stopped = false := by
    refine @run_running s later ?_
    rw [← same]
    exact running
  refine ⟨hasMaster_iff running, fun a member rated => ⟨?_, fun inside => ?_⟩, fun event => ?_⟩
  · exact (hasMaster_iff still).mpr ⟨a, member, rated⟩
  · have complete := Playlist.complete_of_hasRate rated
    have stays : a ∈ t.window.segments := by
      rw [same] at inside ⊢
      exact run_sealed before later member complete inside
    exact (hasMaster_iff running).mpr ⟨a, stays, rated⟩
  · exact dropsRate_of_lost after

/-- One second of data, sealed as the first segment. -/
def oneSecond : List Event :=
  [.call (.put ⟨.whole 0, [], none, false⟩) 1,
    .call (.append (.whole 0) ⟨1.0, false, [7]⟩ false) 2, .call (.close (.whole 0) none) 3]

/-- In a window of two segments the first one still counts while the second is open. -/
theorem master_playlist_while_rated_of_two :
    let later : List Event := [.call (.put ⟨.whole 1, [], none, false⟩) 4]
    Stream.create "live" plainSettings 2.0 0 = .ok (plain 2) ∧
    ((plain 2).run (oneSecond ++ later)).stopped = false ∧
    ((plain 2).run (oneSecond ++ later)).HasMaster := by
  intro later
  have created := @create_plain 2.0 2 (by decide) (by decide)
  have counts := @master_playlist_while_rated _ _ _ _ _ created oneSecond later rfl
  refine ⟨created, rfl, counts.1.mpr ⟨_, List.mem_cons_self, ?_⟩⟩
  decide +kernel

/-- In a window of one segment the playlist that was there is gone with the next put. -/
theorem master_playlist_is_lost_of_one :
    ((plain 1).run oneSecond).HasMaster ∧
    ∃ later, ((plain 1).run (oneSecond ++ later)).stopped = false ∧
      ¬ ((plain 1).run (oneSecond ++ later)).HasMaster := by
  refine ⟨⟨_, rfl⟩, [.call (.put ⟨.whole 1, [], none, false⟩) 4], rfl, ?_⟩
  rintro ⟨body, ⟨⟩⟩

end Stream
end LiveHls
