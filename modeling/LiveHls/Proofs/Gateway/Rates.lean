import LiveHls.Proofs.Gateway.Numbers
import LiveHls.Proofs.Stream.Attendance
import LiveHls.Proofs.Stream.MasterPlaylist
/-! The two rates of a stream. A report counts every sealed segment, the master playlist only those with
a positive duration. Both come to the same seconds, since the others add none, but the others may have
data. -/
namespace LiveHls

open Playlist (hasRate averageBandwidth ratedBytes ratedSeconds)

/-! ### Bytes -/

/-- The data of the segments that are sealed without a positive duration. -/
def unratedBytes (segments : List Segment) : Nat :=
  total ((segments.filter fun a => a.complete && !hasRate a).map (·.dataSize))

theorem foldl_ratedBytes (segments : List Segment) (bytes : Nat) :
    segments.foldl (fun bytes s => if hasRate s then bytes + s.dataSize else bytes) bytes +
        unratedBytes segments =
      bytes + total ((segments.filter (·.complete)).map (·.dataSize)) := by
  simp only [unratedBytes, Stream.total_eq_sum]
  induction segments generalizing bytes with
  | nil => rfl
  | cons a rest ih =>
      rw [List.foldl_cons]
      by_cases rated : hasRate a = true
      · have later := ih (bytes + a.dataSize)
        simp only [List.filter_cons, rated, Playlist.complete_of_hasRate rated, Bool.not_true,
          Bool.and_false, Bool.false_eq_true, if_false, if_true, List.map_cons, List.sum_cons]
        omega
      · have later := ih bytes
        cases complete : a.complete with
        | true =>
            simp only [List.filter_cons, rated, complete, Bool.and_self, Bool.not_false, if_true,
              Bool.false_eq_true, if_false, List.map_cons, List.sum_cons]
            omega
        | false =>
            simp only [List.filter_cons, rated, complete, Bool.false_and, Bool.false_eq_true, if_false]
            exact later

theorem sealedBytes_eq (w : Window) :
    StreamMetrics.sealedBytes w = ratedBytes w.segments + unratedBytes w.segments := by
  have parts := foldl_ratedBytes w.segments 0
  rw [Nat.zero_add] at parts
  exact parts.symm

/-! ### Seconds -/

theorem Segment.Measured.unrated {a : Segment} (measured : a.Measured) {seconds : Float}
    (given : a.duration = some seconds) (unrated : hasRate a = false) :
    ∃ sign, Binary64.unpack seconds = .zero sign := by
  have unmeasured : ¬ 0.0 < seconds := by
    rw [hasRate, given] at unrated
    exact of_decide_eq_false unrated
  exact (Binary64.nonneg_iff.mp (measured.duration seconds given)).resolve_right unmeasured

/-- The segments that do not count for the bandwidth add nothing to the seconds. -/
theorem foldl_sealedSeconds {segments : List Segment} (measured : ∀ a ∈ segments, a.Measured)
    {seconds : Float} (summed : Binary64.Summed seconds) :
    segments.foldl (fun total s => if s.complete then total + s.duration.getD 0.0 else total) seconds =
      segments.foldl (fun total s => if hasRate s then total + s.duration.getD 0.0 else total)
        seconds := by
  induction segments generalizing seconds with
  | nil => rfl
  | cons a rest ih =>
      have own := measured a List.mem_cons_self
      have others : ∀ b ∈ rest, b.Measured := fun b member => measured b (List.mem_cons_of_mem a member)
      rw [List.foldl_cons, List.foldl_cons]
      cases given : a.duration with
      | none =>
          have opened : a.complete = false := by rw [Segment.complete, given]; rfl
          have unrated : hasRate a = false := by rw [hasRate, given]
          rw [opened, unrated]
          exact ih others summed
      | some d =>
          have complete : a.complete = true := by rw [Segment.complete, given]; rfl
          cases rated : hasRate a with
          | true =>
              have positive : 0.0 < d := by
                rw [hasRate, given] at rated
                exact of_decide_eq_true rated
              rw [complete]
              exact ih others (summed.add_positive positive)
          | false =>
              obtain ⟨sign, zero⟩ := own.unrated given rated
              have same : seconds + d = seconds := summed.add_zero zero
              simp only [complete, if_true, Option.getD_some, same, Bool.false_eq_true, if_false]
              exact ih others summed

theorem sealedSeconds_eq {w : Window} (measured : w.Measured) :
    StreamMetrics.sealedSeconds w = ratedSeconds w.segments :=
  foldl_sealedSeconds measured (.inl rfl)

/-! ### Rates -/

/-- Either both rates are there, over the same seconds, or neither is. -/
theorem rates_cases {w : Window} (measured : w.Measured) :
    let seconds := StreamMetrics.sealedSeconds w
    StreamMetrics.bitrateOf w =
        Float.ofNat ((ratedBytes w.segments + unratedBytes w.segments) * 8) / seconds ∧
      averageBandwidth w =
        some (Binary64.round (Float.ofNat (ratedBytes w.segments * 8) / seconds)) ∨
    StreamMetrics.bitrateOf w = 0.0 ∧ averageBandwidth w = none := by
  intro seconds
  have same : ratedSeconds w.segments = seconds := (sealedSeconds_eq measured).symm
  rw [StreamMetrics.bitrateOf, averageBandwidth, sealedBytes_eq, same]
  by_cases positive : 0.0 < seconds
  · exact .inl ⟨if_pos positive, if_pos positive⟩
  · exact .inr ⟨if_neg positive, if_neg positive⟩

namespace Gateway

/-- Whatever is asked over HTTP and in whatever order: the report and the master playlist divide by the
same seconds. The report has the bytes of all sealed segments, the bandwidth those of the segments with
a positive duration; where the others have no data, the bandwidth is the rate of the report, rounded.
Without a bandwidth the rate is zero. -/
theorem bandwidth_is_rounded_bitrate (config : StreamingConfig) (log : LogControl) (acts : List Act)
    (now : Int) :
    ∀ s ∈ (run ⟨.create config, log⟩ acts).origin.streams,
      let metrics := StreamMetrics.ofStream s now
      let rated := ratedBytes s.window.segments
      let others := unratedBytes s.window.segments
      (∀ bandwidth, averageBandwidth s.window = some bandwidth →
        metrics.bitrate = Float.ofNat ((rated + others) * 8) / metrics.sealedDuration ∧
        bandwidth = Binary64.round (Float.ofNat (rated * 8) / metrics.sealedDuration) ∧
        (others = 0 → bandwidth = Binary64.round metrics.bitrate)) ∧
      (averageBandwidth s.window = none → metrics.bitrate = 0.0) := by
  intro s member metrics rated others
  have measured : s.window.Measured :=
    (run_forall (fun act _ => Origin.kept_measured act) (List.forall_mem_nil _) s member).2
  rcases rates_cases measured with ⟨rate, announced⟩ | ⟨nothing, absent⟩
  · have rate : metrics.bitrate = Float.ofNat ((rated + others) * 8) / metrics.sealedDuration := rate
    refine ⟨fun bandwidth given => ?_, fun absent => ?_⟩
    · rw [announced] at given
      cases given
      refine ⟨rate, rfl, fun dataless => ?_⟩
      rw [rate, dataless, Nat.add_zero]
      rfl
    · rw [announced] at absent
      cases absent
  · refine ⟨fun bandwidth given => ?_, fun _ => nothing⟩
    rw [absent] at given
    cases given

/-- Puts a segment of one byte in one part, and seals it. -/
def sealedPart (sequence : Nat) (seconds : String) : List Act :=
  let ask (method rest : String) : Act :=
    .http ⟨method, s!"/live/cam/segment/{sequence}{rest}", [], [7]⟩ 0 0
  [ask "PUT" ".m4s", ask "PUT" s!"/part?duration={seconds}", ask "POST" "/seal"]

/-- One byte that lasts a second: eight bits per second, in both places. -/
theorem bandwidth_is_rounded_bitrate_of_one_second :
    let log : LogControl := .reload ⟨"", "/", .absent, []⟩
    ∃ s ∈ (run ⟨.create ⟨4.0, 1.0, 3.0⟩, log⟩ (sealedPart 0 "1")).origin.streams,
      averageBandwidth s.window = some 8.0 ∧
      Binary64.round (StreamMetrics.ofStream s 0).bitrate = 8.0 := by
  intro log
  have announced : (run ⟨.create ⟨4.0, 1.0, 3.0⟩, log⟩ (sealedPart 0 "1")).origin.streams.any
      (fun s => averageBandwidth s.window = some 8.0 && unratedBytes s.window.segments = 0) =
        true := by
    decide +kernel
  obtain ⟨s, member, announced⟩ := List.any_eq_true.mp announced
  obtain ⟨average, dataless⟩ := (Bool.and_eq_true _ _).mp announced
  have average := of_decide_eq_true average
  obtain ⟨-, -, same⟩ := (bandwidth_is_rounded_bitrate _ log _ 0 s member).1 _ average
  exact ⟨s, member, average, (same (of_decide_eq_true dataless)).symm⟩

/-- A segment that lasts no time has a byte. The report counts it, the bandwidth does not. -/
theorem bandwidth_leaves_bytes_out :
    let log : LogControl := .reload ⟨"", "/", .absent, []⟩
    let acts := sealedPart 0 "0" ++ sealedPart 1 "1"
    (run ⟨.create ⟨4.0, 1.0, 3.0⟩, log⟩ acts).origin.streams.map
        (fun s => (averageBandwidth s.window, (StreamMetrics.ofStream s 0).bitrate)) =
      [(some 8.0, 16.0)] ∧ Binary64.round 16.0 ≠ 8.0 := by
  decide +kernel

end Gateway
end LiveHls
