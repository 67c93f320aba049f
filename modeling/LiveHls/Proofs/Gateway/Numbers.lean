import LiveHls.Proofs.Decimal.Notation
import LiveHls.Proofs.Gateway.Changes
import LiveHls.Proofs.PlaylistLines
import LiveHls.Proofs.Window.Durations
/-! The numbers in playlists. Handlers let no duration pass that is negative, or none at all, but they
set no bound; so a duration or a bandwidth is written as players read it exactly while it is below the
numbers that have an exponent. -/
namespace LiveHls

namespace Playlist

open Decimal (IsFixed IsInteger)

/-- A line states a duration, of a sealed segment or of a part. -/
inductive Line.States (seconds : Float) : Line → Prop
  | segment : States seconds (.duration seconds)
  | part {sequence length offset : Nat} {independent : Bool} :
      States seconds (.part seconds sequence length offset independent)

/-- The duration stands between the tag and a comma. -/
theorem Line.States.text {seconds : Float} {line : Line} (states : States seconds line) :
    ∃ tag ∈ ["#EXTINF:", "#EXT-X-PART:DURATION="], ∃ rest,
      line.text.toList = tag.toList ++ ((Decimal.fixed 3 seconds).toList ++ ',' :: rest) := by
  cases states with
  | segment =>
      refine ⟨"#EXTINF:", by decide, [], ?_⟩
      change ("#EXTINF:" ++ Decimal.fixed 3 seconds ++ ",").toList = _
      simp only [String.toList_append, List.append_assoc]
      rfl
  | @part n length offset independent =>
      have text : (Line.part seconds n length offset independent).text =
          "#EXT-X-PART:DURATION=" ++ Decimal.fixed 3 seconds ++ ",URI=" ++
            ("\"" ++ segmentUri (.whole n) ++ "\"") ++ ",BYTERANGE=" ++
            ("\"" ++ (toString length ++ "@" ++ toString offset) ++ "\"") ++
            if independent then ",INDEPENDENT=YES" else "" := rfl
      have comma : ",URI=".toList = ',' :: "URI=".toList := by decide
      refine ⟨"#EXT-X-PART:DURATION=", by decide, ?_⟩
      rw [text]
      simp only [String.toList_append, List.append_assoc, comma, List.cons_append]
      exact ⟨_, rfl⟩

theorem mem_segmentLines {a : Segment} {own : List Line} {line : Line} {seconds : Float}
    (ok : segmentLines a = .ok own) (member : line ∈ own) (states : line.States seconds) :
    a.duration = some seconds ∨ ∃ p ∈ a.parts, p.part.duration = seconds := by
  unfold segmentLines at ok
  have plain : line ∉ discontinuityLines a := by
    intro there
    unfold discontinuityLines at there
    split at there
    · rw [List.mem_singleton.mp there] at states
      cases states
    · cases there
  split at ok
  · rename_i duration given
    split at ok
    · cases ok
      rcases List.mem_append.mp member with front | rest
      · exact absurd front plain
      · simp only [List.mem_cons, List.not_mem_nil, or_false] at rest
        rcases rest with rfl | rfl | rfl
        · cases states
        · cases states
          exact .inl given
        · cases states
    · cases ok
  · cases ok
    rcases List.mem_append.mp member with front | rest
    · exact absurd front plain
    · obtain ⟨p, there, rfl⟩ := List.mem_map.mp rest
      cases states
      exact .inr ⟨p, there, rfl⟩

variable {w : Window} {settings : Settings} {lines : List Line}

/-- A duration that is stated is that of a segment or of a part. -/
theorem stated_nonneg (measured : w.Measured) (ok : Playlist.lines w settings = .ok lines)
    {line : Line} (member : line ∈ lines) {seconds : Float} (states : line.States seconds) :
    0.0 ≤ seconds := by
  obtain ⟨first, last, body, -, -, made, rfl⟩ := lines_eq_ok ok
  have inside : line ∈ body := by
    rcases List.mem_append.mp member with front | hint
    · rcases List.mem_append.mp front with head | inside
      · simp only [headLines, List.mem_cons, List.not_mem_nil, or_false] at head
        rcases head with rfl | rfl | rfl | rfl | rfl | rfl | rfl | rfl | rfl | rfl <;> cases states
      · exact inside
    · rw [List.mem_singleton.mp hint, hintLine] at states
      split at states <;> cases states
  obtain ⟨a, there, own, each, mine⟩ := mem_bodyLines made inside
  rcases mem_segmentLines each mine states with given | ⟨p, part, same⟩
  · exact (measured a there).duration seconds given
  · exact same ▸ (measured a there).parts p part

/-- An average bandwidth is a whole number, unless it is too large for one. -/
theorem averageBandwidth_isWhole {bandwidth : Float}
    (given : averageBandwidth w = some bandwidth) : Binary64.IsWhole bandwidth := by
  unfold averageBandwidth at given
  simp only at given
  split at given
  · rename_i positive
    cases given
    refine Binary64.NotNegative.isWhole_round (.div ?_ (Binary64.notNegative_of_positive positive))
    rcases Nat.eq_zero_or_pos (ratedBytes w.segments * 8) with dataless | bits
    · have zero : Binary64.unpack (Float.ofNat 0) = .zero .positive := rfl
      rw [dataless, Binary64.NotNegative, zero]
      rintro ⟨⟩
    · exact (Binary64.atLeast_ofNat (c := 1) (by decide) (by decide) bits).notNegative
  · cases given

end Playlist

namespace Origin

theorem kept_measured (act : Act) : Kept act fun s => s.Consistent ∧ s.window.Measured where
  created created := by
    refine ⟨Stream.create_consistent created, ?_⟩
    obtain ⟨capacity, -, -, rfl⟩ := (Stream.create_eq_ok_iff ..).mp created
    exact List.forall_mem_nil _
  step := by
    rintro s event given ⟨consistent, measured⟩
    have moves := s.step_moves event
    refine ⟨moves.consistent consistent, moves.measured consistent ?_ measured⟩
    rintro call now rfl
    exact given.call.1.measured

end Origin

namespace Gateway

open Decimal (IsFixed IsInteger)
open Playlist (Line)

/-- Whatever is asked over HTTP and in whatever order: a duration is written in a playlist with three
places, and a bandwidth as an integer, exactly if it is below the numbers that are written with an
exponent. No other number is written where a duration or a bandwidth is expected. -/
theorem rendered_numbers_are_plain_iff (config : StreamingConfig) (log : LogControl)
    (acts : List Act) :
    ∀ s ∈ (run ⟨.create config, log⟩ acts).origin.streams,
      (∀ lines, Playlist.lines s.window s.settings = .ok lines → ∀ line ∈ lines, ∀ seconds,
        Line.States seconds line → 0.0 ≤ seconds ∧
          (∃ tag ∈ ["#EXTINF:", "#EXT-X-PART:DURATION="], ∃ rest,
            line.text.toList = tag.toList ++ ((Decimal.fixed 3 seconds).toList ++ ',' :: rest)) ∧
          (IsFixed 3 (Decimal.fixed 3 seconds) ↔ seconds < 1e21)) ∧
      (∀ text, Playlist.masterText? s.window = some text → ∃ bandwidth,
        Playlist.averageBandwidth s.window = some bandwidth ∧
          text = Playlist.masterText bandwidth ∧
          (IsInteger (Decimal.text bandwidth) ↔ bandwidth < 1e21)) := by
  intro s member
  have measured : s.window.Measured :=
    (run_forall (fun act _ => Origin.kept_measured act) (List.forall_mem_nil _) s member).2
  constructor
  · intro lines ok line listed seconds states
    have nonneg := Playlist.stated_nonneg measured ok listed states
    exact ⟨nonneg, states.text, Decimal.fixed_isFixed_iff (by decide) nonneg⟩
  · intro text given
    obtain ⟨bandwidth, average, rfl⟩ := Option.map_eq_some_iff.mp given
    exact ⟨bandwidth, average, rfl,
      Decimal.text_isInteger_iff (Playlist.averageBandwidth_isWhole average)⟩

/-- One byte that lasts a second. -/
theorem rendered_numbers_are_plain_of_one_second :
    let config : StreamingConfig := ⟨4.0, 1.0, 3.0⟩
    let log : LogControl := .reload ⟨"", "/", .absent, []⟩
    let ask (method url : String) (request : Nat) : Act := .http ⟨method, url, [], [7]⟩ request 0
    let acts := [ask "PUT" "/live/cam/segment/0.m4s" 1,
      ask "PUT" "/live/cam/segment/0/part?duration=1" 2, ask "POST" "/live/cam/segment/0/seal" 3]
    ∃ s ∈ (run ⟨.create config, log⟩ acts).origin.streams, ∃ lines,
      Playlist.lines s.window s.settings = .ok lines ∧ .duration 1.0 ∈ lines ∧
      IsFixed 3 (Decimal.fixed 3 1.0) ∧
      Playlist.averageBandwidth s.window = some 8.0 ∧ IsInteger (Decimal.text 8.0) := by
  intro config log ask acts
  have rendered : (run ⟨.create config, log⟩ acts).origin.streams.any fun s =>
      ((Playlist.lines s.window s.settings).toOption.any fun lines => lines.any fun
        | .duration seconds => seconds = 1.0
        | _ => false) && Playlist.averageBandwidth s.window = some 8.0 := by decide +kernel
  obtain ⟨s, member, rendered⟩ := List.any_eq_true.mp rendered
  obtain ⟨stated, average⟩ := (Bool.and_eq_true _ _).mp rendered
  have average := of_decide_eq_true average
  obtain ⟨stated?, announced⟩ := rendered_numbers_are_plain_iff config log acts s member
  cases ok : Playlist.lines s.window s.settings with
  | error fault =>
      rw [ok] at stated
      cases stated
  | ok lines =>
      rw [ok] at stated
      obtain ⟨line, listed, one⟩ := List.any_eq_true.mp stated
      split at one
      · rename_i seconds
        obtain rfl := of_decide_eq_true one
        obtain ⟨-, -, fixed⟩ := stated? lines ok _ listed 1.0 .segment
        obtain ⟨bandwidth, same, -, integer⟩ :=
          announced _ (Option.map_eq_some_iff.mpr ⟨8.0, average, rfl⟩)
        obtain rfl := Option.some.inj (average.symm.trans same)
        exact ⟨s, member, lines, ok, listed, fixed.mpr (by decide +kernel), average,
          integer.mpr (by decide +kernel)⟩
      · cases one

/-- A duration of 10^21 seconds is accepted and written with an exponent. A segment that is sealed as
lasting almost no time announces a bandwidth that is no number. -/
theorem rendered_numbers_may_be_exponential_or_infinite :
    let start : Gateway := ⟨.create ⟨4.0, 1.0, 3.0⟩, LogControl.reload ⟨"", "/", .absent, []⟩⟩
    let ask (method url : String) (request : Nat) : Act := .http ⟨method, url, [], [7]⟩ request 0
    let long := start.run [ask "PUT" "/live/cam/segment/0.m4s" 1,
      ask "PUT" "/live/cam/segment/0/part?duration=1e21" 2]
    let short := start.run [ask "PUT" "/live/cam/segment/0.m4s" 1,
      ask "PUT" "/live/cam/segment/0/part?duration=1" 2,
      ask "POST" "/live/cam/segment/0/seal?duration=5e-324" 3]
    (long.origin.streams.map fun s =>
        (Playlist.lines s.window s.settings).toOption.bind fun lines => (lines.map Line.text)[10]?) =
      [some "#EXT-X-PART:DURATION=1e+21,URI=\"./segment/0.m4s\",BYTERANGE=\"1@0\""] ∧
    (short.origin.streams.map fun s => Playlist.masterText? s.window) =
      [some "#EXTM3U\n#EXT-X-STREAM-INF:BANDWIDTH=Infinity\nplaylist.m3u8\n"] := by
  decide +kernel

end Gateway
end LiveHls
