import LiveHls.Proofs.Segment.Content
import LiveHls.SegmentRequest
/-! What a segment gives to a request for its bytes: a range of its data, all of it, or the refusal
of a range that starts past the end. -/
namespace LiveHls.SegmentRequest

variable {a : Segment} {range : Option ByteRange} {settings : Settings}

def contentRange? (response : SegmentResponse) : Option String :=
  response.headers.lookup "Content-Range"

/-- The last position of a range that the segment has. -/
def lastOf (a : Segment) (range : ByteRange) : Int := min range.last (a.content.length - 1)

/-- The positions of a range and the length of the data, which is left open until it is final. -/
def positions (a : Segment) (range : ByteRange) : String :=
  let total := if a.complete then toString a.content.length else "*"
  s!"bytes {integerText range.first}-{integerText (lastOf a range)}/{total}"

/-- All data of a segment. -/
structure Whole (a : Segment) (response : SegmentResponse) : Prop where
  status : response.status = 200
  contentRange : contentRange? response = none
  body : response.body = a.content
  nonempty : a.complete = false → response.body ≠ []

/-- As much of a range as the segment has. -/
structure Partial (a : Segment) (range : ByteRange) (response : SegmentResponse) : Prop where
  status : response.status = 206
  starts : range.first < a.content.length
  contentRange : contentRange? response = some (positions a range)
  body : response.body = (a.content.take (lastOf a range + 1).toNat).drop range.first.toNat
  nonempty : range.first ≤ range.last → response.body ≠ []

/-- The response is what the request asks for of the segment. -/
def Exact (a : Segment) (range : Option ByteRange) (response : SegmentResponse) : Prop :=
  match range with
  | none => Whole a response
  | some range => Partial a range response

/-- The request starts past the end of the data, or where they end for good. -/
def Beyond (a : Segment) (range : Option ByteRange) : Prop :=
  (a.content.length : Int) < startOf range ∨
    (a.content.length : Int) = startOf range ∧ a.complete = true

/-- The segment has data from where the request starts, or the request is for what there is. -/
def Served (a : Segment) (range : Option ByteRange) : Prop :=
  startOf range < a.dataSize ∨ range = none ∧ a.complete = true

theorem respond_whole (tiled : a.Tiled) (served : Served a none) :
    Whole a (respond a none settings) := by
  have body : (respond a none settings).body = a.content := by
    rw [respond, Segment.read_eq_slice tiled (Int.le_refl 0), ← tiled.length]
    simp [Segment.slice]
  refine ⟨rfl, rfl, body, ?_⟩
  intro opened empty
  rw [body] at empty
  have size := tiled.length
  rw [empty] at size
  rcases served with more | ⟨-, complete⟩
  · rw [← size] at more
    exact Int.lt_irrefl 0 more
  · exact absurd (opened.symm.trans complete) Bool.false_ne_true

theorem respond_partial {range : ByteRange} (tiled : a.Tiled) (positive : 0 ≤ range.first)
    (more : range.first < a.dataSize) : Partial a range (respond a (some range) settings) := by
  have body : (respond a (some range) settings).body =
      Segment.slice a.content range.first (lastOf a range + 1) := by
    rw [respond, Segment.read_eq_slice tiled positive, lastOf, tiled.length]
  rw [← tiled.length] at more
  refine ⟨rfl, more, ?_, body, ?_⟩
  · rw [positions, lastOf, tiled.length]
    rfl
  · intro order empty
    have inside : lastOf a range + 1 ≤ a.content.length := by
      rw [lastOf]
      omega
    have size := Segment.length_slice positive inside
    rw [← body, empty, List.length_nil, lastOf] at size
    omega

/-- A part that is listed is read back from the range that its line names. -/
theorem respond_part {p : PlacedPart} (tiled : a.Tiled) (member : p ∈ a.parts)
    (full : p.part.data ≠ []) :
    let range : ByteRange := ⟨p.offset, p.offset + p.part.data.length - 1⟩
    Served a (some range) ∧ (respond a (some range) settings).status = 206 ∧
      (respond a (some range) settings).body = p.part.data := by
  intro range
  have size : p.finish = p.offset + p.part.data.length := rfl
  have bytes := List.length_pos_of_ne_nil full
  obtain ⟨-, inside⟩ := Segment.Tiles.inside tiled member
  have more : range.first < a.dataSize := by
    change (p.offset : Int) < a.dataSize
    omega
  have exact : Partial a range (respond a (some range) settings) :=
    respond_partial tiled (Int.natCast_nonneg _) more
  have last : lastOf a range + 1 = p.finish := by
    rw [lastOf, tiled.length]
    change min ((p.offset : Int) + p.part.data.length - 1) (a.dataSize - 1) + 1 = p.finish
    omega
  have own := Segment.Tiles.slice_part tiled member
  rw [Int.ofNat_zero, Int.sub_zero, Int.sub_zero] at own
  refine ⟨.inl more, exact.status, ?_⟩
  rw [exact.body, last]
  exact own

theorem respond_exact (tiled : a.Tiled) (positive : 0 ≤ startOf range) (served : Served a range) :
    Exact a range (respond a range settings) := by
  cases range with
  | none => exact respond_whole tiled served
  | some range =>
      rcases served with more | ⟨unserved, -⟩
      · exact respond_partial tiled positive more
      · cases unserved

theorem judge_served (served : Served a range) (settings : Settings) :
    judge a range settings = .answer (.ok (respond a range settings)) := by
  unfold judge
  simp only
  rcases served with more | ⟨rfl, complete⟩
  · have inside : ¬ startOf range > a.dataSize := by omega
    have apart : startOf range ≠ a.dataSize := by omega
    simp [inside, apart]
  · have inside : ¬ startOf none > a.dataSize := by simp [startOf]
    simp [inside, complete]

theorem judge_edge (opened : a.complete = false) (edge : startOf range = a.dataSize)
    (settings : Settings) : judge a range settings = .hold a.dataSize := by
  simp [judge, edge, opened]

/-- What is decided about a request when its segment is found. -/
inductive Judged (a : Segment) (range : Option ByteRange) : Judgement → Prop
  | exact {response : SegmentResponse} (exact : Exact a range response) :
      Judged a range (.answer (.ok response))
  | beyond (beyond : Beyond a range) :
      Judged a range (.answer (.error (.rangeStart (startOf range) a.content.length)))
  | hold (edge : startOf range = a.content.length) (opened : a.complete = false) :
      Judged a range (.hold (startOf range))

theorem judge_judged (tiled : a.Tiled) (positive : 0 ≤ startOf range) (settings : Settings) :
    Judged a range (judge a range settings) := by
  have size := tiled.length
  unfold judge
  simp only
  split_ifs with refused edge
  · simp only [Bool.or_eq_true, Bool.and_eq_true, decide_eq_true_eq] at refused
    rw [← size] at refused ⊢
    refine .beyond ?_
    rcases refused with past | ⟨⟨-, complete⟩, last⟩
    · exact .inl past
    · exact .inr ⟨last.symm, complete⟩
  · simp only [Bool.and_eq_true, decide_eq_true_eq, Bool.not_eq_true'] at edge
    rw [← size] at edge
    exact .hold edge.1 edge.2
  · simp only [Bool.or_eq_true, Bool.and_eq_true, decide_eq_true_eq, not_or, Int.not_lt] at refused
    obtain ⟨inside, apart⟩ := refused
    refine .exact (respond_exact tiled positive ?_)
    rcases Int.lt_or_eq_of_le inside with more | last
    · exact .inl more
    · right
      cases complete : a.complete with
      | false => exact absurd (by simp [last, complete]) edge
      | true =>
          cases range with
          | none => exact ⟨rfl, rfl⟩
          | some range => exact absurd ⟨⟨rfl, complete⟩, last⟩ apart

/-- A hold ends with the range, or with its refusal if the segment is sealed where it starts. -/
theorem conclude_judged {w : Window} {sequence : Int} (found : w.find? sequence = some a)
    (tiled : a.Tiled) (positive : 0 ≤ startOf range)
    (ended : a.complete = true ∨ startOf range < a.dataSize) (settings : Settings) :
    Judged a range (.answer (conclude w sequence range settings)) := by
  unfold conclude
  simp only [found]
  split
  · rename_i refused
    simp only [Bool.and_eq_true, decide_eq_true_eq] at refused
    have complete := ended.resolve_right (Int.not_lt.mpr refused.2)
    rw [← tiled.length] at refused ⊢
    refine .beyond ?_
    rcases Int.lt_or_eq_of_le refused.2 with past | last
    · exact .inl past
    · exact .inr ⟨last, complete⟩
  · rename_i accepted
    refine .exact (respond_exact tiled positive ?_)
    cases range with
    | none => exact ended.symm.imp_right fun complete => ⟨rfl, complete⟩
    | some range => exact .inl (by simpa using accepted)

theorem judge_eq_hold {offset : Int} (held : judge a range settings = .hold offset) :
    offset = startOf range ∧ startOf range = a.dataSize ∧ a.complete = false := by
  unfold judge at held
  simp only at held
  split_ifs at held with refused edge
  simp only [Bool.and_eq_true, decide_eq_true_eq, Bool.not_eq_true'] at edge
  exact ⟨(Judgement.hold.inj held).symm, edge⟩

/-- The check after a hold decides as the check before it, once the hold has ended. -/
theorem judge_eq_conclude {w : Window} {n : Int} (found : w.find? n = some a)
    (reached : startOf range ≤ a.dataSize)
    (ended : a.complete = true ∨ startOf range < a.dataSize) :
    judge a range settings = .answer (conclude w n range settings) := by
  unfold conclude
  simp only [found]
  rcases Int.lt_or_eq_of_le reached with more | edge
  · rw [judge_served (.inl more), if_neg (by simp [more])]
  · have complete := ended.resolve_right (Int.not_lt.mpr (Int.le_of_eq edge.symm))
    cases range with
    | none => exact judge_served (.inr ⟨rfl, complete⟩) settings
    | some range => simp [judge, edge, complete]

theorem conclude_none {w : Window} {n : Int} (found : w.find? n = some a) (settings : Settings) :
    conclude w n none settings = .ok (respond a none settings) := by
  simp [conclude, found]

end LiveHls.SegmentRequest
