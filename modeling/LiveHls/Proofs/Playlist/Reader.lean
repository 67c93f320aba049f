import LiveHls.Proofs.Decimal.Plain
import LiveHls.Proofs.Playlist.Client
/-! Playlists as text. A client cuts the text at the line breaks, a line at the colon behind its tag,
and attributes at the commas; what it takes from a line is what the line was written for. -/
namespace LiveHls.Playlist

/-- The text before the first `c`, and the text behind it. -/
def cut (c : Char) (text : List Char) : List Char × List Char :=
  (text.takeWhile (· != c), (text.dropWhile (· != c)).tail)

def number? (text : List Char) : Option Nat :=
  if text.isEmpty || !text.all Char.isDigit then none else some (Nat.ofDigitChars 10 text 0)

/-- The sequence in the URI of a segment. -/
def segmentNumber? (uri : List Char) : Option Nat :=
  let digits := (uri.drop "./segment/".toList.length).takeWhile Char.isDigit
  if uri = "./segment/".toList ++ digits ++ ".m4s".toList then number? digits else none

def unquoted (value : List Char) : List Char := value.filter (· != '"')

/-- The names of the attributes in a list and their values. No quoted value of these playlists holds
a comma. -/
def attributes (list : List Char) : List (String × List Char) :=
  (list.splitOn ',').map fun field =>
    (String.ofList (cut '=' field).1, unquoted (cut '=' field).2)

/-- The length of a byte range and its offset. -/
def byteRange? (text : List Char) : Option (Nat × Nat) := do
  return (← number? (cut '@' text).1, ← number? (cut '@' text).2)

def partOf (list : List (String × List Char)) : Option Mark := do
  let duration ← list.lookup "DURATION"
  let named ← segmentNumber? (← list.lookup "URI")
  let (length, offset) ← byteRange? (← list.lookup "BYTERANGE")
  return .part named length offset (list.lookup "INDEPENDENT" == some "YES".toList) duration

def hintOf (list : List (String × List Char)) : Option Mark := do
  let named ← segmentNumber? (← list.lookup "URI")
  return .hint named (← number? (← list.lookup "BYTERANGE-START"))

def readTag (tag : String) (value : List Char) : Option Mark :=
  if tag = "EXT-X-MEDIA-SEQUENCE" then (number? value).map .mediaSequence
  else if tag = "EXT-X-DISCONTINUITY" then some .discontinuity
  else if tag = "EXT-X-PROGRAM-DATE-TIME" then some (.time (.parse (String.ofList value)))
  else if tag = "EXTINF" then some (.duration (cut ',' value).1)
  else if tag = "EXT-X-PART" then partOf (attributes value)
  else if tag = "EXT-X-PRELOAD-HINT" then hintOf (attributes value)
  else none

/-- What the text of a line tells a client. -/
def Mark.ofText : List Char → Mark
  | '#' :: rest => (readTag (String.ofList (cut ':' rest).1) (cut ':' rest).2).getD .other
  | uri => ((segmentNumber? uri).map .segment).getD .other

/-- What a playlist tells a client, line by line. -/
def marks (body : String) : List Mark := (body.toList.splitOn '\n').map Mark.ofText

/-! ### Pieces of text -/

theorem cut_append {c : Char} {front : List Char} (other : c ∉ front) (rest : List Char) :
    cut c (front ++ c :: rest) = (front, rest) := by
  have before : ∀ d ∈ front, (d != c) = true := by
    intro d member
    exact bne_iff_ne.mpr fun same => other (same ▸ member)
  rw [cut, List.takeWhile_append_of_pos before, List.dropWhile_append_of_pos before]
  simp

theorem cut_of_not_mem {c : Char} {text : List Char} (other : c ∉ text) :
    cut c text = (text, []) := by
  have before : ∀ d ∈ text, (d != c) = true := by
    intro d member
    exact bne_iff_ne.mpr fun same => other (same ▸ member)
  rw [cut, ← List.append_nil text, List.takeWhile_append_of_pos before,
    List.dropWhile_append_of_pos before]
  rfl

theorem mem_cut {c d : Char} {text : List Char} (member : d ∈ text) :
    d ∈ (cut c text).1 ∨ d = c ∨ d ∈ (cut c text).2 := by
  rw [← List.takeWhile_append_dropWhile (p := (· != c)) (l := text)] at member
  rcases List.mem_append.mp member with before | behind
  · exact .inl before
  · unfold cut
    cases found : text.dropWhile (· != c) with
    | nil =>
        rw [found] at behind
        cases behind
    | cons first rest =>
        have mark : first = c := by
          have stops := List.head?_dropWhile_not (· != c) text
          rw [found] at stops
          simpa using stops
        rw [found] at behind
        rcases List.mem_cons.mp behind with rfl | later
        · exact .inr (.inl mark)
        · exact .inr (.inr later)

theorem number?_digits (n : Nat) : number? (Nat.toDigits 10 n) = some n := by
  have digits : (Nat.toDigits 10 n).all Char.isDigit = true :=
    List.all_eq_true.mpr fun c member =>
      Nat.isDigit_of_mem_toDigits (by omega) (by omega) member
  have present : (Nat.toDigits 10 n).isEmpty = false :=
    List.isEmpty_eq_false_iff.mpr Nat.toDigits_ne_nil
  rw [number?, digits, present, Nat.ofDigitChars_toDigits (by omega) (by omega)]
  rfl

theorem number?_eq_some {text : List Char} {n : Nat} (read : number? text = some n) :
    (∀ c ∈ text, c.isDigit = true) ∧ Nat.ofDigitChars 10 text 0 = n := by
  unfold number? at read
  split_ifs at read with refused
  rw [Bool.or_eq_true, not_or, Bool.not_eq_true', Bool.not_eq_false, List.all_eq_true] at refused
  exact ⟨refused.2, Option.some.inj read⟩

theorem segmentNumber?_uri (n : Nat) :
    segmentNumber? ("./segment/".toList ++ Nat.toDigits 10 n ++ ".m4s".toList) = some n := by
  have digits : ∀ c ∈ Nat.toDigits 10 n, c.isDigit = true := fun c member =>
    Nat.isDigit_of_mem_toDigits (by omega) (by omega) member
  have own : (("./segment/".toList ++ Nat.toDigits 10 n ++ ".m4s".toList).drop
      "./segment/".toList.length).takeWhile Char.isDigit = Nat.toDigits 10 n := by
    rw [List.append_assoc, List.drop_left, List.takeWhile_append_of_pos digits]
    exact List.append_nil _
  simp only [segmentNumber?, own, if_true, number?_digits]

theorem integerText_eq {n : Nat} (exact : n ≤ Nat.pow 2 53) :
    (integerText n).toList = Nat.toDigits 10 n := by
  rcases Nat.lt_or_eq_of_le exact with below | rfl
  · rw [integerText, if_pos (show (n : Int).natAbs < Nat.pow 2 53 from below)]
    exact Nat.toList_repr
  · decide +kernel

theorem segmentUri_eq {n : Nat} (exact : n ≤ Nat.pow 2 53) :
    (segmentUri (.whole n)).toList =
      "./segment/".toList ++ Nat.toDigits 10 n ++ ".m4s".toList := by
  simp [segmentUri, Numeral.text, integerText_eq exact, toString]

theorem plainText_integerText (n : Nat) : PlainText (integerText n).toList := by
  unfold integerText
  split
  · exact (Nat.toList_repr (n := n)).symm ▸ plainText_digits n
  · exact Decimal.plainText_text _

theorem plainText_segmentUri (n : Nat) : PlainText (segmentUri (.whole n)).toList := by
  change PlainText ("./segment/" ++ integerText n ++ ".m4s").toList
  rw [String.toList_append, String.toList_append]
  exact (PlainText.append (by decide) (plainText_integerText n)).append (by decide)

theorem unquoted_plain {text : List Char} (plain : PlainText text) : unquoted text = text := by
  refine List.filter_eq_self.mpr fun c member => bne_iff_ne.mpr fun same => ?_
  exact plain.not_mem rfl (same ▸ member)

def inQuotes (text : List Char) : List Char := '"' :: text ++ ['"']

theorem unquoted_inQuotes {text : List Char} (plain : PlainText text) :
    unquoted (inQuotes text) = text := by
  have inner := unquoted_plain plain
  unfold unquoted at inner ⊢
  rw [inQuotes, List.filter_append, List.filter_cons_of_neg (by simp), inner]
  simp

theorem comma_not_mem_inQuotes {text : List Char} (plain : PlainText text) :
    ',' ∉ inQuotes text := by
  have inner : ',' ∉ text := plain.not_mem rfl
  simp [inQuotes, inner]

/-- An attribute as it is written. -/
def written (a : String × List Char) : List Char := a.1.toList ++ '=' :: a.2

theorem attributes_written {list : List (String × List Char)} (nonempty : list ≠ [])
    (clear : ∀ a ∈ list, PlainText a.1.toList ∧ ',' ∉ a.2) :
    attributes ([','].intercalate (list.map written)) =
      list.map fun a => (a.1, unquoted a.2) := by
  have commas : ∀ field ∈ list.map written, ',' ∉ field := by
    intro field member
    obtain ⟨a, there, rfl⟩ := List.mem_map.mp member
    intro comma
    rcases List.mem_append.mp comma with name | value
    · exact (clear a there).1.not_mem rfl name
    · rcases List.mem_cons.mp value with same | inside
      · exact absurd same (by decide)
      · exact (clear a there).2 inside
  rw [attributes, List.splitOn_intercalate ',' commas (by simpa using nonempty), List.map_map]
  refine List.map_congr_left fun a member => ?_
  have equals : '=' ∉ a.1.toList := (clear a member).1.not_mem rfl
  simp only [Function.comp_apply, written, cut_append equals, String.ofList_toList]

/-! ### Lines -/

theorem ofText_tagged {tag : String} (one : ':' ∉ tag.toList) (value : List Char) :
    Mark.ofText ('#' :: (tag.toList ++ ':' :: value)) = (readTag tag value).getD .other := by
  rw [Mark.ofText, cut_append one, String.ofList_toList]

theorem ofText_bare {tag : String} (one : ':' ∉ tag.toList) :
    Mark.ofText ('#' :: tag.toList) = (readTag tag []).getD .other := by
  rw [Mark.ofText, cut_of_not_mem one, String.ofList_toList]

/-- The numbers of a line are written in full, and its time is one. -/
def Line.Exact : Line → Prop
  | .mediaSequence n | .uri n | .part _ n .. | .preloadHint n _ => n ≤ Nat.pow 2 53
  | .programDateTime time => PlainText time.toList
  | _ => True

theorem ofText_mediaSequence {n : Nat} (exact : n ≤ Nat.pow 2 53) :
    Mark.ofText (Line.mediaSequence n).text.toList = .mediaSequence n := by
  have text : (Line.mediaSequence n).text.toList =
      '#' :: ("EXT-X-MEDIA-SEQUENCE".toList ++ ':' :: Nat.toDigits 10 n) := by
    rw [← integerText_eq exact]
    show ("#EXT-X-MEDIA-SEQUENCE:" ++ integerText n).toList = _
    simp
  rw [text, ofText_tagged (by decide)]
  simp [readTag, number?_digits]

theorem ofText_time (time : String) :
    Mark.ofText (Line.programDateTime time).text.toList = .time (.parse time) := by
  have text : (Line.programDateTime time).text.toList =
      '#' :: ("EXT-X-PROGRAM-DATE-TIME".toList ++ ':' :: time.toList) := by
    show ("#EXT-X-PROGRAM-DATE-TIME:" ++ time).toList = _
    simp
  rw [text, ofText_tagged (by decide)]
  simp [readTag]

theorem ofText_duration (seconds : Float) :
    Mark.ofText (Line.duration seconds).text.toList =
      .duration (Decimal.fixed 3 seconds).toList := by
  have text : (Line.duration seconds).text.toList =
      '#' :: ("EXTINF".toList ++ ':' :: ((Decimal.fixed 3 seconds).toList ++ ',' :: [])) := by
    show ("#EXTINF:" ++ Decimal.fixed 3 seconds ++ ",").toList = _
    simp
  have comma : ',' ∉ (Decimal.fixed 3 seconds).toList := (Decimal.plainText_fixed 3 seconds).not_mem rfl
  rw [text, ofText_tagged (by decide)]
  simp [readTag, cut_append comma]

theorem ofText_uri {n : Nat} (exact : n ≤ Nat.pow 2 53) :
    Mark.ofText (Line.uri n).text.toList = .segment n := by
  have text : (Line.uri n).text.toList = '.' :: ("/segment/".toList ++ Nat.toDigits 10 n ++
      ".m4s".toList) := segmentUri_eq exact
  have named : segmentNumber? (Line.uri n).text.toList = some n := by
    rw [← segmentNumber?_uri n]
    exact congrArg segmentNumber? (segmentUri_eq exact)
  rw [text] at named ⊢
  change ((segmentNumber? _).map Mark.segment).getD .other = _
  rw [named]
  rfl

/-- A line with a list of attributes is read by their names. -/
theorem ofText_list {tag : String} (one : ':' ∉ tag.toList)
    (reader : List (String × List Char) → Option Mark)
    (reads : ∀ value, readTag tag value = reader (attributes value))
    {list : List (String × List Char)} (nonempty : list ≠ [])
    (clear : ∀ a ∈ list, PlainText a.1.toList ∧ ',' ∉ a.2) :
    Mark.ofText ('#' :: (tag.toList ++ ':' :: [','].intercalate (list.map written))) =
      (reader (list.map fun a => (a.1, unquoted a.2))).getD .other := by
  rw [ofText_tagged one, reads, attributes_written nonempty clear]

def rangeText (length offset : Nat) : List Char :=
  Nat.toDigits 10 length ++ '@' :: Nat.toDigits 10 offset

theorem plainText_rangeText (length offset : Nat) : PlainText (rangeText length offset) :=
  (plainText_digits length).append (.cons rfl (plainText_digits offset))

theorem byteRange?_rangeText (length offset : Nat) :
    byteRange? (rangeText length offset) = some (length, offset) := by
  have one : '@' ∉ Nat.toDigits 10 length := by
    intro member
    have digit := Nat.isDigit_of_mem_toDigits (by omega) (by omega) member
    cases digit
  simp [byteRange?, rangeText, cut_append one, number?_digits]

theorem segmentNumber?_segmentUri {n : Nat} (exact : n ≤ Nat.pow 2 53) :
    segmentNumber? (segmentUri (.whole n)).toList = some n := by
  rw [segmentUri_eq exact, segmentNumber?_uri]

def partAttributes (seconds : Float) (n length offset : Nat) (independent : Bool) :
    List (String × List Char) :=
  [("DURATION", (Decimal.fixed 3 seconds).toList),
    ("URI", inQuotes (segmentUri (.whole n)).toList),
    ("BYTERANGE", inQuotes (rangeText length offset))] ++
  if independent then [("INDEPENDENT", "YES".toList)] else []

theorem text_part (seconds : Float) (n length offset : Nat) (independent : Bool) :
    (Line.part seconds n length offset independent).text.toList =
      '#' :: ("EXT-X-PART".toList ++ ':' ::
        [','].intercalate ((partAttributes seconds n length offset independent).map written)) := by
  change ("#EXT-X-PART:DURATION=" ++ Decimal.fixed 3 seconds ++ ",URI=" ++
    ("\"" ++ segmentUri (.whole n) ++ "\"") ++ ",BYTERANGE=" ++
    ("\"" ++ (toString length ++ "@" ++ toString offset) ++ "\"") ++
    if independent then ",INDEPENDENT=YES" else "").toList = _
  cases independent <;> simp [partAttributes, written, inQuotes, rangeText, Nat.toList_repr]

theorem ofText_part (seconds : Float) {n : Nat} (exact : n ≤ Nat.pow 2 53) (length offset : Nat)
    (independent : Bool) :
    Mark.ofText (Line.part seconds n length offset independent).text.toList =
      .part n length offset independent (Decimal.fixed 3 seconds).toList := by
  have duration := Decimal.plainText_fixed 3 seconds
  have uri := plainText_segmentUri n
  have range := plainText_rangeText length offset
  have nonempty : partAttributes seconds n length offset independent ≠ [] := List.cons_ne_nil _ _
  have clear : ∀ a ∈ partAttributes seconds n length offset independent,
      PlainText a.1.toList ∧ ',' ∉ a.2 := by
    have note : ∀ a ∈ if independent then [("INDEPENDENT", "YES".toList)] else [],
        PlainText a.1.toList ∧ ',' ∉ a.2 := by
      cases independent with
      | true => simp; decide
      | false => simp
    rw [partAttributes, List.forall_mem_append]
    simp only [List.forall_mem_cons]
    exact ⟨⟨⟨by decide, duration.not_mem rfl⟩, ⟨by decide, comma_not_mem_inQuotes uri⟩,
      ⟨by decide, comma_not_mem_inQuotes range⟩, nofun⟩, note⟩
  have yes : unquoted ['Y', 'E', 'S'] = ['Y', 'E', 'S'] := rfl
  rw [text_part, ofText_list (by decide) partOf (fun _ => rfl) nonempty clear]
  cases independent <;>
    simp [partAttributes, partOf, List.lookup_cons, unquoted_plain duration, unquoted_inQuotes uri,
      unquoted_inQuotes range, segmentNumber?_segmentUri exact, byteRange?_rangeText, yes]

def hintAttributes (n start : Nat) : List (String × List Char) :=
  [("TYPE", "PART".toList), ("URI", inQuotes (segmentUri (.whole n)).toList),
    ("BYTERANGE-START", Nat.toDigits 10 start)]

theorem text_hint (n start : Nat) :
    (Line.preloadHint n start).text.toList =
      '#' :: ("EXT-X-PRELOAD-HINT".toList ++ ':' ::
        [','].intercalate ((hintAttributes n start).map written)) := by
  change ("#EXT-X-PRELOAD-HINT:TYPE=PART,URI=" ++ ("\"" ++ segmentUri (.whole n) ++ "\"") ++
    ",BYTERANGE-START=" ++ toString start).toList = _
  simp [hintAttributes, written, inQuotes, Nat.toList_repr]

theorem ofText_hint {n : Nat} (exact : n ≤ Nat.pow 2 53) (start : Nat) :
    Mark.ofText (Line.preloadHint n start).text.toList = .hint n start := by
  have uri := plainText_segmentUri n
  have offset := plainText_digits start
  have nonempty : hintAttributes n start ≠ [] := List.cons_ne_nil _ _
  have clear : ∀ a ∈ hintAttributes n start, PlainText a.1.toList ∧ ',' ∉ a.2 := by
    simp only [hintAttributes, List.forall_mem_cons]
    exact ⟨by decide, ⟨by decide, comma_not_mem_inQuotes uri⟩, ⟨by decide, offset.not_mem rfl⟩,
      nofun⟩
  rw [text_hint, ofText_list (by decide) hintOf (fun _ => rfl) nonempty clear]
  simp [hintAttributes, hintOf, List.lookup_cons, unquoted_inQuotes uri, unquoted_plain offset,
    segmentNumber?_segmentUri exact, number?_digits]

/-- Lines with other tags tell nothing. -/
theorem ofText_unread {head tag : String} {rest : List Char}
    (begins : head.toList = '#' :: (tag.toList ++ ':' :: rest)) (one : ':' ∉ tag.toList)
    (unread : ∀ value, readTag tag value = none) (value : String) :
    Mark.ofText (head ++ value).toList = .other := by
  rw [String.toList_append, begins, List.cons_append, List.append_assoc, List.cons_append,
    ofText_tagged one, unread]
  rfl

/-- A line is read as what it was written for. -/
theorem ofText_line {line : Line} (exact : line.Exact) :
    Mark.ofText line.text.toList = line.mark := by
  cases line with
  | header => exact @ofText_bare "EXTM3U" (by decide)
  | version => exact @ofText_tagged "EXT-X-VERSION" (by decide) ['6']
  | independentSegments => exact @ofText_bare "EXT-X-INDEPENDENT-SEGMENTS" (by decide)
  | discontinuity => exact @ofText_bare "EXT-X-DISCONTINUITY" (by decide)
  | mediaSequence n => exact ofText_mediaSequence exact
  | programDateTime time => exact ofText_time time
  | duration seconds => exact ofText_duration seconds
  | uri n => exact ofText_uri exact
  | part seconds n length offset independent =>
      exact ofText_part seconds exact length offset independent
  | preloadHint n start => exact ofText_hint exact start
  | map =>
      exact @ofText_unread "#EXT-X-MAP:URI=" "EXT-X-MAP" "URI=".toList (by decide) (by decide)
        (fun _ => rfl) _
  | targetDuration seconds =>
      exact @ofText_unread "#EXT-X-TARGETDURATION:" "EXT-X-TARGETDURATION" [] (by decide)
        (by decide) (fun _ => rfl) _
  | discontinuitySequence n =>
      exact @ofText_unread "#EXT-X-DISCONTINUITY-SEQUENCE:" "EXT-X-DISCONTINUITY-SEQUENCE" []
        (by decide) (by decide) (fun _ => rfl) _
  | partTarget seconds =>
      exact @ofText_unread "#EXT-X-PART-INF:PART-TARGET=" "EXT-X-PART-INF" "PART-TARGET=".toList
        (by decide) (by decide) (fun _ => rfl) _
  | serverControl holdBack =>
      exact @ofText_unread "#EXT-X-SERVER-CONTROL:CAN-BLOCK-RELOAD=YES,PART-HOLD-BACK="
        "EXT-X-SERVER-CONTROL" "CAN-BLOCK-RELOAD=YES,PART-HOLD-BACK=".toList
        (by decide) (by decide) (fun _ => rfl) _
  | startOffset seconds =>
      have text : (Line.startOffset seconds).text =
          "#EXT-X-START:TIME-OFFSET=-" ++ (Decimal.fixed 3 seconds ++ ",PRECISE=YES") :=
        String.append_assoc
      rw [text]
      exact @ofText_unread "#EXT-X-START:TIME-OFFSET=-" "EXT-X-START" "TIME-OFFSET=-".toList
        (by decide) (by decide) (fun _ => rfl) _

/-! ### Whole playlists -/

theorem newline_not_mem_text {line : Line} (exact : line.Exact) : '\n' ∉ line.text.toList := by
  have clear {text : List Char} (plain : PlainText text) : '\n' ∉ text := plain.not_mem rfl
  have fixed (seconds : Float) := clear (Decimal.plainText_fixed 3 seconds)
  have digits (n : Nat) := clear (plainText_digits n)
  have uri (n : Nat) := clear (plainText_segmentUri n)
  cases line with
  | header => decide
  | version => decide
  | independentSegments => decide
  | discontinuity => decide
  | map => decide
  | uri n => exact uri n
  | mediaSequence n =>
      change '\n' ∉ ("#EXT-X-MEDIA-SEQUENCE:" ++ integerText n).toList
      simp [clear (plainText_integerText n)]
  | programDateTime time =>
      change '\n' ∉ ("#EXT-X-PROGRAM-DATE-TIME:" ++ time).toList
      simp [clear exact]
  | duration seconds =>
      change '\n' ∉ ("#EXTINF:" ++ Decimal.fixed 3 seconds ++ ",").toList
      simp [fixed]
  | part seconds n length offset independent => 
      rw [text_part]
      cases independent <;> simp [partAttributes, written, inQuotes, rangeText, fixed, digits, uri]
  | preloadHint n start => 
      rw [text_hint]
      simp [hintAttributes, written, inQuotes, digits, uri]
  | targetDuration seconds =>
      change '\n' ∉ ("#EXT-X-TARGETDURATION:" ++ Decimal.text seconds).toList
      simp [clear (Decimal.plainText_text seconds)]
  | discontinuitySequence n =>
      change '\n' ∉ ("#EXT-X-DISCONTINUITY-SEQUENCE:" ++ toString n).toList
      simp [Nat.toList_repr, digits]
  | partTarget seconds => 
      change '\n' ∉ ("#EXT-X-PART-INF:PART-TARGET=" ++ Decimal.fixed 3 seconds).toList
      simp [fixed]
  | serverControl holdBack =>
      change '\n' ∉ ("#EXT-X-SERVER-CONTROL:CAN-BLOCK-RELOAD=YES,PART-HOLD-BACK=" ++
        Decimal.fixed 3 holdBack).toList
      simp [fixed]
  | startOffset seconds =>
      change '\n' ∉ ("#EXT-X-START:TIME-OFFSET=-" ++ Decimal.fixed 3 seconds ++ ",PRECISE=YES").toList
      simp [fixed]

theorem intercalate_lines (texts : List (List Char)) :
    ['\n'].intercalate (texts ++ [[]]) = texts.flatMap (· ++ ['\n']) := by
  induction texts with
  | nil => rfl
  | cons text rest ih =>
      rw [List.flatMap_cons, ← ih]
      cases rest <;> simp [List.intercalate]

/-- The text behind the last line break is empty and tells nothing. -/
theorem marks_joined {lines : List Line} (exact : ∀ line ∈ lines, line.Exact) :
    marks (joined (lines.map Line.text)) = lines.map Line.mark ++ [.other] := by
  have texts : (joined (lines.map Line.text)).toList =
      ['\n'].intercalate ((lines.map fun line => line.text.toList) ++ [[]]) := by
    rw [intercalate_lines, joined, String.toList_join]
    simp [List.flatMap_map]
  have clear : ∀ text ∈ (lines.map fun line => line.text.toList) ++ [[]], '\n' ∉ text := by
    simp only [List.forall_mem_append, List.forall_mem_map, List.forall_mem_singleton]
    exact ⟨fun line member => newline_not_mem_text (exact line member), List.not_mem_nil⟩
  rw [marks, texts, List.splitOn_intercalate '\n' clear (by simp), List.map_append, List.map_map]
  congr 1
  exact List.map_congr_left fun line member => ofText_line (exact line member)

end LiveHls.Playlist
