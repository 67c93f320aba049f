import LiveHls.Proofs.Http.RangeGrammar
/-! What range headers mean. Of the specs in a set of ranges the first counts that spans a range. A
suffix counts back from the end of a resource whose length is not known yet, and should therefore
never be taken; it is taken where only specs that are dropped come before it. -/
namespace LiveHls.Http

namespace RangeSpec

/-- The spec names a first position, which is not behind its last. Where no last position is
written, or one too large, it is the last that there can be. -/
structure Spans (spec : RangeSpec) (first last : Nat) : Prop where
  start : spec.first = some first
  finish : last = min (spec.last.getD openEnd.toNat) openEnd.toNat
  order : first ≤ last

/-- The spec is a suffix that fits into a resource of `2 ^ 53` bytes. The next length is rounded
down to that. -/
def CountsBack (spec : RangeSpec) (length : Nat) : Prop :=
  spec = ⟨none, some length⟩ ∧ 1 ≤ length ∧ length ≤ Nat.pow 2 53 + 1

theorem range?_eq_some_iff (spec : RangeSpec) (first last : Nat) :
    spec.range? = some (first, last) ↔ spec.Spans first last ∨
      ∃ length, spec.CountsBack length ∧ first = Nat.pow 2 53 - length ∧ last = openEnd.toNat := by
  obtain ⟨start, finish⟩ := spec
  cases start with
  | some n =>
      simp only [range?, CountsBack, mk.injEq, reduceCtorEq, false_and, exists_false, or_false]
      split
      · rename_i order
        simp only [Option.some.injEq, Prod.mk.injEq]
        constructor
        · rintro ⟨rfl, rfl⟩
          exact ⟨rfl, rfl, order⟩
        · rintro ⟨⟨⟩, rfl, -⟩
          exact ⟨rfl, rfl⟩
      · rename_i inverted
        refine iff_of_false nofun ?_
        rintro ⟨⟨⟩, rfl, order⟩
        exact inverted order
  | none =>
      have nowhere : ¬ (⟨none, finish⟩ : RangeSpec).Spans first last := fun spans => nomatch spans.start
      cases finish with
      | none => simp [range?, CountsBack, nowhere]
      | some length =>
          simp only [range?, CountsBack, nowhere, false_or, mk.injEq, true_and, Option.some.injEq]
          split
          · rename_i fits
            simp only [Option.some.injEq, Prod.mk.injEq]
            constructor
            · rintro ⟨rfl, rfl⟩
              exact ⟨length, ⟨rfl, fits⟩, rfl, rfl⟩
            · rintro ⟨_, ⟨rfl, -⟩, rfl, rfl⟩
              exact ⟨rfl, rfl⟩
          · rename_i large
            refine iff_of_false nofun ?_
            rintro ⟨_, ⟨rfl, fits⟩, -⟩
            exact large fits

/-- The spec neither spans a range nor counts back. -/
structure Dropped (spec : RangeSpec) : Prop where
  nowhere : ∀ first last, ¬ spec.Spans first last
  never : ∀ length, ¬ spec.CountsBack length

theorem range?_eq_none_iff (spec : RangeSpec) : spec.range? = none ↔ spec.Dropped := by
  rw [Option.eq_none_iff_forall_ne_some]
  constructor
  · intro nothing
    refine ⟨fun first last spans => ?_, fun length counts => ?_⟩
    · exact nothing _ ((range?_eq_some_iff ..).mpr (.inl spans))
    · exact nothing _ ((range?_eq_some_iff ..).mpr (.inr ⟨length, counts, rfl, rfl⟩))
  · rintro ⟨nowhere, never⟩ ⟨first, last⟩ found
    rcases (range?_eq_some_iff ..).mp found with spans | ⟨length, counts, -⟩
    · exact nowhere _ _ spans
    · exact never _ counts

theorem Spans.not_countsBack {spec : RangeSpec} {first last : Nat} (spans : spec.Spans first last)
    (length : Nat) : ¬ spec.CountsBack length := by
  rintro ⟨rfl, -⟩
  exact nomatch spans.start

theorem Spans.unique {spec : RangeSpec} {first last first' last' : Nat}
    (h : spec.Spans first last) (h' : spec.Spans first' last') : first = first' ∧ last = last' :=
  ⟨Option.some.inj (h.start.symm.trans h'.start), h.finish.trans h'.finish.symm⟩

end RangeSpec

namespace RangeHeader

/-- The first spec begins with a digit, so it is no suffix. -/
def BeginsWithDigit (specs : List RangeSpec) : Prop :=
  ∃ spec ∈ specs.head?, spec.first.isSome = true

/-- Of the specs that span a range, the first spans this one. -/
inductive FirstSpans (first last : Nat) : List RangeSpec → Prop
  | here {spec : RangeSpec} (rest : List RangeSpec) (spans : spec.Spans first last) :
      FirstSpans first last (spec :: rest)
  | later {spec : RangeSpec} {rest : List RangeSpec} (nowhere : ∀ x y, ¬ spec.Spans x y)
      (behind : FirstSpans first last rest) : FirstSpans first last (spec :: rest)

/-- A suffix of so many bytes comes before every spec that spans a range. -/
inductive SuffixLeads (length : Nat) : List RangeSpec → Prop
  | here {spec : RangeSpec} (rest : List RangeSpec) (counts : spec.CountsBack length) :
      SuffixLeads length (spec :: rest)
  | later {spec : RangeSpec} {rest : List RangeSpec} (dropped : spec.Dropped)
      (behind : SuffixLeads length rest) : SuffixLeads length (spec :: rest)

theorem FirstSpans.unique {specs : List RangeSpec} {first last first' last' : Nat}
    (h : FirstSpans first last specs) (h' : FirstSpans first' last' specs) :
    first = first' ∧ last = last' := by
  induction h with
  | here rest spans =>
      cases h' with
      | here _ spans' => exact spans.unique spans'
      | later nowhere behind => exact absurd spans (nowhere _ _)
  | later nowhere behind ih =>
      cases h' with
      | here _ spans => exact absurd spans (nowhere _ _)
      | later _ behind' => exact ih behind'

theorem FirstSpans.exists_mem {specs : List RangeSpec} {first last : Nat}
    (h : FirstSpans first last specs) : ∃ spec ∈ specs, spec.Spans first last := by
  induction h with
  | here rest spans => exact ⟨_, List.mem_cons_self, spans⟩
  | later nowhere behind ih =>
      obtain ⟨spec, member, spans⟩ := ih
      exact ⟨spec, List.mem_cons_of_mem _ member, spans⟩

/-- What counts is the first spec that is not dropped: a suffix, or a spec that spans a range. -/
theorem findSome?_range?_cases (specs : List RangeSpec) :
    (specs.findSome? RangeSpec.range? = Option.none ∧ ∀ spec ∈ specs, spec.Dropped) ∨
    (∃ first last, specs.findSome? RangeSpec.range? = some (first, last) ∧
      FirstSpans first last specs ∧ ∀ n, ¬ SuffixLeads n specs) ∨
    ∃ length, specs.findSome? RangeSpec.range? = some (Nat.pow 2 53 - length, openEnd.toNat) ∧
      SuffixLeads length specs := by
  induction specs with
  | nil => exact .inl ⟨rfl, nofun⟩
  | cons spec rest ih =>
      rw [List.findSome?_cons]
      cases found : spec.range? with
      | some range =>
          obtain ⟨first, last⟩ := range
          rcases (RangeSpec.range?_eq_some_iff ..).mp found with spans | ⟨n, counts, rfl, rfl⟩
          · refine .inr (.inl ⟨first, last, rfl, .here rest spans, ?_⟩)
            rintro n (⟨-, counts⟩ | ⟨dropped, -⟩)
            · exact spans.not_countsBack n counts
            · exact dropped.nowhere _ _ spans
          · exact .inr (.inr ⟨n, rfl, .here rest counts⟩)
      | none =>
          have dropped := (RangeSpec.range?_eq_none_iff spec).mp found
          rcases ih with ⟨same, all⟩ | ⟨first, last, same, spans, never⟩ | ⟨n, same, leads⟩
          · exact .inl ⟨same, List.forall_mem_cons.mpr ⟨dropped, all⟩⟩
          · refine .inr (.inl ⟨first, last, same, .later dropped.nowhere spans, ?_⟩)
            rintro n (⟨-, counts⟩ | ⟨-, leads⟩)
            · exact dropped.never n counts
            · exact never n leads
          · exact .inr (.inr ⟨n, same, .later dropped leads⟩)

theorem SuffixLeads.findSome? {specs : List RangeSpec} {length : Nat}
    (leads : SuffixLeads length specs) :
    specs.findSome? RangeSpec.range? = some (Nat.pow 2 53 - length, openEnd.toNat) := by
  induction leads with
  | here rest counts =>
      rw [List.findSome?_cons,
        (RangeSpec.range?_eq_some_iff ..).mpr (.inr ⟨length, counts, rfl, rfl⟩)]
  | later dropped behind ih =>
      rw [List.findSome?_cons, (RangeSpec.range?_eq_none_iff _).mpr dropped, ih]

/-- The answer to a set of ranges that is not ignored is the first range that a spec spans, if there
is one and the first spec is no suffix. -/
structure AsWritten (specs : List RangeSpec) (answer : RangeHeader) : Prop where
  range : ∀ first last, answer = .range first last ↔
    BeginsWithDigit specs ∧ FirstSpans first last specs
  unsatisfiable : answer = .unsatisfiable ↔
    ¬ (BeginsWithDigit specs ∧ ∃ spec ∈ specs, ∃ first last, spec.Spans first last)

theorem choose_of_suffix {specs : List RangeSpec} (filled : specs ≠ [])
    (suffix : ¬ BeginsWithDigit specs) : choose specs = .unsatisfiable := by
  obtain ⟨spec, rest, rfl⟩ := List.exists_cons_of_ne_nil filled
  refine if_pos ?_
  simpa [BeginsWithDigit] using suffix

theorem choose_of_digit {specs : List RangeSpec} (begins : BeginsWithDigit specs) :
    choose specs =
      if specs.any (·.isEmpty) then .none
      else match specs.findSome? RangeSpec.range? with
        | some (first, last) => .range first last
        | Option.none => .unsatisfiable := by
  obtain ⟨spec, first, digit⟩ := begins
  refine if_neg ?_
  rw [Option.mem_def.mp first, Option.any_some, ← Option.not_isSome, digit]
  decide

theorem choose_eq_none_iff {specs : List RangeSpec} (filled : specs ≠ []) :
    choose specs = .none ↔ BeginsWithDigit specs ∧ ∃ spec ∈ specs, spec.isEmpty = true := by
  by_cases begins : BeginsWithDigit specs
  · rw [choose_of_digit begins, ← List.any_eq_true]
    split
    · rename_i bare
      exact iff_of_true rfl ⟨begins, bare⟩
    · rename_i full
      refine iff_of_false ?_ fun both => full both.2
      split <;> exact nofun
  · rw [choose_of_suffix filled begins]
    exact iff_of_false nofun fun both => begins both.1

/-- What is chosen is as written, if no suffix comes first. -/
theorem choose_asWritten {specs : List RangeSpec} (filled : specs ≠ [])
    (heard : choose specs ≠ .none) :
    ((BeginsWithDigit specs → ∀ n, ¬ SuffixLeads n specs) → AsWritten specs (choose specs)) ∧
      ∀ n, BeginsWithDigit specs → SuffixLeads n specs →
        choose specs = .range (Nat.pow 2 53 - n) openEnd.toNat := by
  by_cases begins : BeginsWithDigit specs
  · have chosen := choose_of_digit begins
    split at chosen
    · exact absurd chosen heard
    · refine ⟨fun never => ?_, fun n _ leads => by rw [chosen, leads.findSome?]⟩
      rcases findSome?_range?_cases specs with
        ⟨same, dropped⟩ | ⟨first, last, same, spans, -⟩ | ⟨n, -, leads⟩
      · have nowhere : ¬ ∃ spec ∈ specs, ∃ x y, spec.Spans x y := by
          rintro ⟨spec, member, x, y, spans⟩
          exact (dropped spec member).nowhere x y spans
        rw [chosen, same]
        refine ⟨fun first last => iff_of_false nofun ?_, iff_of_true rfl fun both => nowhere both.2⟩
        rintro ⟨-, spans⟩
        obtain ⟨spec, member, spans⟩ := spans.exists_mem
        exact nowhere ⟨spec, member, _, _, spans⟩
      · obtain ⟨spec, member, own⟩ := spans.exists_mem
        rw [chosen, same]
        refine ⟨fun x y => ?_, iff_of_false nofun fun never => never ⟨begins, spec, member, _, _, own⟩⟩
        constructor
        · rintro ⟨⟩
          exact ⟨begins, spans⟩
        · rintro ⟨-, other⟩
          obtain ⟨rfl, rfl⟩ := spans.unique other
          rfl
      · exact absurd leads (never begins n)
  · rw [choose_of_suffix filled begins]
    exact ⟨fun _ => ⟨fun _ _ => iff_of_false nofun fun both => begins both.1,
      iff_of_true rfl fun both => begins both.1⟩, fun _ digit => absurd digit begins⟩

theorem choose_bounds {specs : List RangeSpec} {first last : Nat}
    (chosen : choose specs = .range first last) : first ≤ last ∧ (last : Int) ≤ openEnd := by
  have most : openEnd = (openEnd.toNat : Int) := rfl
  have size : Nat.pow 2 53 = openEnd.toNat + 1 := rfl
  unfold choose at chosen
  split at chosen
  · cases chosen
  · split at chosen
    · cases chosen
    · split at chosen
      · rename_i found
        cases chosen
        obtain ⟨before, spec, after, -, range, -⟩ := List.findSome?_eq_some_iff.mp found
        rcases (RangeSpec.range?_eq_some_iff ..).mp range with spans | ⟨n, counts, rfl, rfl⟩
        · have finish := spans.finish
          exact ⟨spans.order, by omega⟩
        · have positive := counts.2.1
          rw [size]
          exact ⟨by omega, by omega⟩
      · cases chosen

/-! ### Headers -/

/-- What a reader of ranges makes of a header. -/
inductive Reading where
  /-- A spec could not be read. -/
  | malformed
  /-- No spec is left. -/
  | unsatisfiable
  | ranges (first : Nat × Nat) (rest : List (Nat × Nat))

/-- Reads specs for a resource of `2 ^ 53` bytes. Ends are cut off at its last byte, a suffix counts
back from its end; specs that are inverted are dropped, and the others given in order. -/
def Reading.ofSpecs (specs : List RangeSpec) : Reading :=
  if specs.any (·.isEmpty) then .malformed
  else
    match specs.filterMap RangeSpec.range? with
    | [] => .unsatisfiable
    | first :: rest => .ranges first rest

/-- The reader reads sets of ranges spec by spec. What it makes of other texts is left open. -/
def Conforms (reader : List Char → Reading) : Prop :=
  ∀ cs specs, RangeSet cs specs → reader cs = .ofSpecs specs

/-- A header is trimmed and handed on to a reader of ranges, unless it is no set of ranges or begins
with a suffix. Of the ranges that the reader finds the first counts. -/
def parseBy (reader : List Char → Reading) (header : Option String) : RangeHeader :=
  match header with
  | Option.none => .none
  | some text =>
      let cs := Text.trim text.toList
      if cs.isEmpty || (read? cs).isNone then .none
      else if (unit ++ ['-']).isPrefixOf cs then .unsatisfiable
      else
        match reader cs with
        | .malformed => .none
        | .unsatisfiable => .unsatisfiable
        | .ranges first _ => .range first.1 first.2

theorem parse_of_read {header : String} {specs : List RangeSpec}
    (read : read? (Text.trim header.toList) = some specs) : parse (some header) = choose specs := by
  rw [parse, Option.bind_some, read]

theorem parse_of_unread {header : String}
    (unread : read? (Text.trim header.toList) = Option.none) : parse (some header) = .none := by
  rw [parse, Option.bind_some, unread]

/-- Any reader that conforms gives the same answers. -/
theorem parseBy_eq_parse {reader : List Char → Reading} (conforms : Conforms reader)
    (header : Option String) : parseBy reader header = parse header := by
  cases header with
  | none => rfl
  | some text =>
      rw [parseBy, parse, Option.bind_some]
      generalize Text.trim text.toList = cs
      cases read : read? cs with
      | none => simp
      | some specs =>
          have set := (read?_eq_some_iff cs specs).mp read
          have filled : cs.isEmpty = false := by
            cases cs with
            | nil => cases read
            | cons c cs => rfl
          simp only [filled, Option.isNone_some, Bool.or_self, Bool.false_eq_true, if_false,
            set.suffix, conforms cs specs set, choose, Reading.ofSpecs, ← List.head?_filterMap]
          cases specs.head?.any (·.first.isNone) with
          | true => rfl
          | false =>
              cases specs.any (·.isEmpty) with
              | true => rfl
              | false => cases specs.filterMap RangeSpec.range? <;> rfl

/-- Range headers are read as they are written, but for suffixes. Whichever reader of ranges is used,
if only it reads specs as it should: a header is ignored exactly if it is blank, is no set of ranges,
or begins with a digit and holds a spec without digits. Of all others the answer is the first range
that a spec spans, provided that the first spec is no suffix; without such a range it is that the
header cannot be satisfied. This holds unless a suffix comes before all specs that span a range: then
that suffix is taken, counted back from the end of a resource of `2 ^ 53` bytes. -/
theorem header_as_written {reader : List Char → Reading} (conforms : Conforms reader)
    (header : String) :
    let cs := Text.trim header.toList
    let answer := parseBy reader (some header)
    answer = parse (some header) ∧
    (answer = .none ↔ cs = [] ∨ (¬ ∃ specs, RangeSet cs specs) ∨ ∃ specs, RangeSet cs specs ∧
      BeginsWithDigit specs ∧ ∃ spec ∈ specs, spec.isEmpty = true) ∧
    ∀ specs, RangeSet cs specs → answer ≠ .none →
      ((BeginsWithDigit specs → ∀ n, ¬ SuffixLeads n specs) → AsWritten specs answer) ∧
      (∀ n, BeginsWithDigit specs → SuffixLeads n specs →
        answer = .range (Nat.pow 2 53 - n) openEnd.toNat) ∧
      ∀ first last, answer = .range first last → first ≤ last ∧ (last : Int) ≤ openEnd := by
  intro cs answer
  have same : answer = parse (some header) := parseBy_eq_parse conforms (some header)
  rw [same]
  refine ⟨rfl, ?_, ?_⟩
  · cases read : read? cs with
    | none =>
        rw [parse_of_unread read]
        refine iff_of_true rfl (.inr (.inl ?_))
        rintro ⟨specs, set⟩
        rw [(read?_eq_some_iff cs specs).mpr set] at read
        cases read
    | some specs =>
        have set := (read?_eq_some_iff cs specs).mp read
        rw [parse_of_read read, choose_eq_none_iff set.filled]
        constructor
        · rintro ⟨begins, bare⟩
          exact .inr (.inr ⟨specs, set, begins, bare⟩)
        · rintro (blank | unset | ⟨other, set', begins, bare⟩)
          · rw [blank] at read
            cases read
          · exact absurd ⟨specs, set⟩ unset
          · rw [(read?_eq_some_iff cs other).mpr set'] at read
            cases read
            exact ⟨begins, bare⟩
  · intro specs set heard
    rw [parse_of_read ((read?_eq_some_iff cs specs).mpr set)] at heard ⊢
    obtain ⟨written, leads⟩ := choose_asWritten set.filled heard
    exact ⟨written, leads, fun _ _ => choose_bounds⟩

/-- The reader that goes by the specs alone, and takes all other texts for malformed. -/
def specReader (cs : List Char) : Reading := ((read? cs).map Reading.ofSpecs).getD .malformed

theorem specReader_conforms : Conforms specReader := by
  intro cs specs set
  rw [specReader, (read?_eq_some_iff cs specs).mpr set]
  rfl

/-- An inverted spec is dropped, and the suffix at the end comes too late. -/
theorem header_as_written_of_three :
    let header := "\tbytes=7-5, 3-, -2 "
    let specs : List RangeSpec := [⟨some 7, some 5⟩, ⟨some 3, .none⟩, ⟨.none, some 2⟩]
    Conforms specReader ∧ RangeSet (Text.trim header.toList) specs ∧
      parseBy specReader (some header) = .range 3 9007199254740991 := by
  intro header specs
  have set : RangeSet (Text.trim header.toList) specs :=
    (read?_eq_some_iff _ _).mp (by decide +kernel)
  obtain ⟨same, -, heard⟩ := header_as_written specReader_conforms header
  obtain ⟨written, -, -⟩ := heard specs set (by rw [same]; decide +kernel)
  have inverted : ∀ x y, ¬ (⟨some 7, some 5⟩ : RangeSpec).Spans x y := by
    rintro _ _ ⟨⟨⟩, rfl, order⟩
    exact absurd order (by decide)
  have spans : (⟨some 3, .none⟩ : RangeSpec).Spans 3 openEnd.toNat := ⟨rfl, rfl, by decide⟩
  have late : ∀ n, ¬ SuffixLeads n specs := by
    intro n leads
    unfold specs at leads
    rcases leads with ⟨-, ⟨⟩, -⟩ | ⟨-, ⟨-, ⟨⟩, -⟩ | ⟨dropped, -⟩⟩
    exact dropped.nowhere 3 openEnd.toNat spans
  refine ⟨specReader_conforms, set, ?_⟩
  exact ((written fun _ => late).range _ _).mpr
    ⟨⟨_, rfl, rfl⟩, .later inverted (.here _ spans)⟩

/-- Behind a spec that is inverted a suffix is taken, although no spec spans a range: it becomes the
last bytes of a resource of `2 ^ 53` bytes. -/
theorem suffix_is_taken_behind_inverted :
    let header := "bytes=5-2,-10"
    let specs : List RangeSpec := [⟨some 5, some 2⟩, ⟨.none, some 10⟩]
    RangeSet (Text.trim header.toList) specs ∧
      (∀ spec ∈ specs, spec.isEmpty = false ∧ ∀ x y, ¬ spec.Spans x y) ∧
      parse (some header) = .range (Nat.pow 2 53 - 10) 9007199254740991 ∧
      ¬ AsWritten specs (parse (some header)) := by
  intro header specs
  have set : RangeSet (Text.trim header.toList) specs :=
    (read?_eq_some_iff _ _).mp (by decide +kernel)
  have taken : parse (some header) = .range (Nat.pow 2 53 - 10) 9007199254740991 := by decide +kernel
  have nowhere : ∀ spec ∈ specs, spec.isEmpty = false ∧ ∀ x y, ¬ spec.Spans x y := by
    intro spec member
    rcases List.mem_cons.mp member with rfl | member
    · refine ⟨rfl, ?_⟩
      rintro _ _ ⟨⟨⟩, rfl, order⟩
      exact absurd order (by decide)
    · rw [List.mem_singleton.mp member]
      exact ⟨rfl, fun _ _ spans => nomatch spans.start⟩
  refine ⟨set, nowhere, taken, fun written => ?_⟩
  obtain ⟨-, spans⟩ := (written.range _ _).mp taken
  obtain ⟨spec, member, own⟩ := spans.exists_mem
  exact (nowhere spec member).2 _ _ own

end RangeHeader
end LiveHls.Http
