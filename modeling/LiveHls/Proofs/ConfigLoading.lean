import LiveHls.Config
import LiveHls.Proofs.Binary64.Sums
import LiveHls.Proofs.Stream.Run
/-! What every configuration that is loaded satisfies. Whatever the file and the environment say, the
streaming section is corrected where it has to be, so that streams can be created from it. -/
namespace LiveHls

theorem Section.lookup_cons {α : Type} (entry : String × α) (rest : List (String × α))
    (key : String) :
    (entry :: rest).lookup key = if key = entry.1 then some entry.2 else rest.lookup key := by
  rw [List.lookup_cons]
  by_cases asked : key = entry.1
  · rw [asked, beq_self_eq_true, if_pos rfl]
  · rw [beq_eq_false_iff_ne.mpr asked, if_neg asked]

theorem Section.lookup_set (s : Section) (key other : String) (value : Yaml) :
    (s.set key value).lookup other = if other = key then some value else s.lookup other := by
  induction s with
  | nil =>
      rw [set, lookup_cons]
  | cons entry rest ih =>
      obtain ⟨k, v⟩ := entry
      rw [set]
      by_cases same : k = key
      · rw [if_pos same, same, lookup_cons, lookup_cons]
        by_cases asked : other = key
        · rw [if_pos asked, if_pos asked]
        · rw [if_neg asked, if_neg asked, if_neg asked]
      · rw [if_neg same, lookup_cons, lookup_cons, ih]
        by_cases asked : other = k
        · rw [if_pos asked, if_neg (asked ▸ same), if_pos asked]
        · rw [if_neg asked, if_neg asked]

theorem Section.get_set (s : Section) (key : String) (value : Yaml) :
    (s.set key value).get key = value := by
  rw [get, lookup_set, if_pos rfl]
  rfl

theorem Section.get_set_ne (s : Section) {key other : String} (ne : other ≠ key) (value : Yaml) :
    (s.set key value).get other = s.get other := by
  rw [get, lookup_set, if_neg ne]
  rfl

namespace Config

/-! ### The correction of the streaming section -/

def DurationsValid (values : String → Option Yaml) : Prop :=
  ∃ segment part, values "segmentDuration" = some (.number segment) ∧
    values "partDuration" = some (.number part) ∧
    (Binary64.isFinite segment = true ∧ 0.0 < segment) ∧
    (Binary64.isFinite part = true ∧ 0.0 < part) ∧ part ≤ segment

def WindowValid (values : String → Option Yaml) : Prop :=
  ∃ size n, values "windowSize" = some (.number size) ∧ Binary64.integer? size = some n ∧ 1 ≤ n

/-- The values of the streaming section before and after the correction. The durations go back to the
defaults together. -/
structure Corrected (before after : String → Option Yaml) : Prop where
  durations :
    DurationsValid before ∧ after "segmentDuration" = before "segmentDuration" ∧
      after "partDuration" = before "partDuration" ∨
    ¬ DurationsValid before ∧ after "segmentDuration" = defaultStreaming.lookup "segmentDuration" ∧
      after "partDuration" = defaultStreaming.lookup "partDuration"
  window :
    WindowValid before ∧ after "windowSize" = before "windowSize" ∨
    ¬ WindowValid before ∧ after "windowSize" = defaultStreaming.lookup "windowSize"
  others : ∀ key, key ≠ "segmentDuration" → key ≠ "partDuration" → key ≠ "windowSize" →
    key ≠ Section.reservedKey → after key = before key

theorem DurationsValid.congr {values others : String → Option Yaml} (valid : DurationsValid values)
    (segment : others "segmentDuration" = values "segmentDuration")
    (part : others "partDuration" = values "partDuration") : DurationsValid others := by
  obtain ⟨x, y, first, second, fit⟩ := valid
  exact ⟨x, y, segment.trans first, part.trans second, fit⟩

theorem WindowValid.congr {values others : String → Option Yaml} (valid : WindowValid values)
    (size : others "windowSize" = values "windowSize") : WindowValid others := by
  obtain ⟨x, n, given, fit⟩ := valid
  exact ⟨x, n, size.trans given, fit⟩

/-- The correction looks at named keys only, none of which is the reserved one. -/
theorem Corrected.of_eq {before others after : String → Option Yaml}
    (corrected : Corrected before after)
    (same : ∀ key, key ≠ Section.reservedKey → others key = before key) :
    Corrected others after := by
  have segment := same "segmentDuration" (by decide)
  have part := same "partDuration" (by decide)
  have size := same "windowSize" (by decide)
  constructor
  · rw [segment, part]
    exact corrected.durations.imp
      (fun ⟨valid, kept⟩ => ⟨valid.congr segment part, kept⟩)
      (fun ⟨invalid, reset⟩ => ⟨fun valid => invalid (valid.congr segment.symm part.symm), reset⟩)
  · rw [size]
    exact corrected.window.imp
      (fun ⟨valid, kept⟩ => ⟨valid.congr size, kept⟩)
      (fun ⟨invalid, reset⟩ => ⟨fun valid => invalid (valid.congr size.symm), reset⟩)
  · intro key first second third named
    rw [same key named]
    exact corrected.others key first second third named

theorem get_eq_number_iff (s : Section) (key : String) (x : Float) :
    s.get key = .number x ↔ s.lookup key = some (.number x) := by
  unfold Section.get
  cases s.lookup key with
  | none => exact iff_of_false nofun nofun
  | some value => exact (Option.some_inj).symm

theorem positive_eq_some_iff (value : Yaml) (x : Float) :
    positive? value = some x ↔ value = .number x ∧ Binary64.isFinite x = true ∧ 0.0 < x := by
  cases value with
  | number y =>
      rw [positive?, Option.ite_none_right_eq_some, Bool.and_eq_true, decide_eq_true_iff]
      constructor
      · rintro ⟨valid, same⟩
        cases same
        exact ⟨rfl, valid⟩
      · rintro ⟨same, valid⟩
        cases same
        exact ⟨valid, rfl⟩
  | _ => exact iff_of_false nofun nofun

theorem durationsFit_iff (s : Section) : durationsFit s = true ↔ DurationsValid (s.lookup ·) := by
  unfold durationsFit
  constructor
  · intro fit
    split at fit
    · rename_i segment part first second
      obtain ⟨given, valid⟩ := (positive_eq_some_iff ..).mp first
      obtain ⟨given', valid'⟩ := (positive_eq_some_iff ..).mp second
      have ordered : ¬ segment < part := by simpa using fit
      exact ⟨segment, part, (get_eq_number_iff ..).mp given, (get_eq_number_iff ..).mp given',
        valid, valid', (Binary64.not_lt_iff valid.1 valid'.1).mp ordered⟩
    · cases fit
  · rintro ⟨segment, part, given, given', valid, valid', ordered⟩
    rw [(positive_eq_some_iff ..).mpr ⟨(get_eq_number_iff ..).mpr given, valid⟩,
      (positive_eq_some_iff ..).mpr ⟨(get_eq_number_iff ..).mpr given', valid'⟩]
    simpa using (Binary64.not_lt_iff valid.1 valid'.1).mpr ordered

theorem windowFits_iff (s : Section) : windowFits s = true ↔ WindowValid (s.lookup ·) := by
  unfold windowFits
  constructor
  · intro fit
    split at fit
    · rename_i size given
      obtain ⟨n, whole, least⟩ := (Option.any_eq_true _ _).mp fit
      exact ⟨size, n, (get_eq_number_iff ..).mp given, whole, of_decide_eq_true least⟩
    · cases fit
  · rintro ⟨size, n, given, whole, least⟩
    rw [(get_eq_number_iff ..).mpr given]
    exact (Option.any_eq_true _ _).mpr ⟨n, whole, decide_eq_true least⟩

theorem correctDurations_ok {s corrected : Section} {warnings more : List String}
    (done : correctDurations s warnings = .ok (corrected, more)) :
    DurationsValid (s.lookup ·) ∧ corrected = s ∨ ¬ DurationsValid (s.lookup ·) ∧
      corrected = (s.set "segmentDuration" (whole 6)).set "partDuration" (whole 1) := by
  rw [← durationsFit_iff]
  unfold correctDurations at done
  split at done
  · rename_i fits
    cases done
    exact .inl ⟨fits, rfl⟩
  · rename_i unfit
    split at done <;> cases done
    exact .inr ⟨unfit, rfl⟩

theorem correctWindow_ok {s corrected : Section} {warnings more : List String}
    (done : correctWindow s warnings = .ok (corrected, more)) :
    WindowValid (s.lookup ·) ∧ corrected = s ∨
      ¬ WindowValid (s.lookup ·) ∧ corrected = s.set "windowSize" (whole 5) := by
  rw [← windowFits_iff]
  unfold correctWindow at done
  split at done
  · rename_i fits
    cases done
    exact .inl ⟨fits, rfl⟩
  · rename_i unfit
    split at done <;> cases done
    exact .inr ⟨unfit, rfl⟩

/-- The two corrections, one after the other: neither touches what the other looks at. -/
theorem corrected_of_ok {s middle result : Section} {warnings more most : List String}
    (durations : correctDurations s warnings = .ok (middle, more))
    (window : correctWindow middle more = .ok (result, most)) :
    Corrected (s.lookup ·) (result.lookup ·) := by
  have apart : ∀ key, key ≠ "segmentDuration" → key ≠ "partDuration" →
      middle.lookup key = s.lookup key := by
    intro key segment part
    rcases correctDurations_ok durations with ⟨-, rfl⟩ | ⟨-, rfl⟩
    · rfl
    · rw [Section.lookup_set, if_neg part, Section.lookup_set, if_neg segment]
  have kept : ∀ key, key ≠ "windowSize" → result.lookup key = middle.lookup key := by
    intro key size
    rcases correctWindow_ok window with ⟨-, rfl⟩ | ⟨-, rfl⟩
    · rfl
    · rw [Section.lookup_set, if_neg size]
  have size := apart "windowSize" (by decide) (by decide)
  constructor
  · simp only [kept "segmentDuration" (by decide), kept "partDuration" (by decide)]
    rcases correctDurations_ok durations with ⟨valid, rfl⟩ | ⟨invalid, rfl⟩
    · exact .inl ⟨valid, rfl, rfl⟩
    · simp only [Section.lookup_set]
      exact .inr ⟨invalid, rfl, rfl⟩
  · rcases correctWindow_ok window with ⟨valid, rfl⟩ | ⟨invalid, rfl⟩
    · exact .inl ⟨valid.congr size.symm, size⟩
    · refine .inr ⟨fun valid => invalid (valid.congr size), ?_⟩
      rw [Section.lookup_set]
      rfl
  · intro key segment part window _
    exact (kept key window).trans (apart key segment part)

theorem defaultStreaming_valid :
    DurationsValid (defaultStreaming.lookup ·) ∧ WindowValid (defaultStreaming.lookup ·) :=
  ⟨(durationsFit_iff _).mp (by decide +kernel), (windowFits_iff _).mp (by decide +kernel)⟩

theorem Corrected.valid {before after : String → Option Yaml} (corrected : Corrected before after) :
    DurationsValid after ∧ WindowValid after := by
  constructor
  · rcases corrected.durations with ⟨valid, segment, part⟩ | ⟨-, segment, part⟩
    · exact valid.congr segment part
    · exact defaultStreaming_valid.1.congr segment part
  · rcases corrected.window with ⟨valid, size⟩ | ⟨-, size⟩
    · exact valid.congr size
    · exact defaultStreaming_valid.2.congr size

/-! ### Loads -/

theorem finish_cases (around : Surroundings) (c : Config) (warnings : List String) :
    (∃ streaming, Corrected ((c.applyEnvironment around.environment).streaming.lookup ·)
        (streaming.lookup ·) ∧
      (finish around c warnings).errors = [] ∧
      (finish around c warnings).config =
        { c.applyEnvironment around.environment with streaming }) ∨
    (finish around c warnings).errors = [failure] ∧
      (finish around c warnings).config = default around.directory := by
  unfold finish
  simp only
  cases durations : correctDurations (c.applyEnvironment around.environment).streaming warnings with
  | error failed => exact .inr ⟨rfl, rfl⟩
  | ok middle =>
      simp only [bind, Except.bind]
      cases window : correctWindow middle.1 middle.2 with
      | error failed => exact .inr ⟨rfl, rfl⟩
      | ok result => exact .inl ⟨result.1, corrected_of_ok durations window, rfl, rfl⟩

theorem finish_valid (around : Surroundings) (c : Config) (warnings : List String) :
    DurationsValid ((finish around c warnings).config.streaming.lookup ·) ∧
      WindowValid ((finish around c warnings).config.streaming.lookup ·) := by
  rcases finish_cases around c warnings with ⟨streaming, corrected, -, config⟩ | ⟨-, config⟩
  · rw [config]
    exact corrected.valid
  · rw [config]
    exact defaultStreaming_valid

section

variable (read : String → Option Yaml) (around : Surroundings)

/-- Every load, with whatever it finds, ends with durations and a window size that fit. -/
theorem loadBy_valid :
    DurationsValid ((loadBy read around).config.streaming.lookup ·) ∧
      WindowValid ((loadBy read around).config.streaming.lookup ·) := by
  unfold loadBy
  split
  · exact finish_valid ..
  · exact defaultStreaming_valid
  · split
    · exact finish_valid ..
    · exact defaultStreaming_valid

/-- A stream can be created from every configuration that is loaded. -/
theorem loadBy_creates (id : String) (settings : Settings) (now : Int) : ∃ s,
    Stream.create id settings (loadBy read around).config.streamingConfig.windowSize now = .ok s := by
  obtain ⟨size, n, given, whole, positive⟩ := (loadBy_valid read around).2
  have loaded : (loadBy read around).config.streamingConfig.windowSize = size := by
    show number (loadBy read around).config.streaming "windowSize" = size
    rw [number, (get_eq_number_iff ..).mpr given]
  refine ⟨_, (Stream.create_eq_ok_iff ..).mpr ⟨n.toNat, by omega, ?_, rfl⟩⟩
  rw [loaded, whole, Int.toNat_of_nonneg (by omega)]

end

end Config
end LiveHls
