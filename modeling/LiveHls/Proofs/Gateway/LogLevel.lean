import LiveHls.Proofs.ConfigLoading
import LiveHls.Proofs.Gateway.Effects
/-! Changes of the log level. A change is acknowledged once the environment says so; whether the log
follows depends on the load of the configuration that comes after. -/
namespace LiveHls

namespace Config

/-! ### Loads that fail -/

/-- Every value of a section can be shown in a message. -/
def Shown (s : Section) : Prop := ∀ key, (shown? s key).isSome = true

theorem Shown.set {s : Section} (shown : Shown s) (key : String) {value : Yaml}
    (text : value.text?.isSome = true) : Shown (s.set key value) := by
  intro other
  rw [shown?]
  by_cases same : other = key
  · rw [same, Section.get_set]
    exact text
  · rw [Section.get_set_ne s same]
    exact shown other

theorem Shown.setFrom {s : Section} (shown : Shown s) (environment : List (String × String))
    (name key : String) {read : String → Yaml} (texts : ∀ t, (read t).text?.isSome = true) :
    Shown (setFrom environment name key read s) := by
  unfold Config.setFrom
  split
  · exact shown.set key (texts _)
  · exact shown

theorem number_shown (x : Float) : (Yaml.number x).text?.isSome = true := by
  rw [Yaml.text?]
  rfl

theorem defaultStreaming_shown : Shown defaultStreaming := by
  have nothing : Shown [] := fun key => by
    show (Yaml.null.text?).isSome = true
    rw [Yaml.text?]
    rfl
  exact ((nothing.set "segmentDuration" (number_shown 6)).set "partDuration" (number_shown 1)).set
    "windowSize" (number_shown 5)

theorem Shown.applyEnvironment {c : Config} (shown : Shown c.streaming)
    (environment : List (String × String)) : Shown (c.applyEnvironment environment).streaming :=
  (((shown.setFrom _ _ _ fun _ => number_shown _).setFrom _ _ _ fun _ => number_shown _).setFrom
    _ _ _ fun _ => number_shown _)

/-- Where a value has to be corrected it can be shown. -/
structure Correctable (s : Section) : Prop where
  durations : durationsFit s = true ∨
    (shown? s "segmentDuration").isSome = true ∧ (shown? s "partDuration").isSome = true
  window : windowFits s = true ∨ (shown? s "windowSize").isSome = true

theorem Shown.correctable {s : Section} (shown : Shown s) : Correctable s :=
  ⟨.inr ⟨shown _, shown _⟩, .inr (shown _)⟩

theorem correctDurations_cases (s : Section) (warnings : List String) :
    (∃ corrected more, correctDurations s warnings = .ok (corrected, more) ∧
      corrected.get "windowSize" = s.get "windowSize" ∧
      (durationsFit s = true ∨
        (shown? s "segmentDuration").isSome = true ∧ (shown? s "partDuration").isSome = true)) ∨
    correctDurations s warnings = .error warnings ∧ ¬ (durationsFit s = true ∨
      (shown? s "segmentDuration").isSome = true ∧ (shown? s "partDuration").isSome = true) := by
  unfold correctDurations
  by_cases fits : durationsFit s = true
  · rw [if_pos fits]
    exact .inl ⟨s, warnings, rfl, rfl, .inl fits⟩
  · rw [if_neg fits]
    cases segment : shown? s "segmentDuration" with
    | none => exact .inr ⟨rfl, fun h => h.elim fits fun both => nomatch both.1⟩
    | some first =>
        cases part : shown? s "partDuration" with
        | none => exact .inr ⟨rfl, fun h => h.elim fits fun both => nomatch both.2⟩
        | some second =>
            refine .inl ⟨_, _, rfl, ?_, .inr ⟨rfl, rfl⟩⟩
            rw [Section.get_set_ne _ (by decide), Section.get_set_ne _ (by decide)]

theorem correctWindow_cases (s : Section) (warnings : List String) :
    (∃ corrected, correctWindow s warnings = .ok corrected ∧
      (windowFits s = true ∨ (shown? s "windowSize").isSome = true)) ∨
    correctWindow s warnings = .error warnings ∧
      ¬ (windowFits s = true ∨ (shown? s "windowSize").isSome = true) := by
  unfold correctWindow
  by_cases fits : windowFits s = true
  · rw [if_pos fits]
    exact .inl ⟨_, rfl, .inl fits⟩
  · rw [if_neg fits]
    cases size : shown? s "windowSize" with
    | none => exact .inr ⟨rfl, fun h => h.elim fits fun shown => nomatch shown⟩
    | some text => exact .inl ⟨_, rfl, .inr rfl⟩

/-- How a load of the surroundings ends: with what the environment says of the server, or with the
defaults alone. -/
inductive Ending (around : Surroundings) (loaded : Loaded) : Prop
  | applied {c : Config} (quiet : loaded.errors = [])
      (server : loaded.config.server = (c.applyEnvironment around.environment).server)
  | failed (said : loaded.errors = [failure]) (same : loaded.config = default around.directory)

theorem failed_ending {around : Surroundings} {warnings : List String} :
    Ending around ⟨default around.directory, warnings, [failure]⟩ := .failed rfl rfl

theorem finish_ending (around : Surroundings) (c : Config) (warnings : List String) :
    Ending around (finish around c warnings) ∧ ((finish around c warnings).errors = [] ↔
      Correctable (c.applyEnvironment around.environment).streaming) := by
  unfold finish
  simp only
  rcases correctDurations_cases (c.applyEnvironment around.environment).streaming warnings with
    ⟨streaming, more, durations, kept, fit⟩ | ⟨durations, unfit⟩
  · have same : windowFits streaming = true ∨ (shown? streaming "windowSize").isSome = true ↔
        windowFits (c.applyEnvironment around.environment).streaming = true ∨
          (shown? (c.applyEnvironment around.environment).streaming "windowSize").isSome = true := by
      rw [windowFits, shown?, kept]
      rfl
    simp only [durations, bind, Except.bind]
    rcases correctWindow_cases streaming more with ⟨corrected, window, size⟩ | ⟨window, size⟩
    · rw [window]
      exact ⟨.applied rfl rfl, iff_of_true rfl ⟨fit, same.mp size⟩⟩
    · rw [window]
      refine ⟨failed_ending, iff_of_false ?_ fun fine => size (same.mpr fine.window)⟩
      rintro ⟨⟩
  · simp only [durations, bind, Except.bind]
    refine ⟨failed_ending, iff_of_false ?_ fun fine => unfit fine.durations⟩
    rintro ⟨⟩

/-- The configuration can be loaded: there is no file, or one that the reader of documents takes for a
document that can be corrected. -/
inductive Loadable (read : String → Option Yaml) (around : Surroundings) : Prop
  | absent (file : around.file = .absent)
  | document {s : String} {document : Yaml} (file : around.file = .text s)
      (stated : read s = some document)
      (correctable : Correctable
        ((merge around.directory document).applyEnvironment around.environment).streaming)

theorem loadBy_ending (read : String → Option Yaml) (around : Surroundings) :
    Ending around (loadBy read around) ∧
      ((loadBy read around).errors = [] ↔ Loadable read around) := by
  unfold loadBy
  cases file : around.file with
  | absent =>
      have shown := defaultStreaming_shown.applyEnvironment (c := default around.directory)
        around.environment
      obtain ⟨ending, quiet⟩ := finish_ending around (default around.directory)
        [s!"Configuration file not found at {around.path}, using default values"]
      exact ⟨ending, iff_of_true (quiet.mpr shown.correctable) (.absent file)⟩
  | unreadable =>
      refine ⟨failed_ending, iff_of_false nofun ?_⟩
      rintro (absent | ⟨text, -, -⟩)
      · rw [file] at absent
        cases absent
      · rw [file] at text
        cases text
  | text s =>
      simp only
      cases parsed : read s with
      | none =>
          refine ⟨failed_ending, iff_of_false nofun ?_⟩
          rintro (absent | ⟨text, stated, -⟩)
          · rw [file] at absent
            cases absent
          · rw [file] at text
            cases text
            rw [parsed] at stated
            cases stated
      | some document =>
          obtain ⟨ending, quiet⟩ := finish_ending around (merge around.directory document) []
          refine ⟨ending, quiet.trans ⟨.document file parsed, ?_⟩⟩
          rintro (absent | ⟨text, stated, correctable⟩)
          · rw [file] at absent
            cases absent
          · rw [file] at text
            cases text
            rw [parsed] at stated
            cases stated
            exact correctable

end Config

namespace LogControl

theorem lookup_setVariable_ne {name other : String} (ne : other ≠ name) (value : String)
    (environment : List (String × String)) :
    (setVariable name value environment).lookup other = environment.lookup other := by
  rw [setVariable, List.lookup_cons, beq_eq_false_iff_ne.mpr ne]
  show (environment.filter (·.1 ≠ name)).lookup other = environment.lookup other
  induction environment with
  | nil => rfl
  | cons entry rest ih =>
      obtain ⟨k, v⟩ := entry
      by_cases same : k = name
      · rw [List.filter_cons_of_neg (by simp [same]), ih, List.lookup_cons, same,
          beq_eq_false_iff_ne.mpr ne]
      · rw [List.filter_cons_of_pos (by simp [same]), List.lookup_cons, List.lookup_cons, ih]

/-- Whether a configuration can be loaded does not depend on the level. -/
theorem loadable_change (c : LogControl) (level : LogLevel) :
    Config.Loadable (c.change level).read (c.change level).around ↔
      Config.Loadable c.read c.around := by
  have same : ∀ config : Config,
      (config.applyEnvironment (c.change level).around.environment).streaming =
        (config.applyEnvironment c.around.environment).streaming := by
    intro config
    simp only [change, reload, Config.applyEnvironment, Config.setFrom, Config.given?]
    rw [lookup_setVariable_ne (by decide), lookup_setVariable_ne (by decide),
      lookup_setVariable_ne (by decide)]
  constructor
  · rintro (absent | ⟨file, stated, correctable⟩)
    · exact .absent absent
    · exact .document file stated (same _ ▸ correctable)
  · rintro (absent | ⟨file, stated, correctable⟩)
    · exact .absent absent
    · refine .document file stated ?_
      rw [same]
      exact correctable

/-- The level that the log has once a configuration is loaded. -/
theorem logLevel_of_given (read : String → Option Yaml) {around : Surroundings} {level : LogLevel}
    (given : around.environment.lookup "LOG_LEVEL" = some level.name) :
    (Config.loadBy read around).config.logLevel =
      if (Config.loadBy read around).errors = [] then level.name else "info" := by
  have named : Config.given? around.environment "LOG_LEVEL" = some level.name := by
    rw [Config.given?, given]
    cases level <;> rfl
  obtain ⟨quiet, server⟩ | ⟨said, same⟩ := (Config.loadBy_ending read around).1
  · rw [if_pos quiet, Config.logLevel, server]
    simp only [Config.applyEnvironment, Config.setFrom, named, Section.get_set]
    rw [Yaml.isGiven, Yaml.text?]
    cases level <;> rfl
  · rw [if_neg (by rw [said]; exact nofun), same]
    rfl

/-- A change takes effect if the configuration can be loaded; if not, the level is the default. -/
theorem change_level (c : LogControl) (level : LogLevel) :
    (Config.Loadable c.read c.around → (c.change level).level = level.name) ∧
    (¬ Config.Loadable c.read c.around → (c.change level).level = "info") := by
  have given : (c.change level).around.environment.lookup "LOG_LEVEL" = some level.name := by
    rw [change, reload, setVariable, List.lookup_cons_self]
  have loaded := (Config.loadBy_ending c.read (c.change level).around).2.trans
    (loadable_change c level)
  have after : (c.change level).level =
      if (Config.loadBy c.read (c.change level).around).errors = [] then level.name else "info" :=
    logLevel_of_given c.read given
  constructor
  · intro loadable
    rw [after, if_pos (loaded.mpr loadable)]
  · intro failing
    rw [after, if_neg fun quiet => failing (loaded.mp quiet)]

end LogControl

theorem LogLevel.name_of_ofName? {s : String} {level : LogLevel} (named : ofName? s = some level) :
    s = level.name := by
  have same := List.find?_some (p := fun l : LogLevel => decide (l.name = s)) named
  exact (of_decide_eq_true same).symm

theorem LogLevel.eq_info_of_name {level : LogLevel} (same : "info" = level.name) : level = .info := by
  revert same
  cases level <;> decide

namespace Gateway

/-- A change of level is acknowledged, or nothing has changed. -/
theorem changeLevel_cases (g : Gateway) (query : Http.Query) :
    (∃ level : LogLevel, query.get "level" = .text level.name ∧
      (g.changeLevel query).1 = { g with log := g.log.change level } ∧
      (g.changeLevel query).2.2 = levelSet level) ∨
    (g.changeLevel query).1 = g ∧ (g.changeLevel query).2.2.status = 400 := by
  unfold changeLevel
  split
  · exact .inr ⟨rfl, rfl⟩
  · exact .inr ⟨rfl, rfl⟩
  · exact .inr ⟨rfl, rfl⟩
  · rename_i name _ given
    cases known : LogLevel.ofName? name with
    | none => exact .inr ⟨rfl, rfl⟩
    | some level => exact .inl ⟨level, by rw [given, LogLevel.name_of_ofName? known], rfl, rfl⟩

/-- Whatever happened before, whatever the file of the configuration holds and whichever reader of
documents is used: a change of level that is acknowledged has been made if the configuration can be
loaded. If not, the level is the default, so that the acknowledgement is right by chance only. -/
theorem acknowledged_level_holds_iff (g : Gateway) {r : HttpRequest} (request : Nat) (now : Int)
    (route : Http.Target.resource? (Http.Target.path r.target.toList) = some .logLevel)
    (posted : r.method = "POST")
    (acknowledged : (g.http r request now).2.2.bind Reply.status? = some 200) :
    ∃ level : LogLevel,
      (Http.Query.parse (Http.Target.query r.target.toList)).get "level" = .text level.name ∧
      (g.http r request now).2.2 = some (.sent (levelSet level).complete) ∧
      ((g.http r request now).1.log.level = level.name ↔
        Config.Loadable g.log.read g.log.around ∨ level = .info) ∧
      (¬ Config.Loadable g.log.read g.log.around → (g.http r request now).1.log.level = "info") := by
  simp only [http, route, serve, posted, if_true] at acknowledged ⊢
  generalize Http.Query.parse (Http.Target.query r.target.toList) = query at acknowledged ⊢
  rcases g.changeLevel_cases query with ⟨level, given, changed, answered⟩ | ⟨-, refused⟩
  · obtain ⟨made, kept⟩ := g.log.change_level level
    refine ⟨level, given, by rw [answered], ?_, by rw [changed]; exact kept⟩
    rw [changed]
    constructor
    · intro holds
      by_cases loadable : Config.Loadable g.log.read g.log.around
      · exact .inl loadable
      · exact .inr (LogLevel.eq_info_of_name ((kept loadable).symm.trans holds))
    · rintro (loadable | rfl)
      · exact made loadable
      · by_cases loadable : Config.Loadable g.log.read g.log.around
        · exact made loadable
        · exact kept loadable
  · have told : (g.changeLevel query).2.2.status = 200 := Option.some.inj acknowledged
    rw [refused] at told
    cases told

/-- Without a file the change takes effect. -/
theorem acknowledged_level_holds_without_file :
    let g : Gateway := ⟨.create ⟨4.0, 1.0, 3.0⟩, LogControl.reload ⟨"", "/", .absent, []⟩⟩
    let r : HttpRequest := ⟨"POST", "/config/loglevel?level=debug", [], []⟩
    Http.Target.resource? (Http.Target.path r.target.toList) = some .logLevel ∧ r.method = "POST" ∧
    (g.http r 0 0).2.2.bind Reply.status? = some 200 ∧ (g.http r 0 0).1.log.level = "debug" := by
  intro g r
  have route : Http.Target.resource? (Http.Target.path r.target.toList) = some .logLevel := by
    decide +kernel
  have acknowledged : (g.http r 0 0).2.2.bind Reply.status? = some 200 := by decide +kernel
  obtain ⟨level, given, -, holds, -⟩ := g.acknowledged_level_holds_iff 0 0 route rfl acknowledged
  have asked : (Http.Query.parse (Http.Target.query r.target.toList)).get "level" = .text "debug" := by
    decide +kernel
  rw [given] at asked
  rw [holds.mpr (.inl (.absent rfl)), Http.Param.text.inj asked]
  exact ⟨route, rfl, acknowledged, rfl⟩

/-- With a file that is no document the change is acknowledged, and nothing happens. -/
theorem acknowledged_level_is_lost :
    let g : Gateway := ⟨.create ⟨4.0, 1.0, 3.0⟩, LogControl.reload ⟨"", "/", .text "server: [", []⟩⟩
    let r : HttpRequest := ⟨"POST", "/config/loglevel?level=debug", [], []⟩
    (g.http r 0 0).2.2.bind Reply.status? = some 200 ∧ (g.http r 0 0).1.log.level = "info" := by
  decide +kernel

end Gateway
end LiveHls
