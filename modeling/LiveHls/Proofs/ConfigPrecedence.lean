import LiveHls.Proofs.ConfigLoading
import LiveHls.Proofs.Decimal.Leading
import LiveHls.Proofs.YamlKeys
/-! Where the values of a configuration come from. The environment comes before the file and the file
before the defaults; the streaming section is then made one that streams can be created from. Which
reader of documents is used does not matter, as long as the mappings it returns have their keys once. -/
namespace LiveHls

/-! ### Sections -/

/-- A value that is there: null stands for none. -/
def Yaml.nonNull? : Yaml → Option Yaml
  | .null => none
  | value => some value

theorem Yaml.nonNull_of_ne {value : Yaml} (ne : value ≠ .null) : value.nonNull? = some value := by
  cases value with
  | null => exact absurd rfl ne
  | _ => rfl

/-- What a value says of a key, if it is a record. -/
def Yaml.stated (value : Yaml) (key : String) : Option Yaml :=
  ((value.entries?.getD []).lookup key).bind Yaml.nonNull?

namespace Section

/-- One entry over a section. -/
def put (s : Section) (entry : String × Yaml) : Section :=
  match entry.2 with
  | .null => s
  | value => if entry.1 = reservedKey then s else s.set entry.1 value

theorem override_eq_foldl (defaults : Section) (value : Yaml) :
    defaults.override value = (value.entries?.getD []).foldl put defaults := rfl

theorem lookup_put (s : Section) (entry : String × Yaml) {key : String} (named : key ≠ reservedKey) :
    (s.put entry).lookup key =
      if key = entry.1 then (Yaml.nonNull? entry.2).or (s.lookup key) else s.lookup key := by
  unfold put
  split
  · rename_i empty
    rw [empty]
    exact (ite_self _).symm
  · rename_i given
    rw [Yaml.nonNull_of_ne given]
    by_cases asked : key = entry.1
    · rw [if_pos asked, if_neg (asked ▸ named), lookup_set, if_pos asked]
      rfl
    · rw [if_neg asked]
      split
      · rfl
      · rw [lookup_set, if_neg asked]

theorem lookup_of_fresh {α : Type} {entries : List (String × α)} {key : String}
    (fresh : key ∉ entries.map (·.1)) : entries.lookup key = none := by
  refine List.lookup_eq_none_iff.mpr fun other member => bne_iff_ne.mpr fun same => ?_
  exact fresh (List.mem_map.mpr ⟨other, member, same.symm⟩)

/-- A value laid over a section. Each key is there once, so that the order of the entries, of which a
later one would win, does not matter. -/
theorem lookup_override {value : Yaml} (keys : value.KeysOnce) (defaults : Section) {key : String}
    (named : key ≠ reservedKey) :
    (defaults.override value).lookup key = (value.stated key).or (defaults.lookup key) := by
  have once : ((value.entries?.getD []).map (·.1)).Nodup := by
    cases record : value.entries? with
    | none => exact List.nodup_nil
    | some entries => exact (keys.named record).once
  rw [override_eq_foldl, Yaml.stated]
  generalize value.entries?.getD [] = entries at once ⊢
  induction entries generalizing defaults with
  | nil => rfl
  | cons entry rest ih =>
      obtain ⟨fresh, once⟩ := List.nodup_cons.mp once
      rw [List.foldl_cons, ih _ once, lookup_cons, lookup_put _ _ named]
      by_cases asked : key = entry.1
      · -- the rest says nothing of the key, so that what this entry made of it stays
        rw [if_pos asked, if_pos asked, lookup_of_fresh (asked ▸ fresh)]
        rfl
      · rw [if_neg asked, if_neg asked]

end Section

namespace Config

/-- The four sections. -/
inductive SectionName where
  | server | streaming | cleanup | reports

namespace SectionName

def key : SectionName → String
  | .server => "server"
  | .streaming => "streaming"
  | .cleanup => "cleanup"
  | .reports => "reports"

def of : SectionName → Config → Section
  | .server, c => c.server
  | .streaming, c => c.streaming
  | .cleanup, c => c.cleanup
  | .reports, c => c.reports

/-- The keys over which the environment stands, each with its variable and how the text is read. -/
def overrides : SectionName → List (String × String × (String → Yaml))
  | .server =>
      [("logLevel", "LOG_LEVEL", .text), ("host", "SERVER_HOST", .text),
       ("port", "SERVER_PORT", readWhole)]
  | .streaming =>
      [("windowSize", "WINDOW_SIZE", readWhole), ("partDuration", "PART_DURATION", readNumber),
       ("segmentDuration", "SEGMENT_DURATION", readNumber)]
  | .cleanup | .reports => []

end SectionName

/-- What the environment says of a key: a variable that is not set, or empty, says nothing. -/
def overriding (environment : List (String × String)) (name : SectionName) (key : String) :
    Option Yaml :=
  (name.overrides.lookup key).bind fun (name, read) => (given? environment name).map read

section

variable {environment : List (String × String)} {name : SectionName} {key setting s : String}
  {read : String → Yaml} {x : Float}

theorem overriding_given (listed : name.overrides.lookup key = some (setting, read))
    (given : given? environment setting = some s) : overriding environment name key = some (read s) := by
  rw [overriding, listed, Option.bind_some]
  dsimp only
  rw [given, Option.map_some]

/-- A variable for a whole number gives the one that its text begins with, and no number at all if
the text begins otherwise. -/
theorem overriding_whole (listed : name.overrides.lookup key = some (setting, readWhole))
    (given : given? environment setting = some s) :
    overriding environment name key = some (.number x) ↔
      ∃ negative rest, Decimal.Front s.toList negative rest ∧ Decimal.WholeAt negative x rest := by
  rw [overriding_given listed given, readWhole, Option.some.injEq, Yaml.number.injEq]
  exact Decimal.leadingInteger_eq_iff

/-- A variable for a number gives the decimal that its text begins with. -/
theorem overriding_number (listed : name.overrides.lookup key = some (setting, readNumber))
    (given : given? environment setting = some s) :
    overriding environment name key = some (.number x) ↔
      ∃ negative rest, Decimal.Front s.toList negative rest ∧ Decimal.NumberAt negative x rest := by
  rw [overriding_given listed given, readNumber, Option.some.injEq, Yaml.number.injEq]
  exact Decimal.leadingNumber_eq_iff

end

/-- Blanks before the number and text behind it do not count. -/
example : overriding [("WINDOW_SIZE", " 12 segments")] .streaming "windowSize" = some (whole 12) := by
  rfl

/-- The value of a section in a document; null if the document has no such section. -/
def sectionOf (document : Yaml) (name : SectionName) : Yaml :=
  Section.get (document.entries?.getD []) name.key

/-- The value of a key: from the environment, else from the document, else from the defaults. -/
def chosen (around : Surroundings) (document : Yaml) (name : SectionName) (key : String) :
    Option Yaml :=
  (overriding around.environment name key).or
    (((sectionOf document name).stated key).or
      ((name.of (default around.directory)).lookup key))

theorem lookup_setFrom (environment : List (String × String)) (name key other : String)
    (read : String → Yaml) (s : Section) :
    (setFrom environment name key read s).lookup other =
      if other = key then ((given? environment name).map read).or (s.lookup other)
      else s.lookup other := by
  unfold setFrom
  cases given? environment name with
  | none => exact (ite_self _).symm
  | some text =>
      rw [Section.lookup_set]
      rfl

theorem applyEnvironment_eq_foldr (environment : List (String × String)) (c : Config)
    (name : SectionName) :
    name.of (c.applyEnvironment environment) =
      name.overrides.foldr (fun (key, name, read) s => setFrom environment name key read s)
        (name.of c) := by
  cases name <;> rfl

theorem lookup_overrides (environment : List (String × String))
    {table : List (String × String × (String → Yaml))} (once : (table.map (·.1)).Nodup)
    (s : Section) (key : String) :
    (table.foldr (fun (key, name, read) s => setFrom environment name key read s) s).lookup key =
      ((table.lookup key).bind fun (name, read) => (given? environment name).map read).or
        (s.lookup key) := by
  induction table with
  | nil => rfl
  | cons entry rest ih =>
      obtain ⟨k, name, read⟩ := entry
      obtain ⟨fresh, once⟩ := List.nodup_cons.mp once
      rw [List.foldr_cons, lookup_setFrom, ih once, Section.lookup_cons]
      by_cases asked : key = k
      · rw [if_pos asked, if_pos asked, Section.lookup_of_fresh (asked ▸ fresh)]
        rfl
      · rw [if_neg asked, if_neg asked]

theorem lookup_applyEnvironment (environment : List (String × String)) (c : Config)
    (name : SectionName) (key : String) :
    (name.of (c.applyEnvironment environment)).lookup key =
      (overriding environment name key).or ((name.of c).lookup key) := by
  have once : (name.overrides.map (·.1)).Nodup := by
    cases name <;> decide
  rw [applyEnvironment_eq_foldr, lookup_overrides environment once, overriding]

theorem sectionOf_keys {document : Yaml} (keys : document.KeysOnce) (name : SectionName) :
    (sectionOf document name).KeysOnce := by
  unfold sectionOf Section.get
  cases found : (document.entries?.getD []).lookup name.key with
  | none => exact .null
  | some value =>
      obtain ⟨before, behind, entries, -⟩ := List.lookup_eq_some_iff.mp found
      cases record : document.entries? with
      | none => simp [record] at entries
      | some all =>
          rw [record, Option.getD_some] at entries
          exact (keys.named record).each (name.key, value) (by simp [entries])

theorem lookup_merge {document : Yaml} (keys : document.KeysOnce) (directory : String)
    (name : SectionName) {key : String} (named : key ≠ Section.reservedKey) :
    (name.of (merge directory document)).lookup key =
      ((sectionOf document name).stated key).or ((name.of (default directory)).lookup key) := by
  have once := sectionOf_keys keys name
  cases name <;> exact Section.lookup_override once _ named

theorem lookup_chosen {document : Yaml} (keys : document.KeysOnce) (around : Surroundings)
    (name : SectionName) {key : String} (named : key ≠ Section.reservedKey) :
    (name.of ((merge around.directory document).applyEnvironment around.environment)).lookup key =
      chosen around document name key := by
  rw [lookup_applyEnvironment, lookup_merge keys around.directory name named, chosen]

/-! ### Loads -/

/-- What a load goes by. Without a file that is a document that says nothing; a file that cannot be
read, or is no document, leaves nothing to go by. -/
def document? (read : String → Option Yaml) : ConfigFile → Option Yaml
  | .absent => some .null
  | .unreadable => none
  | .text s => read s

theorem loadBy_parse : loadBy Yaml.parse? = load := rfl

/-- What a loader holds after further loads: each replaces what it held. -/
def reloads (read : String → Option Yaml) (held : Loaded) (history : List Surroundings) : Loaded :=
  history.foldl (fun _ around => loadBy read around) held

/-- Two corrections come to the same, whatever warnings each of them wrote. -/
inductive SameResult : Except (List String) (Section × List String) →
    Except (List String) (Section × List String) → Prop
  | ok (corrected : Section) (warnings others : List String) :
      SameResult (.ok (corrected, warnings)) (.ok (corrected, others))
  | error (warnings others : List String) : SameResult (.error warnings) (.error others)

theorem correctDurations_same (s : Section) (warnings others : List String) :
    SameResult (correctDurations s warnings) (correctDurations s others) := by
  unfold correctDurations
  split
  · exact .ok ..
  · split
    · exact .ok ..
    · exact .error ..

theorem correctWindow_same (s : Section) (warnings others : List String) :
    SameResult (correctWindow s warnings) (correctWindow s others) := by
  unfold correctWindow
  split
  · exact .ok ..
  · split
    · exact .ok ..
    · exact .error ..

/-- The path, which only messages show, and the warnings so far have no part in the result. -/
theorem finish_congr {around again : Surroundings} (environment : again.environment = around.environment)
    (directory : again.directory = around.directory) (c : Config) (warnings others : List String) :
    (finish again c others).config = (finish around c warnings).config ∧
      (finish again c others).errors = (finish around c warnings).errors := by
  unfold finish
  rw [environment, directory]
  have durations := correctDurations_same (c.applyEnvironment around.environment).streaming others
    warnings
  simp only
  generalize correctDurations _ others = first, correctDurations _ warnings = second at durations ⊢
  cases durations with
  | error => exact ⟨rfl, rfl⟩
  | ok middle others warnings =>
      have window := correctWindow_same middle others warnings
      simp only [bind, Except.bind]
      generalize correctWindow middle others = first, correctWindow middle warnings = second
        at window ⊢
      cases window <;> exact ⟨rfl, rfl⟩

theorem loadBy_congr (read : String → Option Yaml) {around again : Surroundings}
    (file : again.file = around.file) (environment : again.environment = around.environment)
    (directory : again.directory = around.directory) :
    (loadBy read again).config = (loadBy read around).config ∧
      (loadBy read again).errors = (loadBy read around).errors := by
  unfold loadBy
  rw [file, directory]
  cases around.file with
  | absent => exact finish_congr environment directory _ _ _
  | unreadable => exact ⟨rfl, rfl⟩
  | text s =>
      simp only
      cases read s with
      | none => exact ⟨rfl, rfl⟩
      | some document => exact finish_congr environment directory _ _ _

theorem loadBy_of_document {read : String → Option Yaml} {around : Surroundings} {document : Yaml}
    (given : document? read around.file = some document) :
    ∃ warnings, loadBy read around = finish around (merge around.directory document) warnings := by
  unfold loadBy
  cases file : around.file with
  | absent =>
      rw [file] at given
      cases given
      exact ⟨_, rfl⟩
  | unreadable =>
      rw [file] at given
      cases given
  | text s =>
      rw [file] at given
      have stated : read s = some document := given
      simp only [stated]
      exact ⟨_, rfl⟩

theorem loadBy_of_none {read : String → Option Yaml} {around : Surroundings}
    (missing : document? read around.file = none) :
    loadBy read around = ⟨default around.directory, [], [failure]⟩ := by
  unfold loadBy
  cases file : around.file with
  | absent =>
      rw [file] at missing
      cases missing
  | unreadable => rfl
  | text s =>
      rw [file] at missing
      have refused : read s = none := missing
      simp only [refused]

/-- A document that is loaded is one of those that the reader returns, or there is no file. -/
theorem document_keys {read : String → Option Yaml}
    (keys : ∀ s document, read s = some document → document.KeysOnce) {file : ConfigFile}
    {document : Yaml} (given : document? read file = some document) : document.KeysOnce := by
  unfold document? at given
  split at given
  · cases given
    exact .null
  · cases given
  · exact keys _ document given

theorem loadBy_cases {read : String → Option Yaml}
    (keys : ∀ s document, read s = some document → document.KeysOnce) (around : Surroundings) :
    (∃ document, document? read around.file = some document ∧ (loadBy read around).errors = [] ∧
      (∀ name : SectionName, name ≠ .streaming → ∀ key, key ≠ Section.reservedKey →
        (name.of (loadBy read around).config).lookup key = chosen around document name key) ∧
      Corrected (chosen around document .streaming)
        ((loadBy read around).config.streaming.lookup ·)) ∨
    (loadBy read around).errors = [failure] ∧
      (loadBy read around).config = default around.directory := by
  cases given : document? read around.file with
  | none =>
      rw [loadBy_of_none given]
      exact .inr ⟨rfl, rfl⟩
  | some document =>
      have once := document_keys keys given
      obtain ⟨warnings, result⟩ := loadBy_of_document given
      rcases finish_cases around (merge around.directory document) warnings with
        ⟨streaming, corrected, quiet, config⟩ | failed
      · rw [result, config]
        refine .inl ⟨document, rfl, quiet, ?_, corrected.of_eq fun key named =>
          (lookup_chosen once around .streaming named).symm⟩
        intro name other key named
        rw [← lookup_chosen once around name named]
        cases name with
        | streaming => exact absurd rfl other
        | server | cleanup | reports => rfl
      · rw [result]
        exact .inr failed

/-- A load goes by the file, the environment and the directory as they are, whatever was loaded before
and wherever the file lies. If the file cannot be read or is no document, or a warning cannot be
written, it ends with the defaults. Otherwise each key has the value of the first that says something
of it: the environment, the section of the document if it is a record, the defaults; only the durations
and the window size are corrected. After every load they are those of a stream that can be created. -/
theorem load_precedence {read : String → Option Yaml}
    (keys : ∀ s document, read s = some document → document.KeysOnce) (around : Surroundings) :
    let loaded := loadBy read around
    (∀ held history again, again.file = around.file → again.environment = around.environment →
      again.directory = around.directory →
        (reloads read held (history ++ [again])).config = loaded.config ∧
        (reloads read held (history ++ [again])).errors = loaded.errors) ∧
    (document? read around.file = none ∨ loaded.errors ≠ [] →
      loaded.config = default around.directory) ∧
    (loaded.errors = [] → ∃ document, document? read around.file = some document ∧
      (∀ name : SectionName, name ≠ .streaming → ∀ key, key ≠ Section.reservedKey →
        (name.of loaded.config).lookup key = chosen around document name key) ∧
      Corrected (chosen around document .streaming) (loaded.config.streaming.lookup ·)) ∧
    DurationsValid (loaded.config.streaming.lookup ·) ∧
    WindowValid (loaded.config.streaming.lookup ·) := by
  intro loaded
  refine ⟨?_, ?_⟩
  · intro held history again file environment directory
    rw [reloads, List.foldl_append]
    exact loadBy_congr read file environment directory
  rcases loadBy_cases keys around with ⟨document, given, quiet, others, corrected⟩ | ⟨said, config⟩
  · refine ⟨?_, fun _ => ⟨document, given, others, corrected⟩, corrected.valid⟩
    rintro (missing | loud)
    · rw [given] at missing
      cases missing
    · exact absurd quiet loud
  · have loud : loaded.errors ≠ [] := by
      rw [said]
      exact nofun
    have config : loaded.config = default around.directory := config
    refine ⟨fun _ => config, fun quiet => absurd quiet loud, ?_⟩
    rw [config]
    exact defaultStreaming_valid

/-- The level comes from the environment, the host from the file and the port from the defaults; a
window size that is a word is corrected, since the variable that could stand over it is empty. -/
theorem load_precedence_of_each_source :
    let text := "server:\n  host: here\n  logLevel: warn\nstreaming:\n  windowSize: many"
    let around : Surroundings :=
      ⟨"config.yaml", "/", .text text, [("LOG_LEVEL", "debug"), ("WINDOW_SIZE", "")]⟩
    let loaded := load around
    (∀ s document, Yaml.parse? s = some document → document.KeysOnce) ∧
    (loaded.config.server.lookup "logLevel").bind Yaml.text? = some "debug" ∧
    (loaded.config.server.lookup "host").bind Yaml.text? = some "here" ∧
    (loaded.config.server.lookup "port").bind Yaml.text? = some "8080" ∧
    (loaded.config.streaming.lookup "windowSize").bind Yaml.text? = some "5" := by
  intro text around loaded
  have keys : ∀ s document, Yaml.parse? s = some document → document.KeysOnce :=
    fun _ _ => Yaml.parse_keys
  obtain ⟨-, -, read, -⟩ := load_precedence keys around
  rw [loadBy_parse] at read
  obtain ⟨document, given, server, corrected⟩ := read (by decide +kernel)
  have parsed : Yaml.parse? text = some document := given
  have values : (Yaml.parse? text).map (fun document =>
      ((chosen around document .server "logLevel").bind Yaml.text?,
        (chosen around document .server "host").bind Yaml.text?,
        (chosen around document .server "port").bind Yaml.text?,
        (chosen around document .streaming "windowSize").map fun size =>
          windowFits [("windowSize", size)])) =
      some (some "debug", some "here", some "8080", some false) := by decide +kernel
  rw [parsed, Option.map_some, Option.some_inj, Prod.mk.injEq, Prod.mk.injEq, Prod.mk.injEq] at values
  obtain ⟨level, host, port, unfit⟩ := values
  have server : ∀ key, key ≠ Section.reservedKey →
      loaded.config.server.lookup key = chosen around document .server key :=
    server .server nofun
  rw [server "logLevel" (by decide), server "host" (by decide), server "port" (by decide)]
  refine ⟨keys, level, host, port, ?_⟩
  rcases corrected.window with ⟨⟨size, n, number, whole, least⟩, -⟩ | ⟨-, reset⟩
  · have fits : windowFits [("windowSize", .number size)] = true :=
      (windowFits_iff _).mpr ⟨size, n, rfl, whole, least⟩
    rw [number, Option.map_some, fits] at unfit
    cases unfit
  · have reset : loaded.config.streaming.lookup "windowSize" =
        defaultStreaming.lookup "windowSize" := reset
    rw [reset]
    decide +kernel

/-- Bytes under a tag are no mapping. In the place of a section they are still taken for one: each byte
becomes an entry, although neither the environment nor the defaults know its key. -/
theorem bytes_become_entries :
    let text := "streaming: !!binary QUJD"
    let loaded := load ⟨"config.yaml", "/", .text text, []⟩
    loaded.errors = [] ∧
    (∃ document bs, Yaml.parse? text = some document ∧ sectionOf document .streaming = .bytes bs) ∧
    overriding [] .streaming "0" = none ∧ (default "/").streaming.lookup "0" = none ∧
    (loaded.config.streaming.lookup "0").bind Yaml.text? = some "65" := by
  intro text loaded
  have found : ((Yaml.parse? text).any fun document =>
      match sectionOf document .streaming with
      | .bytes _ => true
      | _ => false) = true := by decide +kernel
  refine ⟨by decide +kernel, ?_, rfl, rfl, by decide +kernel⟩
  obtain ⟨document, parsed, bytes⟩ := (Option.any_eq_true _ _).mp found
  split at bytes
  · rename_i bs stated
    exact ⟨document, bs, parsed, stated⟩
  · cases bytes

end Config
end LiveHls
