import MdxPages.Cli.Command
import MdxPages.Proofs.Cli.Settings
import MdxPages.Proofs.Config.Search

/-!
# Proofs/Cli/Configuring — what a run is configured by

A run uses the configuration file that is named, or else the nearest one.  Configuring it leaves
everything as it is and either gives settings, or is refused, or stumbles (`faulty_configure_iff`).
-/

namespace MdxPages.Cli

open Work

variable {environment : Entries String} {values : Entries Value} {w : Workplace}
  {source : Option Location}

/-- The configuration file that is named by an argument, or else by the environment. -/
def namedPath? (environment : Entries String) (values : Entries Value) : Option String :=
  Config.given? (textOf? "config" values) <|> Config.given? (environment.get? configVariable)

/-- The configuration file that a run uses, if it uses one. -/
inductive Uses (environment : Entries String) (values : Entries Value) (w : Workplace) :
    Option Location → Prop
  | skipped (h : isOn "no_config" values = true) : Uses environment values w none
  | named {path : String} (hon : isOn "no_config" values = false)
      (hpath : namedPath? environment values = some path) :
    Uses environment values w (some (.ofString path))
  | found {source : Option Location} (hon : isOn "no_config" values = false)
      (hpath : namedPath? environment values = none)
      (h : Config.Finds w w.directory.reverse source) : Uses environment values w source

/-- What is loaded from the file that is used. -/
def configurationIn (w : Workplace) : Option Location → Except Failure Configuration
  | none => .ok {}
  | some l => (Config.load l w).1

/-- What configuring a run stumbles over. -/
inductive Stumbles (environment : Entries String) (values : Entries Value) (w : Workplace) : Prop
  /-- A project file that the search meets. -/
  | search {l : Location} {bytes : List UInt8} (hon : isOn "no_config" values = false)
      (hpath : namedPath? environment values = none)
      (hmeets : Config.Meets w w.directory.reverse l)
      (hread : w.disk.read w.directory l = .ok bytes) (h : Config.Format.project.Traps bytes)
  /-- The path of the file that is used. -/
  | path {l : Location} {f : Fault} (huses : Uses environment values w (some l))
      (h : w.disk.contains w.directory l = .error f)
  /-- What the file that is used holds. -/
  | file {l : Location} {format : Config.Format} {bytes : List UInt8}
      (huses : Uses environment values w (some l)) (hformat : Config.formatOf? l = some format)
      (hread : w.disk.read w.directory l = .ok bytes) (h : format.Traps bytes)
  /-- The settings that arguments, environment and configuration give together. -/
  | settings {source : Option Location} {config : Configuration}
      (huses : Uses environment values w source) (hload : configurationIn w source = .ok config)
      (h : SettingsStumble config values)

/-- What is said about a run that cannot be configured. -/
def IsExplained (e : Failure) : Prop :=
  (∃ f, e = .fault f) ∨ e.category = .argument ∨ e.category = .validation

/-- The configuration of a run. -/
def chosenConfiguration (environment : Entries String) (values : Entries Value) :
    Work Configuration :=
  if isOn "no_config" values then pure {}
  else Config.loadByPriority (textOf? "config" values) (environment.get? configVariable) true

/-- Configuring is choosing a configuration and making settings of it. -/
theorem configure_eq (environment : Entries String) (values : Entries Value) :
    configure environment values = chosenConfiguration environment values >>= fun config =>
      lift (settings config values) := by
  rw [configure, chosenConfiguration]
  split <;> rfl

theorem asks_chosenConfiguration : Asks (chosenConfiguration environment values) := by
  refine .ite (.pure _) ?_
  rw [Config.loadByPriority]
  split
  · exact Config.asks_load
  · refine Config.asks_find_none.bind fun found => ?_
    cases found with
    | some l => exact Config.asks_load
    | none => exact .pure _

/-- Configuring a run only looks at the disk. -/
theorem asks_configure : Asks (configure environment values) := by
  rw [configure_eq]
  exact asks_chosenConfiguration.bind fun _ => .lift _

/-! ## The file that is used

`--no-config` comes first, then the flag and the variable that name a file, then the search. -/

/-- A file that is named is loaded, wherever it lies. -/
theorem chosenConfiguration_of_named {path : String} (hon : isOn "no_config" values = false)
    (hpath : namedPath? environment values = some path) :
    chosenConfiguration environment values = Config.load (.ofString path) := by
  rw [chosenConfiguration, hon, if_neg (by decide), Config.loadByPriority]
  rw [namedPath?] at hpath
  rw [hpath]

/-- Without a name the search goes up from the working directory. -/
theorem chosenConfiguration_of_unnamed (hon : isOn "no_config" values = false)
    (hpath : namedPath? environment values = none) :
    (chosenConfiguration environment values w).1 =
      (Config.findUp w.directory.reverse w).1 >>= configurationIn w := by
  rw [chosenConfiguration, hon, if_neg (by decide), Config.loadByPriority]
  rw [namedPath?] at hpath
  rw [hpath]
  dsimp only
  rw [if_pos rfl, answer_bind Config.asks_find_none, Config.find_none_apply]
  congr 1
  funext found
  cases found <;> rfl

/-- **A run is configured by the file that it uses.** -/
theorem Uses.answer (h : Uses environment values w source) :
    (chosenConfiguration environment values w).1 = configurationIn w source := by
  cases h with
  | skipped h =>
    rw [chosenConfiguration, if_pos h]
    rfl
  | named hon hpath =>
    rw [chosenConfiguration_of_named hon hpath]
    rfl
  | found hon hpath h =>
    rw [chosenConfiguration_of_unnamed hon hpath, Config.findUp_eq_ok_iff.2 h]
    rfl

/-- A run uses a file, or none, unless the search for one stumbles. -/
theorem exists_uses (hsearch : ¬(isOn "no_config" values = false ∧
    namedPath? environment values = none ∧ Faulty (Config.findUp w.directory.reverse w).1)) :
    ∃ source, Uses environment values w source := by
  cases hon : isOn "no_config" values with
  | true => exact ⟨none, .skipped hon⟩
  | false =>
    cases hpath : namedPath? environment values with
    | some path => exact ⟨_, .named hon hpath⟩
    | none =>
      cases hfind : (Config.findUp w.directory.reverse w).1 with
      | ok source => exact ⟨source, .found hon hpath (Config.findUp_eq_ok_iff.1 hfind)⟩
      | error e => exact absurd ⟨hon, hpath, Config.faulty_findUp_of_error hfind⟩ hsearch

/-- Choosing stumbles in the search, or in loading the file that it has come to. -/
theorem faulty_chosenConfiguration_iff : Faulty (chosenConfiguration environment values w).1 ↔
    (isOn "no_config" values = false ∧ namedPath? environment values = none ∧
      Faulty (Config.findUp w.directory.reverse w).1) ∨
    ∃ l, Uses environment values w (some l) ∧ Faulty (Config.load l w).1 := by
  constructor
  · intro h
    by_cases hsearch : isOn "no_config" values = false ∧ namedPath? environment values = none ∧
        Faulty (Config.findUp w.directory.reverse w).1
    · exact .inl hsearch
    · obtain ⟨source, huses⟩ := exists_uses hsearch
      rw [huses.answer] at h
      cases source with
      | none => exact absurd h (not_faulty_ok _)
      | some l => exact .inr ⟨l, huses, h⟩
  · rintro (⟨hon, hpath, h⟩ | ⟨l, huses, h⟩)
    · rw [chosenConfiguration_of_unnamed hon hpath, faulty_bind]
      exact .inl h
    · rwa [huses.answer]

/-- **Configuring a run stumbles over what `Stumbles` says**, and over nothing else. -/
theorem faulty_configure_iff :
    Faulty (configure environment values w).1 ↔ Stumbles environment values w := by
  rw [configure_eq, answer_bind asks_chosenConfiguration, faulty_bind,
    faulty_chosenConfiguration_iff, Config.faulty_findUp_iff]
  constructor
  · rintro ((⟨hon, hpath, l, bytes, hmeets, hread, h⟩ | ⟨l, huses, h⟩) | ⟨config, hconfig, h⟩)
    · exact .search hon hpath hmeets hread h
    · obtain ⟨f, hf⟩ | ⟨format, bytes, hformat, hread, h⟩ := Config.faulty_load_iff.1 h
      · exact .path huses hf
      · exact .file huses hformat hread h
    · obtain ⟨source, huses⟩ : ∃ source, Uses environment values w source := by
        refine exists_uses fun ⟨hon, hpath, hsearch⟩ => ?_
        obtain ⟨f, hf⟩ := faulty_chosenConfiguration_iff.2 (.inl ⟨hon, hpath, hsearch⟩)
        cases hf.symm.trans hconfig
      exact .settings huses (huses.answer ▸ hconfig) (faulty_settings_iff.1 h)
  · intro h
    cases h with
    | search hon hpath hmeets hread h => exact .inl (.inl ⟨hon, hpath, _, _, hmeets, hread, h⟩)
    | path huses h => exact .inl (.inr ⟨_, huses, Config.faulty_load_iff.2 (.inl ⟨_, h⟩)⟩)
    | file huses hformat hread h =>
      exact .inl (.inr ⟨_, huses, Config.faulty_load_iff.2 (.inr ⟨_, _, hformat, hread, h⟩)⟩)
    | settings huses hload h => exact .inr ⟨_, huses.answer.trans hload, faulty_settings_iff.2 h⟩

/-- A run that cannot be configured can explain why, or has stumbled. -/
theorem explained_configure : FailsOnly IsExplained (configure environment values w).1 := by
  rw [configure_eq]
  refine failsOnly_bind asks_chosenConfiguration (fun e he => ?_) fun config =>
    invalid_settings.mono fun _ h => h.imp_right .inr
  by_cases hfaulty : Faulty (chosenConfiguration environment values w).1
  · obtain ⟨f, hf⟩ := hfaulty
    exact .inl ⟨f, Except.error.inj (he.symm.trans hf)⟩
  · obtain ⟨source, huses⟩ :=
      exists_uses fun h => hfaulty (faulty_chosenConfiguration_iff.2 (.inl h))
    rw [huses.answer] at he
    cases source with
    | none => cases he
    | some l => exact (Config.refused_load e he).imp_right .inl

end MdxPages.Cli
