import Mathlib.Data.List.Basic
import MdxPages.Cli.Settings
import MdxPages.Proofs.Cli.Given
import MdxPages.Proofs.Text.Pieces

/-!
# Proofs/Cli/Priority — where the settings come from

A field of a stage is given by its own flag, else by its own variable, else by the section of its
stage, else by its default (`settings_by_priority`).
-/

namespace MdxPages.Cli

variable {arguments : List String} {environment : Entries String} {config : Configuration}
  {values fields : Entries Value} {stage : Stage} {field : String} {action : FlagAction}

/-! ## Sources -/

/-- The value that the flags of a name give: that of the last use. -/
def flagValue? (arguments : List String) (name : String) : Option Value :=
  (classifyAll arguments).toOption.bind fun args => (Entries.ofList (givenBy args)).get? name

/-- The value that the variable of a flag gives; a text that does not convert gives none. -/
def Flag.environmentValue? (f : Flag) (environment : Entries String) : Option Value :=
  (environment.get? (variableFor f.name)).bind (variableValue? f.action)

/-- The value that the section of a stage gives to a field. -/
def sectionValue? (config : Configuration) (stage : Stage) (field : String) : Option Value :=
  (config.fieldsOf stage.name).toOption.bind (Entries.get? field)

/-- The value that is passed to a field: of the flag, else of the variable, else of the section. -/
def passed? (arguments : List String) (environment : Entries String) (config : Configuration)
    (stage : Stage) (field : String) (action : FlagAction) : Option Value :=
  flagValue? arguments (stage.key field) <|>
    (stage.flag field action).environmentValue? environment <|>
    sectionValue? config stage field

/-- The defaults of the fields of a stage. -/
def Stage.defaults : Stage → Entries Value
  | .snooty => ConversionOptions.toValue {} |>.fields
  | .mdx => RenderOptions.toValue {} |>.fields
  | .archive => ArchiveOptions.toValue {} |>.fields

/-- All fields of a stage with the values that they end up with. -/
def effectiveFields (arguments : List String) (environment : Entries String)
    (config : Configuration) (stage : Stage) : Entries Value :=
  stage.fields.map fun (field, action) =>
    (field, (passed? arguments environment config stage field action).getD
      (Value.field field stage.defaults))

/-- The configuration that gives all fields the values that they end up with. -/
def effective (arguments : List String) (environment : Entries String) (config : Configuration) :
    Configuration where
  table := stages.map fun stage =>
    (stage.name, .obj (effectiveFields arguments environment config stage))

/-! ## Flags of stages

The stages and their fields are tables, so these facts about names are decided once, for all of
them. -/

theorem mem_stages (stage : Stage) : stage ∈ stages := by
  cases stage <;> decide

/-- Every field of a stage has a flag. -/
theorem mem_stageFlags (h : (field, action) ∈ stage.fields) :
    stage.flag field action ∈ stages.flatMap Stage.flags :=
  List.mem_flatMap.2 ⟨stage, mem_stages stage, List.mem_map.2 ⟨_, h, rfl⟩⟩

/-- No two flags of stages have the same name. -/
theorem nodup_stageFlags : ((stages.flatMap Stage.flags).map Flag.name).Nodup := by
  decide

theorem ne_key_of_mem_generalDefaults : ∀ general ∈ generalDefaults, ∀ entry ∈ stage.fields,
    general.1 ≠ stage.key entry.1 := by
  cases stage <;> decide

theorem not_startsWith_of_mem_generalDefaults : ∀ name ∈ generalDefaults.keys,
    ¬Text.startsWith name (stage.name ++ ".") = true := by
  cases stage <;> decide

/-- A flag whose name starts with the name of a stage is that of a field of the stage. -/
theorem exists_key_of_startsWith : ∀ f ∈ flags, Text.startsWith f.name (stage.name ++ ".") = true →
    ∃ entry ∈ stage.fields, f.name = stage.key entry.1 := by
  cases stage <;> decide

/-! ## Names under the name of a stage

A flag is named for its stage and its field, and so is a variable.  The name of a field is read off
by dropping the start, and the starts of two stages differ. -/

/-- What the names of all flags of a stage start with. -/
def Stage.start (stage : Stage) : String :=
  stage.name ++ "."

theorem ofList_drop_append (start s : String) :
    String.ofList ((start ++ s).toList.drop start.length) = s := by
  rw [String.toList_append, List.drop_left' String.length_toList, String.ofList_toList]

/-- The variables of a stage start alike, as its flags do. -/
theorem startsWith_variableFor (start s : String) :
    Text.startsWith (variableFor (start ++ s)) (variableFor start) = true := by
  simp [Text.startsWith, variableFor, Text.upper]

theorem ne_of_startsWith {s t start start' : String} (hs : Text.startsWith s start = true)
    (ht : Text.startsWith t start' = true) (hstart : Text.startsWith start start' = false)
    (hstart' : Text.startsWith start' start = false) : s ≠ t := by
  rintro rfl
  simp only [Text.startsWith, List.isPrefixOf_iff_prefix, ← Bool.not_eq_true]
    at hs ht hstart hstart'
  exact (List.prefix_or_prefix_of_prefix hs ht).elim hstart' hstart

/-- The names of two stages differ before either of them ends. -/
theorem startsWith_of_ne {other : Stage} (h : stage ≠ other) :
    Text.startsWith stage.start other.start = false ∧
      Text.startsWith (variableFor stage.start) (variableFor other.start) = false := by
  revert h
  cases stage <;> cases other <;> decide +kernel

/-- **No two stages share a flag, a variable or a section.** -/
theorem disjoint_stages {other : Stage} (h : stage ≠ other) (field field' : String) :
    stage.key field ≠ other.key field' ∧
      variableFor (stage.key field) ≠ variableFor (other.key field') ∧ stage.name ≠ other.name := by
  have hstarts := startsWith_of_ne h
  have hstarts' := startsWith_of_ne h.symm
  refine ⟨?_, ?_, fun heq => ?_⟩
  · exact ne_of_startsWith (Text.startsWith_append stage.start field)
      (Text.startsWith_append other.start field') hstarts.1 hstarts'.1
  · exact ne_of_startsWith (startsWith_variableFor stage.start field)
      (startsWith_variableFor other.start field') hstarts.2 hstarts'.2
  · have hsame : stage.start = other.start := congrArg (· ++ ".") heq
    exact ne_of_startsWith (Text.startsWith_append stage.start "")
      (Text.startsWith_append other.start "")
      hstarts.1 hstarts'.1 (congrArg (· ++ "") hsame)

/-- The fields that are given to a stage are the values under its keys. -/
theorem get?_givenFields (values : Entries Value) :
    (givenFields stage values).get? field = values.get? (stage.key field) := by
  induction values with
  | nil => rfl
  | cons entry values ih =>
    obtain ⟨name, v⟩ := entry
    rw [givenFields] at ih ⊢
    dsimp only at ih ⊢
    by_cases hname : Text.startsWith name (stage.name ++ ".") = true
    · obtain ⟨t, rfl⟩ := Text.exists_append_of_startsWith hname
      have hfield : stage.name ++ "." ++ t = stage.key field ↔ t = field := by simp [Stage.key]
      rw [List.filterMap_cons_some (by rw [if_pos hname, ofList_drop_append]), Entries.get?,
        Entries.get?, ih]
      simp only [hfield]
    · rw [List.filterMap_cons_none (by rw [if_neg hname]), ih, Entries.get?, if_neg]
      rintro rfl
      exact hname (Text.startsWith_append _ _)

/-! ## Reading

The variables come first and the flags over them, so a variable shows only where no flag gives a
value. -/

/-- The variables give the values that convert, each under the name of its flag. -/
theorem variableDefaults_eq (environment : Entries String) :
    variableDefaults environment = (stages.flatMap Stage.flags).filterMap fun f =>
      (f.environmentValue? environment).map fun v => (f.name, v) := by
  refine congrArg (List.filterMap · _) (funext fun f => ?_)
  unfold Flag.environmentValue?
  cases environment.get? (variableFor f.name) with
  | none => rfl
  | some text => cases h : variableValue? f.action text <;> simp [h]

/-- Reading starts at what the variables give. -/
theorem get?_start (h : (field, action) ∈ stage.fields) :
    (generalDefaults ++ variableDefaults environment).get? (stage.key field) =
      (stage.flag field action).environmentValue? environment := by
  rw [Entries.get?_append, Entries.get?_eq_none fun general hgeneral =>
    ne_key_of_mem_generalDefaults general hgeneral _ h, Option.none_or, variableDefaults_eq]
  exact Entries.get?_filterMap nodup_stageFlags (mem_stageFlags h)

theorem nodup_start : (generalDefaults ++ variableDefaults environment).keys.Nodup := by
  have hall : (generalDefaults.keys ++ (stages.flatMap Stage.flags).map Flag.name).Nodup := by
    decide
  refine hall.sublist ?_
  rw [variableDefaults_eq, Entries.keys, List.map_append]
  exact (List.Sublist.refl _).append (Entries.keys_filterMap_sublist _ _ _)

/-- What the arguments that are read give, over what the variables give. -/
theorem takes_of_parseArguments (hread : parseArguments environment arguments = .ok values) :
    ∃ args, classifyAll arguments = .ok args ∧
      Takes (generalDefaults ++ variableDefaults environment) (givenBy args) values := by
  rw [parseArguments] at hread
  obtain ⟨args, hargs, hread⟩ := exists_of_bind hread
  obtain ⟨last, hlast, hread⟩ := exists_of_bind hread
  split at hread
  · cases hread
  · obtain rfl := Except.ok.inj hread
    exact ⟨args, hargs, takes_takeAll hlast⟩

/-- **What reading leaves under the name of a flag**: what the flag gives, else its variable. -/
theorem get?_of_parseArguments (hread : parseArguments environment arguments = .ok values)
    (h : (field, action) ∈ stage.fields) :
    values.get? (stage.key field) = (flagValue? arguments (stage.key field) <|>
      (stage.flag field action).environmentValue? environment) := by
  obtain ⟨args, hargs, htakes⟩ := takes_of_parseArguments hread
  have hinput : stage.key field ≠ "input" :=
    (ne_key_of_mem_generalDefaults ("input", .null) (by simp [generalDefaults]) _ h).symm
  rw [htakes.get? _ hinput, Entries.get?_merge, get?_start h, flagValue?, hargs]
  simp [Entries.get?_ofList, Except.toOption]

/-- Reading leaves one value under a name. -/
theorem nodup_keys_of_parseArguments (hread : parseArguments environment arguments = .ok values) :
    values.keys.Nodup := by
  obtain ⟨args, -, htakes⟩ := takes_of_parseArguments hread
  exact htakes.nodup nodup_start

/-- Reading leaves nothing but values under the names of flags. -/
theorem exists_flag_of_mem (hread : parseArguments environment arguments = .ok values)
    {entry : String × Value} (h : entry ∈ values) :
    entry.1 ∈ generalDefaults.keys ∨ ∃ f ∈ flags, f.name = entry.1 := by
  obtain ⟨args, hargs, htakes⟩ := takes_of_parseArguments hread
  by_cases hinput : entry.1 = "input"
  · exact .inl (hinput ▸ List.mem_cons_self)
  have hget := (Entries.get?_eq_some_iff (nodup_keys_of_parseArguments hread)).2 h
  rw [htakes.get? _ hinput,
    Entries.get?_eq_some_iff (Entries.nodup_keys_merge nodup_start _)] at hget
  obtain hstart | hgiven := Entries.mem_merge hget
  · obtain hgeneral | hvariable := List.mem_append.1 hstart
    · exact .inl (List.mem_map_of_mem hgeneral)
    · rw [variableDefaults_eq] at hvariable
      obtain ⟨f, hf, hentry⟩ := List.mem_filterMap.1 hvariable
      obtain ⟨v, -, heq⟩ := Option.map_eq_some_iff.1 hentry
      exact .inr ⟨f, List.mem_append_right _ hf, congrArg Prod.fst heq⟩
  · obtain ⟨use, -, hflag, hname, -⟩ := exists_use_of_mem_givenBy hargs hgiven
    exact .inr ⟨use.flag, hflag, hname⟩

/-! ## Updates -/

/-- Nothing is given to a stage but its fields. -/
theorem keys_givenFields_subset (hread : parseArguments environment arguments = .ok values) :
    (givenFields stage values).keys ⊆ Entries.keys stage.fields := by
  intro name hname
  obtain ⟨entry, hentry, rfl⟩ := List.mem_map.1 hname
  obtain ⟨⟨key, v⟩, hmem, hstart⟩ := List.mem_filterMap.1 hentry
  dsimp only at hstart
  split at hstart
  · next hkey =>
    obtain ⟨p, hp, rfl⟩ : ∃ p ∈ stage.fields, key = stage.key p.1 := by
      obtain hgeneral | ⟨f, hf, rfl⟩ := exists_flag_of_mem hread hmem
      · exact absurd hkey (not_startsWith_of_mem_generalDefaults _ hgeneral)
      · exact exists_key_of_startsWith f hf hkey
    obtain rfl := Option.some.inj hstart
    have hname : String.ofList ((stage.key p.1).toList.drop (stage.name ++ ".").length) = p.1 :=
      ofList_drop_append _ _
    exact hname.symm ▸ List.mem_map_of_mem hp
  · cases hstart

/-- Flags and variables stand over the section of a stage. -/
theorem get?_merge_givenFields (hread : parseArguments environment arguments = .ok values)
    (hfields : config.fieldsOf stage.name = .ok fields) (h : (field, action) ∈ stage.fields) :
    (fields.merge (givenFields stage values)).get? field =
      passed? arguments environment config stage field action := by
  have hreverse : (givenFields stage values).reverse = givenFields stage values.reverse :=
    List.filterMap_reverse.symm
  have hperm : values.get? (stage.key field) = Entries.get? (stage.key field) values.reverse :=
    Entries.get?_of_perm (nodup_keys_of_parseArguments hread) values.reverse_perm.symm
  rw [Entries.get?_merge, hreverse, get?_givenFields, ← hperm, get?_of_parseArguments hread h,
    passed?, sectionValue?, hfields]
  simp [Except.toOption, Option.or_assoc]

theorem keys_merge_givenFields_subset (hread : parseArguments environment arguments = .ok values)
    (hknown : fields.keys ⊆ Entries.keys stage.fields) :
    (fields.merge (givenFields stage values)).keys ⊆ Entries.keys stage.fields := by
  intro name hname
  obtain ⟨entry, hentry, rfl⟩ := List.mem_map.1 hname
  obtain h | h := Entries.mem_merge hentry
  · exact hknown (List.mem_map_of_mem h)
  · exact keys_givenFields_subset hread (List.mem_map_of_mem h)

/-- The updates of a stage are its section with the given fields over it. -/
theorem updatesOf_eq (hfields : config.fieldsOf stage.name = .ok fields) (values : Entries Value) :
    updatesOf stage config values = .ok (fields.merge (givenFields stage values)) := by
  rw [updatesOf, hfields]
  rfl

/-! ## Settings

The settings are made from updates of the default ones.  An update that names every field with its
effective value makes the same settings as the shorter one, and it hides no source. -/

/-- Updates of all fields of a stage, to the values that other updates leave them. -/
structure Completes (stage : Stage) (updates all : Entries Value) : Prop where
  known : updates.keys ⊆ Entries.keys stage.fields
  known_all : all.keys ⊆ Entries.keys stage.fields
  get? : ∀ name ∈ Entries.keys stage.fields,
    all.get? name = some ((updates.get? name).getD (Value.field name stage.defaults))

/-- Known names are not refused. -/
theorem refuseUnknown_eq_ok {updates : Entries Value} (settings : String) {known : List String}
    (hown : ownName ∉ known) (h : updates.keys ⊆ known) :
    refuseUnknown settings known updates = .ok () := by
  have hself : updates.get? ownName = none :=
    Entries.get?_eq_none fun entry hentry heq => hown (heq ▸ h (List.mem_map_of_mem hentry))
  have hnone : unknownNames known updates = [] := by
    rw [unknownNames, List.filter_eq_nil_iff.2 fun name hname => by simpa using h hname,
      List.mergeSort_nil]
  simp [refuseUnknown, Entries.has, hself, hnone]

namespace Completes

variable {updates all : Entries Value}

/-- A complete update is refused for its names exactly when the update it completes is. -/
theorem refuseUnknown_eq (h : Completes stage updates all) (settings : String)
    (known : List String) (hknown : Entries.keys stage.fields = known) (hown : ownName ∉ known) :
    refuseUnknown settings known all = refuseUnknown settings known updates := by
  subst hknown
  rw [refuseUnknown_eq_ok settings hown h.known, refuseUnknown_eq_ok settings hown h.known_all]

/-- A field that is left out counts like its default. -/
theorem updated_eq (h : Completes stage updates all) (name : String) (v : Value)
    (hname : name ∈ Entries.keys stage.fields) (hv : Value.field name stage.defaults = v) :
    updated all name v = updated updates name v := by
  rw [updated, h.get? name hname, hv]
  rfl

/-- **Updates of all fields make the settings that the updates which they complete make.** -/
theorem conversion (h : Completes .snooty updates all) :
    ConversionOptions.update {} all = ConversionOptions.update {} updates := by
  simp only [ConversionOptions.update]
  rw [h.refuseUnknown_eq "ConversionOptions" ConversionOptions.names rfl (by decide),
    h.updated_eq "max_heading_depth" (.int 6) (by decide) rfl,
    h.updated_eq "fragment_extension" (.str ".mdx") (by decide) rfl,
    h.updated_eq "images_dir_name" (.str "images") (by decide) rfl,
    h.updated_eq "default_importer_path" (.str "index.mdx") (by decide) rfl,
    h.updated_eq "detect_include_cycles" (.bool true) (by decide) rfl,
    h.get? "dropped_empty_directives" (by decide)]
  cases updates.get? "dropped_empty_directives" <;> rfl

theorem rendering (h : Completes .mdx updates all) :
    RenderOptions.update {} all = RenderOptions.update {} updates := by
  simp only [RenderOptions.update]
  rw [h.refuseUnknown_eq "MdxRendererOptions" RenderOptions.names rfl (by decide),
    h.updated_eq "bullet_marker" (.str BulletMarker.hyphen.text) (by decide) rfl,
    h.updated_eq "emphasis_marker" (.str Delimiter.star.emphasis) (by decide) rfl,
    h.updated_eq "strong_marker" (.str Delimiter.star.strong) (by decide) rfl,
    h.updated_eq "escape_text" (.bool true) (by decide) rfl]

theorem archive (h : Completes .archive updates all) :
    ArchiveOptions.update {} all = ArchiveOptions.update {} updates := by
  simp only [ArchiveOptions.update]
  rw [h.refuseUnknown_eq "ArchiveOptions" ArchiveOptions.names rfl (by decide),
    h.updated_eq "max_entries" (.int 50000) (by decide) rfl,
    h.updated_eq "max_compression_ratio" (.float (Double.ofInt 100)) (by decide) rfl,
    h.updated_eq "max_uncompressed_size" (.int 2147483648) (by decide) rfl,
    h.updated_eq "extract_assets" (.bool true) (by decide) rfl]

end Completes

/-- The effective value of a field is the one that is passed, else its default. -/
theorem get?_effectiveFields (h : (field, action) ∈ stage.fields) :
    (effectiveFields arguments environment config stage).get? field =
      some ((passed? arguments environment config stage field action).getD
        (Value.field field stage.defaults)) := by
  have hkeys : (effectiveFields arguments environment config stage).keys =
      Entries.keys stage.fields := by
    simp [Entries.keys, effectiveFields, Function.comp_def]
  have hnodup : (Entries.keys stage.fields).Nodup := by
    cases stage <;> decide
  exact (Entries.get?_eq_some_iff (hkeys ▸ hnodup)).2 (List.mem_map.2 ⟨_, h, rfl⟩)

/-- A configuration of the effective values passes them to each stage, if no flag gives anything. -/
theorem updatesOf_effective (arguments : List String) (environment : Entries String)
    (config : Configuration) (stage : Stage) :
    updatesOf stage (effective arguments environment config) [] =
      .ok (effectiveFields arguments environment config stage) := by
  have hfields : (effective arguments environment config).fieldsOf stage.name =
      .ok (effectiveFields arguments environment config stage) := by
    cases stage <;> rfl
  rw [updatesOf_eq hfields]
  rfl

/-- The effective fields complete what is passed to a stage. -/
theorem completes_effectiveFields (hread : parseArguments environment arguments = .ok values)
    (hfields : config.fieldsOf stage.name = .ok fields)
    (hknown : fields.keys ⊆ Entries.keys stage.fields) :
    Completes stage (fields.merge (givenFields stage values))
      (effectiveFields arguments environment config stage) where
  known := keys_merge_givenFields_subset hread hknown
  known_all := by simp [Entries.keys, effectiveFields, Function.comp_def]
  get? name hname := by
    obtain ⟨⟨field, action⟩, h, rfl⟩ := List.mem_map.1 hname
    rw [get?_effectiveFields h, get?_merge_givenFields hread hfields h]

/-- The settings are those of the effective fields. -/
theorem settings_eq_effective (hread : parseArguments environment arguments = .ok values)
    (hconfig : ∀ stage : Stage, ∃ fields, config.fieldsOf stage.name = .ok fields ∧
      fields.keys ⊆ Entries.keys stage.fields) :
    settings config values = settings (effective arguments environment config) [] := by
  obtain ⟨conversion, hconversion, hsnooty⟩ := hconfig .snooty
  obtain ⟨rendering, hrendering, hmdx⟩ := hconfig .mdx
  obtain ⟨archive, harchive, hlimits⟩ := hconfig .archive
  rw [settings, settings, updatesOf_eq hconversion, updatesOf_eq hrendering, updatesOf_eq harchive,
    updatesOf_effective, updatesOf_effective, updatesOf_effective]
  dsimp only [bind, Except.bind]
  rw [(completes_effectiveFields hread hconversion hsnooty).conversion,
    (completes_effectiveFields hread hrendering hmdx).rendering,
    (completes_effectiveFields hread harchive hlimits).archive]

/-- Of the environment nothing matters but what its variables give to flags of stages. -/
theorem parseArguments_congr {environment' : Entries String}
    (h : ∀ f ∈ stages.flatMap Stage.flags,
      f.environmentValue? environment' = f.environmentValue? environment) :
    parseArguments environment' arguments = parseArguments environment arguments := by
  have hdefaults : variableDefaults environment' = variableDefaults environment := by
    rw [variableDefaults_eq, variableDefaults_eq]
    exact List.filterMap_congr fun f hf => by rw [h f hf]
  rw [parseArguments, parseArguments, hdefaults]

/-- Two runs give the same to a stage: by its flags, by its variables and by its section. -/
structure GiveSame (stage : Stage) (arguments arguments' : List String)
    (environment environment' : Entries String) (config config' : Configuration) : Prop where
  flags : ∀ name ∈ Entries.keys stage.fields,
    flagValue? arguments' (stage.key name) = flagValue? arguments (stage.key name)
  texts : ∀ name ∈ Entries.keys stage.fields,
    environment'.get? (variableFor (stage.key name)) =
      environment.get? (variableFor (stage.key name))
  fields : config'.fieldsOf stage.name = config.fieldsOf stage.name

/-- What is passed to a field depends on what is given to its stage. -/
theorem GiveSame.passed?_eq {arguments' : List String} {environment' : Entries String}
    {config' : Configuration}
    (h : GiveSame stage arguments arguments' environment environment' config config')
    (hmem : (field, action) ∈ stage.fields) :
    passed? arguments' environment' config' stage field action =
      passed? arguments environment config stage field action := by
  have hname : field ∈ Entries.keys stage.fields := List.mem_map_of_mem hmem
  have hvariable : (stage.flag field action).environmentValue? environment' =
      (stage.flag field action).environmentValue? environment :=
    congrArg (Option.bind · _) (h.texts field hname)
  rw [passed?, passed?, h.flags field hname, hvariable, sectionValue?, sectionValue?, h.fields]

/-- **Priority**: a field of a stage is passed the value of its own flag, else of its own variable,
else of the section of its stage, and ends up with it or else with its default.  Another run that
gives the same to the stage passes the same to it, whatever it gives to others, and the stages share
nothing.  A variable whose text does not convert counts as unset. -/
theorem settings_by_priority (hread : parseArguments environment arguments = .ok values)
    (hconfig : ∀ stage : Stage, ∃ fields, config.fieldsOf stage.name = .ok fields ∧
      fields.keys ⊆ Entries.keys stage.fields) :
    (∀ stage : Stage, ∃ updates, updatesOf stage config values = .ok updates ∧
      updates.keys ⊆ Entries.keys stage.fields ∧
      ∀ field action, (field, action) ∈ stage.fields →
        updates.get? field = passed? arguments environment config stage field action) ∧
    settings config values = settings (effective arguments environment config) [] ∧
    (∀ (stage : Stage) arguments' environment' config' values',
      parseArguments environment' arguments' = .ok values' →
      GiveSame stage arguments arguments' environment environment' config config' →
      ∃ updates', updatesOf stage config' values' = .ok updates' ∧
        ∀ field action, (field, action) ∈ stage.fields →
          updates'.get? field = passed? arguments environment config stage field action) ∧
    (∀ stage other : Stage, stage ≠ other → ∀ field field', stage.key field ≠ other.key field' ∧
      variableFor (stage.key field) ≠ variableFor (other.key field') ∧ stage.name ≠ other.name) ∧
    ∀ environment', (∀ f ∈ stages.flatMap Stage.flags, environment'.get? (variableFor f.name) =
        (environment.get? (variableFor f.name)).filter fun text =>
          (variableValue? f.action text).isSome) →
      parseArguments environment' arguments = .ok values := by
  refine ⟨fun stage => ?_, settings_eq_effective hread hconfig,
    fun stage arguments' environment' config' values' hread' hsame => ?_,
    fun stage other => disjoint_stages, fun environment' henvironment => ?_⟩
  · obtain ⟨fields, hfields, hknown⟩ := hconfig stage
    exact ⟨_, updatesOf_eq hfields values, keys_merge_givenFields_subset hread hknown,
      fun field action => get?_merge_givenFields hread hfields⟩
  · obtain ⟨fields, hfields, -⟩ := hconfig stage
    rw [← hsame.fields] at hfields
    refine ⟨_, updatesOf_eq hfields values', fun field action hmem => ?_⟩
    rw [get?_merge_givenFields hread' hfields hmem, hsame.passed?_eq hmem]
  · rw [parseArguments_congr fun f hf => ?_, hread]
    rw [Flag.environmentValue?, Flag.environmentValue?, henvironment f hf]
    cases environment.get? (variableFor f.name) with
    | none => rfl
    | some text => cases h : variableValue? f.action text <;> simp [Option.filter, h]

/-- Variables that give a number, a text and no truth value. -/
def someVariables : Entries String :=
  [("SNOOTY2MDX_SNOOTY_MAX_HEADING_DEPTH", "3"),
    ("SNOOTY2MDX_SNOOTY_IMAGES_DIR_NAME", "pictures"),
    ("SNOOTY2MDX_SNOOTY_DETECT_INCLUDE_CYCLES", "perhaps")]

/-- A configuration of one section. -/
def someConfiguration : Configuration :=
  { table := [("snooty", .obj [("max_heading_depth", .int 2), ("images_dir_name", .str "img"),
      ("fragment_extension", .str ".md")])] }

/-- Arguments that give a number and, to another stage, a text. -/
def someArguments : List String :=
  ["page.json", "--snooty-max-heading-depth=4", "--mdx-bullet-marker", "*"]

/-- The number comes from its flag, one text from its variable and one from the section. -/
theorem settings_by_priority_mixed : ∃ values updates,
    parseArguments someVariables someArguments = .ok values ∧
    updatesOf .snooty someConfiguration values = .ok updates ∧
    (updates.get? "max_heading_depth").bind Value.num? = some (.int 4) ∧
    (updates.get? "images_dir_name").bind Value.str? = some "pictures" ∧
    (updates.get? "fragment_extension").bind Value.str? = some ".md" ∧
    updates.get? "detect_include_cycles" = none := by
  have hsome : (parseArguments someVariables someArguments).toOption.isSome = true := by
    decide +kernel
  obtain ⟨values, hvalues⟩ := Option.isSome_iff_exists.1 hsome
  have hread := eq_ok_of_toOption hvalues
  have hconfig : ∀ stage : Stage, ∃ fields, someConfiguration.fieldsOf stage.name = .ok fields ∧
      fields.keys ⊆ Entries.keys stage.fields := by
    intro stage
    cases stage <;> exact ⟨_, rfl, by decide⟩
  obtain ⟨updates, hupdates, -, hget⟩ := (settings_by_priority hread hconfig).1 .snooty
  refine ⟨values, updates, hread, hupdates, ?_, ?_, ?_, ?_⟩
  · rw [hget "max_heading_depth" (.store .int []) (by decide)]
    decide +kernel
  · rw [hget "images_dir_name" (.store .text []) (by decide)]
    decide +kernel
  · rw [hget "fragment_extension" (.store .text []) (by decide)]
    decide +kernel
  · rw [hget "detect_include_cycles" .turnOff (by decide)]
    decide +kernel

end MdxPages.Cli
