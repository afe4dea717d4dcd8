import MdxPages.Proofs.Cli.Configuring
import MdxPages.Proofs.Cli.Priority
import MdxPages.Proofs.Site.PageFile

/-!
# Proofs/Cli/Command — when a run ends with an exit code

A run whose arguments have been read ends with an exit code unless it stumbles before it converts:
over its level, its log file or its configuration (`run_ends_iff`).  A configuration that is refused
gives one exit code, whatever it is refused for.
-/

namespace MdxPages.Cli

open Work

variable {environment : Entries String} {arguments : List String} {values : Entries Value}
  {input : String} {w w' w₁ : Workplace} {setup : LogSetup} {work : Work Outcome} {level : Int}

/-! ## Records

Showing records opens a log file if one is named.  What the work of a run does afterwards leaves
that file standing, since it only adds to the disk. -/

/-- A log file, if there is one, that stands where its location leads. -/
def LogStands (setup : LogSetup) (w : Workplace) : Prop :=
  ∀ l, setup.file = some l → ∃ p, w.disk.find w.directory l = .ok p ∧ w.disk.HasFile p

/-- A log file still stands when the disk has grown. -/
theorem LogStands.grown {P : Place → Prop} (h : LogStands setup w) (hw : w.Grown P w') :
    LogStands setup w' := fun l hl => by
  obtain ⟨p, hfind, hfile⟩ := h l hl
  exact ⟨p, hw.directory ▸ Disk.find_grown hw.disk hfind, hw.disk.file hfile⟩

/-- Whether the path of a log file has a name that no file system takes. -/
def hasNullName (directory : Place) (file : Option String) : Bool :=
  (file.filter fun s => !s.isEmpty).any fun path =>
    Disk.hasNullByte (absoluteLocation directory (.ofString path))

/-- **Opening a log file leaves it standing**, and adds nothing else to the disk. -/
theorem openLog_cases (hdirectory : w.disk.Solid w.directory) (level : Int) (file : Option String)
    (trace : Bool) :
    (hasNullName w.directory file = true ∧ Faulty (openLog level file trace w).1) ∨
    hasNullName w.directory file = false ∧ ∃ setup w₁,
      openLog level file trace w = (.ok setup, w₁) ∧ w.Grown (fun _ => True) w₁ ∧
        LogStands setup w₁ := by
  unfold openLog hasNullName
  dsimp only
  cases file.filter fun s => !s.isEmpty with
  | none => exact .inr ⟨rfl, _, w, rfl, .refl _ w, nofun⟩
  | some path =>
    dsimp only [Option.any]
    rw [bind_of_ok (get_apply w)]
    generalize absoluteLocation w.directory (.ofString path) = l
    cases hnull : Disk.hasNullByte l with
    | true =>
      rw [Disk.append_of_hasNullByte hnull]
      exact .inl ⟨rfl, .nullByte, rfl⟩
    | false =>
      refine .inr ⟨rfl, ?_⟩
      cases happend : w.disk.append w.directory l [] with
      | ok disk =>
        obtain ⟨hgrown, hstands⟩ := Disk.grown_append hdirectory happend
        refine ⟨_, _, rfl, ⟨rfl, hgrown⟩, fun l' hl' => ?_⟩
        obtain rfl := Option.some.inj hl'
        exact hstands
      | error f =>
        dsimp only
        rw [if_pos (Disk.isSystem_of_append hnull happend)]
        exact ⟨_, _, rfl, ⟨rfl, .refl _ _⟩, nofun⟩

/-- Records are written to a log file that stands. -/
theorem writeLog_apply (h : LogStands setup w) (entries : List LogEntry) :
    ∃ w', writeLog setup entries w = (.ok (), w') := by
  rw [writeLog]
  cases hl : setup.file with
  | none => exact ⟨w, rfl⟩
  | some l =>
    obtain ⟨p, hfind, hfile⟩ := h l hl
    obtain ⟨disk, happend⟩ := Disk.exists_append hfind hfile
    exact ⟨_, change_apply happend⟩

/-- The workplace in which the work of a run starts, once its records are shown. -/
def ShowsRecords (values : Entries Value) (w : Workplace) (setup : LogSetup) (w₁ : Workplace) :
    Prop :=
  ∃ level, levelNumber values = .ok level ∧
    openLog level (textOf? "log_file" values) (isOn "trace" values) w = (.ok setup, w₁)

/-- **Showing records neither hides nor makes up an outcome.** -/
theorem showingRecords_apply (hdirectory : w.disk.Solid w.directory) (hwork : Adds work)
    (hshows : ShowsRecords values w setup w₁) :
    ∃ text w', showingRecords values work w =
      ((work w₁).1.map fun outcome => { outcome with errors := text ++ outcome.errors }, w') := by
  obtain ⟨level, hlevel, hopen⟩ := hshows
  obtain ⟨-, hfaulty⟩ | ⟨-, setup', w₁', hopen', hgrown, hstands⟩ :=
    openLog_cases hdirectory level (textOf? "log_file" values) (isOn "trace" values)
  · obtain ⟨f, hf⟩ := hfaulty
    rw [hopen] at hf
    cases hf
  obtain ⟨hsetup, rfl⟩ := Prod.mk.inj (hopen.symm.trans hopen')
  obtain rfl := Except.ok.inj hsetup
  have hadded : w₁.Grown (fun _ => True) (work w₁).2 :=
    hwork w₁ (hgrown.directory ▸ hdirectory.grown hgrown.disk)
  obtain ⟨w', hlog⟩ := writeLog_apply (hstands.grown hadded)
    ((work w₁).2.log.drop w.log.length)
  have hlift : liftFault (levelNumber values) w = (.ok level, w) := by
    rw [hlevel]
    rfl
  have hattempt : attempt work w₁ = (.ok (work w₁).1, (work w₁).2) := rfl
  rw [showingRecords, bind_of_ok (get_apply w), bind_of_ok hlift, bind_of_ok hopen,
    bind_of_ok hattempt, bind_of_ok (get_apply _), bind_of_ok hlog]
  refine ⟨setup.consoleText ((work w₁).2.log.drop w.log.length), w', ?_⟩
  cases (work w₁).1 <;> rfl

/-- Where an outcome is shown, records are, and the work has ended with it. -/
theorem exists_of_showingRecords {outcome : Outcome}
    (h : showingRecords values work w = (.ok outcome, w')) :
    ∃ setup w₁ ended, ShowsRecords values w setup w₁ ∧ (work w₁).1 = .ok ended := by
  rw [showingRecords, bind_of_ok (get_apply w)] at h
  obtain ⟨level, w₀, hlifted, h⟩ := exists_of_bind_eq_ok h
  obtain ⟨hlevel, rfl⟩ := liftFault_eq_ok_iff.1 hlifted
  obtain ⟨setup, w₁, hopen, h⟩ := exists_of_bind_eq_ok h
  obtain ⟨ended, w₂, hattempt, h⟩ := exists_of_bind_eq_ok h
  obtain ⟨records, w₃, -, h⟩ := exists_of_bind_eq_ok h
  obtain ⟨-, w₄, -, h⟩ := exists_of_bind_eq_ok h
  obtain ⟨last, w₅, hlift, -⟩ := exists_of_bind_eq_ok h
  obtain rfl : (work w₁).1 = ended := Except.ok.inj (Prod.mk.inj hattempt).1
  exact ⟨setup, w₁, last, ⟨level, hlevel, hopen⟩, (lift_eq_ok_iff.1 hlift).1⟩

/-! ## Levels -/

/-- A level that is given is a text, or has been left out after an equals sign. -/
theorem value_of_levelFlag {use : Use} {rest : List Argument} {v : Value} (hflag : use.flag ∈ flags)
    (hname : use.flag.name = "log_level") (h : use.value? rest = some v) :
    v = .arr [] ∨ ∃ s, v = .str s := by
  have haction : ∀ f ∈ flags, f.name = "log_level" → f.action = .store .upperText levelNames := by
    decide
  have htext (s : String) (htext : use.flag.textValue? s = some v) :
      v = .arr [] ∨ ∃ s, v = .str s := by
    rw [Flag.textValue?, haction _ hflag hname] at htext
    dsimp only at htext
    split at htext
    · exact .inl (Option.some.inj htext).symm
    · exact .inr ⟨_, (Option.some.inj htext).symm⟩
  rw [Use.value?, haction _ hflag hname] at h
  split at h
  · exact htext _ h
  · obtain ⟨s, -, hs⟩ := Option.bind_eq_some_iff.1 h
    exact htext s hs
  all_goals next heq => cases heq

/-- What reading leaves as the level: what its flag gives, else its default. -/
theorem level_of_parseArguments (hread : parseArguments environment arguments = .ok values) :
    Value.field "log_level" values =
      (flagValue? arguments "log_level").getD (.str Level.warning.name) := by
  obtain ⟨args, hargs, htakes⟩ := takes_of_parseArguments hread
  have hstart : (generalDefaults ++ variableDefaults environment).get? "log_level" =
      some (.str Level.warning.name) := rfl
  rw [Value.field, htakes.get? _ (by decide), Entries.get?_merge, hstart, flagValue?, hargs]
  simp only [Except.toOption, Option.bind_some, Entries.get?_ofList]
  cases Entries.get? "log_level" (givenBy args).reverse <;> rfl

/-- The level is left out after an equals sign, which leaves an empty list, or it is a text. -/
theorem level_cases (hread : parseArguments environment arguments = .ok values) :
    (flagValue? arguments "log_level" = some (.arr []) ∧
      Value.field "log_level" values = .arr []) ∨
    flagValue? arguments "log_level" ≠ some (.arr []) ∧
      ∃ s, Value.field "log_level" values = .str s := by
  rw [level_of_parseArguments hread]
  cases hflag : flagValue? arguments "log_level" with
  | none => exact .inr ⟨nofun, _, rfl⟩
  | some v =>
    obtain ⟨args, hargs, hget⟩ := Option.bind_eq_some_iff.1 hflag
    have hclassified := eq_ok_of_toOption hargs
    have hmem := Entries.mem_of_mem_ofList
      ((Entries.get?_eq_some_iff (Entries.nodup_keys_ofList _)).1 hget)
    obtain ⟨use, rest, huse, hname, hvalue⟩ := exists_use_of_mem_givenBy hclassified hmem
    obtain rfl | ⟨s, rfl⟩ := value_of_levelFlag huse hname hvalue
    · exact .inl ⟨rfl, rfl⟩
    · exact .inr ⟨by simp, s, rfl⟩

/-- **A level is found** unless it has been left out after an equals sign. -/
theorem exists_levelNumber_iff (hread : parseArguments environment arguments = .ok values) :
    (∃ n, levelNumber values = .ok n) ↔
      isOn "trace" values = true ∨ flagValue? arguments "log_level" ≠ some (.arr []) := by
  unfold levelNumber
  cases isOn "trace" values with
  | true => simp
  | false =>
    obtain ⟨hflag, hlevel⟩ | ⟨hflag, s, hlevel⟩ := level_cases hread
    · simp [hflag, hlevel, Value.strOrEmpty, Value.str?, Level.name]
    · rw [hlevel]
      dsimp only
      split <;> simp [hflag]

/-- **Records can be shown** if there is a level, or tracing makes it unneeded, and the name of the
log file is one that a file system takes. -/
theorem exists_showsRecords_iff (hdirectory : w.disk.Solid w.directory)
    (hread : parseArguments environment arguments = .ok values) :
    (∃ setup w₁, ShowsRecords values w setup w₁) ↔
      (isOn "trace" values = true ∨ flagValue? arguments "log_level" ≠ some (.arr [])) ∧
      hasNullName w.directory (textOf? "log_file" values) = false := by
  rw [← exists_levelNumber_iff hread]
  constructor
  · rintro ⟨setup, w₁, level, hlevel, hopen⟩
    refine ⟨⟨level, hlevel⟩, ?_⟩
    obtain ⟨-, f, hf⟩ | ⟨hnull, -⟩ :=
      openLog_cases hdirectory level (textOf? "log_file" values) (isOn "trace" values)
    · rw [hopen] at hf
      cases hf
    · exact hnull
  · rintro ⟨⟨level, hlevel⟩, hnull⟩
    obtain ⟨hnull', -⟩ | ⟨-, setup, w₁, hopen, -⟩ :=
      openLog_cases hdirectory level (textOf? "log_file" values) (isOn "trace" values)
    · cases hnull.symm.trans hnull'
    · exact ⟨setup, w₁, level, hlevel, hopen⟩

/-! ## Conversions

From here on nothing escapes: a failure of the conversion is recorded, and becomes an exit code. -/

theorem adds_attempt {α : Type} {x : Work α} (h : Adds x) : Adds (attempt x) :=
  fun w hw => h w hw

/-- A conversion adds files and records, and takes nothing away. -/
theorem adds_convert (s : Settings) (values : Entries Value) (l : Location) :
    Adds (convert s values l) := by
  rw [convert]
  refine .ite ?_ ?_
  · exact (Site.adds_convertFile _ _ _).bind fun _ => .pure _
  · exact (Site.adds_convertArchive _ _ _ _ _).bind fun _ => .pure _

theorem adds_recordFailed (e : Failure) : Adds (recordFailed e) := by
  unfold recordFailed
  split
  · exact .record _ _ _
  · exact .record _ _ _

theorem adds_convertTelling (s : Settings) (values : Entries Value) (l : Location) :
    Adds (convertTelling s values l) := by
  refine (adds_attempt (adds_convert s values l)).bind fun result => ?_
  cases result with
  | ok report => exact .pure _
  | error e => exact (adds_recordFailed e).bind fun _ => .pure _

/-- The work of a run adds files and records, and takes nothing away. -/
theorem adds_configureAndConvert : Adds (configureAndConvert environment values input) := by
  refine (adds_attempt (.of_still fun w => ?_)).bind fun result => ?_
  · rw [asks_configure w]
    exact ⟨rfl, rfl⟩
  · split
    · exact adds_convertTelling _ _ _
    · exact .of_onlyRecords (.throw _)
    · exact .pure _

/-- After an attempt the work goes on with its answer, whether that is a value or a failure. -/
theorem attempt_bind {α β : Type} (x : Work α) (f : Except Failure α → Work β) (w : Workplace) :
    (attempt x >>= f) w = f (x w).1 (x w).2 :=
  bind_of_ok rfl

/-- **A conversion always ends with an exit code**, whatever goes wrong in it. -/
theorem exists_convertTelling (s : Settings) (values : Entries Value) (l : Location)
    (w : Workplace) : ∃ outcome, (convertTelling s values l w).1 = .ok outcome := by
  rw [convertTelling, attempt_bind]
  cases (convert s values l w).1 with
  | ok report => exact ⟨_, rfl⟩
  | error e => cases e <;> exact ⟨_, rfl⟩

/-- A run that can be configured ends with an exit code. -/
theorem exists_configureAndConvert {s : Settings} (h : (configure environment values w).1 = .ok s) :
    ∃ outcome, (configureAndConvert environment values input w).1 = .ok outcome := by
  rw [configureAndConvert, attempt_bind, h]
  exact exists_convertTelling _ _ _ _

/-- A run whose configuration is refused ends with an exit code for that. -/
theorem configureAndConvert_of_refused {e : Failure} (he : ∀ f, e ≠ .fault f)
    (h : (configure environment values w).1 = .error e) :
    ∃ outcome, (configureAndConvert environment values input w).1 = .ok outcome ∧
      outcome.exitCode = refusedCode := by
  have hcode : configurationCode e = refusedCode := by
    unfold configurationCode
    split
    · rfl
    · next hargument =>
      obtain ⟨f, hf⟩ | hargument' | hvalidation := explained_configure e h
      · exact absurd hf (he f)
      · exact absurd hargument' hargument
      · rw [Failure.exitCode, hvalidation]
        rfl
  rw [configureAndConvert, attempt_bind, h]
  cases e with
  | fault f => exact absurd rfl (he f)
  | _ => exact ⟨_, rfl, hcode⟩

/-- A fault of configuring leaves the run. -/
theorem configureAndConvert_of_faulty (h : Faulty (configure environment values w).1) :
    Faulty (configureAndConvert environment values input w).1 := by
  obtain ⟨f, hf⟩ := h
  rw [configureAndConvert, attempt_bind, hf]
  exact ⟨f, rfl⟩

/-! ## Runs -/

/-- A run whose arguments are read and name an input shows records around its work. -/
theorem run_apply (hread : parseArguments environment arguments = .ok values)
    (hinput : textOf? "input" values = some input) (hname : isInput input = true) (w : Workplace) :
    run environment arguments w = (do
      let outcome ← showingRecords values (configureAndConvert environment values input)
      return .ok { outcome with errors := environmentComplaints environment ++ outcome.errors } :
        Work (Except Stop Outcome)) w := by
  have hnonempty : input ≠ "" := by
    rintro rfl
    exact absurd hname (by decide)
  rw [run, hread]
  dsimp only
  rw [runWith, hinput, Option.getD_some]
  split
  · exact absurd rfl hnonempty
  · rw [if_pos hname]

/-- An outcome of the work of a run is that of the run. -/
theorem exists_run (hdirectory : w.disk.Solid w.directory)
    (hread : parseArguments environment arguments = .ok values)
    (hinput : textOf? "input" values = some input) (hname : isInput input = true)
    (hshows : ShowsRecords values w setup w₁) {ended : Outcome}
    (hended : (configureAndConvert environment values input w₁).1 = .ok ended) :
    ∃ outcome w', run environment arguments w = (.ok (.ok outcome), w') ∧
      outcome.exitCode = ended.exitCode := by
  obtain ⟨text, w', hshown⟩ := showingRecords_apply hdirectory adds_configureAndConvert hshows
  rw [hended] at hshown
  refine ⟨{ ended with errors := environmentComplaints environment ++ (text ++ ended.errors) }, w',
    ?_, rfl⟩
  rw [run_apply hread hinput hname, bind_of_ok hshown]
  rfl

/-- The workplace after showing records is the only one. -/
theorem ShowsRecords.eq {setup' : LogSetup} {w₁' : Workplace} (h : ShowsRecords values w setup w₁)
    (h' : ShowsRecords values w setup' w₁') : w₁ = w₁' := by
  obtain ⟨level, hlevel, hopen⟩ := h
  obtain ⟨level', hlevel', hopen'⟩ := h'
  obtain rfl := Except.ok.inj (hlevel.symm.trans hlevel')
  exact (Prod.mk.inj (hopen.symm.trans hopen')).2

/-- A run whose configuration is refused ends with the exit code for that. -/
theorem exists_run_of_refused (hdirectory : w.disk.Solid w.directory)
    (hread : parseArguments environment arguments = .ok values)
    (hinput : textOf? "input" values = some input) (hname : isInput input = true) {e : Failure}
    (hshows : ShowsRecords values w setup w₁) (h : (configure environment values w₁).1 = .error e)
    (he : ∀ f, e ≠ .fault f) :
    ∃ outcome w', run environment arguments w = (.ok (.ok outcome), w') ∧
      outcome.exitCode = refusedCode := by
  obtain ⟨ended, hended, hcode⟩ := configureAndConvert_of_refused he h
  obtain ⟨outcome, w', hrun, hsame⟩ := exists_run hdirectory hread hinput hname hshows hended
  exact ⟨outcome, w', hrun, hsame.trans hcode⟩

/-- **When a run ends with an exit code**: it has a level, a log file with a name that a file system
can take, if any, and does not stumble over its configuration.  Where a configuration is refused,
the exit code says so.  A project file that the search meets and that is refused counts for
nothing. -/
theorem run_ends_iff (hdirectory : w.disk.Solid w.directory)
    (hread : parseArguments environment arguments = .ok values)
    (hinput : textOf? "input" values = some input) (hname : isInput input = true) :
    ((∃ outcome w', run environment arguments w = (.ok (.ok outcome), w')) ↔
      (isOn "trace" values = true ∨ flagValue? arguments "log_level" ≠ some (.arr [])) ∧
      hasNullName w.directory (textOf? "log_file" values) = false ∧
      ∀ setup w₁, ShowsRecords values w setup w₁ → ¬Stumbles environment values w₁) ∧
    (∀ setup w₁ e, ShowsRecords values w setup w₁ →
      (configure environment values w₁).1 = .error e → (∀ f, e ≠ .fault f) →
      ∃ outcome w', run environment arguments w = (.ok (.ok outcome), w') ∧
        outcome.exitCode = refusedCode) ∧
    ∀ w₁ folder e, Config.LacksOwn w₁ folder →
      (Config.loadProject (Config.locationIn folder Config.projectName) w₁).1 = .error e →
      (∀ f, e ≠ .fault f) → Config.findIn folder w₁ = (.ok none, w₁) := by
  refine ⟨⟨?_, ?_⟩, fun _ _ _ => exists_run_of_refused hdirectory hread hinput hname,
    fun _ _ _ => Config.findIn_of_refused⟩
  · rintro ⟨outcome, w', hrun⟩
    rw [run_apply hread hinput hname] at hrun
    obtain ⟨shown, w₂, hshown, -⟩ := exists_of_bind_eq_ok hrun
    obtain ⟨setup, w₁, ended, hshows, hended⟩ := exists_of_showingRecords hshown
    obtain ⟨hlevel, hnull⟩ := (exists_showsRecords_iff hdirectory hread).1 ⟨setup, w₁, hshows⟩
    refine ⟨hlevel, hnull, fun setup' w₁' hshows' hstumbles => ?_⟩
    obtain rfl := hshows.eq hshows'
    obtain ⟨f, hf⟩ := configureAndConvert_of_faulty (faulty_configure_iff.2 hstumbles)
    cases hf.symm.trans hended
  · rintro ⟨hlevel, hnull, hstumbles⟩
    obtain ⟨setup, w₁, hshows⟩ := (exists_showsRecords_iff hdirectory hread).2 ⟨hlevel, hnull⟩
    cases hconfigure : (configure environment values w₁).1 with
    | ok s =>
      obtain ⟨ended, hended⟩ := exists_configureAndConvert hconfigure
      obtain ⟨outcome, w', hrun, -⟩ := exists_run hdirectory hread hinput hname hshows hended
      exact ⟨outcome, w', hrun⟩
    | error e =>
      have he (f : Fault) : e ≠ .fault f := by
        rintro rfl
        exact hstumbles setup w₁ hshows (faulty_configure_iff.1 ⟨f, hconfigure⟩)
      obtain ⟨outcome, w', hrun, -⟩ :=
        exists_run_of_refused hdirectory hread hinput hname hshows hconfigure he
      exact ⟨outcome, w', hrun⟩

/-! ## A project file in the working directory

The search for a configuration passes over a project file that is refused, but not over one that
gives a fault.  Two project files show the difference. -/

/-- Where no log file is asked for, showing records leaves the workplace as it is. -/
theorem exists_showsRecords (hlevel : levelNumber values = .ok level)
    (hfile : textOf? "log_file" values = none) : ∃ setup, ShowsRecords values w setup w := by
  refine ⟨⟨level, isOn "trace" values, none⟩, level, hlevel, ?_⟩
  rw [hfile]
  rfl

/-- A fault of configuring is that of the run. -/
theorem run_of_fault {f : Fault} (hdirectory : w.disk.Solid w.directory)
    (hread : parseArguments environment arguments = .ok values)
    (hinput : textOf? "input" values = some input) (hname : isInput input = true)
    (hshows : ShowsRecords values w setup w₁)
    (hconfigure : (configure environment values w₁).1 = .error (.fault f)) :
    (run environment arguments w).1 = .error (.fault f) := by
  have hadds : Adds (configureAndConvert environment values input) := adds_configureAndConvert
  obtain ⟨text, w', hshown⟩ := showingRecords_apply hdirectory hadds hshows
  have hwork : (configureAndConvert environment values input w₁).1 = .error (.fault f) := by
    rw [configureAndConvert, attempt_bind, hconfigure]
    rfl
  rw [run_apply hread hinput hname, bind_apply, hshown, hwork]
  rfl

/-- A workplace with nothing but a project file. -/
def projectHolding (text : String) : Workplace where
  disk := ⟨[(["pyproject.toml"], .file (Bytes.ofText text))]⟩

/-- The location of the project file. -/
def projectLocation : Location :=
  Config.locationIn [] Config.projectName

theorem lookUp_projectHolding (text : String) {name : String}
    (hname : name ∈ Config.projectName :: Config.fileNames) :
    (projectHolding text).disk.lookUp [] (Config.locationIn [] name) =
      .ok (if name = Config.projectName then some (.file (Bytes.ofText text)) else none) := by
  have hnames : ∀ name ∈ Config.projectName :: Config.fileNames,
      name ≠ ".." ∧ name.utf8ByteSize ≤ Disk.maxNameBytes ∧
        Disk.hasNullByte (Config.locationIn [] name) = false := by
    decide
  obtain ⟨hup, hsize, hnull⟩ := hnames name hname
  have hitem : (projectHolding text).disk.at? [name] =
      if name = Config.projectName then some (.file (Bytes.ofText text)) else none := by
    change (if [Config.projectName] = [name] then _ else none) = _
    simp [eq_comm]
  have hlink (target : String) : (projectHolding text).disk.at? [name] ≠ some (.link target) := by
    rw [hitem]
    split <;> simp
  have hfind : (projectHolding text).disk.find [] (Config.locationIn [] name) = .ok [name] :=
    Disk.find_eq_ok_iff.2 ⟨hnull, .on ⟨rfl, hsize⟩ hup hlink .done⟩
  rw [Disk.lookUp, hfind, ← hitem]
  rfl

/-- The project file holds the text that it is made from. -/
theorem read_projectHolding (text : String) :
    (projectHolding text).disk.read [] projectLocation = .ok (Bytes.ofText text) := by
  rw [Disk.read, projectLocation, lookUp_projectHolding text List.mem_cons_self]
  rfl

/-- The folder has no configuration file of its own, so the project file decides. -/
theorem lacksOwn_projectHolding (text : String) : Config.LacksOwn (projectHolding text) [] := by
  intro name hname
  have hother : ∀ name ∈ Config.fileNames, name ≠ Config.projectName := by
    decide
  have hlookUp := lookUp_projectHolding text (List.mem_cons_of_mem _ hname)
  rw [if_neg (hother name hname)] at hlookUp
  rw [Config.hasNamed, Disk.isFile, show (projectHolding text).directory = [] from rfl, hlookUp]

/-- What is read from a single argument that names a page. -/
theorem exists_parse_page : ∃ values level s, parseArguments [] ["page.json"] = .ok values ∧
    textOf? "input" values = some "page.json" ∧ isOn "no_config" values = false ∧
    namedPath? [] values = none ∧ textOf? "log_file" values = none ∧
    levelNumber values = .ok level ∧ settings {} values = .ok s ∧
    flagValue? ["page.json"] "log_level" = none := by
  have hsome : (parseArguments [] ["page.json"]).toOption.isSome = true := by
    decide +kernel
  obtain ⟨values, hvalues⟩ := Option.isSome_iff_exists.1 hsome
  have hread : (parseArguments [] ["page.json"]).toOption.map (fun values =>
      (textOf? "input" values, isOn "no_config" values, namedPath? [] values,
        textOf? "log_file" values, (levelNumber values).toOption.isSome,
        (settings {} values).toOption.isSome)) =
      some (some "page.json", false, none, none, true, true) := by
    decide +kernel
  rw [hvalues, Option.map_some, Option.some.injEq] at hread
  simp only [Prod.mk.injEq] at hread
  obtain ⟨hinput, hon, hpath, hfile, hlevel, hsettings⟩ := hread
  obtain ⟨level, hlevel⟩ := Option.isSome_iff_exists.1 hlevel
  obtain ⟨s, hsettings⟩ := Option.isSome_iff_exists.1 hsettings
  have hflag : (flagValue? ["page.json"] "log_level").isNone = true := by
    decide +kernel
  exact ⟨values, level, s, eq_ok_of_toOption hvalues, hinput, hon, hpath, hfile,
    eq_ok_of_toOption hlevel, eq_ok_of_toOption hsettings, Option.isNone_iff_eq_none.1 hflag⟩

set_option maxRecDepth 100000 in
/-- A project file without a value for its tools is refused. -/
theorem loadProject_valueless :
    (Config.loadProject projectLocation (projectHolding "tool = \n")).1 =
      .error (.projectInvalid projectLocation.text) := by
  have htext : Bytes.text? (Bytes.ofText "tool = \n") = some "tool = \n" := by
    decide +kernel
  have hmalformed : Toml.read "tool = \n" = .error .malformed :=
    eq_malformed_of_matches (by decide +kernel)
  rw [Config.answer_loadProject (read_projectHolding _) htext, hmalformed]
  rfl

set_option maxRecDepth 100000 in
/-- **A project file whose tools are a number is not refused.** -/
theorem loadProject_numbered :
    (Config.loadProject projectLocation (projectHolding "tool = 1\n")).1 =
      .error (.fault (.noAttribute "int" "get")) := by
  have htext : Bytes.text? (Bytes.ofText "tool = 1\n") = some "tool = 1\n" := by
    decide +kernel
  have hkind : ((Toml.read "tool = 1\n").toOption.bind fun project =>
      (project.get? "tool").map Value.kindName) = some "int" := by
    decide +kernel
  obtain ⟨project, hproject, hkind⟩ := Option.bind_eq_some_iff.1 hkind
  obtain ⟨v, hv, hkind⟩ := Option.map_eq_some_iff.1 hkind
  have htable : v.obj? = none := by
    cases v with
    | obj fields => simp [Value.kindName] at hkind
    | _ => rfl
  have hsection : Config.sectionOf projectLocation.text project =
      .error (.fault (.noAttribute v.kindName "get")) := Config.sectionOf_of_tools hv htable
  rw [Config.answer_loadProject (read_projectHolding _) htext, eq_ok_of_toOption hproject,
    ← hkind, ← hsection]
  rfl

/-- The configuration of a run at the root that uses no file of its own. -/
theorem configure_projectHolding {text : String} (hon : isOn "no_config" values = false)
    (hpath : namedPath? [] values = none) :
    (configure [] values (projectHolding text)).1 =
      ((Config.findIn [] (projectHolding text)).1 >>= configurationIn (projectHolding text)) >>=
        fun config => settings config values := by
  rw [configure_eq, answer_bind asks_chosenConfiguration, chosenConfiguration_of_unnamed hon hpath]
  rfl

/-- A project file that is refused is passed over, and the run ends. -/
theorem run_with_valueless_tools : ∃ outcome w',
    run [] ["page.json"] (projectHolding "tool = \n") = (.ok (.ok outcome), w') := by
  obtain ⟨values, level, s, hread, hinput, hon, hpath, hfile, hlevel, hsettings, hflag⟩ :=
    exists_parse_page
  obtain ⟨hends, -, hpassed⟩ := run_ends_iff (Disk.solid_root (projectHolding "tool = \n").disk)
    hread hinput (by decide)
  refine hends.2 ⟨.inr (by simp [hflag]), by rw [hfile]; rfl,
    fun setup w₁ hshows hstumbles => ?_⟩
  obtain ⟨setup', hshows'⟩ := exists_showsRecords hlevel hfile
  obtain rfl := hshows.eq hshows'
  obtain ⟨f, hf⟩ := faulty_configure_iff.2 hstumbles
  rw [configure_projectHolding hon hpath,
    hpassed _ [] _ (lacksOwn_projectHolding _) loadProject_valueless (by simp)] at hf
  cases hsettings.symm.trans hf

/-- **Tools that are a number end a run** with a fault, though a project file that cannot be used
is passed over. -/
theorem run_with_numbered_tools : (run [] ["page.json"] (projectHolding "tool = 1\n")).1 =
    .error (.fault (.noAttribute "int" "get")) := by
  obtain ⟨values, level, s, hread, hinput, hon, hpath, hfile, hlevel, -⟩ := exists_parse_page
  obtain ⟨setup, hshows⟩ := exists_showsRecords hlevel hfile
  have hmeets : Config.Meets (projectHolding "tool = 1\n") [] projectLocation :=
    .here (lacksOwn_projectHolding _) (Disk.isFile_of_read (read_projectHolding _))
  have hconfigure : (configure [] values (projectHolding "tool = 1\n")).1 =
      .error (.fault (.noAttribute "int" "get")) := by
    have hfind := Config.findUp_eq_error_iff.2 ⟨_, hmeets, loadProject_numbered, by decide⟩
    rw [configure_projectHolding hon hpath, show Config.findIn [] = Config.findUp [] from rfl,
      hfind]
    rfl
  exact run_of_fault (Disk.solid_root _) hread hinput (by decide) hshows hconfigure

end MdxPages.Cli
