import MdxPages.Config.Loading
import MdxPages.Proofs.Disk.Access
import MdxPages.Proofs.Site.Work

/-!
# Proofs/Config/Loading — what a configuration file can do to a run

Loading leaves everything as it is.  A file that cannot be used is refused, unless it stumbles: over
bytes that are no text, over a value that does not exist, or over tools of a project that are no
table (`faulty_load_iff`).
-/

namespace MdxPages.Config

open Work

variable {w : Workplace} {l : Location} {bytes : List UInt8} {α β : Type}

/-- What is said about configurations that cannot be used. -/
def IsRefused (e : Failure) : Prop :=
  (∃ f, e = .fault f) ∨ e.category = .argument

/-! ## Formats

The name of a file tells its format, and the format how its bytes are read and which texts mislead
the reader. -/

/-- The formats of configuration files. -/
inductive Format
  | project
  | toml
  | yaml
  | json
deriving DecidableEq, Repr

/-- The format that the name of a file tells. -/
def formatOf? (l : Location) : Option Format :=
  let extension := Text.lower l.suffix
  if Text.lower l.name = projectName then some .project
  else if extension = ".toml" then some .toml
  else if extension = ".yaml" ∨ extension = ".yml" then some .yaml
  else if extension = ".json" then some .json
  else none

/-- The text of a file of a format. -/
def Format.text? : Format → List UInt8 → Option String
  | project | toml => Bytes.text?
  | yaml | json => Bytes.linesText?

/-- A text that has a value which does not exist. -/
def Format.Misleads (format : Format) (text : String) : Prop :=
  match format with
  | project | toml => ∃ f, Toml.read text = .error (.fault f)
  | yaml => ∃ f, Yaml.read text = .error (.fault f)
  | json => ∃ f, Json.read text = .error (.fault f)

/-- The tools of a project that are no table. -/
def ToolsNotTable (text : String) : Prop :=
  ∃ project v, Toml.read text = .ok project ∧ project.get? "tool" = some v ∧ v.obj? = none

/-- Bytes that reading a file of a format stumbles over: they are no text, or the text has a value
that does not exist, or it is that of a project whose tools are no table. -/
def Format.Traps (format : Format) (bytes : List UInt8) : Prop :=
  format.text? bytes = none ∨ ∃ text, format.text? bytes = some text ∧
    (format.Misleads text ∨ format = .project ∧ ToolsNotTable text)

/-! ## Reading

Reading has two steps, bytes to a text and the text to a value, and either can stumble. -/

/-- Reading a text only looks at the disk. -/
theorem asks_readText {unreadable : Failure} {text? : List UInt8 → Option String} :
    Asks (readText unreadable text? l) := by
  refine Asks.bind (Asks.reportingAs (.ask _)) fun bytes => ?_
  split
  · exact .pure _
  · exact .throw _

/-- A file that can be read gives its text, and a fault if it has none. -/
theorem answer_readText {unreadable : Failure} {text? : List UInt8 → Option String}
    (hread : w.disk.read w.directory l = .ok bytes) :
    (readText unreadable text? l w).1 =
      match text? bytes with
      | some text => .ok text
      | none => .error (.fault .badEncoding) := by
  have hbytes : reportingAs unreadable (ask fun d directory => d.read directory l) w =
      (.ok bytes, w) := reportingAs_of_ok (by rw [ask_apply, hread]; rfl)
  rw [readText, bind_of_ok hbytes]
  cases text? bytes <;> rfl

/-- Work with a text stumbles over bytes that are none, or over the text. -/
theorem faulty_readText_bind {unreadable : Failure} {text? : List UInt8 → Option String}
    {next : String → Work α} (hread : w.disk.read w.directory l = .ok bytes) :
    Faulty ((readText unreadable text? l >>= next) w).1 ↔ text? bytes = none ∨
      ∃ text, text? bytes = some text ∧ Faulty (next text w).1 := by
  rw [answer_bind asks_readText, faulty_bind, answer_readText hread]
  cases text? bytes with
  | none => simp [Faulty]
  | some text => simp [not_faulty_ok]

/-- A malformed text is refused; only a fault in it is passed on. -/
theorem faulty_liftProblem_bind (malformed : Failure) (hmalformed : ∀ f, malformed ≠ .fault f)
    {r : Except Problem α} {next : α → Work β} :
    Faulty ((liftProblem malformed r >>= next) w).1 ↔
      (∃ f, r = .error (.fault f)) ∨ ∃ a, r = .ok a ∧ Faulty (next a w).1 := by
  have hasks : Asks (liftProblem malformed r) := .lift _
  rw [answer_bind hasks, faulty_bind]
  change Faulty (r.mapError (.ofProblem malformed)) ∨ (∃ a, r.mapError _ = .ok a ∧ _) ↔ _
  rw [faulty_mapError_ofProblem hmalformed]
  cases r <;> simp

/-! ## Projects

A project file holds a section for the tool below its tools.  Asking tools that are no table for it
is a fault, which nobody catches. -/

/-- Tools that are no table are a fault, and nothing else in a project is. -/
theorem faulty_sectionOf {path : String} {project : Entries Value} :
    Faulty (sectionOf path project) ↔ ∃ v, project.get? "tool" = some v ∧ v.obj? = none := by
  unfold sectionOf
  split
  · next h => simp [Faulty, h]
  · next tools h =>
    split
    · simp [Faulty, h, Value.obj?]
    · simp [Faulty, h, Value.obj?]
    · simp [Faulty, h, Value.obj?]
  · next v hv h => simp_all [Faulty, Value.obj?]

theorem asks_loadProject : Asks (loadProject l) :=
  asks_readText.bind fun _ => (Asks.lift _).bind fun _ => .lift _

/-- **A project file stumbles over what it holds**, and over nothing else. -/
theorem faulty_loadProject_iff (hread : w.disk.read w.directory l = .ok bytes) :
    Faulty (loadProject l w).1 ↔ Format.project.Traps bytes := by
  rw [loadProject, faulty_readText_bind hread]
  refine or_congr Iff.rfl (exists_congr fun text => and_congr Iff.rfl ?_)
  rw [faulty_liftProblem_bind (.projectInvalid l.text) (by simp)]
  refine or_congr Iff.rfl ?_
  have hsection (project : Entries Value) : Faulty (lift (sectionOf l.text project) w).1 ↔
      ∃ v, project.get? "tool" = some v ∧ v.obj? = none := faulty_sectionOf
  simp [ToolsNotTable, hsection]

/-- Tools that are no table are asked for a section all the same. -/
theorem sectionOf_of_tools {path : String} {project : Entries Value} {v : Value}
    (hv : project.get? "tool" = some v) (htable : v.obj? = none) :
    sectionOf path project = .error (.fault (.noAttribute v.kindName "get")) := by
  rw [sectionOf, hv]
  cases v with
  | obj fields => cases htable
  | _ => rfl

/-- What a project file that is a text gives. -/
theorem answer_loadProject {text : String} (hread : w.disk.read w.directory l = .ok bytes)
    (htext : Bytes.text? bytes = some text) :
    (loadProject l w).1 = (Toml.read text).mapError (.ofProblem (.projectInvalid l.text)) >>=
      sectionOf l.text := by
  have hloaded : readText (.projectUnreadable l.text) Bytes.text? l w = (.ok text, w) := by
    rw [asks_readText.apply w, answer_readText hread, htext]
  have hasks : Asks (liftProblem (.projectInvalid l.text) (Toml.read text)) := .lift _
  rw [loadProject, bind_of_ok hloaded, answer_bind hasks]
  rfl

/-- A section that cannot be used is refused. -/
theorem refused_sectionOf {path : String} {project : Entries Value} :
    FailsOnly IsRefused (sectionOf path project) := by
  unfold sectionOf
  split
  · exact .ok _
  · split
    · exact .ok _
    · exact .ok _
    · exact .error (.inr rfl)
  · exact .error (.inl ⟨_, rfl⟩)

/-! ## Files of their own -/

theorem asks_loadOwn : Asks (loadOwn l) := by
  rw [loadOwn]
  refine .ite ?_ (.ite ?_ (.ite ?_ (.throw _)))
  · exact asks_readText.bind fun _ => (Asks.lift _).bind fun _ => .pure _
  · exact asks_readText.bind fun _ => (Asks.lift _).bind fun _ => .lift _
  · exact asks_readText.bind fun _ => (Asks.lift _).bind fun _ => .lift _

/-- Making a configuration of a tree never stumbles. -/
theorem not_faulty_ofTree {tree : Yaml.Tree} : ¬Faulty (ofTree l tree) := by
  unfold ofTree
  split
  · exact not_faulty_ok _
  · simp [Faulty]

theorem not_faulty_ofValue {format : String} {v : Value} : ¬Faulty (ofValue format l v) := by
  unfold ofValue
  split
  · exact not_faulty_ok _
  · simp [Faulty]

/-- A file that is read as a text and then as a value stumbles over these two steps only, if making
a configuration of the value never stumbles. -/
theorem faulty_reading_iff (format : Format) {read : String → Except Problem α}
    (unreadable malformed : Failure) (next : α → Work Configuration)
    (hmalformed : ∀ f, malformed ≠ .fault f) (hproject : format ≠ .project)
    (hmisleads : ∀ text, format.Misleads text ↔ ∃ f, read text = .error (.fault f))
    (hnext : ∀ a, ¬Faulty (next a w).1) (hread : w.disk.read w.directory l = .ok bytes) :
    Faulty ((do
      let text ← readText unreadable format.text? l
      let a ← liftProblem malformed (read text)
      next a) w).1 ↔ format.Traps bytes := by
  rw [faulty_readText_bind hread]
  refine or_congr Iff.rfl (exists_congr fun text => and_congr Iff.rfl ?_)
  rw [faulty_liftProblem_bind malformed hmalformed, hmisleads]
  simp [hproject, hnext]

/-- **A configuration file stumbles over what it holds**, and over nothing else. -/
theorem faulty_loadOwn_iff (hname : Text.lower l.name ≠ projectName)
    (hread : w.disk.read w.directory l = .ok bytes) :
    Faulty (loadOwn l w).1 ↔ ∃ format, formatOf? l = some format ∧ format.Traps bytes := by
  rw [loadOwn, formatOf?, if_neg hname]
  split
  · have hfile := faulty_reading_iff .toml (.configUnreadable l.text)
      (.configInvalid "TOML" l.text) (fun table => pure { table }) (by simp) (by simp)
      (fun _ => Iff.rfl) (fun _ => not_faulty_ok _) hread
    exact hfile.trans (by simp)
  split
  · have hfile := faulty_reading_iff .yaml (.configUnreadable l.text)
      (.configInvalid "YAML" l.text) (fun tree => lift (ofTree l tree)) (by simp) (by simp)
      (fun _ => Iff.rfl) (fun _ => not_faulty_ofTree) hread
    exact hfile.trans (by simp)
  split
  · have hfile := faulty_reading_iff .json (.configUnreadable l.text)
      (.configInvalid "JSON" l.text) (fun v => lift (ofValue "JSON" l v)) (by simp) (by simp)
      (fun _ => Iff.rfl) (fun _ => not_faulty_ofValue) hread
    exact hfile.trans (by simp)
  · have hthrown (e : Failure) (he : ∀ f, e ≠ .fault f) :
        ¬Faulty ((throw e : Work Configuration) w).1 :=
      fun ⟨f, h⟩ => he f (Except.error.inj h)
    simpa using hthrown _ (by simp)

/-! ## Named files -/

theorem asks_load : Asks (load l) := by
  refine .get fun w => (Asks.lift _).bind fun there => .ite (.throw _) (.ite (.throw _) ?_)
  refine .ite ?_ ?_
  · exact asks_loadProject.bind fun _ => .pure _
  · exact asks_loadOwn

/-- Loading a file that is there is reading it. -/
theorem load_of_read (hread : w.disk.read w.directory l = .ok bytes) :
    load l w = (if Text.lower l.name = projectName then do
      return { table := ← loadProject l } else loadOwn l : Work Configuration) w := by
  have hthere : liftFault (w.disk.contains w.directory l) w = (.ok true, w) := by
    rw [Disk.contains_of_read hread]
    rfl
  rw [load, bind_of_ok (get_apply w), bind_of_ok hthere, Disk.isFile_of_read hread]
  rfl

/-- A file that cannot be read is missing or no file, unless its name is too long to ask. -/
theorem answer_load_of_not_read (hread : ∀ bytes, w.disk.read w.directory l ≠ .ok bytes) :
    (load l w).1 = match w.disk.contains w.directory l with
      | .error f => .error (.fault f)
      | .ok there => .error (if there then .configNotFile l.text else .configMissing l.text) := by
  have hfile : w.disk.isFile w.directory l = false := Bool.eq_false_iff.2 fun h =>
    (Disk.exists_read_of_isFile h).elim hread
  rw [load, bind_of_ok (get_apply w), bind_apply, liftFault_apply]
  cases w.disk.contains w.directory l with
  | error f => rfl
  | ok there =>
    cases there with
    | false => rfl
    | true =>
      rw [mapError_ok]
      rw [hfile]
      rfl

/-- **A configuration file stumbles over a name that is too long and over what it holds**, and over
nothing else. -/
theorem faulty_load_iff : Faulty (load l w).1 ↔
    (∃ f, w.disk.contains w.directory l = .error f) ∨ ∃ format bytes, formatOf? l = some format ∧
      w.disk.read w.directory l = .ok bytes ∧ format.Traps bytes := by
  by_cases hread : ∃ bytes, w.disk.read w.directory l = .ok bytes
  · obtain ⟨bytes, hread⟩ := hread
    rw [load_of_read hread, Disk.contains_of_read hread, hread]
    by_cases hname : Text.lower l.name = projectName
    · rw [if_pos hname, answer_bind asks_loadProject, faulty_bind, faulty_loadProject_iff hread,
        formatOf?, if_pos hname]
      have hpure (fields : Entries Value) :
          ¬Faulty ((pure { table := fields } : Work Configuration) w).1 := not_faulty_ok _
      simp [hpure]
    · rw [if_neg hname, faulty_loadOwn_iff hname hread]
      simp
  · have hnone : ∀ bytes, w.disk.read w.directory l ≠ .ok bytes := not_exists.1 hread
    rw [answer_load_of_not_read hnone]
    cases w.disk.contains w.directory l with
    | error f => simp [Faulty]
    | ok there => cases there <;> simp [Faulty, hnone]

/-! ## Failures

All that is no fault is said with one category, and so a run that is given such a file ends with one
exit code. -/

theorem refused_readText {unreadable : Failure} {text? : List UInt8 → Option String}
    (hunreadable : unreadable.category = .argument) :
    FailsOnly IsRefused (readText unreadable text? l w).1 := by
  refine failsOnly_bind (Asks.reportingAs (.ask _)) ?_ fun bytes => ?_
  · rw [reportingAs, ask_apply, liftFault_apply]
    cases w.disk.read w.directory l with
    | ok bytes => exact .ok _
    | error f =>
      refine .error ?_
      split
      · exact .inr hunreadable
      · exact .inl ⟨f, rfl⟩
  · cases text? bytes with
    | some text => exact .ok _
    | none => exact .error (.inl ⟨_, rfl⟩)

theorem refused_liftProblem {malformed : Failure} (hmalformed : malformed.category = .argument)
    (r : Except Problem α) : FailsOnly IsRefused (liftProblem malformed r w).1 := by
  cases r with
  | ok a => exact .ok _
  | error p =>
    cases p with
    | malformed => exact .error (.inr hmalformed)
    | fault f => exact .error (.inl ⟨f, rfl⟩)

/-- A project file that cannot be used is refused, if it does not stumble. -/
theorem refused_loadProject : FailsOnly IsRefused (loadProject l w).1 :=
  failsOnly_bind asks_readText (refused_readText rfl) fun _ =>
    failsOnly_bind (.lift _) (refused_liftProblem rfl _) fun _ => refused_sectionOf

/-- A file of its own that cannot be used is refused, if it does not stumble. -/
theorem refused_loadOwn : FailsOnly IsRefused (loadOwn l w).1 := by
  rw [loadOwn]
  split
  · exact failsOnly_bind asks_readText (refused_readText rfl) fun _ =>
      failsOnly_bind (.lift _) (refused_liftProblem rfl _) fun _ => .ok _
  split
  · refine failsOnly_bind asks_readText (refused_readText rfl) fun _ =>
      failsOnly_bind (.lift _) (refused_liftProblem rfl _) fun tree => ?_
    change FailsOnly IsRefused (ofTree l tree)
    unfold ofTree
    split
    · exact .ok _
    · exact .error (.inr rfl)
  split
  · refine failsOnly_bind asks_readText (refused_readText rfl) fun _ =>
      failsOnly_bind (.lift _) (refused_liftProblem rfl _) fun v => ?_
    change FailsOnly IsRefused (ofValue "JSON" l v)
    unfold ofValue
    split
    · exact .ok _
    · exact .error (.inr rfl)
  · exact .error (.inr rfl)

/-- A configuration file that cannot be used is refused, if it does not stumble. -/
theorem refused_load : FailsOnly IsRefused (load l w).1 := by
  by_cases hread : ∃ bytes, w.disk.read w.directory l = .ok bytes
  · obtain ⟨bytes, hread⟩ := hread
    rw [load_of_read hread]
    split
    · exact failsOnly_bind asks_loadProject refused_loadProject fun _ => .ok _
    · exact refused_loadOwn
  · rw [answer_load_of_not_read (not_exists.1 hread)]
    split
    · exact .error (.inl ⟨_, rfl⟩)
    · split
      · exact .error (.inr rfl)
      · exact .error (.inr rfl)

end MdxPages.Config
