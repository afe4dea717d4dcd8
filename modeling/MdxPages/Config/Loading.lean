import MdxPages.Failure
import MdxPages.Json.Reader
import MdxPages.Site.Work
import MdxPages.Text.Case
import MdxPages.Toml.Reader
import MdxPages.Yaml.Reader
import MdxPages.Yaml.Tree

/-!
# Config/Loading — configuration files, and where they are found

A configuration is a table with a section for each stage.  In a format whose keys need not be texts
a section can hold a key that names no field; such a section cannot be used.

A configuration stands in a file of its own, in TOML, YAML or JSON, or in a section of the project
file.  Where no file is named, the nearest one counts, going up from a directory.
-/

namespace MdxPages

/-- A configuration: its table, and the names of the sections that hold a key that is no text. -/
structure Configuration where
  table : Entries Value := []
  misnamed : List String := []
deriving Repr, Inhabited

namespace Configuration

/-- The configuration in a YAML document, if it is a table. -/
def ofTree? : Yaml.Tree → Option Configuration
  | .table pairs =>
    some ⟨Yaml.Pairs.fields (pairs.map fun (k, t) => (k, t.toSection)),
      (pairs.filter fun (_, t) => t.hasOtherKey).map fun (k, _) => k.name⟩
  | _ => none

/-- The fields of a section, none if it is missing. -/
def fieldsOf (c : Configuration) (name : String) : Except Failure (Entries Value) :=
  match c.table.get? name with
  | none => .ok []
  | some (.obj fields) =>
    if c.misnamed.contains name then .error (.fault .keyNotText) else .ok fields
  | some v => .error (.sectionNotTable name v.kindName)

end Configuration

namespace Config

/-- The names of configuration files, the first that is there counting. -/
def fileNames : List String :=
  [".snooty2mdx.toml", ".snooty2mdx.yaml", ".snooty2mdx.yml", ".snooty2mdx.json"]

/-- The name of the project file. -/
def projectName : String := "pyproject.toml"

/-- The name of the section in the tools of the project file. -/
def projectSection : String := "snooty2mdx"

/-- The text of a file; `text?` reads its bytes. -/
def readText (unreadable : Failure) (text? : List UInt8 → Option String) (l : Location) :
    Work String := do
  let bytes ← Work.reportingAs unreadable (Work.ask fun d directory => d.read directory l)
  match text? bytes with
  | some text => return text
  | none => throw (.fault .badEncoding)

/-- The section of a project table, empty if it is missing. -/
def sectionOf (path : String) (project : Entries Value) : Except Failure (Entries Value) :=
  match project.get? "tool" with
  | none => .ok []
  | some (.obj tools) =>
    match Entries.get? projectSection tools with
    | none => .ok []
    | some (.obj fields) => .ok fields
    | some v => .error (.projectSection path v.kindName)
  | some v => .error (.fault (.noAttribute v.kindName "get"))

/-- The section of a project file. -/
def loadProject (l : Location) : Work (Entries Value) := do
  let text ← readText (.projectUnreadable l.text) Bytes.text? l
  let project ← Work.liftProblem (.projectInvalid l.text) (Toml.read text)
  Work.lift (sectionOf l.text project)

/-- The configuration that a value is, if it is a table. -/
def ofValue (format : String) (l : Location) : Value → Except Failure Configuration
  | .obj fields => .ok { table := fields }
  | v => .error (.configNotMapping format l.text v.kindName)

/-- The configuration that a YAML document is, if it is a table. -/
def ofTree (l : Location) (tree : Yaml.Tree) : Except Failure Configuration :=
  match Configuration.ofTree? tree with
  | some c => .ok c
  | none => .error (.configNotMapping "YAML" l.text tree.toValue.kindName)

/-- The configuration in a file of its own, whose format its extension names. -/
def loadOwn (l : Location) : Work Configuration := do
  let unreadable := Failure.configUnreadable l.text
  let extension := Text.lower l.suffix
  if extension = ".toml" then
    let text ← readText unreadable Bytes.text? l
    return { table := ← Work.liftProblem (.configInvalid "TOML" l.text) (Toml.read text) }
  else if extension = ".yaml" ∨ extension = ".yml" then
    let text ← readText unreadable Bytes.linesText? l
    let tree ← Work.liftProblem (.configInvalid "YAML" l.text) (Yaml.read text)
    Work.lift (ofTree l tree)
  else if extension = ".json" then
    let text ← readText unreadable Bytes.linesText? l
    let v ← Work.liftProblem (.configInvalid "JSON" l.text) (Json.read text)
    Work.lift (ofValue "JSON" l v)
  else throw (.configFormat extension)

/-- The configuration in a named file. -/
def load (l : Location) : Work Configuration := do
  let w ← get
  if !(← Work.liftFault (w.disk.contains w.directory l)) then throw (.configMissing l.text)
  if !w.disk.isFile w.directory l then throw (.configNotFile l.text)
  if Text.lower l.name = projectName then return { table := ← loadProject l } else loadOwn l

/-! ## Search -/

/-- The section of a project file; a file that cannot be used counts as one without the section. -/
def projectOrNone (l : Location) : Work (Entries Value) :=
  tryCatch (loadProject l) fun f =>
    if f.category = .argument then return [] else throw f

/-- The configuration file in a folder, if there is one. -/
def findIn (folder : Place) : Work (Option Location) := do
  let w ← get
  let there (name : String) : Bool := w.disk.isFile w.directory (.ofPlace (folder ++ [name]))
  match fileNames.find? there with
  | some name => return some (.ofPlace (folder ++ [name]))
  | none =>
    if there projectName then
      let l := Location.ofPlace (folder ++ [projectName])
      return if (← projectOrNone l).isEmpty then none else some l
    else return none

/-- The nearest configuration file going up from a folder, whose names are given from the last to
the first. -/
def findUp : (names : List String) → Work (Option Location)
  | [] => findIn []
  | name :: above => do
    match ← findIn (name :: above).reverse with
    | some l => return some l
    | none => findUp above

/-- The nearest configuration file going up from a directory, the current one where nothing else is
said. -/
def find (start : Option Location) : Work (Option Location) := do
  let w ← get
  let folder ← Work.liftFault (w.disk.resolve w.directory (start.getD ⟨0, []⟩))
  findUp folder.reverse

/-- A text that says something. -/
def given? (s : Option String) : Option String :=
  s.filter fun s => !s.isEmpty

/-- The configuration in the file that is named explicitly, else in the one that the environment
names, else in the nearest one, if it may be searched for. -/
def loadByPriority (explicit environment : Option String) (discover : Bool) :
    Work Configuration := do
  match given? explicit <|> given? environment with
  | some path => load (.ofString path)
  | none =>
    if discover then
      match ← find none with
      | some l => load l
      | none => return {}
    else return {}

end Config

end MdxPages
