import MdxPages.Log
import MdxPages.Site.Work
import MdxPages.Text.Case

/-!
# Log/Setup — which records are shown, where, and how

A level holds back the records below it.  Tracing shows all records of the program itself, with
time, logger and line; as data a record has neither time nor line, so `<time>` and `<line>` stand
for them.
-/

namespace MdxPages

/-- The number of a level by name. -/
def Level.numberOf? (name : String) : Option Nat :=
  [("CRITICAL", 50), ("FATAL", 50), ("ERROR", 40), ("WARNING", 30), ("WARN", 30), ("INFO", 20),
    ("DEBUG", 10), ("NOTSET", 0)].lookup name

/-- The form of a record as a text. -/
def recordForm : String := "%(levelname)s:%(name)s:%(message)s"

/-- What a level is that is given by number or by name in any case; a name that is none counts as
`INFO`.  The name `BASIC_FORMAT` is that of the form of a record, which is no level. -/
def Level.resolve (v : Value) : Value :=
  match v with
  | .bool b => .bool b
  | .num (.int i) => .int i
  | v =>
    let name := Text.upper v.text
    if name = "BASIC_FORMAT" then .str recordForm
    else .int ((Level.numberOf? name).getD Level.info.number : Nat)

/-- The number of a level that is given by number or by name. -/
def Level.resolved (v : Value) : Except Fault Int :=
  match Level.resolve v with
  | .num (.int i) => .ok i
  | .bool b => .ok b.toNat
  | v => .error (.notALevel v.inspect)

/-- How records are shown: the least level, whether they are traced, and whether a file gets them
too. -/
structure LogSetup where
  level : Int
  trace : Bool
  file : Option Location := none
deriving Repr, Inhabited

/-- The name of the logger above all loggers of the program. -/
def packageLogger : String := "snooty2mdx"

/-- The name of the logger above all loggers. -/
def rootLogger : String := "root"

/-- Whether a logger belongs to the program. -/
def isPackageLogger (name : String) : Bool :=
  name == packageLogger || Text.startsWith name (packageLogger ++ ".")

namespace LogSetup

/-- Whether a record is let through by its logger. -/
def admits (s : LogSetup) (e : LogEntry) : Bool :=
  let least := if s.trace && isPackageLogger e.logger then (Level.debug.number : Int) else s.level
  least ≤ e.level.number

/-- Whether a record is shown on the console. -/
def showsOnConsole (s : LogSetup) (e : LogEntry) : Bool :=
  s.admits e && decide ((if s.trace then (Level.debug.number : Int) else s.level) ≤ e.level.number)

/-- Whether a record goes to the file. -/
def showsInFile (s : LogSetup) (e : LogEntry) : Bool :=
  s.admits e && decide (s.level ≤ e.level.number)

/-- A record as it is shown. -/
def line (s : LogSetup) (e : LogEntry) : String :=
  if s.trace then
    "[<time>] [" ++ e.level.name ++ "] [" ++ e.logger ++ ":<line>] " ++ e.message ++ "\n"
  else e.level.name ++ ": " ++ e.message ++ "\n"

/-- What records show on the console. -/
def consoleText (s : LogSetup) (entries : List LogEntry) : String :=
  String.join ((entries.filter s.showsOnConsole).map s.line)

/-- What records leave in the file. -/
def fileText (s : LogSetup) (entries : List LogEntry) : String :=
  String.join ((entries.filter s.showsInFile).map s.line)

end LogSetup

/-- A location by its names alone, from the root. -/
def absoluteLocation (directory : Place) (l : Location) : Location :=
  .ofPlace (Disk.lexicalPlace directory l)

/-- Set up how records are shown.  A log file is opened at once; one that cannot be opened is left
out with a warning. -/
def openLog (level : Int) (file : Option String) (trace : Bool) : Work LogSetup := do
  let setup : LogSetup := { level, trace }
  match file.filter fun s => !s.isEmpty with
  | none => return setup
  | some path => do
    let w ← get
    let l := absoluteLocation w.directory (.ofString path)
    match w.disk.append w.directory l [] with
    | .ok disk => do
      set { w with disk }
      Work.record rootLogger .info ("Logging to file: " ++ path)
      return { setup with file := some l }
    | .error f =>
      if f.isSystem then
        Work.record rootLogger .warning
          ("Could not create log file " ++ path ++ ": " ++ f.message)
        return setup
      else throw (.fault f)

/-- Append the records to the log file, if there is one. -/
def writeLog (setup : LogSetup) (entries : List LogEntry) : Work Unit :=
  match setup.file with
  | none => return
  | some l =>
    Work.change fun d directory => d.append directory l (Bytes.ofText (setup.fileText entries))

end MdxPages
