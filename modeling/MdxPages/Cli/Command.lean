import MdxPages.Cli.Arguments
import MdxPages.Cli.Settings
import MdxPages.Config.Loading
import MdxPages.Log.Setup
import MdxPages.Site.ArchiveFile

/-!
# Cli/Command — a run of the command line

A run reads its arguments, settles how records are shown, loads the configuration, and converts its
input: a page or an archive, as the name says.  Whatever goes wrong while converting is told in one
line and by the exit code; before that, a fault is none of the failures that a run can explain, and
leaves it.
-/

namespace MdxPages.Cli

/-- The name under which the command line logs. -/
def loggerName : String := "snooty2mdx.cli"

/-- The variable that names a configuration file. -/
def configVariable : String := "SNOOTY2MDX_CONFIG"

/-- What a run leaves behind besides its files: its exit code and the texts of its two outputs. -/
structure Outcome where
  exitCode : Nat
  output : String := ""
  errors : String := ""
deriving DecidableEq, Repr, Inhabited

/-- The exit code of arguments and configurations that are refused. -/
def refusedCode : Nat := 3

/-- How the program is called. -/
def usage : String := "usage: snooty2mdx [options] [input]\n"

/-- What is said about a failure. -/
def complaint (message : String) : String :=
  "Error: " ++ message ++ "\n"

/-! ## Arguments -/

/-- Whether a switch is on. -/
def isOn (name : String) (values : Entries Value) : Bool :=
  (Value.field name values).isGiven

/-- The text that a flag gives, if it gives one. -/
def textOf? (name : String) (values : Entries Value) : Option String :=
  (Value.field name values).str?

/-- The number of the level that the arguments ask for: tracing shows all, and so does a verbose run
that names no other level.  A level has to have a name. -/
def levelNumber (values : Entries Value) : Except Fault Int :=
  let level := Value.field "log_level" values
  if isOn "trace" values || (isOn "verbose" values && level.strOrEmpty == Level.warning.name) then
    .ok Level.debug.number
  else
    match level with
    | .str name => .ok ((Level.numberOf? name).getD Level.info.number)
    | v => .error (.notAName v.kindName)

/-- Whether the name of an input has an ending that is known. -/
def isInput (input : String) : Bool :=
  let name := Text.lower input
  [".json", ".zip"].any (Text.endsWith name)

/-! ## Configuration -/

/-- The settings that the configuration and the arguments give. -/
def configure (environment : Entries String) (values : Entries Value) : Work Settings := do
  let config ←
    if isOn "no_config" values then pure {}
    else
      Config.loadByPriority (textOf? "config" values) (environment.get? configVariable) true
  Work.lift (settings config values)

/-- The exit code of a run whose configuration is refused. -/
def configurationCode (f : Failure) : Nat :=
  if f.category = .argument then refusedCode else f.exitCode

/-! ## Conversion

A failure of the conversion is recorded and becomes an exit code. -/

/-- What is said about a written page. -/
def pageReport (page : Site.Page) (tree : Option String) : String :=
  "✓ Wrote " ++ Site.filesText page.written.length ++ "\n" ++
  "✓ Wrote " ++ page.output.text ++ "\n" ++
  match tree.filter fun s => !s.isEmpty with
  | some path => "✓ Wrote mdast JSON " ++ path ++ "\n"
  | none => ""

/-- What is said about a converted archive. -/
def archiveReport (c : Site.Converted) : String :=
  "✓ Wrote " ++ toString (Site.fileCount c.pages) ++ " files\n" ++
  (if c.assets.isEmpty then ""
    else "✓ Wrote " ++ toString c.assets.length ++ " static assets\n") ++
  "✓ Wrote folder " ++ c.output.text ++ "/\n"

/-- Convert the input; what is said about it. -/
def convert (s : Settings) (values : Entries Value) (input : Location) : Work String := do
  let output := Value.field "out" values
  let references := Value.field "references" values
  let options : Site.PageOptions := ⟨s.conversion, s.rendering⟩
  if Text.lower input.suffix = ".json" then
    let tree := Value.field "mdast_json" values
    return pageReport (← Site.convertFile options input { output, references, tree }) tree.str?
  else
    return archiveReport (← Site.convertArchive options s.archive input output references)

/-- Leave a record of a failed conversion; a fault is not expected, all else is. -/
def recordFailed : Failure → Work Unit
  | .fault _ => Work.record loggerName .error "Unexpected error during conversion"
  | _ => Work.record loggerName .debug "Conversion failed"

/-- Convert the input and tell how it went. -/
def convertTelling (s : Settings) (values : Entries Value) (input : Location) : Work Outcome := do
  let announced := "Converting " ++ input.text ++ " to MDX...\n"
  match ← Work.attempt (convert s values input) with
  | .ok report => return { exitCode := 0, output := announced ++ report }
  | .error f => do
    recordFailed f
    return { exitCode := f.exitCode, output := announced, errors := complaint f.message }

/-- Configure the run, convert the input and tell how it went. -/
def configureAndConvert (environment : Entries String) (values : Entries Value) (input : String) :
    Work Outcome := do
  match ← Work.attempt (configure environment values) with
  | .ok s => convertTelling s values (.ofString input)
  | .error (.fault f) => throw (.fault f)
  | .error f => return { exitCode := configurationCode f, errors := complaint f.message }

/-! ## Runs

How records are shown is settled before the configuration is loaded, for that can fail as well. -/

/-- Do work whose records are shown as the arguments ask. -/
def showingRecords (values : Entries Value) (work : Work Outcome) : Work Outcome := do
  let earlier := (← get).log.length
  let level ← Work.liftFault (levelNumber values)
  let setup ← openLog level (textOf? "log_file" values) (isOn "trace" values)
  let ended ← Work.attempt work
  let records := (← get).log.drop earlier
  writeLog setup records
  let outcome ← Work.lift ended
  return { outcome with errors := setup.consoleText records ++ outcome.errors }

/-- A run whose arguments have been read. -/
def runWith (environment : Entries String) (values : Entries Value) : Work Outcome :=
  match (textOf? "input" values).getD "" with
  | "" => return { exitCode := refusedCode, errors := complaint "No input file provided" ++ usage }
  | input =>
    if isInput input then showingRecords values (configureAndConvert environment values input)
    else
      return { exitCode := refusedCode
               errors := complaint "Input file must end in .json or .zip" ++ usage }

/-- The warnings about the environment, which are shown before any other record. -/
def environmentComplaints (environment : Entries String) : String :=
  String.join ((variableWarnings environment).map fun warning =>
    Level.warning.name ++ ":" ++ rootLogger ++ ":" ++ warning ++ "\n")

/-- A run of the command line; it can stop at its arguments. -/
def run (environment : Entries String) (arguments : List String) : Work (Except Stop Outcome) := do
  match parseArguments environment arguments with
  | .error stop => return .error stop
  | .ok values =>
    let outcome ← runWith environment values
    return .ok { outcome with errors := environmentComplaints environment ++ outcome.errors }

end MdxPages.Cli
