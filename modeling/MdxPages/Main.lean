import MdxPages.Cli.Command

/-!
# Main — the command line on a real machine

The run itself works on a disk that is data.  This layer first surveys the machine at the places
that the arguments and the search for a configuration name, runs once to learn which further places
the run touches, surveys those too, runs again, and then carries out what has changed.
-/

namespace MdxPages.Machine

open MdxPages

/-- The places from the root down to a place. -/
def wayTo (place : Place) : List Place :=
  (List.range (place.length + 1)).map place.take

/-- What stands at a place of the machine. -/
def look (place : Place) : IO (Option Item) := do
  let path := (Location.ofPlace place).text
  try
    return some (.file (← IO.FS.readBinFile path).toList)
  catch _ =>
    try
      let _ ← IO.FS.realPath path
      return some .folder
    catch _ => return none

/-- A disk that also holds what the machine has at some places and on the way to them. -/
def survey (disk : Disk) (places : List Place) : IO Disk :=
  (places.flatMap wayTo).eraseDups.foldlM
    (fun disk place => do
      match ← look place with
      | some item => return if place.isEmpty then disk else disk.put place item
      | none => return disk)
    disk

/-- The places where a configuration is searched for from a directory. -/
def configPlaces (directory : Place) : List Place :=
  (wayTo directory).flatMap fun folder =>
    (Config.projectName :: Config.fileNames).map fun name => folder ++ [name]

/-- The names of all variables that a run asks for. -/
def variableNames : List String :=
  Cli.configVariable ::
    (Cli.stages.flatMap Cli.Stage.flags).map fun flag => Cli.variableFor flag.name

/-- The variables that are set. -/
def readEnvironment : IO (Entries String) :=
  variableNames.filterMapM fun name => do
    return (← IO.getEnv name).map fun text => (name, text)

/-- The places that arguments may name: each argument, and what follows an equals sign in it. -/
def namedPlaces (directory : Place) (environment : Entries String) (arguments : List String) :
    List Place :=
  let texts := (environment.get? Cli.configVariable).toList ++
    arguments.flatMap fun s => s :: (Cli.splitEquals s).2.toList
  (texts.filter fun s => !s.isEmpty).map fun s => Disk.lexicalPlace directory (.ofString s)

/-- What a run changes: the places whose item is new, each with its item. -/
def changes (before after : Disk) : List (Place × Item) :=
  after.items.filter fun (place, item) => before.at? place != some item

/-- Carry out a change. -/
def carryOut : Place × Item → IO Unit
  | (place, .folder) => IO.FS.createDirAll (Location.ofPlace place).text
  | (place, .file bytes) =>
    IO.FS.writeBinFile (Location.ofPlace place).text ⟨bytes.toArray⟩
  | (_, .link _) => return

/-- Run the command line on the machine; the exit code. -/
def run (arguments : List String) : IO UInt32 := do
  let directory := (Location.ofString (← IO.FS.realPath ".").toString).names
  let environment ← readEnvironment
  let command := Cli.run environment arguments
  let surveyed ← survey {} (configPlaces directory ++ namedPlaces directory environment arguments)
  let (_, tried) := command { disk := surveyed, directory }
  let disk ← survey surveyed ((changes surveyed tried.disk).map Prod.fst)
  let (result, done) := command { disk, directory }
  (changes disk done.disk).forM carryOut
  match result with
  | .ok (.ok outcome) => do
    IO.print outcome.output
    IO.eprint outcome.errors
    return outcome.exitCode.toUInt32
  | .ok (.error stop) => do
    IO.eprint Cli.usage
    return stop.exitCode.toUInt32
  | .error f => throw (IO.userError f.message)

end MdxPages.Machine

/-- The program. -/
def main (arguments : List String) : IO UInt32 :=
  MdxPages.Machine.run arguments
