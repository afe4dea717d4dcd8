import MdxPages.Cli.Flag
import MdxPages.Config.Loading
import MdxPages.Options.Archive
import MdxPages.Options.Conversion
import MdxPages.Options.Rendering
import MdxPages.Text.Search

/-!
# Cli/Settings — the settings of the stages from flags and configuration

What a flag or its variable gives goes before what the section of the stage in the configuration
gives, and that before the default.
-/

namespace MdxPages.Cli

/-- The settings of all stages. -/
structure Settings where
  conversion : ConversionOptions
  rendering : RenderOptions
  archive : ArchiveOptions
deriving Repr, Inhabited

/-- The values that the command line gives to the fields of a stage. -/
def givenFields (stage : Stage) (values : Entries Value) : Entries Value :=
  let start := stage.name ++ "."
  values.filterMap fun (key, v) =>
    if Text.startsWith key start then some (String.ofList (key.toList.drop start.length), v)
    else none

/-- The updates that configuration and command line make to the settings of a stage. -/
def updatesOf (stage : Stage) (config : Configuration) (values : Entries Value) :
    Except Failure (Entries Value) := do
  return (← config.fieldsOf stage.name).merge (givenFields stage values)

/-- The settings of all stages. -/
def settings (config : Configuration) (values : Entries Value) : Except Failure Settings := do
  let conversion ← ConversionOptions.update {} (← updatesOf .snooty config values)
  let rendering ← RenderOptions.update {} (← updatesOf .mdx config values)
  let archive ← ArchiveOptions.update {} (← updatesOf .archive config values)
  return { conversion, rendering, archive }

end MdxPages.Cli
