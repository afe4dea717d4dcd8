import MdxPages.Text.Case
import MdxPages.Value.Basic
import MdxPages.Number.Reading
import MdxPages.Text.Search
import MdxPages.Text.Space

/-!
# Cli/Flag — the flags of the command line and the variables for their defaults

A flag has its spellings, the name under which its value is kept, and what it does.  For every
field of the settings of a stage there is one flag, named `--stage-field`; a field that is on by
default has a flag `--stage-no-field` that turns it off.  A variable of the environment gives its
default; one whose text does not convert counts as unset, and a warning says so.
-/

namespace MdxPages.Cli

/-- How the text of a value is read. -/
inductive ValueType
  | text
  | upperText
  | int
  | float
deriving DecidableEq, Repr

/-- What a flag does. -/
inductive FlagAction
  | store (type : ValueType) (choices : List String)
  | storeMany
  | turnOn
  | turnOff
  | help
  | version
deriving DecidableEq, Repr

/-- A flag of the command line. -/
structure Flag where
  spellings : List String
  name : String
  action : FlagAction
deriving DecidableEq, Repr

/-- Whether a flag takes a value, or several. -/
def Flag.takesValue (f : Flag) : Bool :=
  match f.action with
  | .store .. | .storeMany => true
  | _ => false

/-- The value that a text stands for. -/
def ValueType.read? (type : ValueType) (s : String) : Option Value :=
  match type with
  | .text => some (.str s)
  | .upperText => some (.str (Text.upper s))
  | .int => (Number.int? s).map .int
  | .float => (Number.double? s).map .float

/-- The names of log levels that the command line takes. -/
def levelNames : List String := ["DEBUG", "INFO", "WARNING", "ERROR", "CRITICAL"]

/-- The flags that belong to no stage. -/
def generalFlags : List Flag :=
  [⟨["-h", "--help"], "help", .help⟩,
    ⟨["-o", "--out"], "out", .store .text []⟩,
    ⟨["--references"], "references", .store .text []⟩,
    ⟨["--mdast-json"], "mdast_json", .store .text []⟩,
    ⟨["--config"], "config", .store .text []⟩,
    ⟨["--no-config"], "no_config", .turnOn⟩,
    ⟨["--log-level"], "log_level", .store .upperText levelNames⟩,
    ⟨["-v", "--verbose"], "verbose", .turnOn⟩,
    ⟨["--trace"], "trace", .turnOn⟩,
    ⟨["--log-file"], "log_file", .store .text []⟩,
    ⟨["--version"], "version", .version⟩]

/-- The values that the general flags have when they are not given. -/
def generalDefaults : Entries Value :=
  [("input", .null), ("out", .null), ("references", .null), ("mdast_json", .null),
    ("config", .null), ("no_config", .bool false), ("log_level", .str "WARNING"),
    ("verbose", .bool false), ("trace", .bool false), ("log_file", .null)]

/-- The stages that have settings. -/
inductive Stage
  | snooty
  | mdx
  | archive
deriving DecidableEq, Repr

/-- The name of a stage. -/
def Stage.name : Stage → String
  | snooty => "snooty"
  | mdx => "mdx"
  | archive => "archive"

/-- The fields of a stage and what their flags do. -/
def Stage.fields : Stage → List (String × FlagAction)
  | snooty =>
    [("fragment_extension", .store .text []), ("default_importer_path", .store .text []),
      ("max_heading_depth", .store .int []), ("images_dir_name", .store .text []),
      ("dropped_empty_directives", .storeMany), ("detect_include_cycles", .turnOff)]
  | mdx =>
    [("bullet_marker", .store .text ["-", "*", "+"]), ("emphasis_marker", .store .text ["*", "_"]),
      ("strong_marker", .store .text ["**", "__"]), ("escape_text", .turnOff)]
  | archive =>
    [("max_entries", .store .int []), ("max_compression_ratio", .store .float []),
      ("max_uncompressed_size", .store .int []), ("extract_assets", .turnOff)]

/-- A name with hyphens for underscores. -/
def hyphenated (name : String) : String :=
  String.ofList (name.toList.map fun c => if c == '_' then '-' else c)

/-- The name under which the value of a field of a stage is kept. -/
def Stage.key (stage : Stage) (field : String) : String :=
  stage.name ++ "." ++ field

/-- The flag of a field of a stage. -/
def Stage.flag (stage : Stage) (field : String) (action : FlagAction) : Flag :=
  let no := if action = .turnOff then "no-" else ""
  ⟨["--" ++ stage.name ++ "-" ++ no ++ hyphenated field], stage.key field, action⟩

/-- The flags of a stage. -/
def Stage.flags (stage : Stage) : List Flag :=
  stage.fields.map fun (field, action) => stage.flag field action

/-- All stages in order. -/
def stages : List Stage := [.snooty, .mdx, .archive]

/-- All flags of the command line. -/
def flags : List Flag :=
  generalFlags ++ stages.flatMap Stage.flags

/-! ## Defaults from the environment -/

/-- The variable that gives the default of a name. -/
def variableFor (name : String) : String :=
  "SNOOTY2MDX_" ++ String.ofList ((Text.upper name).toList.map fun c =>
    if c == '-' || c == '.' then '_' else c)

/-- Texts that mean yes. -/
def trueWords : List String := ["1", "true", "yes", "on"]

/-- Texts that mean no. -/
def falseWords : List String := ["0", "false", "no", "off"]

/-- The truth value that a text means, in any case. -/
def truth? (s : String) : Option Bool :=
  let word := Text.lower (Text.strip s)
  if trueWords.contains word then some true
  else if falseWords.contains word then some false
  else none

/-- What is said about a text that means no truth value. -/
def truthComplaint (s : String) : String :=
  let words := (trueWords ++ falseWords).mergeSort fun a b => decide (a ≤ b)
  "expected one of " ++ (Value.arr (words.map .str)).inspect ++ ", got " ++ Text.quoted s

/-- The names between commas, blank ones left out. -/
def namesIn (s : String) : List String :=
  ((Text.split ',' s).map Text.strip).filter fun name => !name.isEmpty

/-- The value that the text of a variable gives to a flag. -/
def variableValue? (action : FlagAction) (s : String) : Option Value :=
  match action with
  | .store type _ => type.read? s
  | .storeMany => some (.arr ((namesIn s).map .str))
  | .turnOn | .turnOff => (truth? s).map .bool
  | .help | .version => none

/-- The defaults that the environment gives to the fields of the stages. -/
def variableDefaults (environment : Entries String) : Entries Value :=
  (stages.flatMap Stage.flags).filterMap fun flag => do
    let text ← environment.get? (variableFor flag.name)
    return (flag.name, ← variableValue? flag.action text)

/-- The warnings about variables whose text does not convert. -/
def variableWarnings (environment : Entries String) : List String :=
  (stages.flatMap Stage.flags).filterMap fun flag => do
    let text ← environment.get? (variableFor flag.name)
    match variableValue? flag.action text with
    | some _ => none
    | none =>
      some ("Invalid environment variable " ++ variableFor flag.name ++ "=" ++ text ++
        ": not a value of its type")

end MdxPages.Cli
