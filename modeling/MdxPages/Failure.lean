import MdxPages.Fault
import MdxPages.Text.Search

/-!
# Failure — why the program refuses its input

Each cause is a constructor, its wording is `message`, and the exit code of the command line hangs
on the `Category` alone.
-/

namespace MdxPages

/-- What a failure is about. -/
inductive Category
  | general
  | validation
  | file
  | fileNotFound
  | fileAccess
  | malformedFile
  | parsing
  | rendering
  | outputWrite
  | transform
  | includeCycle
  | security
  | archiveSecurity
  | zipSecurity
  | dependency
  | argument
  | missingModule
  | missingKey
  | fault (kind : FaultKind)
deriving DecidableEq, Repr

/-- The exit code under which the command line reports a category. -/
def Category.exitCode : Category → Nat
  | .security | .archiveSecurity | .zipSecurity => 8
  | .dependency | .missingModule => 2
  | .validation => 3
  | .malformedFile => 5
  | .file | .fileNotFound | .fileAccess => 4
  | .parsing => 6
  | .rendering | .outputWrite => 7
  | .general | .transform | .includeCycle | .argument | .missingKey | .fault _ => 1

/-- A package that is missing: its name and the versions asked for. -/
structure MissingPackage where
  name : String
  wanted : String
deriving DecidableEq, Repr

/-- A package of the wrong version: its name, the versions asked for, and the one found. -/
structure VersionMismatch where
  name : String
  wanted : String
  found : String
deriving DecidableEq, Repr

/-- A cause for refusing input. -/
inductive Failure
  | unknownOptions (settings : String) (names : List String)
  | headingDepth (shown : String)
  | fragmentExtension (shown : String)
  | imagesDirectory
  | bulletMarker (shown : String)
  | emphasisMarker (shown : String)
  | strongMarker (shown : String)
  | limitNotPositive (name shown : String)
  | sectionNotTable (name kind : String)
  | rendererSettings (kind : String)
  | fileNotFound (path : String)
  | fileAccess (path : String)
  | invalidJson (path : String)
  | invalidJsonEntry (name : String)
  | invalidBsonEntry (name : String)
  | invalidZip
  | unreadableZip
  | invalidJsonText
  | untypedNode
  | unknownNode (type : String)
  | documentNotObject (kind : String)
  | rootNotObject (kind : String)
  | outputWrite (path : String)
  | includeCycle (fragment : String) (chain : List String)
  | driveEntry (name : String)
  | absoluteEntry (name : String)
  | emptyEntry (shown : String)
  | relativeEntry (name part : String)
  | escapingEntry (name target : String)
  | tooManyEntries (count : Nat) (limit : String)
  | driveName (name : String)
  | suspiciousName (name : String)
  | tooLarge (size limit : String)
  | suspiciousRatio (ratio : String)
  | dependency (message : String)
  | configMissing (path : String)
  | configNotFile (path : String)
  | configNotMapping (format path kind : String)
  | configInvalid (format path : String)
  | configUnreadable (path : String)
  | projectInvalid (path : String)
  | projectUnreadable (path : String)
  | projectSection (path kind : String)
  | configFormat (extension : String)
  | fault (f : Fault)
deriving DecidableEq, Repr

namespace Failure

/-- A problem of a text as a failure, which is the given one if the form of the text is wrong. -/
def ofProblem (malformed : Failure) : Problem → Failure
  | .malformed => malformed
  | .fault f => .fault f

/-- What a cause is about. -/
def category : Failure → Category
  | unknownOptions .. | headingDepth _ | fragmentExtension _ | imagesDirectory | bulletMarker _
  | emphasisMarker _ | strongMarker _ | limitNotPositive .. | sectionNotTable ..
  | rendererSettings _ => .validation
  | fileNotFound _ => .fileNotFound
  | fileAccess _ => .fileAccess
  | invalidJson _ | invalidJsonEntry _ | invalidBsonEntry _ | invalidZip | unreadableZip =>
    .malformedFile
  | invalidJsonText | untypedNode | unknownNode _ | documentNotObject _ | rootNotObject _ =>
    .parsing
  | outputWrite _ => .outputWrite
  | includeCycle .. => .includeCycle
  | driveEntry _ | absoluteEntry _ | emptyEntry _ | relativeEntry .. | escapingEntry .. =>
    .archiveSecurity
  | tooManyEntries .. | driveName _ | suspiciousName _ | tooLarge .. | suspiciousRatio _ =>
    .zipSecurity
  | dependency _ => .dependency
  | configMissing _ | configNotFile _ | configNotMapping .. | configInvalid .. | configUnreadable _
  | projectInvalid _ | projectUnreadable _ | projectSection .. | configFormat _ => .argument
  | fault f => .fault f.kind

/-- The wording of a cause.  What a reader of a foreign format found wrong is not told apart. -/
def message : Failure → String
  | unknownOptions settings names =>
    "Unknown option(s) for " ++ settings ++ ": " ++ Text.join ", " names
  | headingDepth shown => "max_heading_depth must be between 1 and 6, got " ++ shown
  | fragmentExtension shown => "fragment_extension must start with '.', got " ++ shown
  | imagesDirectory => "images_dir_name must be a single non-empty path segment"
  | bulletMarker shown => "bullet_marker must be one of '-', '*', '+', got " ++ shown
  | emphasisMarker shown => "emphasis_marker must be '*' or '_', got " ++ shown
  | strongMarker shown => "strong_marker must be '**' or '__', got " ++ shown
  | limitNotPositive name shown => name ++ " must be positive, got " ++ shown
  | sectionNotTable name kind =>
    "Configuration section [" ++ name ++ "] must be a table, got " ++ kind
  | rendererSettings kind => "mdx renderer expects MdxRendererOptions, got " ++ kind
  | fileNotFound path => "File not found: " ++ path
  | fileAccess path => "Cannot access file: " ++ path
  | invalidJson path => "Invalid JSON in " ++ path ++ ": not a JSON text"
  | invalidJsonEntry name => "Invalid JSON in archive entry " ++ name ++ ": not a JSON text"
  | invalidBsonEntry name => "Invalid BSON in archive entry " ++ name ++ ": not a BSON document"
  | invalidZip => "Invalid ZIP archive: not an archive"
  | unreadableZip => "Could not read ZIP archive: not readable"
  | invalidJsonText => "Invalid JSON: not a JSON text"
  | untypedNode => "Node data must be an object with a 'type' field"
  | unknownNode type => "Unknown node type: " ++ type
  | documentNotObject kind => "Expected a JSON object, got " ++ kind
  | rootNotObject kind => "Expected the 'ast' field to be an object, got " ++ kind
  | outputWrite path => "Failed to write output file: " ++ path
  | includeCycle fragment chain =>
    "Include cycle detected: " ++ Text.join " -> " (chain ++ [fragment])
  | driveEntry name => "Unsafe Windows absolute path in archive entry: " ++ name
  | absoluteEntry name => "Unsafe absolute path in archive entry: " ++ name
  | emptyEntry shown => "Empty path in archive entry: " ++ shown
  | relativeEntry name part =>
    "Unsafe path component in archive entry: " ++ name ++ " (contains '" ++ part ++ "')"
  | escapingEntry name target => "Path escapes output directory: " ++ name ++ " -> " ++ target
  | tooManyEntries count limit =>
    "ZIP archive contains too many entries: " ++ toString count ++ " > " ++ limit
  | driveName name => "ZIP archive contains Windows absolute path: " ++ name
  | suspiciousName name => "ZIP archive contains suspicious path: " ++ name
  | tooLarge size limit =>
    "ZIP archive uncompressed size too large: " ++ size ++ "MB > " ++ limit ++ "MB"
  | suspiciousRatio ratio => "ZIP archive has suspicious compression ratio: " ++ ratio ++ ":1"
  | dependency message => message
  | configMissing path => "Configuration file does not exist: " ++ path
  | configNotFile path => "Configuration path is not a file: " ++ path
  | configNotMapping format path kind =>
    format ++ " config file " ++ path ++ " must contain a mapping at root level, got " ++ kind
  | configInvalid format path =>
    "Invalid " ++ format ++ " in config file " ++ path ++ ": not well-formed"
  | configUnreadable path => "Error reading config file " ++ path ++ ": not readable"
  | projectInvalid path => "Invalid TOML in pyproject.toml " ++ path ++ ": not well-formed"
  | projectUnreadable path => "Error reading pyproject.toml " ++ path ++ ": not readable"
  | projectSection path kind =>
    "[tool.snooty2mdx] section in " ++ path ++ " must be a table, got " ++ kind
  | configFormat extension =>
    "Unsupported config file format: " ++ extension ++ ". Use .json, .toml, or .yaml"
  | fault f => f.message

/-- The exit code under which the command line reports a failure. -/
def exitCode (f : Failure) : Nat :=
  f.category.exitCode

end Failure

end MdxPages
