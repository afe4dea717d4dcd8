import MdxPages.Entries
import MdxPages.Failure
import MdxPages.Log
import MdxPages.Options.Conversion
import MdxPages.Path.Asset
import MdxPages.Tree.Node

/-!
# Convert/Session — the state of a conversion and the steps that touch it

A conversion owns the imports and the metadata of the file that it produces; the emitter and the
log belong to the whole run.  A fragment gets a file state of its own and gives the state of the
enclosing file back unchanged (`inNewFile`), so what an include registers stays with its fragment.
The state survives a fault: what was registered and emitted before it stays.
-/

namespace MdxPages.Convert

/-- What one produced file has registered so far, in the order of first registration. -/
structure FileState where
  imports : Entries String := []
  metadata : Entries Value := []
deriving Inhabited

/-- The state of a run: the file being produced, what the emitter keeps, and the log. -/
structure Session (σ : Type) where
  file : FileState
  emitter : σ
  log : List LogEntry

/-- What an emitter answers: the records it made, and the refusal if there was one. -/
structure Emitted where
  log : List LogEntry := []
  refusal : Option String := none

/-- A receiver of finished fragments. -/
abbrev Emitter (σ : Type) := String → Node → StateM σ Emitted

/-- Steps of a conversion. -/
abbrev Conversion (σ α : Type) := ExceptT Fault (StateM (Session σ)) α

/-- What stays the same throughout a run. -/
structure Run (σ : Type) where
  options : ConversionOptions
  emitter : Option (Emitter σ)

/-- Where a conversion stands: the file that it produces, and the fragments that enclose it,
outermost first. -/
structure Place where
  path : String
  chain : List String
deriving DecidableEq, Repr, Inhabited

/-- The place of a fragment that is included at a place. -/
def Place.enter (place : Place) (fragment : String) : Place :=
  ⟨fragment, place.chain ++ [fragment]⟩

variable {σ α : Type}

/-- The name under which the conversion logs. -/
def loggerName : String := "snooty2mdx.parsers.snooty"

/-- Add a record to the log. -/
def record (level : Level) (message : String) : Conversion σ Unit :=
  modify fun s => { s with log := s.log ++ [⟨level, loggerName, message⟩] }

/-- Change the state of the produced file. -/
def modifyFile (f : FileState → FileState) : Conversion σ Unit :=
  modify fun s => { s with file := f s.file }

/-- Register an import; an empty name or path registers nothing. -/
def registerImport (name path : String) : Conversion σ Unit :=
  if name.isEmpty || path.isEmpty then pure ()
  else modifyFile fun file => { file with imports := file.imports.put name path }

/-- Add options of the page, later ones overwriting earlier ones. -/
def addMetadata (fields : Entries Value) : Conversion σ Unit :=
  modifyFile fun file => { file with metadata := file.metadata.merge fields }

/-- Run a conversion for a file of its own; the enclosing file's state is as before, whether the
conversion succeeds or not. -/
def inNewFile (x : Conversion σ α) : Conversion σ α := fun s =>
  let (result, s') := x { s with file := {} }
  (result, { s' with file := s.file })

/-- Hand a finished fragment to the emitter, if there is one.  A refusal is logged and does not
stop the conversion. -/
def emit (run : Run σ) (path : String) (tree : Node) : Conversion σ Unit :=
  match run.emitter with
  | none => pure ()
  | some emitter => do
    let s ← get
    let (emitted, kept) := emitter path tree s.emitter
    set { s with emitter := kept, log := s.log ++ emitted.log }
    match emitted.refusal with
    | none => pure ()
    | some reason => record .error ("Failed to emit include file " ++ path ++ ": " ++ reason)

/-- The path of the produced file, the default one if it is not known. -/
def importerPath (options : ConversionOptions) (place : Place) : Except Fault String :=
  if place.path.isEmpty then
    match options.defaultImporterPath with
    | .str path => .ok (Path.toPosix path)
    | v => .error (.notText v.kindName)
  else .ok (Path.toPosix place.path)

/-- A heading depth within 1 and the limit. -/
def clampDepth (options : ConversionOptions) (depth : Int) : Number :=
  (Number.int 1).maxFirst ((Number.int depth).minFirst options.headingLimit)

/-- Whether entering a fragment would close a cycle that is to be cut. -/
def closesCycle (options : ConversionOptions) (place : Place) (fragment : String) : Bool :=
  options.detectIncludeCycles.isGiven && place.chain.contains fragment

end MdxPages.Convert
