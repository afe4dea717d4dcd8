import MdxPages.Options.Updating
import MdxPages.Text.Search

/-!
# Options/Conversion — settings of the conversion from source trees to output trees
-/

namespace MdxPages

/-- Settings of the conversion.  Where a value of any kind is admitted, it is kept as given. -/
structure ConversionOptions where
  fragmentExtension : String := ".mdx"
  defaultImporterPath : Value := .str "index.mdx"
  maxHeadingDepth : Value := .int 6
  imagesDirName : Value := .str "images"
  droppedEmptyDirectives : List Value := [.str "toctree", .str "index", .str "seealso"]
  detectIncludeCycles : Value := .bool true
deriving Repr, Inhabited

namespace ConversionOptions

/-- The names of the settings in order. -/
def names : List String :=
  ["fragment_extension", "default_importer_path", "max_heading_depth", "images_dir_name",
    "dropped_empty_directives", "detect_include_cycles"]

/-- The settings as named values. -/
def toValue (o : ConversionOptions) : Value :=
  .obj [("fragment_extension", .str o.fragmentExtension),
    ("default_importer_path", o.defaultImporterPath),
    ("max_heading_depth", o.maxHeadingDepth),
    ("images_dir_name", o.imagesDirName),
    ("dropped_empty_directives", .arr o.droppedEmptyDirectives),
    ("detect_include_cycles", o.detectIncludeCycles)]

/-- The deepest heading level as a number. -/
def headingLimit (o : ConversionOptions) : Number :=
  o.maxHeadingDepth.number?.getD (.int 6)

/-- Heading limits are numbers between 1 and 6. -/
def checkHeadingDepth (v : Value) : Except Failure Unit :=
  match v.number? with
  | none => .error (.fault (.notComparable "int" v.kindName))
  | some n =>
    if (Number.int 1).le n && n.le (.int 6) then .ok ()
    else .error (refusing v (.headingDepth v.text))

/-- Fragment extensions are texts that start with a point. -/
def checkExtension : Value → Except Failure String
  | .str s => if Text.startsWith s "." then .ok s else .error (.fragmentExtension (Text.quoted s))
  | .foreign (.bytes 0 _) => .error (.fault (.notText "bytes"))
  | v => .error (.fault (.noAttribute v.kindName "startswith"))

/-- An images directory is one path segment. -/
def checkImagesDirectory (v : Value) : Except Failure Unit :=
  let refuseIf (slash : Bool) := if slash then Except.error Failure.imagesDirectory else .ok ()
  if !v.isGiven then .error .imagesDirectory
  else
    match v with
    | .str s => refuseIf (s.toList.contains '/')
    | .arr items => refuseIf (items.any fun item => item.str? == some "/")
    | .obj fields => refuseIf (Entries.has "/" fields)
    | .foreign (.collection _ texts _ _) => refuseIf (texts.contains "/")
    | v => .error (.fault (.noMembers v.kindName))

/-- The directive names that a value lists: its items, characters, keys, bytes or members; of
members that are no texts none can be a name. -/
def directiveNames : Value → Except Failure (List Value)
  | .arr items => .ok items
  | .str s => .ok (s.toList.map fun c => .str (String.singleton c))
  | .obj fields => .ok (fields.map fun (k, _) => .str k)
  | .foreign (.bytes 0 data) => .ok (data.map fun b => .int b.toNat)
  | .foreign (.collection _ texts _ _) => .ok (texts.map .str)
  | v => .error (.fault (.notIterable v.kindName))

/-- The settings with some fields changed; what is no valid setting is refused. -/
def update (o : ConversionOptions) (updates : Entries Value) :
    Except Failure ConversionOptions := do
  refuseUnknown "ConversionOptions" names updates
  let maxHeadingDepth := updated updates "max_heading_depth" o.maxHeadingDepth
  checkHeadingDepth maxHeadingDepth
  let fragmentExtension ←
    checkExtension (updated updates "fragment_extension" (.str o.fragmentExtension))
  let imagesDirName := updated updates "images_dir_name" o.imagesDirName
  checkImagesDirectory imagesDirName
  let droppedEmptyDirectives ←
    match updates.get? "dropped_empty_directives" with
    | none => pure o.droppedEmptyDirectives
    | some v => directiveNames v
  return {
    fragmentExtension
    defaultImporterPath := updated updates "default_importer_path" o.defaultImporterPath
    maxHeadingDepth
    imagesDirName
    droppedEmptyDirectives
    detectIncludeCycles := updated updates "detect_include_cycles" o.detectIncludeCycles }

end ConversionOptions

end MdxPages
