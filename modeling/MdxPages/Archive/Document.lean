import MdxPages.Failure
import MdxPages.Path.Posix
import MdxPages.Value.Basic

/-!
# Archive/Document — page documents and what they say about themselves

A page document is a source tree, mostly inside an envelope that also lists the static assets of
the page by checksum.
-/

namespace MdxPages.Archive

/-- The root of a page document: its `ast` field, or the document itself. -/
def unwrap (document : Value) : Except Failure (Entries Value) :=
  match document with
  | .obj fields =>
    match Entries.get? "ast" fields with
    | none => .ok fields
    | some (.obj root) => .ok root
    | some v => .error (.rootNotObject v.kindName)
  | v => .error (.documentNotObject v.kindName)

/-- The extension of entries that hold BSON. -/
def bsonExtension : String := ".bson"

/-- The extension of entries that hold JSON. -/
def jsonExtension : String := ".json"

/-- The extensions of entries that hold no page though they look like one. -/
def ignoredExtensions : List String := [".txt.bson", ".rst.bson"]

/-- A path cut before the last point of its last segment; points that the segment starts with do
not count. -/
def cutExtension (path : String) : String × String :=
  let back := path.toList.reverse
  let ending := back.takeWhile fun c => c != '.' && c != '/'
  match back.drop ending.length with
  | '.' :: before =>
    if (before.takeWhile (· != '/')).all (· == '.') then (path, "")
    else (String.ofList before.reverse, String.ofList ('.' :: ending.reverse))
  | _ => (path, "")

/-- The path of the file that an entry is converted to. -/
def outputPath (path : String) (extension : String := ".mdx") : String :=
  let (stem, suffix) := cutExtension (Path.toPosix path)
  if suffix = bsonExtension ∨ suffix = jsonExtension then stem ++ extension else path ++ extension

/-- The checksum and the key of an asset, if it has both. -/
def asset? (v : Value) : Option (String × String) :=
  let checksum := (Value.field "checksum" v.fields).strOrEmpty
  let key := (Value.field "key" v.fields).strOrEmpty
  if checksum.isEmpty || key.isEmpty then none else some (checksum, key)

/-- Check an asset: what has a checksum and a key can be found by its checksum. -/
def checkAsset (v : Value) : Except Fault Unit :=
  match asset? v, Value.field "checksum" v.fields with
  | some _, .foreign x => .error (.notHashable x.kind)
  | _, _ => .ok ()

/-- Check the static assets of a page. -/
def checkAssets (document : Entries Value) : Except Fault Unit :=
  (Value.field "static_assets" document).items.forM checkAsset

/-- The keys of the static assets of a page, by checksum. -/
def assetsOf (document : Entries Value) : Entries String :=
  Entries.ofList ((Value.field "static_assets" document).items.filterMap asset?)

/-- A page document of an archive: the path of its entry, its fields, and its assets. -/
structure Document where
  path : String
  fields : Entries Value
  assets : Entries String
deriving Repr, Inhabited

/-- The path of the file that a document is converted to. -/
def Document.outputPath (d : Document) : String :=
  Archive.outputPath d.path

end MdxPages.Archive
