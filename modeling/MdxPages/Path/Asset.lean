import MdxPages.Path.Identifier
import MdxPages.Text.Space

/-!
# Path/Asset — where fragments and images lie, and how a page imports them

All paths are relative to the output root.  An image belongs to the images directory of the top
level of the page; a page imports it from its own route, one level below its directory.
-/

namespace MdxPages.Path

/-- The extensions of source files that are included. -/
def sourceExtensions : List String := [".rst", ".txt"]

/-- The extensions of images. -/
def imageExtensions : List String := [".png", ".jpg", ".jpeg", ".gif", ".svg", ".webp", ".avif"]

/-- The path of the fragment that an include argument names: source extensions are replaced, and a
missing extension is added. -/
def fragmentPath (argument extension : String) : String :=
  let path := toPosix (Text.strip argument)
  let lowered := Text.lower path
  let path := match sourceExtensions.find? (Text.endsWith lowered) with
    | some source => Text.dropEnd path source.length ++ extension
    | none => if Text.endsWith lowered (Text.lower extension) then path else path ++ extension
  Text.stripLeading '/' path

/-- Whether a path names an image. -/
def isImage (path : String) : Bool :=
  imageExtensions.any (Text.endsWith (Text.lower path))

/-- A figure path without escaped points, leading slashes and a leading `./`. -/
def assetPath (text : String) : String :=
  let unescaped := Text.replacePair '\\' '.' ['.'] (Text.strip text).toList
  let path := Text.stripLeading '/' (toPosix (String.ofList unescaped))
  if Text.startsWith path "./" then String.ofList (path.toList.drop 2) else path

/-- The first segment of a path that has a directory. -/
def topLevel (path : String) : String :=
  if path.toList.contains '/' then (segments path).headD "" else ""

/-- Where an asset lies: under the images directory if its path names one or is a bare name, else
where its path says. -/
def imageTarget (asset importer directory : String) : String :=
  let top := topLevel (toPosix importer)
  let base := if top.isEmpty then directory else top ++ "/" ++ directory
  let target := (Text.stripLeading '/' asset).toList
  let marker := (directory ++ "/").toList
  match Text.indexOf? marker target with
  | some i => base ++ "/" ++ String.ofList (target.drop (i + marker.length))
  | none =>
    if target.contains '/' then String.ofList target else base ++ "/" ++ String.ofList target

/-- A relative path that starts with a point. -/
def dotted (path : String) : String :=
  if Text.startsWith path "." then path else "./" ++ path

/-- The path under which a page imports an image. -/
def imageImport (importer target : String) : String :=
  let path := dotted (relative (dirname importer) target)
  if Text.startsWith path "./" then
    "../" ++ Text.stripLeading '/' (String.ofList (path.toList.drop 2))
  else "../" ++ path

/-- The path under which a page imports a fragment. -/
def fragmentImport (importer fragment : String) : String :=
  dotted (relative (dirname importer) (Text.stripLeading '/' fragment))

end MdxPages.Path
