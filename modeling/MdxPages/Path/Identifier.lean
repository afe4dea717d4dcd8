import MdxPages.Path.Posix
import MdxPages.Text.Case

/-!
# Path/Identifier — component and import names

A name is cut at hyphens and underscores and its pieces are joined with a capital each.  Names made
from file names keep only what an identifier may hold and never start with a digit.
-/

namespace MdxPages.Path

/-- A piece of a name with its first character in upper case. -/
def capitalize : List Char → List Char
  | [] => []
  | c :: cs => Text.upperChar c ++ cs

/-- The component name of a directive or role. -/
def componentName (name : String) : String :=
  String.ofList ((Text.splitOn (fun c => c == '-' || c == '_') name.toList).flatMap capitalize)

/-- Whether a character may stand in an ASCII identifier. -/
def isIdentifierChar (c : Char) : Bool :=
  c.isAlphanum || c == '_'

/-- An underscore before a name that starts with a digit. -/
def guardDigit (name : List Char) : List Char :=
  match name with
  | c :: _ => if Text.isDigit c then '_' :: name else name
  | [] => []

/-- A text, or another one in its place if it is empty. -/
def orElseText (s other : String) : String :=
  if s.isEmpty then other else s

/-- A file name without its last extension: the last point and what follows it, if something
does. -/
def stem (name : String) : String :=
  let back := name.toList.reverse
  let extension := back.takeWhile (· != '.')
  match back.drop extension.length with
  | _ :: before => if extension.isEmpty then name else String.ofList before.reverse
  | [] => name

/-- The import name of an image. -/
def imageIdentifier (target : String) : String :=
  let base := orElseText (baseName (toPosix target)) "image"
  let name := (componentName (orElseText (stem base) "image")).toList
  let name := name.map fun c => if isIdentifierChar c then c else '_'
  String.ofList (guardDigit name) ++ "Img"

/-- A text without an ending, if it has that ending in any case.  The characters of the ending are
counted off the end; an empty ending takes all. -/
def dropEnding (s ending : String) : String :=
  if Text.endsWith (Text.lower s) (Text.lower ending) then
    if ending.isEmpty then "" else Text.dropEnd s ending.length
  else s

/-- The component name of an included fragment. -/
def fragmentComponent (path extension : String) : String :=
  let base := dropEnding (baseName (toPosix path)) extension
  let name := (componentName base).toList.map fun c => if c == '.' then '_' else c
  String.ofList (guardDigit name)

end MdxPages.Path
