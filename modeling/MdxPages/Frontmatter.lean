import MdxPages.Json.Writer
import MdxPages.Text.Search

/-!
# Frontmatter — page metadata as block YAML

Texts of plain characters stand bare and all others in JSON quotes, nulls are left out, and nested
lists and mappings are moved in by two spaces.  A block is laid out at its own depth and then set
under its key or item marker: the margin of its first line is taken off every line.

Metadata comes from documents, in which no number has too many digits to be written (see
`Value/Basic`).
-/

namespace MdxPages.Frontmatter

open MdxPages

/-- Characters that need no quotes. -/
def isPlain (c : Char) : Bool :=
  c.isAlphanum || c == '_' || c == '-' || c == '.'

/-- Whether a text must be quoted. -/
def needsQuotes (s : String) : Bool :=
  s.toList.any fun c => !isPlain c

/-- A text as a scalar; an empty one is quoted, since nothing would stand for null. -/
def scalarText (s : String) : String :=
  if s.isEmpty || needsQuotes s then Json.quote s else s

/-- A margin of spaces. -/
def spaces (n : Nat) : String :=
  String.ofList (List.replicate n ' ')

/-- The number of spaces that a line starts with. -/
def marginOf (line : String) : Nat :=
  (line.toList.takeWhile (· == ' ')).length

/-- Whether lines are one scalar that fits behind its key. -/
def isInline : List String → Bool
  | [line] => !Text.startsWith line " "
  | _ => false

/-- A line moved from a margin of `base` to a margin of `indent`, deeper lines staying deeper. -/
def reindent (indent base : Nat) (line : String) : String :=
  let margin := marginOf line
  spaces (indent + (margin - base)) ++ String.ofList (line.toList.drop margin)

/-- The lines of an item: the first behind its marker, the others below it. -/
def itemLines (indent : Nat) : List String → List String
  | [] => []
  | first :: rest =>
    if isInline (first :: rest) then [spaces indent ++ "- " ++ first]
    else
      let base := marginOf first
      (spaces indent ++ "- " ++ String.ofList (first.toList.drop base)) ::
        rest.map (reindent (indent + 2) base)

/-- The lines of a field: a scalar behind its key, a block below it. -/
def fieldLines (indent : Nat) (key : String) : List String → List String
  | [] => []
  | first :: rest =>
    if isInline (first :: rest) then [spaces indent ++ key ++ ": " ++ first]
    else
      (spaces indent ++ key ++ ":") ::
        (first :: rest).map (reindent (indent + 2) (marginOf first))

/-- A foreign scalar: a whole number as it is, any other as a quoted text. -/
def foreignText : Foreign → String
  | .long i => toString i
  | x => Json.quote x.text

mutual

/-- The lines of a value at an indentation, none for null. -/
def valueLines (indent : Nat) : Value → List String
  | .null => []
  | .str s => [scalarText s]
  | .bool b => [if b then "true" else "false"]
  | .num n => [n.plainText]
  | .arr [] => ["[]"]
  | .arr (v :: vs) => itemsLines indent (v :: vs)
  | .obj [] => ["\x7b\x7d"]
  | .obj (f :: fs) => fieldsLines indent (f :: fs)
  | .foreign x => [foreignText x]

/-- The lines of the items of a list. -/
def itemsLines (indent : Nat) : List Value → List String
  | [] => []
  | v :: vs => itemLines indent (valueLines (indent + 2) v) ++ itemsLines indent vs

/-- The lines of the fields of a mapping. -/
def fieldsLines (indent : Nat) : List (String × Value) → List String
  | [] => []
  | (key, v) :: fs => fieldLines indent key (valueLines (indent + 2) v) ++ fieldsLines indent fs

end

/-- The lines of a field of the page: a scalar behind its key, a block below it as it stands. -/
def topLines (key : String) (lines : List String) : List String :=
  match lines with
  | [] => []
  | lines =>
    if isInline lines then lines.map (key ++ ": " ++ ·) else (key ++ ":") :: lines

/-- The frontmatter of a page, without its delimiters. -/
def text (fields : Entries Value) : String :=
  Text.join "\n" (fields.flatMap fun (key, v) => topLines key (valueLines 2 v))

end MdxPages.Frontmatter
