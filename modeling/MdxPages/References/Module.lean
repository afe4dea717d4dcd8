import MdxPages.Json.Writer
import MdxPages.References.Basic
import MdxPages.References.Literal
import MdxPages.Text.Space

/-!
# References/Module — the registry as a TypeScript module, written and read

`render` writes two objects, their keys in order.  `parse` looks for these objects anywhere in a
text, first as exports of their own and then inside a default object, and reads from each the
entries that it can make out; all else is skipped, so that a text that is no registry is an empty
one.
-/

namespace MdxPages.References

/-! ## Writing

An entry is a line, with its texts cut and written as literals. -/

/-- Entries in the order of their keys. -/
def sorted {α : Type} (entries : Entries α) : Entries α :=
  entries.mergeSort fun a b => decide (a.1 ≤ b.1)

/-- The line of a substitution. -/
def substitutionLine (name text : String) : String :=
  "    " ++ Json.quote name ++ ": " ++ encode text ++ ","

/-- The line of a reference. -/
def refLine (url : String) (target : RefTarget) : String :=
  "    " ++ encode url ++ ": \x7b title: " ++ encode target.title ++ ", url: " ++ encode url ++
    " \x7d,"

/-- An exported object with the given lines. -/
def exportObject (name : String) (lines : List String) : String :=
  "export const " ++ name ++ " = \x7b\n" ++ Text.join "\n" lines ++ "\n\x7d as const;\n"

/-- The registry module. -/
def render (r : References) : String :=
  exportObject "substitutions" ((sorted r.substitutions).map fun (k, v) => substitutionLine k v) ++
    exportObject "refs" ((sorted r.refs).map fun (k, v) => refLine k v) ++
    "const references = \x7b substitutions, refs \x7d as const;\nexport default references;\n"

/-! ## Finding the objects

A pattern is sought at each place of the text in turn, and is no grammar: what looks like it counts,
wherever it stands. -/

/-- A piece of a pattern: a word, white space that may be missing, white space that may not, and
white space with a line break in it. -/
inductive Piece
  | word (s : String)
  | blank
  | gap
  | lineGap

/-- The rest of a text after a piece that it starts with. -/
def Piece.after? : Piece → List Char → Option (List Char)
  | word s, cs => if s.toList.isPrefixOf cs then some (cs.drop s.length) else none
  | blank, cs => some (cs.dropWhile Text.isSpace)
  | gap, cs =>
    match cs with
    | c :: rest => if Text.isSpace c then some (rest.dropWhile Text.isSpace) else none
    | [] => none
  | lineGap, cs =>
    if (cs.takeWhile Text.isSpace).contains '\n' then some (cs.dropWhile Text.isSpace) else none

/-- The rest of a text after the pieces that it starts with. -/
def afterAll? (pieces : List Piece) (cs : List Char) : Option (List Char) :=
  pieces.foldlM (fun cs piece => piece.after? cs) cs

/-- The rest of a text after the first place where the pieces occur. -/
def afterFirst? (pieces : List Piece) : List Char → Option (List Char)
  | [] => afterAll? pieces []
  | c :: cs =>
    match afterAll? pieces (c :: cs) with
    | some rest => some rest
    | none => afterFirst? pieces cs

/-- The text before the first place where the pieces occur. -/
def beforeFirst? (pieces : List Piece) : List Char → Option (List Char)
  | [] => (afterAll? pieces []).map fun _ => []
  | c :: cs =>
    match afterAll? pieces (c :: cs) with
    | some _ => some []
    | none => (beforeFirst? pieces cs).map (c :: ·)

/-- The text between an opening and the first closing after it. -/
def between? (opening closing : List Piece) (cs : List Char) : Option (List Char) :=
  (afterFirst? opening cs).bind (beforeFirst? closing)

/-- How an exported object opens. -/
def exportOpening (name : String) : List Piece :=
  [.word "export", .gap, .word "const", .gap, .word name, .blank, .word "=", .blank, .word "\x7b"]

/-- How an exported object closes. -/
def exportClosing : List Piece :=
  [.word "\x7d", .blank, .word "as", .gap, .word "const"]

/-- How an object that is a field opens. -/
def fieldOpening (name : String) : List Piece :=
  [.word name, .blank, .word ":", .blank, .word "\x7b"]

/-- The inside of the substitutions of a text. -/
def substitutionsIn? (cs : List Char) : Option (List Char) :=
  between? (exportOpening "substitutions") exportClosing cs <|>
    between? (fieldOpening "substitutions") [.word "\x7d", .blank, .word ","] cs

/-- The inside of the references of a text. -/
def refsIn? (cs : List Char) : Option (List Char) :=
  between? (exportOpening "refs") exportClosing cs <|>
    between? (fieldOpening "refs") [.word "\x7d", .lineGap, .word "\x7d"] cs

/-! ## Reading the entries -/

/-- An entry of the substitutions at the start of a text. -/
def substitution? (cs : List Char) : Option ((String × String) × List Char) := do
  let (name, cs) ← readLiteral cs
  let cs ← afterAll? [.blank, .word ":", .blank] cs
  let (text, cs) ← readLiteral cs
  return ((decode name, decode text), cs)

/-- An entry of the references at the start of a text. -/
def ref? (cs : List Char) : Option ((String × RefTarget) × List Char) := do
  let (key, cs) ← readLiteral cs
  let cs ← afterAll? [.blank, .word ":", .blank, .word "\x7b", .blank, .word "title:", .blank] cs
  let (title, cs) ← readLiteral cs
  let cs ← afterAll? [.blank, .word ",", .blank, .word "url:", .blank] cs
  let (url, cs) ← readLiteral cs
  let cs ← afterAll? [.blank, .word "\x7d"] cs
  return ((decode key, ⟨decode title, decode url⟩), cs)

/-- All entries in a text, wherever they start; `skip` counts the characters at the start of the
text that belong to the entry read last. -/
def entriesFrom {α : Type} (readEntry : List Char → Option (α × List Char)) (skip : Nat) :
    List Char → List α
  | [] => []
  | c :: cs =>
    match skip with
    | skip + 1 => entriesFrom readEntry skip cs
    | 0 =>
      match readEntry (c :: cs) with
      | some (entry, rest) => entry :: entriesFrom readEntry (cs.length - rest.length) cs
      | none => entriesFrom readEntry 0 cs

/-- The registry that a text holds. -/
def parse (text : String) : References :=
  let cs := text.toList
  ⟨Entries.ofList ((substitutionsIn? cs).elim [] (entriesFrom substitution? 0)),
    Entries.ofList ((refsIn? cs).elim [] (entriesFrom ref? 0))⟩

end MdxPages.References
