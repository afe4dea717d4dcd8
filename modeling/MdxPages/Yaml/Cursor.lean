import MdxPages.Text.Scan

/-!
# Yaml/Cursor — lines, words and columns of a YAML text

Lines end in line feeds, in the line end of `U+0085`, or in one of the separators `U+2028` and
`U+2029`; carriage returns are line feeds before a text gets here.  A cursor knows its line and
column, since the structure of a text hangs on them.
-/

namespace MdxPages.Yaml

open MdxPages.Text

/-- Whether a character ends a line. -/
def isBreak (c : Char) : Bool :=
  c == '\n' || c == '\u0085' || c == '\u2028' || c == '\u2029'

/-- What a line end is read as: a line feed, but for the separators, which stay. -/
def breakChar (c : Char) : Char :=
  if c = '\u0085' then '\n' else c

/-- Whether nothing is left of a line. -/
def endsLine : List Char → Bool
  | [] => true
  | c :: _ => isBreak c

/-- Whether a text starts with the end of a word that only a blank ends within a line. -/
def endsEntry : List Char → Bool
  | [] => true
  | c :: _ => c == ' ' || isBreak c

/-- Whether a text starts with the end of a word: a blank, a tab, a line end, or nothing. -/
def endsWord : List Char → Bool
  | [] => true
  | c :: _ => c == ' ' || c == '\t' || isBreak c

/-- Whether a text starts with three characters of a kind that stand alone. -/
def startsWithMark (m : Char) : List Char → Bool
  | a :: b :: c :: rest => a == m && b == m && c == m && endsWord rest
  | _ => false

/-- Whether a line that starts here starts or ends a document. -/
def isMark (cs : List Char) : Bool :=
  startsWithMark '-' cs || startsWithMark '.' cs

/-- A text after blanks, comments and line ends, and whether there was a line end. -/
def skipSpace (inComment : Bool) : List Char → Bool × List Char
  | [] => (false, [])
  | c :: cs =>
    if isBreak c then (true, (skipSpace false cs).2)
    else if inComment || c == ' ' then skipSpace inComment cs
    else if c == '#' then skipSpace true cs
    else (false, c :: cs)

/-- A text after the rest of its line, which may hold blanks and a comment; `none` if it holds
anything else. -/
def skipLine? (cs : List Char) : Option (List Char) :=
  let rest := cs.dropWhile (· == ' ')
  let rest := if startsWithAny (· == '#') rest then rest.dropWhile fun c => !isBreak c else rest
  if endsLine rest then some (rest.drop 1) else none

/-- Where reading stands: what is left, how many characters and lines lie before it, and how many
characters of its own line.  A byte order mark is as wide as nothing. -/
structure Cursor where
  rest : List Char
  index : Nat := 0
  line : Nat := 0
  column : Nat := 0
deriving Repr, Inhabited

namespace Cursor

/-- The cursor behind the next character. -/
def step (c : Cursor) : Cursor :=
  match c.rest with
  | [] => c
  | x :: rest =>
    if isBreak x then ⟨rest, c.index + 1, c.line + 1, 0⟩
    else ⟨rest, c.index + 1, c.line, if x = '\uFEFF' then c.column else c.column + 1⟩

/-- The cursor behind the next `n` characters. -/
def skip : Nat → Cursor → Cursor
  | 0, c => c
  | n + 1, c => skip n c.step

/-- The cursor where no more than `rest` is left. -/
def moveTo (c : Cursor) (rest : List Char) : Cursor :=
  c.skip (c.rest.length - rest.length)

/-- Whether a document starts or ends at a cursor. -/
def atMark (m : Char) (c : Cursor) : Bool :=
  c.column == 0 && startsWithMark m c.rest

end Cursor

end MdxPages.Yaml
