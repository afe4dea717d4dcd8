import MdxPages.Text.Space

/-!
# Mdx/Escape — text that is not read as Markdown

A backslash goes before each character that Markdown or MDX would interpret, and before a `#` that
only white space separates from the start of its line.
-/

namespace MdxPages.Mdx

/-- Characters that are escaped wherever they stand. -/
def isActive (c : Char) : Bool :=
  c == '`' || c == '*' || c == '_' || c == '[' || c == ']' || c == '<' || c == '\x7b'

/-- A character as it is written in text. -/
def escapeChar (c : Char) : List Char :=
  if c = '\\' ∨ isActive c then ['\\', c] else [c]

/-- Escape each `#` that starts a line; `open_` says whether only white space has passed since the
last line start. -/
def escapeHashes (open_ : Bool) : List Char → List Char
  | [] => []
  | c :: cs =>
    if c = '#' then
      if open_ then '\\' :: '#' :: escapeHashes false cs else '#' :: escapeHashes false cs
    else c :: escapeHashes (c == '\n' || (open_ && Text.isSpace c)) cs

/-- A text with the characters that Markdown would interpret escaped. -/
def escape (cs : List Char) : List Char :=
  escapeHashes true (cs.flatMap escapeChar)

/-- The length of the longest run of backticks; `current` is the length of the run just before. -/
def longestTicks (current : Nat) : List Char → Nat
  | [] => current
  | c :: cs => if c = '`' then longestTicks (current + 1) cs else max current (longestTicks 0 cs)

/-- A run of backticks. -/
def ticks (n : Nat) : String :=
  String.ofList (List.replicate n '`')

end MdxPages.Mdx
