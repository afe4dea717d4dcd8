import MdxPages.Text.Space
import MdxPages.Text.Search

/-!
# Text/Lines — lines, with the line ends of Unicode or with `\n` alone

`lines` ends a line at any line boundary (`\n`, `\r`, `\r\n`, vertical tab, form feed, the
separators `U+001C`–`U+001E`, `U+0085`, `U+2028`, `U+2029`) and reports no empty last line.
Where text is laid out, only `\n` counts: `indent` puts a margin before each line with content.
-/

namespace MdxPages.Text

/-- The characters that end a line. -/
def isLineEnd (c : Char) : Bool :=
  let n := c.toNat
  (10 ≤ n && n ≤ 13) || (28 ≤ n && n ≤ 30) || n == 0x85 || n == 0x2028 || n == 0x2029

/-- The lines of a text; `current` holds the characters of the open line in reverse. -/
def linesFrom (current : List Char) : List Char → List (List Char)
  | [] => if current.isEmpty then [] else [current.reverse]
  | '\r' :: '\n' :: cs => current.reverse :: linesFrom [] cs
  | c :: cs =>
    if isLineEnd c then current.reverse :: linesFrom [] cs else linesFrom (c :: current) cs

/-- The lines of a text, without their ends. -/
def lines (s : String) : List String :=
  (linesFrom [] s.toList).map String.ofList

/-- Write every line end `\r` or `\r\n` as `\n`. -/
def unifyLineEnds : List Char → List Char
  | [] => []
  | '\r' :: '\n' :: cs => '\n' :: unifyLineEnds cs
  | c :: cs => (if c = '\r' then '\n' else c) :: unifyLineEnds cs

/-- Put a margin before each line that is not blank, and empty the blank ones. -/
def indent (margin : String) (s : String) : String :=
  join "\n" ((split '\n' s).map fun line => if isBlank line then "" else margin ++ line)

end MdxPages.Text
