import MdxPages.Yaml.Plain
import MdxPages.Fault

/-!
# Yaml/Quoted — scalars in quotes

Between single quotes two quotes stand for one, between double quotes a backslash starts an escape.
Line ends fold as in plain scalars, with the blanks around them; an escaped one stands for nothing.
No line inside quotes may start or end a document.
-/

namespace MdxPages.Yaml

open MdxPages.Text

/-- What lies before the next character of a quoted scalar: blanks inside a line, line ends, or line
ends behind an escaped one. -/
inductive Space
  | blanks (cs : List Char)
  | lines (breaks : List Char)
  | joined (breaks : List Char)
deriving Repr

/-- The characters that a space stands for. -/
def Space.chars : Space → List Char
  | blanks cs => cs
  | lines breaks => folded breaks
  | joined breaks => breaks

/-- A space with a further blank, which counts only inside a line. -/
def Space.addBlank (c : Char) : Space → Space
  | blanks cs => blanks (cs ++ [c])
  | space => space

/-- A space with a further line end. -/
def Space.addBreak (c : Char) : Space → Space
  | blanks _ => lines [breakChar c]
  | lines breaks => lines (breaks ++ [breakChar c])
  | joined breaks => joined (breaks ++ [breakChar c])

/-- Put a space and characters before what has been read. -/
def putBefore (space : Space) (cs : List Char) (result : Except Problem (List Char × List Char)) :
    Except Problem (List Char × List Char) :=
  result.map fun (read, rest) => (space.chars ++ cs ++ read, rest)

/-- The characters up to a single quote, and what follows it. -/
def readSingle (space : Space) : List Char → Except Problem (List Char × List Char)
  | [] => .error .malformed
  | '\'' :: '\'' :: cs => putBefore space ['\''] (readSingle (.blanks []) cs)
  | '\'' :: cs => .ok (space.chars, cs)
  | c :: cs =>
    if isBreak c then
      if isMark cs then .error .malformed else readSingle (space.addBreak c) cs
    else if isBlankChar c then readSingle (space.addBlank c) cs
    else putBefore space [c] (readSingle (.blanks []) cs)

/-- The escapes of one letter. -/
def letterEscapes : List (Char × Char) :=
  [('0', '\x00'), ('a', '\x07'), ('b', '\x08'), ('t', '\t'), ('\t', '\t'), ('n', '\n'),
    ('v', '\x0b'), ('f', '\x0c'), ('r', '\r'), ('e', '\x1b'), (' ', ' '), ('"', '"'),
    ('\\', '\\'), ('/', '/'), ('N', '\u0085'), ('_', '\u00a0'), ('L', '\u2028'), ('P', '\u2029')]

/-- The character of a number written in hexadecimal digits.  The halves of pairs are no characters
of their own. -/
def charOfDigits (ds : List Char) : Except Problem Char := do
  let values ← Problem.orMalformed (ds.mapM hexValue?)
  let n := values.foldl (fun n d => 16 * n + d) 0
  if n.isValidChar then return Char.ofNat n
  else if n < 0x110000 then return '\uFFFD'
  else throw (.fault (.noCharacter n))

/-- The characters up to a double quote, and what follows it. -/
def readDouble (space : Space) : List Char → Except Problem (List Char × List Char)
  | [] => .error .malformed
  | '"' :: cs => .ok (space.chars, cs)
  | '\\' :: 'x' :: a :: b :: cs => do
    putBefore space [← charOfDigits [a, b]] (readDouble (.blanks []) cs)
  | '\\' :: 'u' :: a :: b :: c :: d :: cs => do
    putBefore space [← charOfDigits [a, b, c, d]] (readDouble (.blanks []) cs)
  | '\\' :: 'U' :: a :: b :: c :: d :: e :: f :: g :: h :: cs => do
    putBefore space [← charOfDigits [a, b, c, d, e, f, g, h]] (readDouble (.blanks []) cs)
  | '\\' :: e :: cs =>
    if isBreak e then
      if isMark cs then .error .malformed else putBefore space [] (readDouble (.joined []) cs)
    else do
      let c ← Problem.orMalformed (letterEscapes.lookup e)
      putBefore space [c] (readDouble (.blanks []) cs)
  | c :: cs =>
    if isBreak c then
      if isMark cs then .error .malformed else readDouble (space.addBreak c) cs
    else if isBlankChar c then readDouble (space.addBlank c) cs
    else if c = '\\' then .error .malformed
    else putBefore space [c] (readDouble (.blanks []) cs)

end MdxPages.Yaml
