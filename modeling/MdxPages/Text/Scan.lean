import MdxPages.Text.Digit

/-!
# Text/Scan — taking what a text starts with

Each function answers with what it has taken and what follows, or with `none` if the text starts
otherwise.
-/

namespace MdxPages.Text

/-- The blanks inside a line. -/
def isBlankChar (c : Char) : Bool :=
  c == ' ' || c == '\t'

/-- A text without the blanks at its start. -/
def skipBlanks (cs : List Char) : List Char :=
  cs.dropWhile isBlankChar

/-- A text after a given character. -/
def after? (c : Char) : List Char → Option (List Char)
  | [] => none
  | d :: cs => if d = c then some cs else none

/-- Whether a text starts with a character of a class. -/
def startsWithAny (p : Char → Bool) : List Char → Bool
  | [] => false
  | c :: _ => p c

/-- The number that digits stand for in a base up to sixteen. -/
def numberInBase (base : Nat) (ds : List Char) : Nat :=
  ds.foldl (fun n c => base * n + (hexValue? c).getD 0) 0

/-- A decimal number of exactly `n` digits. -/
def takeFixed? (n : Nat) (cs : List Char) : Option (Nat × List Char) :=
  let ds := cs.take n
  if ds.length = n ∧ ds.all Char.isDigit then some (numberInBase 10 ds, cs.drop n) else none

/-- The character of a number written in hexadecimal digits. -/
def hexChar? (cs : List Char) : Option Char := do
  let ds ← cs.mapM hexValue?
  let n := ds.foldl (fun n d => 16 * n + d) 0
  if n.isValidChar then some (Char.ofNat n) else none

end MdxPages.Text
