import MdxPages.Number.Basic
import MdxPages.Text.Digit
import MdxPages.Text.Space

/-!
# Number/Reading — numbers in text

A number may have white space around it, a sign, digits of any script, and single underscores
between digits.  The separators `U+001C`–`U+001F` are white space in a text but not around a
number.  An integer of more than 4300 digits is refused, and cannot be written either.
-/

namespace MdxPages.Number

open MdxPages.Text

/-- Whether a character may stand around a number. -/
def isMargin (c : Char) : Bool :=
  isSpace c && !(28 ≤ c.toNat && c.toNat ≤ 31)

/-- Drop what may stand around a number. -/
def dropMargins (cs : List Char) : List Char :=
  dropEndWhile isMargin (cs.dropWhile isMargin)

/-- Whether a text starts with a decimal digit. -/
def startsWithDigit : List Char → Bool
  | [] => false
  | c :: _ => isDecimal c

/-- The digits at the start of a text, single underscores between them dropped, and the rest;
`after` says whether a digit stands just before. -/
def takeDigits (after : Bool) : List Char → List Nat × List Char
  | [] => ([], [])
  | c :: cs =>
    match decimalValue? c with
    | some d =>
      let (ds, rest) := takeDigits true cs
      (d :: ds, rest)
    | none => if after && c == '_' && startsWithDigit cs then takeDigits false cs else ([], c :: cs)

/-- The number with the given decimal digits. -/
def ofDigits (ds : List Nat) : Nat :=
  ds.foldl (fun n d => 10 * n + d) 0

/-- A sign, if there is one, and the rest. -/
def takeSign : List Char → Bool × List Char
  | '-' :: cs => (true, cs)
  | '+' :: cs => (false, cs)
  | cs => (false, cs)

/-- The most digits that an integer in text may have. -/
def maxDigits : Nat := 4300

/-- The least whole number that has more digits. -/
def leastTooLong : Nat := Nat.pow 10 maxDigits

/-- Whether a number can be written: a whole number may have too many digits. -/
def isWritable : Number → Bool
  | .int i => i.natAbs < leastTooLong
  | .float _ => true

/-- The integer that a text holds. -/
def int? (s : String) : Option Int :=
  let (negative, cs) := takeSign (dropMargins s.toList)
  match takeDigits false cs with
  | ([], _) => none
  | (ds, []) =>
    if ds.length ≤ maxDigits then
      let n : Int := ofDigits ds
      some (if negative then -n else n)
    else none
  | (_, _ :: _) => none

/-- An exponent part at the start of a text, zero if there is none. -/
def takeExponent : List Char → Int × List Char
  | c :: cs =>
    if c = 'e' ∨ c = 'E' then
      let (negative, digits) := takeSign cs
      match takeDigits false digits with
      | ([], _) => (0, c :: cs)
      | (ds, rest) =>
        let n : Int := ofDigits ds
        (if negative then -n else n, rest)
    else (0, c :: cs)
  | [] => (0, [])

/-- An unsigned number in positional or scientific form at the start of a text: its digits, its
decimal exponent and the rest.  A digit is needed before or after the point. -/
def takeDecimal (cs : List Char) : Option (Nat × Int × List Char) :=
  let (whole, rest) := takeDigits false cs
  let (fraction, rest) := match rest with
    | '.' :: tail => takeDigits false tail
    | _ => ([], rest)
  if whole.isEmpty && fraction.isEmpty then none
  else
    let (e, rest) := takeExponent rest
    some (ofDigits (whole ++ fraction), e - fraction.length, rest)

/-- Words for the numbers that no digits denote, in lower case. -/
def wordValue? (negative : Bool) (word : String) : Option Double :=
  if word = "inf" ∨ word = "infinity" then some (.infinite negative)
  else if word = "nan" then some .nan
  else none

/-- The binary64 number that a text holds. -/
def double? (s : String) : Option Double :=
  let (negative, cs) := takeSign (dropMargins s.toList)
  match takeDecimal cs with
  | some (digits, e, []) => some (Double.ofDecimal negative digits e)
  | _ => wordValue? negative (String.ofList (cs.map Char.toLower))

/-- Whether a text is a number in plain or scientific notation, without underscores or words, with
any white space around it. -/
def isDecimalText (s : String) : Bool :=
  let (_, cs) := takeSign (trim s.toList)
  match takeDecimal cs with
  | some (_, _, []) => !cs.contains '_'
  | _ => false

end MdxPages.Number
