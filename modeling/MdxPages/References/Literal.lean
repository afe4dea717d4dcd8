import MdxPages.Text.Digit
import MdxPages.Text.Search

/-!
# References/Literal — string literals of the registry module

A literal stands between two equal quotes, single or double; a backslash and the character after it
belong together.  `encode` writes single-quoted literals, `readBody` cuts a literal off a text, and
`decode` turns what stands between the quotes back into the text.

An escape can stand for half of a surrogate pair.  That is no character, and a text that holds one
can be read but not be written.  Here two halves in a row are read as the character that they stand
for together, and one alone as `U+FFFD`; nothing that `encode` writes holds such an escape.
-/

namespace MdxPages.References

/-- The most characters that a value keeps. -/
def maxLength : Nat := 1000

/-- A text cut to the greatest length, a cut marked by an ellipsis. -/
def truncate (cs : List Char) : List Char :=
  if maxLength < cs.length then cs.take maxLength ++ ['…'] else cs

/-- A character inside a single-quoted literal. -/
def encodeChar (c : Char) : List Char :=
  if c = '\\' then ['\\', '\\']
  else if c = '\'' then ['\\', '\'']
  else if c = '\r' then ['\\', 'r']
  else if c = '\n' then ['\\', 'n']
  else if c = '\t' then ['\\', 't']
  else [c]

/-- A text as a single-quoted literal. -/
def encode (s : String) : String :=
  String.ofList ('\'' :: (truncate s.toList).flatMap encodeChar ++ ['\''])

/-- What stands before the closing quote, and the rest after it.  An escaped line break ends no
literal and belongs to none. -/
def readBody (quote : Char) : List Char → Option (List Char × List Char)
  | [] => none
  | '\\' :: [] => none
  | '\\' :: d :: cs =>
    if d = '\n' then none
    else (readBody quote cs).map fun (body, rest) => ('\\' :: d :: body, rest)
  | c :: cs =>
    if c = quote then some ([], cs)
    else (readBody quote cs).map fun (body, rest) => (c :: body, rest)

/-- A literal at the start of a text: what stands between its quotes, and the rest. -/
def readLiteral : List Char → Option (List Char × List Char)
  | [] => none
  | c :: cs => if c = '\'' ∨ c = '"' then readBody c cs else none

/-- The character that an escaped letter stands for. -/
def escapedChar (c : Char) : Char :=
  if c = 'n' then '\n'
  else if c = 'r' then '\r'
  else if c = 't' then '\t'
  else if c = 'b' then '\x08'
  else if c = 'f' then '\x0c'
  else c

/-- The number of a 16-bit unit written in four hexadecimal digits. -/
def unitOf? (a b c d : Char) : Option Nat := do
  let a ← Text.hexValue? a
  let b ← Text.hexValue? b
  let c ← Text.hexValue? c
  let d ← Text.hexValue? d
  return ((a * 16 + b) * 16 + c) * 16 + d

/-- The text that the inside of a literal stands for; `half` is the first half of a surrogate pair
that stands just before, and a half without its partner becomes `U+FFFD`. -/
def decodeFrom (half : Option Nat) : List Char → List Char
  | [] => half.elim [] fun _ => ['\uFFFD']
  | '\\' :: 'u' :: a :: b :: c :: d :: cs =>
    let lone := half.elim [] fun _ => ['\uFFFD']
    match unitOf? a b c d with
    | none => lone ++ 'u' :: decodeFrom none (a :: b :: c :: d :: cs)
    | some n =>
      if 0xD800 ≤ n ∧ n < 0xDC00 then lone ++ decodeFrom (some n) cs
      else if 0xDC00 ≤ n ∧ n < 0xE000 then
        (match half with
        | some high => Char.ofNat (0x10000 + (high - 0xD800) * 0x400 + (n - 0xDC00))
        | none => '\uFFFD') :: decodeFrom none cs
      else lone ++ Char.ofNat n :: decodeFrom none cs
  | '\\' :: c :: cs =>
    (half.elim [] fun _ => ['\uFFFD']) ++ escapedChar c :: decodeFrom none cs
  | c :: cs => (half.elim [] fun _ => ['\uFFFD']) ++ c :: decodeFrom none cs

/-- The text that the inside of a literal stands for. -/
def decode (body : List Char) : String :=
  String.ofList (decodeFrom none body)

end MdxPages.References
