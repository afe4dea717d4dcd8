import MdxPages.Value.Basic
import MdxPages.Number.Reading
import MdxPages.Fault

/-!
# Json/Reader — values from JSON texts

The grammar of JSON, with `NaN`, `Infinity` and `-Infinity` as further numbers.  A number without
fraction and exponent is whole.  Of several fields of one object with the same key the last value
counts, at the place of the first.  A whole number of more than `Number.maxDigits` digits is
refused.  An escape of half a surrogate pair, which is no character, reads as `U+FFFD`.
-/

namespace MdxPages.Json

open MdxPages

/-- The blanks that JSON allows between tokens. -/
def isBlank (c : Char) : Bool :=
  c == ' ' || c == '\t' || c == '\n' || c == '\r'

/-- A text without the blanks at its start. -/
def skipBlanks (cs : List Char) : List Char :=
  cs.dropWhile isBlank

/-- The number of a 16-bit unit written in four hexadecimal digits. -/
def unit? (a b c d : Char) : Option Nat := do
  let a ← Text.hexValue? a
  let b ← Text.hexValue? b
  let c ← Text.hexValue? c
  let d ← Text.hexValue? d
  return ((a * 16 + b) * 16 + c) * 16 + d

/-- The character of an escape of one letter. -/
def letterEscape? (c : Char) : Option Char :=
  if c = '"' ∨ c = '\\' ∨ c = '/' then some c
  else if c = 'n' then some '\n'
  else if c = 'r' then some '\r'
  else if c = 't' then some '\t'
  else if c = 'b' then some '\x08'
  else if c = 'f' then some '\x0c'
  else none

/-- The first half of a surrogate pair that stayed alone. -/
def loneHalf : Option Nat → List Char
  | none => []
  | some _ => ['\uFFFD']

/-- Put characters before the result of reading. -/
def prepend (cs : List Char) (result : Option (List Char × List Char)) :
    Option (List Char × List Char) :=
  result.map fun (read, rest) => (cs ++ read, rest)

/-- The characters of a string up to its closing quote, and the rest; `half` is the first half of a
surrogate pair that stands just before. -/
def readString (half : Option Nat) : List Char → Option (List Char × List Char)
  | [] => none
  | '"' :: rest => some (loneHalf half, rest)
  | '\\' :: 'u' :: a :: b :: c :: d :: rest =>
    match unit? a b c d with
    | none => none
    | some n =>
      if 0xD800 ≤ n ∧ n < 0xDC00 then prepend (loneHalf half) (readString (some n) rest)
      else
        match half with
        | some high =>
          if 0xDC00 ≤ n ∧ n < 0xE000 then
            prepend [Char.ofNat (0x10000 + (high - 0xD800) * 0x400 + (n - 0xDC00))]
              (readString none rest)
          else prepend ['\uFFFD', Char.ofNat n] (readString none rest)
        | none =>
          prepend [if 0xDC00 ≤ n ∧ n < 0xE000 then '\uFFFD' else Char.ofNat n]
            (readString none rest)
  | '\\' :: c :: rest =>
    match letterEscape? c with
    | none => none
    | some d => prepend (loneHalf half ++ [d]) (readString none rest)
  | c :: rest =>
    if c.toNat < 0x20 then none else prepend (loneHalf half ++ [c]) (readString none rest)

/-- The ASCII digits at the start of a text, and the rest. -/
def takeDigits (cs : List Char) : List Nat × List Char :=
  ((cs.takeWhile Char.isDigit).map fun c => c.toNat - 48, cs.dropWhile Char.isDigit)

/-- A fraction at the start of a text: its digits, if a point and a digit stand there. -/
def readFraction (cs : List Char) : Option (List Nat) × List Char :=
  match cs with
  | '.' :: tail =>
    match takeDigits tail with
    | ([], _) => (none, cs)
    | (ds, rest) => (some ds, rest)
  | _ => (none, cs)

/-- An exponent at the start of a text. -/
def readExponent (cs : List Char) : Option Int × List Char :=
  match cs with
  | c :: tail =>
    if c = 'e' ∨ c = 'E' then
      let (negative, digits) := Number.takeSign tail
      match takeDigits digits with
      | ([], _) => (none, cs)
      | (ds, rest) =>
        let n : Int := Number.ofDigits ds
        (some (if negative then -n else n), rest)
    else (none, cs)
  | [] => (none, cs)

/-- An unsigned number: zero or digits without a leading zero, then a fraction and an exponent. -/
def readNumber (negative : Bool) (cs : List Char) : Except Problem (Number × List Char) :=
  let (whole, rest) := match cs with
    | '0' :: tail => ([0], tail)
    | _ => takeDigits cs
  if whole.isEmpty then .error .malformed
  else
    let (fraction, rest) := readFraction rest
    let (e, rest) := readExponent rest
    if fraction.isNone && e.isNone then
      if Number.maxDigits < whole.length then .error (.fault .tooManyDigits)
      else
        let n : Int := Number.ofDigits whole
        .ok (.int (if negative then -n else n), rest)
    else
      let ds := fraction.getD []
      .ok (.float (.ofDecimal negative (Number.ofDigits (whole ++ ds)) (e.getD 0 - ds.length)),
        rest)

/-- The rest of a text after a word that it starts with. -/
def afterWord? (word : String) (cs : List Char) : Option (List Char) :=
  if word.toList.isPrefixOf cs then some (cs.drop word.length) else none

/-- A value that is written as a word. -/
def readWord? (cs : List Char) : Option (Value × List Char) :=
  let word (text : String) (v : Value) := (afterWord? text cs).map (v, ·)
  word "null" .null <|> word "true" (.bool true) <|> word "false" (.bool false) <|>
    word "NaN" (.float .nan) <|> word "Infinity" (.float (.infinite false)) <|>
    word "-Infinity" (.float (.infinite true))

/-- A value that is neither a string nor a list nor an object. -/
def readScalar (cs : List Char) : Except Problem (Value × List Char) :=
  match readWord? cs with
  | some result => .ok result
  | none =>
    let number := match cs with
      | '-' :: tail => readNumber true tail
      | _ => readNumber false cs
    number.map fun (n, rest) => (.num n, rest)

mutual

/-- A value at the start of a text, and the rest; `fuel` bounds the number of tokens. -/
def readValue (fuel : Nat) (cs : List Char) : Except Problem (Value × List Char) :=
  match fuel with
  | 0 => .error .malformed
  | fuel + 1 =>
    match cs with
    | '"' :: tail =>
      match readString none tail with
      | some (s, rest) => .ok (.str (String.ofList s), rest)
      | none => .error .malformed
    | '[' :: tail =>
      match skipBlanks tail with
      | ']' :: rest => .ok (.arr [], rest)
      | rest => (readItems fuel rest).map fun (vs, rest) => (.arr vs, rest)
    | '\x7b' :: tail =>
      match skipBlanks tail with
      | '\x7d' :: rest => .ok (.obj [], rest)
      | rest => (readFields fuel rest).map fun (fs, rest) => (.obj (Entries.ofList fs), rest)
    | _ => readScalar cs

/-- The items of a list up to its closing bracket. -/
def readItems (fuel : Nat) (cs : List Char) : Except Problem (List Value × List Char) :=
  match fuel with
  | 0 => .error .malformed
  | fuel + 1 =>
    match readValue fuel cs with
    | .error p => .error p
    | .ok (v, rest) =>
      match skipBlanks rest with
      | ']' :: rest => .ok ([v], rest)
      | ',' :: rest => (readItems fuel (skipBlanks rest)).map fun (vs, rest) => (v :: vs, rest)
      | _ => .error .malformed

/-- The fields of an object up to its closing brace. -/
def readFields (fuel : Nat) (cs : List Char) : Except Problem (List (String × Value) × List Char) :=
  match fuel with
  | 0 => .error .malformed
  | fuel + 1 =>
    match cs with
    | '"' :: tail =>
      match readString none tail with
      | none => .error .malformed
      | some (k, rest) =>
        match skipBlanks rest with
        | ':' :: rest =>
          match readValue fuel (skipBlanks rest) with
          | .error p => .error p
          | .ok (v, rest) =>
            match skipBlanks rest with
            | '\x7d' :: rest => .ok ([(String.ofList k, v)], rest)
            | ',' :: rest =>
              (readFields fuel (skipBlanks rest)).map fun (fs, rest) =>
                ((String.ofList k, v) :: fs, rest)
            | _ => .error .malformed
        | _ => .error .malformed
    | _ => .error .malformed

end

/-- The value of a JSON text, which has to be one as a whole. -/
def read (s : String) : Except Problem Value :=
  let cs := skipBlanks s.toList
  match readValue (2 * cs.length + 2) cs with
  | .ok (v, rest) => if (skipBlanks rest).isEmpty then .ok v else .error .malformed
  | .error p => .error p

end MdxPages.Json
