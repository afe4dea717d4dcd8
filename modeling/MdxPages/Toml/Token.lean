import MdxPages.Number.Reading
import MdxPages.Fault
import MdxPages.Text.Scan
import MdxPages.Value.Moment

/-!
# Toml/Token — the keys and scalars of TOML

Every function takes the rest of a text and answers with what it has read and what follows, or with
`none` where the text breaks the grammar.  Numbers can have a further problem: a whole number of
more than `Number.maxDigits` digits is refused.
-/

namespace MdxPages.Toml

open MdxPages.Text

/-- Whether a character is a control character other than a tab. -/
def isForbidden (c : Char) : Bool :=
  (c.toNat < 32 && c != '\t') || c.toNat == 127

/-- A text after the comment at its start, if there is one. -/
def skipComment? : List Char → Option (List Char)
  | '#' :: cs =>
    if (cs.takeWhile (· != '\n')).any isForbidden then none else some (cs.dropWhile (· != '\n'))
  | cs => some cs

/-- A text after blanks, line ends and comments; `inside` says whether a comment is open. -/
def skipSpace? (inside : Bool) : List Char → Option (List Char)
  | [] => some []
  | c :: cs =>
    if inside then
      if c = '\n' then skipSpace? false cs
      else if isForbidden c then none
      else skipSpace? true cs
    else if isBlankChar c || c == '\n' then skipSpace? false cs
    else if c = '#' then skipSpace? true cs
    else some (c :: cs)

/-! ## Strings

There are four kinds: with escapes or as they stand, on one line or on several. -/

/-- The character of an escape of one letter. -/
def letterEscape? (c : Char) : Option Char :=
  if c = '"' ∨ c = '\\' then some c
  else if c = 'b' then some '\x08'
  else if c = 't' then some '\t'
  else if c = 'n' then some '\n'
  else if c = 'f' then some '\x0c'
  else if c = 'r' then some '\r'
  else none

/-- Put a character before what has been read. -/
def prepend (c : Char) (result : Option (List Char × List Char)) :
    Option (List Char × List Char) :=
  result.map fun (read, rest) => (c :: read, rest)

/-- The characters up to the closing quote of a string on one line. -/
def readBasic : List Char → Option (List Char × List Char)
  | [] => none
  | '"' :: rest => some ([], rest)
  | '\\' :: 'u' :: a :: b :: c :: d :: rest => do
    prepend (← hexChar? [a, b, c, d]) (readBasic rest)
  | '\\' :: 'U' :: a :: b :: c :: d :: e :: f :: g :: h :: rest => do
    prepend (← hexChar? [a, b, c, d, e, f, g, h]) (readBasic rest)
  | '\\' :: e :: rest => do prepend (← letterEscape? e) (readBasic rest)
  | c :: rest => if isForbidden c || c == '\\' then none else prepend c (readBasic rest)

/-- What a backslash at the end of a line leaves out: nothing, the rest of the line, or everything
up to the next visible character. -/
inductive Trimming
  | off
  | line
  | all
deriving DecidableEq, Repr

/-- Up to two quotes that stand at the end of a string before the three that close it. -/
def closingQuotes (quote : Char) (rest : List Char) : List Char × List Char :=
  match rest with
  | a :: b :: more =>
    if a = quote ∧ b = quote then ([quote, quote], more)
    else if a = quote then ([quote], b :: more)
    else ([], rest)
  | [a] => if a = quote then ([quote], []) else ([], [a])
  | [] => ([], [])

/-- The characters up to the three quotes that close a string on several lines. -/
def readLongBasic (trimming : Trimming) : List Char → Option (List Char × List Char)
  | [] => none
  | '"' :: '"' :: '"' :: rest =>
    if trimming = .line then none else some (closingQuotes '"' rest)
  | '\\' :: 'u' :: a :: b :: c :: d :: rest =>
    if trimming = .line then none
    else do prepend (← hexChar? [a, b, c, d]) (readLongBasic .off rest)
  | '\\' :: 'U' :: a :: b :: c :: d :: e :: f :: g :: h :: rest =>
    if trimming = .line then none
    else do prepend (← hexChar? [a, b, c, d, e, f, g, h]) (readLongBasic .off rest)
  | '\\' :: e :: rest =>
    if trimming = .line then none
    else if e = '\n' then readLongBasic .all rest
    else if isBlankChar e then readLongBasic .line rest
    else do prepend (← letterEscape? e) (readLongBasic .off rest)
  | c :: rest =>
    match trimming with
    | .line =>
      if isBlankChar c then readLongBasic .line rest
      else if c = '\n' then readLongBasic .all rest
      else none
    | _ =>
      if trimming = .all ∧ (isBlankChar c ∨ c = '\n') then readLongBasic .all rest
      else if (isForbidden c && c != '\n') || c == '\\' then none
      else prepend c (readLongBasic .off rest)

/-- The characters up to the closing quote of a literal string on one line. -/
def readLiteral : List Char → Option (List Char × List Char)
  | [] => none
  | '\'' :: rest => some ([], rest)
  | c :: rest => if isForbidden c then none else prepend c (readLiteral rest)

/-- The characters up to the three quotes that close a literal string on several lines. -/
def readLongLiteral : List Char → Option (List Char × List Char)
  | [] => none
  | '\'' :: '\'' :: '\'' :: rest => some (closingQuotes '\'' rest)
  | c :: rest =>
    if isForbidden c && c != '\n' then none else prepend c (readLongLiteral rest)

/-- A text without the line end at its start. -/
def dropLineEnd : List Char → List Char
  | '\n' :: cs => cs
  | cs => cs

/-- A string of any of the four forms. -/
def readString? : List Char → Option (List Char × List Char)
  | '"' :: '"' :: '"' :: cs => readLongBasic .off (dropLineEnd cs)
  | '"' :: cs => readBasic cs
  | '\'' :: '\'' :: '\'' :: cs => readLongLiteral (dropLineEnd cs)
  | '\'' :: cs => readLiteral cs
  | _ => none

/-! ## Keys -/

/-- Names of tables and values, from the outermost to the innermost. -/
abbrev Key := List String

/-- Whether a character may stand in a key without quotes. -/
def isBare (c : Char) : Bool :=
  c.isAlphanum || c == '-' || c == '_'

/-- One name of a key. -/
def readName? : List Char → Option (String × List Char)
  | '"' :: cs => (readBasic cs).map fun (name, rest) => (String.ofList name, rest)
  | '\'' :: cs => (readLiteral cs).map fun (name, rest) => (String.ofList name, rest)
  | cs =>
    let name := cs.takeWhile isBare
    if name.isEmpty then none else some (String.ofList name, cs.drop name.length)

/-- Names with points between them; `fuel` bounds their number. -/
def readKey? : (fuel : Nat) → List Char → Option (Key × List Char)
  | 0, _ => none
  | fuel + 1, cs => do
    let (name, rest) ← readName? cs
    match skipBlanks rest with
    | '.' :: more =>
      let (names, rest) ← readKey? fuel (skipBlanks more)
      return (name :: names, rest)
    | rest => return ([name], rest)

/-! ## Numbers

An underscore may stand between two digits.  A whole number may have a base other than ten. -/

/-- The digits of a class at the start, single underscores between them left out. -/
def takeDigits (p : Char → Bool) (after : Bool) : List Char → List Char × List Char
  | [] => ([], [])
  | c :: cs =>
    if p c then
      let (ds, rest) := takeDigits p true cs
      (c :: ds, rest)
    else if after && c == '_' && startsWithAny p cs then takeDigits p false cs
    else ([], c :: cs)

/-- Whether a character is an ASCII digit of a base up to ten. -/
def isDigitBelow (base : Nat) (c : Char) : Bool :=
  c.isDigit && c.toNat < 48 + base

/-- A number in a base after its letter. -/
def readBased? (base : Nat) (p : Char → Bool) (cs : List Char) : Option (Value × List Char) :=
  match takeDigits p false cs with
  | ([], _) => none
  | (ds, rest) => some (.int (numberInBase base ds), rest)

/-- The digits of a fraction, if there is one. -/
def readFraction? (cs : List Char) : Option (List Char × List Char) :=
  match cs with
  | '.' :: cs =>
    match takeDigits Char.isDigit false cs with
    | ([], _) => none
    | found => some found
  | _ => none

/-- An exponent, if there is one. -/
def readExponent? (cs : List Char) : Option (Int × List Char) :=
  match cs with
  | e :: cs =>
    if e = 'e' ∨ e = 'E' then
      let (negative, cs) := Number.takeSign cs
      match takeDigits Char.isDigit false cs with
      | ([], _) => none
      | (ds, rest) =>
        let n : Int := numberInBase 10 ds
        some (if negative then -n else n, rest)
    else none
  | [] => none

/-- A decimal number after its sign: whole, unless it has a fraction or an exponent. -/
def readDecimal (negative : Bool) (cs : List Char) : Except Problem (Value × List Char) :=
  let (whole, rest) := match cs with
    | '0' :: rest => (['0'], rest)
    | cs => takeDigits Char.isDigit false cs
  if whole.isEmpty then .error .malformed
  else
    let fraction := readFraction? rest
    let rest := fraction.elim rest Prod.snd
    let digits := fraction.elim [] Prod.fst
    let exponent := readExponent? rest
    let rest := exponent.elim rest Prod.snd
    if fraction.isNone && exponent.isNone then
      if Number.maxDigits < whole.length then .error (.fault .tooManyDigits)
      else
        let n : Int := numberInBase 10 whole
        .ok (.int (if negative then -n else n), rest)
    else
      let e : Int := exponent.elim 0 Prod.fst - digits.length
      .ok (.float (Double.ofDecimal negative (numberInBase 10 (whole ++ digits)) e), rest)

/-- Infinity or not-a-number by its word. -/
def readWord? (negative : Bool) : List Char → Option (Value × List Char)
  | 'i' :: 'n' :: 'f' :: rest => some (.float (.infinite negative), rest)
  | 'n' :: 'a' :: 'n' :: rest => some (.float .nan, rest)
  | _ => none

/-- A number. -/
def readNumber (cs : List Char) : Except Problem (Value × List Char) :=
  let based := match cs with
    | '0' :: 'x' :: rest => readBased? 16 (fun c => (Text.hexValue? c).isSome) rest
    | '0' :: 'o' :: rest => readBased? 8 (isDigitBelow 8) rest
    | '0' :: 'b' :: rest => readBased? 2 (isDigitBelow 2) rest
    | _ => none
  let (negative, unsigned) := Number.takeSign cs
  match based <|> readWord? negative unsigned with
  | some result => .ok result
  | none => readDecimal negative unsigned

/-! ## Dates and times

A date, a time or both, with or without a distance from universal time. -/

/-- A date; its day need not stand in its month. -/
def readDate? (cs : List Char) : Option (Date × List Char) := do
  let (year, cs) ← takeFixed? 4 cs
  let (month, cs) ← takeFixed? 2 (← after? '-' cs)
  let (day, cs) ← takeFixed? 2 (← after? '-' cs)
  if 1 ≤ month ∧ month ≤ 12 ∧ 1 ≤ day ∧ day ≤ 31 then return (⟨year, month, day⟩, cs) else none

/-- A time of the day. -/
def readTime? (cs : List Char) : Option (TimeOfDay × List Char) := do
  let (hour, cs) ← takeFixed? 2 cs
  let (minute, cs) ← takeFixed? 2 (← after? ':' cs)
  let (second, cs) ← takeFixed? 2 (← after? ':' cs)
  let ds := match cs with
    | '.' :: cs => cs.takeWhile Char.isDigit
    | _ => []
  let time : TimeOfDay := ⟨hour, minute, second, TimeOfDay.microOf ds⟩
  if time.isValid then return (time, if ds.isEmpty then cs else cs.drop (ds.length + 1)) else none

/-- A distance from universal time in minutes. -/
def readOffset? : List Char → Option (Int × List Char)
  | 'Z' :: cs | 'z' :: cs => some (0, cs)
  | sign :: cs => do
    if sign ≠ '+' ∧ sign ≠ '-' then none
    else
      let (hours, cs) ← takeFixed? 2 cs
      let (minutes, cs) ← takeFixed? 2 (← after? ':' cs)
      if 23 < hours ∨ 59 < minutes then none
      else
        let n : Int := 60 * hours + minutes
        return (if sign = '-' then -n else n, cs)
  | [] => none

/-- The time after a date, if one follows. -/
def readTimeAfter? : List Char → Option (TimeOfDay × List Char)
  | c :: cs => if c = 'T' ∨ c = 't' ∨ c = ' ' then readTime? cs else none
  | [] => none

/-- A date, a time, or both, and whether the date stands in the calendar. -/
def readMoment? (cs : List Char) : Option (Bool × Value × List Char) :=
  match readDate? cs with
  | some (date, rest) =>
    match readTimeAfter? rest with
    | none => some (date.isValid, .ofDate date, rest)
    | some (time, rest) =>
      match readOffset? rest with
      | some (offset, rest) => some (date.isValid, .ofDateTime date time (some offset), rest)
      | none => some (date.isValid, .ofDateTime date time none, rest)
  | none => (readTime? cs).map fun (time, rest) => (true, .ofTime time, rest)

/-- A value without parts: a string, a truth value, a moment or a number. -/
def readScalar (cs : List Char) : Except Problem (Value × List Char) :=
  match cs with
  | '"' :: _ | '\'' :: _ => do
    let (s, rest) ← Problem.orMalformed (readString? cs)
    return (.str (String.ofList s), rest)
  | 't' :: 'r' :: 'u' :: 'e' :: rest => .ok (.bool true, rest)
  | 'f' :: 'a' :: 'l' :: 's' :: 'e' :: rest => .ok (.bool false, rest)
  | _ =>
    match readMoment? cs with
    | some (valid, v, rest) => if valid then .ok (v, rest) else .error .malformed
    | none => readNumber cs

end MdxPages.Toml
