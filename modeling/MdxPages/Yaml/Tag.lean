import MdxPages.Text.Scan
import MdxPages.Text.Search

/-!
# Yaml/Tag — the kinds of values, and the kinds that plain scalars have by their form

A scalar without quotes is a text unless it has the form of a truth value, a number, null or a
moment, or is one of two marks: `<<` merges other tables into its own, and `=` is the default value
of a table.  The forms are tried in the order of `Tag.ofPlain`.
-/

namespace MdxPages.Yaml

open MdxPages.Text

/-- The kinds of values. -/
inductive Tag
  | null
  | bool
  | int
  | float
  | binary
  | moment
  | text
  | list
  | table
  | pairs
  | set
  | merge
  | default
  | other (name : String)
deriving DecidableEq, Repr

/-- What the names of the standard tags start with. -/
def standardStart : String := "tag:yaml.org,2002:"

/-- The standard tags by the ends of their names. -/
def standardTags : List (String × Tag) :=
  [("null", .null), ("bool", .bool), ("int", .int), ("float", .float), ("binary", .binary),
    ("timestamp", .moment), ("str", .text), ("seq", .list), ("map", .table), ("omap", .pairs),
    ("pairs", .pairs), ("set", .set), ("merge", .merge), ("value", .default)]

namespace Tag

/-- The kind of values that a tag names. -/
def ofName (name : String) : Tag :=
  if startsWith name standardStart then
    (standardTags.lookup (String.ofList (name.toList.drop standardStart.length))).getD (.other name)
  else .other name

/-- Whether values of a kind are scalars, which can be keys. -/
def isScalar : Tag → Bool
  | null | bool | int | float | binary | moment | text => true
  | _ => false

end Tag

/-! ## The forms of plain scalars

The forms are those of an older version of the language, in which `yes` is a truth value and a colon
may part the digits of a number. -/

/-- The words that are truth values. -/
def truthWords : List String :=
  ["yes", "Yes", "YES", "no", "No", "NO", "true", "True", "TRUE", "false", "False", "FALSE", "on",
    "On", "ON", "off", "Off", "OFF"]

/-- The words that are null; so is the empty scalar. -/
def nullWords : List String := ["~", "null", "Null", "NULL", ""]

/-- The words for infinity, without a sign. -/
def infinityWords : List String := [".inf", ".Inf", ".INF"]

/-- The words for not-a-number. -/
def nanWords : List String := [".nan", ".NaN", ".NAN"]

/-- A text without a sign. -/
def dropSign : List Char → List Char
  | [] => []
  | c :: cs => if c = '+' ∨ c = '-' then cs else c :: cs

/-- Whether a character may stand among the digits of a number. -/
def isDigitOrLine (c : Char) : Bool :=
  c.isDigit || c == '_'

/-- Whether a text is a digit and then digits and underscores. -/
def isDigits (cs : List Char) : Bool :=
  startsWithAny Char.isDigit cs && cs.all isDigitOrLine

/-- Whether a part between colons is a number below sixty. -/
def isSixtieth (part : List Char) : Bool :=
  match part with
  | [a] => a.isDigit
  | [a, b] => a.isDigit && a < '6' && b.isDigit
  | _ => false

/-- Whether a text is a number in base sixty of two or more parts. -/
def isSixtieths (cs : List Char) : Bool :=
  match splitOn (· == ':') cs with
  | first :: second :: rest => isDigits first && (second :: rest).all isSixtieth
  | _ => false

/-- Whether a text is empty or an exponent, whose sign is needed. -/
def isExponent (cs : List Char) : Bool :=
  match cs with
  | [] => true
  | e :: sign :: ds =>
    (e == 'e' || e == 'E') && (sign == '+' || sign == '-') && !ds.isEmpty && ds.all Char.isDigit
  | _ => false

/-- Whether a text is a number with a point; without digits before the point it has no sign. -/
def isFraction (cs : List Char) : Bool :=
  let unsigned := dropSign cs
  let whole := unsigned.takeWhile isDigitOrLine
  match unsigned.drop whole.length with
  | '.' :: rest =>
    let fraction := rest.takeWhile isDigitOrLine
    (if whole.isEmpty then isDigits fraction && unsigned.length == cs.length else isDigits whole) &&
      isExponent (rest.drop fraction.length)
  | _ => false

/-- Whether a text is a number in base sixty with a point at its end. -/
def isSixtiethFraction (cs : List Char) : Bool :=
  let whole := (dropSign cs).takeWhile (· != '.')
  match (dropSign cs).drop whole.length with
  | '.' :: fraction => isSixtieths whole && fraction.all isDigitOrLine
  | _ => false

/-- Whether a text is a binary64 number. -/
def isFloat (cs : List Char) : Bool :=
  isFraction cs || isSixtiethFraction cs || nanWords.contains (String.ofList cs) ||
    infinityWords.contains (String.ofList (dropSign cs))

/-- Whether a text without a sign is an integer: binary, octal, decimal, hexadecimal, or in base
sixty. -/
def isNatural (cs : List Char) : Bool :=
  match cs with
  | '0' :: 'b' :: ds => !ds.isEmpty && ds.all fun c => c == '0' || c == '1' || c == '_'
  | '0' :: 'x' :: ds => !ds.isEmpty && ds.all fun c => (hexValue? c).isSome || c == '_'
  | '0' :: ds => ds.all fun c => (c.isDigit && c < '8') || c == '_'
  | cs => isDigits cs || isSixtieths cs

/-- Whether a text is an integer. -/
def isInt (cs : List Char) : Bool :=
  isNatural (dropSign cs)

/-! ## The forms of moments -/

/-- The date of a moment and its time as they are written: its numbers, the digits of its fraction,
and its distance from universal time with its sign. -/
structure WrittenTime where
  hour : Nat
  minute : Nat
  second : Nat
  fraction : List Char
  zone : Option (Bool × Nat × Nat)
deriving DecidableEq, Repr

/-- A date as it is written, with a time if there is one. -/
structure WrittenMoment where
  year : Nat
  month : Nat
  day : Nat
  time : Option WrittenTime
deriving DecidableEq, Repr

/-- A number of one or two digits. -/
def readShort? (cs : List Char) : Option (Nat × List Char) :=
  takeFixed? 2 cs <|> takeFixed? 1 cs

/-- A text after what separates a date from a time. -/
def afterDate? : List Char → Option (List Char)
  | c :: cs =>
    if c = 'T' ∨ c = 't' then some cs
    else if isBlankChar c then some (skipBlanks cs)
    else none
  | [] => none

/-- A distance from universal time up to the end of a text, which may be empty. -/
def readZone? (cs : List Char) : Option (Option (Bool × Nat × Nat)) :=
  match skipBlanks cs with
  | [] => if cs.isEmpty then some none else none
  | ['Z'] => some (some (false, 0, 0))
  | sign :: cs => do
    if sign ≠ '+' ∧ sign ≠ '-' then none
    else
      let (hours, cs) ← readShort? cs
      match cs with
      | [] => some (some (sign == '-', hours, 0))
      | ':' :: cs =>
        let (minutes, rest) ← takeFixed? 2 cs
        if rest.isEmpty then some (some (sign == '-', hours, minutes)) else none
      | _ => none

/-- A time up to the end of a text. -/
def readTime? (cs : List Char) : Option WrittenTime := do
  let (hour, cs) ← readShort? cs
  let (minute, cs) ← takeFixed? 2 (← after? ':' cs)
  let (second, cs) ← takeFixed? 2 (← after? ':' cs)
  match cs with
  | '.' :: cs =>
    let ds := cs.takeWhile Char.isDigit
    return ⟨hour, minute, second, ds, ← readZone? (cs.drop ds.length)⟩
  | cs => return ⟨hour, minute, second, [], ← readZone? cs⟩

/-- A date, or a date with a time. -/
def readMoment? (cs : List Char) : Option WrittenMoment := do
  let (year, cs) ← takeFixed? 4 cs
  let (month, cs) ← readShort? (← after? '-' cs)
  let (day, cs) ← readShort? (← after? '-' cs)
  if cs.isEmpty then return ⟨year, month, day, none⟩
  else return ⟨year, month, day, some (← readTime? (← afterDate? cs))⟩

/-- Whether a text is a moment; a date without a time needs all its digits. -/
def isMoment (cs : List Char) : Bool :=
  match readMoment? cs with
  | some m => m.time.isSome || cs.length == 10
  | none => false

/-! ## All forms -/

/-- A text without one line end at its end, which no form looks at. -/
def dropLastBreak (cs : List Char) : List Char :=
  if cs.length != 1 && cs.getLast? == some '\n' then cs.dropLast else cs

/-- The kind of a scalar without quotes. -/
def Tag.ofPlain (text : List Char) : Tag :=
  let cs := dropLastBreak text
  let word := String.ofList cs
  if truthWords.contains word then .bool
  else if isFloat cs then .float
  else if isInt cs then .int
  else if word = "<<" then .merge
  else if nullWords.contains word then .null
  else if isMoment cs then .moment
  else if word = "=" then .default
  else if word = "!" ∨ word = "&" ∨ word = "*" then .other word
  else .text

end MdxPages.Yaml
