import MdxPages.Bytes.Base64
import MdxPages.Number.Reading
import MdxPages.Text.Case
import MdxPages.Value.Moment
import MdxPages.Yaml.Node

/-!
# Yaml/Scalar — the values of scalars

A tag says how the text of a scalar is read.  Where the tag comes from the form of the text, the
text fits it; where it is written, the text need not fit, and what is wrong then is a fault of the
kind of value that was to be read.
-/

namespace MdxPages.Yaml

open MdxPages.Text

/-- A text without underscores. -/
def dropLines (cs : List Char) : List Char :=
  cs.filter (· != '_')

/-- Whether a text has a minus sign, and the text without its sign; it needs a first character. -/
def splitSign (cs : List Char) : Except Problem (Bool × List Char) :=
  if cs.isEmpty then .error (.fault .missingDigits)
  else .ok (startsWithAny (· == '-') cs, dropSign cs)

/-! ## Truth values and integers -/

/-- The truth value of a word. -/
def truthOf (text : String) : Except Problem Value :=
  let word := lower text
  if word = "yes" ∨ word = "true" ∨ word = "on" then .ok (.bool true)
  else if word = "no" ∨ word = "false" ∨ word = "off" then .ok (.bool false)
  else .error (.fault (.notATruthValue (quoted word)))

/-- The value of a digit in a base; a decimal digit may be of any script. -/
def digitInBase? (base : Nat) (c : Char) : Option Nat :=
  (decimalValue? c <|> hexValue? c).filter (· < base)

/-- The letter that marks digits of a base behind a zero. -/
def baseLetter (base : Nat) : Char :=
  if base = 2 then 'b' else if base = 8 then 'o' else 'x'

/-- A text without the mark of a base. -/
def dropBaseMark (base : Nat) : List Char → List Char
  | '0' :: c :: cs => if c.toLower = baseLetter base then cs else '0' :: c :: cs
  | cs => cs

/-- The integer in a base that a text holds, with a sign and margins. -/
def intInBase (base : Nat) (cs : List Char) : Except Problem Int :=
  let (negative, unsigned) := Number.takeSign (Number.dropMargins cs)
  let digits := dropBaseMark base unsigned
  match digits.mapM (digitInBase? base) with
  | some (d :: ds) =>
    let n := (d :: ds).foldl (fun n d => base * n + d) 0
    .ok (if negative then -(n : Int) else n)
  | _ => .error (.fault (.notAnInteger (quoted (String.ofList cs))))

/-- The decimal integer that a text holds. -/
def decimalInt (cs : List Char) : Except Problem Int :=
  match Number.int? (String.ofList cs) with
  | some i => .ok i
  | none => .error (.fault (.notAnInteger (quoted (String.ofList cs))))

/-- The integer of a text without its first sign: binary, octal, decimal, hexadecimal, or of parts
in base sixty. -/
def unsignedInt (cs : List Char) : Except Problem Int :=
  match cs with
  | [] => .error (.fault .missingDigits)
  | ['0'] => .ok 0
  | '0' :: 'b' :: ds => intInBase 2 ds
  | '0' :: 'x' :: ds => intInBase 16 ds
  | '0' :: _ => intInBase 8 cs
  | _ => do
    let parts ← (splitOn (· == ':') cs).mapM decimalInt
    return parts.foldl (fun n part => 60 * n + part) 0

/-- The integer of a text. -/
def intOf (text : String) : Except Problem Value := do
  let (negative, unsigned) ← splitSign (dropLines text.toList)
  let i ← unsignedInt unsigned
  return .int (if negative then -i else i)

/-! ## Binary64 numbers -/

/-- The binary64 number that a text holds. -/
def decimalDouble (cs : List Char) : Except Problem Double :=
  match Number.double? (String.ofList cs) with
  | some x => .ok x
  | none => .error (.fault (.notADecimal (quoted (String.ofList cs))))

/-- The sum of parts in base sixty, the last one first; `unit` is the worth of the first. -/
def sumSixtieths (sum : Double) (unit : Nat) : List Double → Except Problem Double
  | [] => .ok sum
  | part :: parts =>
    match Double.ofInt unit with
    | .infinite _ => .error (.fault .unboundedInteger)
    | worth => sumSixtieths (sum.add (part.mul worth)) (60 * unit) parts

/-- The number of a text in lower case without its first sign. -/
def unsignedDouble (cs : List Char) : Except Problem Double :=
  if cs = ".inf".toList then .ok (.infinite false)
  else if cs = ".nan".toList then .ok .nan
  else
    match splitOn (· == ':') cs with
    | [_] => decimalDouble cs
    | parts => do sumSixtieths (Double.zero false) 1 (← parts.mapM decimalDouble).reverse

/-- The binary64 number of a text. -/
def floatOf (text : String) : Except Problem Value := do
  let (negative, unsigned) ← splitSign (lower (String.ofList (dropLines text.toList))).toList
  let x ← unsignedDouble unsigned
  return .float (if negative then x.neg else x)

/-! ## Bytes and moments -/

/-- The bytes of a text. -/
def binaryOf (text : String) : Except Problem Value :=
  if text.toList.all (·.toNat < 128) then
    Problem.orMalformed ((Bytes.ofBase64? text.toList).map fun data => .foreign (.bytes 0 data))
  else .error .malformed

/-- A distance from universal time in minutes. -/
def minutesOf (negative : Bool) (hours minutes : Nat) : Int :=
  let n : Int := 60 * hours + minutes
  if negative then -n else n

/-- The moment that is written, if calendar and clock have it. -/
def WrittenMoment.value? (m : WrittenMoment) : Option Value :=
  let date : Date := ⟨m.year, m.month, m.day⟩
  match m.time with
  | none => if date.isValid then some (.ofDate date) else none
  | some t =>
    let time : TimeOfDay := ⟨t.hour, t.minute, t.second, TimeOfDay.microOf t.fraction⟩
    let zone := t.zone.map fun (negative, hours, minutes) => minutesOf negative hours minutes
    if date.isValid && time.isValid && zone.all (·.natAbs < 1440) then
      some (.ofDateTime date time zone)
    else none

/-- The moment of a text. -/
def momentOf (text : String) : Except Problem Value :=
  match readMoment? (dropLastBreak text.toList) with
  | none => .error (.fault (.notAMoment (quoted text)))
  | some m =>
    match m.value? with
    | some v => .ok v
    | none => .error (.fault (.noMoment (quoted text)))

/-! ## All kinds -/

/-- The value of a node whose kind is a kind of scalars.  A table counts by its default value, but
not as a moment. -/
def scalarValue (tag : Tag) (node : Node) : Except Problem Value := do
  let text ← Problem.orMalformed node.text?
  match tag with
  | .null => return .null
  | .bool => truthOf text
  | .int => intOf text
  | .float => floatOf text
  | .binary => binaryOf text
  | .moment => if node.isScalar then momentOf text else throw (.fault (.notText "list"))
  | .text => return .str text
  | _ => throw .malformed

end MdxPages.Yaml
