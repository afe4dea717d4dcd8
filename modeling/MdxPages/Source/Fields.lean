import MdxPages.Json.Writer
import MdxPages.Number.Reading
import MdxPages.Fault
import MdxPages.Tree.Node

/-!
# Source/Fields — what the loosely typed fields of source nodes say
-/

namespace MdxPages.Source

/-- The text of a directive argument: the texts of its nodes, or the value itself. -/
def argumentText : Value → String
  | .arr items =>
    String.join (items.map fun item => (Value.field "value" item.fields).strOrEmpty)
  | v => v.textIfGiven

/-- The text that bytes are read as where a number is looked for: one character for each byte, and
none but ASCII has a meaning. -/
def bytesText (bs : List UInt8) : String :=
  String.ofList (bs.map fun b => if b < 128 then Char.ofNat b.toNat else '\uFFFD')

/-- The whole number that a start value gives, if it is one: fractions are dropped, and texts are
read.  Truth values give none. -/
def startOf : Value → Except Fault (Option Int)
  | .num (.int i) => .ok (some i)
  | .num (.float (.finite s m e)) => .ok (some (Double.truncate s m e))
  | .num (.float (.infinite _)) => .error .infiniteInteger
  | .str s => .ok (Number.int? s)
  | .foreign (.long i) => .ok (some i)
  | .foreign (.code source _) => .ok (Number.int? source)
  | .foreign (.bytes _ data) => .ok (Number.int? (bytesText data))
  | _ => .ok none

/-- The first number of an ordered list: the first of the candidates that gives one, or else 1. -/
def listStart : List Value → Except Fault Int
  | [] => .ok 1
  | v :: vs => do
    match ← startOf v with
    | some i => return i
    | none => listStart vs

/-- The attributes that the options of a directive become: texts stay texts, and every other value
becomes a JSON expression. -/
def optionAttributes (options : Value) : List Attribute :=
  options.fields.map fun (key, v) =>
    match v.str? with
    | some s => ⟨key, .text s⟩
    | none => ⟨key, .expression (Json.write .compact v)⟩

/-- A size as an attribute: a number is an expression, and so is a text that holds a number and
nothing else; sizes with units stay texts. -/
def sizeAttribute (name : String) (raw : Value) : Except Fault (Option Attribute) :=
  match raw with
  | .null => .ok none
  | .bool b => .ok (some ⟨name, .text (if b then "true" else "false")⟩)
  | .str "" => .ok none
  | v =>
    match v.num? with
    | some n => .ok (some ⟨name, .expression n.plainText⟩)
    | none =>
      let text := v.text
      if Number.isDecimalText text then
        match Number.double? text with
        | some x => .ok (some ⟨name, .expression (Number.float x).plainText⟩)
        | none => .error (.notADecimal (Text.quoted text))
      else .ok (some ⟨name, .text text⟩)

/-- The sizes that options give. -/
def sizeAttributes (options : Entries Value) : Except Fault (List Attribute) := do
  let width ← sizeAttribute "width" (Value.field "width" options)
  let height ← sizeAttribute "height" (Value.field "height" options)
  return width.toList ++ height.toList

/-- Anchors for the given identifiers, those that are null or empty left out. -/
def anchors (ids : List Value) : List Node :=
  ids.filterMap fun id =>
    match id with
    | .null | .str "" => none
    | v => some (.flowComponent "span" [⟨"id", .text v.text⟩] [])

/-- The value of a field as a list with that one value, if it is a text. -/
def textId (v : Value) : List Value :=
  if v.str?.isSome then [v] else []

/-- The identifiers of a target: its own, or else its name. -/
def targetIds (fields : Entries Value) : List Value :=
  let ids := textId (Value.field "html_id" fields) ++ (Value.field "ids" fields).items
  if ids.isEmpty then textId (Value.field "name" fields) else ids

/-- The identifiers of a target within a line. -/
def inlineTargetIds (fields : Entries Value) : List Value :=
  (Value.field "ids" fields).items ++ textId (Value.field "html_id" fields)

/-- The first field that is not null, null if all are. -/
def firstField (keys : List String) (fields : Entries Value) : Value :=
  (keys.findSome? fun key => (Value.field key fields).nonNull?).getD .null

/-- The text of a value as a label, null if the value is not given. -/
def labelOf (v : Value) : Value :=
  if v.isGiven then .str v.text else .null

/-- The text of a value, null if the value is null. -/
def langOf : Value → Value
  | .null => .null
  | v => .str v.text

end MdxPages.Source
