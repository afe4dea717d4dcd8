import MdxPages.Fault
import MdxPages.Number.Reading
import MdxPages.Value.Basic

/-!
# Json/Writer — JSON texts of values

A style fixes the separators and the margin.  Characters beyond ASCII stand for themselves unless
the style asks for ASCII; control characters always are escaped.  A scalar without a JSON form is
written as a string (`write`), or refused (`dump`).

A whole number can have too many digits to be written.  `dump` refuses it, for what it writes are
trees, whose depths and starts can be any numbers; `write` is given values of documents, in which
there is none (see `Value/Basic`).
-/

namespace MdxPages.Json

open MdxPages

/-- How a JSON text is laid out: the separators, the margin per level if lines are broken, and
whether the text is confined to ASCII. -/
structure Style where
  itemSeparator : List Char
  keySeparator : List Char
  margin : Option (List Char)
  ascii : Bool

/-- One line, with a blank after each separator. -/
def Style.line : Style := ⟨[',', ' '], [':', ' '], none, false⟩

/-- One line without blanks. -/
def Style.compact : Style := ⟨[','], [':'], none, false⟩

/-- One item per line, each level moved in by the margin. -/
def Style.broken (margin : String) : Style := ⟨[','], [':', ' '], some margin.toList, false⟩

/-- One line, or one item per line with so many blanks for each level, none for a number below
zero. -/
def Style.indented : Option Int → Style
  | none => .line
  | some n => .broken (String.ofList (List.replicate n.toNat ' '))

/-- One line of ASCII characters. -/
def Style.asciiLine : Style := ⟨[',', ' '], [':', ' '], none, true⟩

/-- A 16-bit unit as an escape. -/
def unitEscape (n : Nat) : List Char :=
  '\\' :: 'u' :: Text.hexDigits 4 n

/-- A character beyond ASCII as one escape or, above `U+FFFF`, as a pair of them. -/
def asciiEscape (c : Char) : List Char :=
  let n := c.toNat
  if n < 0x10000 then unitEscape n
  else unitEscape (0xD800 + (n - 0x10000) / 0x400) ++ unitEscape (0xDC00 + (n - 0x10000) % 0x400)

/-- A character inside a JSON string. -/
def charText (ascii : Bool) (c : Char) : List Char :=
  if c = '"' then ['\\', '"']
  else if c = '\\' then ['\\', '\\']
  else if c = '\n' then ['\\', 'n']
  else if c = '\r' then ['\\', 'r']
  else if c = '\t' then ['\\', 't']
  else if c = '\x08' then ['\\', 'b']
  else if c = '\x0c' then ['\\', 'f']
  else if c.toNat < 0x20 then unitEscape c.toNat
  else if ascii && 0x7E < c.toNat then asciiEscape c
  else [c]

/-- A text as a JSON string. -/
def stringText (ascii : Bool) (s : String) : List Char :=
  '"' :: s.toList.flatMap (charText ascii) ++ ['"']

/-- A number as JSON; infinity and not-a-number are written out. -/
def numberText : Number → List Char
  | .float .nan => "NaN".toList
  | .float (.infinite negative) => (if negative then "-Infinity" else "Infinity").toList
  | n => n.text.toList

/-- The start of a new line at a level, nothing if lines are not broken. -/
def Style.newline (style : Style) (level : Nat) : List Char :=
  match style.margin with
  | none => []
  | some margin => '\n' :: (List.replicate level margin).flatten

/-- A foreign scalar as JSON: a whole number as it is, any other by its text. -/
def foreignText (ascii : Bool) : Foreign → List Char
  | .long i => (toString i).toList
  | x => stringText ascii x.text

mutual

/-- A value as JSON, its own lines at the given level. -/
def valueText (style : Style) (level : Nat) : Value → List Char
  | .null => "null".toList
  | .bool b => (if b then "true" else "false").toList
  | .num n => numberText n
  | .str s => stringText style.ascii s
  | .arr [] => ['[', ']']
  | .arr (v :: vs) =>
    '[' :: style.newline (level + 1) ++ valueText style (level + 1) v ++
      itemsText style (level + 1) vs ++ style.newline level ++ [']']
  | .obj [] => ['\x7b', '\x7d']
  | .obj ((k, v) :: fs) =>
    '\x7b' :: style.newline (level + 1) ++ stringText style.ascii k ++ style.keySeparator ++
      valueText style (level + 1) v ++ fieldsText style (level + 1) fs ++
      style.newline level ++ ['\x7d']
  | .foreign x => foreignText style.ascii x

/-- The items after the first one, each led by a separator. -/
def itemsText (style : Style) (level : Nat) : List Value → List Char
  | [] => []
  | v :: vs =>
    style.itemSeparator ++ style.newline level ++ valueText style level v ++
      itemsText style level vs

/-- The fields after the first one, each led by a separator. -/
def fieldsText (style : Style) (level : Nat) : List (String × Value) → List Char
  | [] => []
  | (k, v) :: fs =>
    style.itemSeparator ++ style.newline level ++ stringText style.ascii k ++
      style.keySeparator ++ valueText style level v ++ fieldsText style level fs

end

/-- A value as a JSON text. -/
def write (style : Style) (v : Value) : String :=
  String.ofList (valueText style 0 v)

mutual

/-- The scalars in a value, in the order in which they are written. -/
def scalars : Value → List Value
  | .arr items => scalarsEach items
  | .obj fields => scalarsIn fields
  | v => [v]

/-- The scalars in the items of a list. -/
def scalarsEach : List Value → List Value
  | [] => []
  | v :: vs => scalars v ++ scalarsEach vs

/-- The scalars in the fields of an object. -/
def scalarsIn : List (String × Value) → List Value
  | [] => []
  | (_, v) :: fs => scalars v ++ scalarsIn fs

end

/-- Why a scalar is refused: a whole number may have too many digits to be written, and a foreign
scalar is no number and no text. -/
def refusal? : Value → Option Fault
  | .num (.int i) => if i.natAbs < Number.leastTooLong then none else some .tooManyDigits
  | .foreign (.other kind _ _) => some (.noJsonForm kind)
  | .foreign (.bytes subtype data) => some (.noJsonForm (Foreign.bytes subtype data).kind)
  | .foreign (.collection kind _ _ _) => some (.noJsonForm kind)
  | _ => none

/-- A value as a JSON text, if none of its scalars is refused. -/
def dump (style : Style) (v : Value) : Except Fault String :=
  match (scalars v).findSome? refusal? with
  | some fault => .error fault
  | none => .ok (write style v)

/-- A text as a JSON string, characters beyond ASCII as they are. -/
def quote (s : String) : String :=
  String.ofList (stringText false s)

end MdxPages.Json
