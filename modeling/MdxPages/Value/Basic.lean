import MdxPages.Entries
import MdxPages.Number.Reading
import MdxPages.Text.Quoted

/-!
# Value/Basic — the values of documents, settings and configuration files

JSON values with ordered objects, in which whole numbers and binary64 numbers differ, and beside
them the little that only other formats know (identifiers, dates, bytes, sets), which a value
carries along.

A value is shown in messages.  One that holds a whole number of more than 4300 digits cannot be
shown (`isWritable`); such numbers come from hexadecimal notation and from arithmetic alone, for
what is read in decimal digits has no more of them.  What is told of a value read from JSON or BSON
can therefore do without the question, and so do `inspect`, `text` and all that is made of
documents.  It is asked of settings, whose values come from TOML and YAML, too, of the numbers that
items of lists count up to, and of trees that are written as JSON.
-/

namespace MdxPages

/-- What has no JSON form. -/
inductive Foreign
  /-- A scalar of which no more matters than the name of its kind, its text, and its text inside a
  list. -/
  | other (kind text inspected : String)
  /-- Bytes, of a subtype that is 0 for bytes and no more. -/
  | bytes (subtype : Nat) (data : List UInt8)
  /-- A piece of code: a text that equals no other text, and what it is inside a list. -/
  | code (source inspected : String)
  /-- A whole number that is kept in 64 bits. -/
  | long (i : Int)
  /-- A set, or a table with keys that are no texts: the name of its kind, the texts among its
  members or keys, whether it is empty, and its text, if that can be written. -/
  | collection (kind : String) (texts : List String) (isEmpty : Bool) (shown? : Option String)
deriving DecidableEq, Repr

namespace Foreign

/-- The name of the kind of a scalar. -/
def kind : Foreign → String
  | other kind _ _ => kind
  | bytes subtype _ => if subtype = 0 then "bytes" else "Binary"
  | code _ _ => "Code"
  | long _ => "Int64"
  | collection kind _ _ _ => kind

/-- The text of a scalar. -/
def text : Foreign → String
  | other _ text _ => text
  | bytes _ data => Text.quotedBytes data
  | code source _ => source
  | long i => toString i
  | collection _ _ _ shown? => shown?.getD ""

/-- The text of a scalar inside a list. -/
def inspected : Foreign → String
  | other _ _ inspected => inspected
  | bytes subtype data =>
    if subtype = 0 then Text.quotedBytes data
    else "Binary(" ++ Text.quotedBytes data ++ ", " ++ toString subtype ++ ")"
  | code _ inspected => inspected
  | long i => toString i
  | collection _ _ _ shown? => shown?.getD ""

/-- Whether a scalar counts as given. -/
def isGiven : Foreign → Bool
  | other .. => true
  | bytes _ data => !data.isEmpty
  | code source _ => !source.isEmpty
  | long i => i != 0
  | collection _ _ isEmpty _ => !isEmpty

/-- Whether the text of a scalar can be written. -/
def isWritable : Foreign → Bool
  | collection _ _ _ shown? => shown?.isSome
  | _ => true

end Foreign

/-- A value of a document. -/
inductive Value
  | null
  | bool (b : Bool)
  | num (n : Number)
  | str (s : String)
  | arr (items : List Value)
  | obj (fields : List (String × Value))
  | foreign (x : Foreign)
deriving Repr, Inhabited

namespace Value

/-- The whole number `i`. -/
abbrev int (i : Int) : Value := .num (.int i)

/-- The binary64 number `x`. -/
abbrev float (x : Double) : Value := .num (.float x)

/-- The name of the kind of a value, for messages. -/
def kindName : Value → String
  | null => "NoneType"
  | bool _ => "bool"
  | num (.int _) => "int"
  | num (.float _) => "float"
  | str _ => "str"
  | arr _ => "list"
  | obj _ => "dict"
  | foreign x => x.kind

/-- Whether a value counts as given: everything but null, false, zero and the empty text, list and
object. -/
def isGiven : Value → Bool
  | null => false
  | bool b => b
  | num n => !n.isZero
  | str s => !s.isEmpty
  | arr items => !items.isEmpty
  | obj fields => !fields.isEmpty
  | foreign x => x.isGiven

/-- Whether a value is null. -/
def isNull : Value → Bool
  | null => true
  | _ => false

/-- The value, unless it is null. -/
def nonNull? : Value → Option Value
  | null => none
  | v => some v

/-- The text that a value holds, if it is a text or a piece of code. -/
def str? : Value → Option String
  | str s => some s
  | foreign (.code source _) => some source
  | _ => none

/-- The text that a value holds, empty if it is not a text. -/
def strOrEmpty (v : Value) : String :=
  v.str?.getD ""

/-- The items of a list, none for any other value. -/
def items : Value → List Value
  | arr xs => xs
  | _ => []

/-- The fields of an object, none for any other value. -/
def fields : Value → Entries Value
  | obj fs => fs
  | _ => []

/-- The fields of an object, if the value is one. -/
def obj? : Value → Option (Entries Value)
  | obj fs => some fs
  | _ => none

/-- The number that a value is, if it is one; the truth values are none. -/
def num? : Value → Option Number
  | num n => some n
  | foreign (.long i) => some (.int i)
  | _ => none

/-- The number that a value counts as: numbers, and the truth values as 1 and 0. -/
def number? : Value → Option Number
  | bool b => some (.int (if b then 1 else 0))
  | v => v.num?

/-- The value of a field, null if the field is missing. -/
def field (key : String) (fs : Entries Value) : Value :=
  (fs.get? key).getD null

mutual

/-- A value as it is shown inside a list or object: texts in quotes. -/
def inspect : Value → String
  | null => "None"
  | bool b => if b then "True" else "False"
  | num n => n.text
  | str s => Text.quoted s
  | arr items => "[" ++ inspectItems items ++ "]"
  | obj fields => "\x7b" ++ inspectFields fields ++ "\x7d"
  | foreign x => x.inspected

/-- Items as they are shown, with commas between them. -/
def inspectItems : List Value → String
  | [] => ""
  | [v] => v.inspect
  | v :: vs => v.inspect ++ ", " ++ inspectItems vs

/-- Fields as they are shown, with commas between them. -/
def inspectFields : List (String × Value) → String
  | [] => ""
  | [(k, v)] => Text.quoted k ++ ": " ++ v.inspect
  | (k, v) :: fs => Text.quoted k ++ ": " ++ v.inspect ++ ", " ++ inspectFields fs

end

/-- The text of a value: a text stands for itself, all else is shown. -/
def text : Value → String
  | str s => s
  | foreign x => x.text
  | v => v.inspect

mutual

/-- Whether a value can be shown: no whole number in it has too many digits. -/
def isWritable : Value → Bool
  | num n => n.isWritable
  | arr items => areWritable items
  | obj fields => fieldsAreWritable fields
  | foreign x => x.isWritable
  | _ => true

/-- Whether the items of a list can be shown. -/
def areWritable : List Value → Bool
  | [] => true
  | v :: vs => v.isWritable && areWritable vs

/-- Whether the fields of an object can be shown. -/
def fieldsAreWritable : List (String × Value) → Bool
  | [] => true
  | (_, v) :: fs => v.isWritable && fieldsAreWritable fs

end

/-- The text of a value, empty for a value that is not given. -/
def textIfGiven (v : Value) : String :=
  if v.isGiven then v.text else ""

@[simp] theorem text_str (s : String) : (str s).text = s := rfl

@[simp] theorem strOrEmpty_str (s : String) : (str s).strOrEmpty = s := rfl

end Value

end MdxPages
