import MdxPages.Json.Writer
import MdxPages.Text.Search

/-!
# Yaml/Tree — documents whose keys need not be texts

A table of a YAML document may have any scalar as a key.  With texts for keys it is an object as a
value; with other keys it is a collection that is no object, of which a value keeps the keys that
are texts and how it is shown.  A collection inside itself is shown by its brackets alone, also
where it is looked at from inside.
-/

namespace MdxPages.Yaml

/-- A key of a table, which is the value of a scalar. -/
structure Key where
  value : Value
deriving Repr, Inhabited

namespace Key

/-- The text that a key counts by. -/
def name (k : Key) : String :=
  match k.value with
  | .str s => s
  | .foreign x => x.text
  | v => Json.write .line v

/-- The text that a key is, if it is one. -/
def text? (k : Key) : Option String :=
  match k.value with
  | .str s => some s
  | _ => none

/-- Whether a key is a text. -/
def isText (k : Key) : Bool :=
  k.text?.isSome

/-- Whether two keys are the same: numbers of one value are, and truth values count as numbers. -/
def same (a b : Key) : Bool :=
  match a.value.number?, b.value.number? with
  | some m, some n => m == n || m.compare n == some .eq
  | none, none =>
    match a.value, b.value with
    | .null, .null => true
    | .str s, .str t => s == t
    | .foreign x, .foreign y => x == y
    | _, _ => false
  | _, _ => false

end Key

/-! ## Tables of values -/

namespace Pairs

/-- The fields of a table by the names of its keys. -/
def fields (pairs : List (Key × Value)) : Entries Value :=
  .ofList (pairs.map fun (k, v) => (k.name, v))

/-- A table as it is shown, if it can be. -/
def shown? (pairs : List (Key × Value)) : Option String :=
  if pairs.all fun (k, v) => k.value.isWritable && v.isWritable then
    let shownPair (pair : Key × Value) : String := pair.1.value.inspect ++ ": " ++ pair.2.inspect
    some ("\x7b" ++ Text.join ", " (pairs.map shownPair) ++ "\x7d")
  else none

/-- The value of a table: an object if all keys are texts. -/
def toValue (pairs : List (Key × Value)) : Value :=
  if pairs.all fun (k, _) => k.isText then .obj (fields pairs)
  else .foreign (.collection "dict" (pairs.filterMap fun (k, _) => k.text?) false (shown? pairs))

end Pairs

/-- What is shown of a collection inside itself: its brackets, if it can be shown. -/
def mark (v : Value) : Value :=
  let brackets := if v.kindName = "dict" then "\x7b...\x7d" else "[...]"
  .foreign (.collection v.kindName [] false (if v.isWritable then some brackets else none))

/-! ## Nodes -/

/-- A node of a document. -/
inductive Tree
  | scalar (v : Value)
  | list (items : List Tree)
  | table (pairs : List (Key × Tree))
  | again (whole : Tree)
deriving Repr, Inhabited

namespace Tree

/-- The node that holds nothing. -/
abbrev null : Tree := scalar .null

/-- A collection without content. -/
def empty (isTable : Bool) : Tree :=
  if isTable then table [] else list []

/-- Set the node at a key: in place if the key is present, at the end otherwise. -/
def putPair (key : Key) (node : Tree) : List (Key × Tree) → List (Key × Tree)
  | [] => [(key, node)]
  | (k, old) :: rest => if k.same key then (k, node) :: rest else (k, old) :: putPair key node rest

/-- The table of pairs in which a later pair overwrites an earlier one of its key. -/
def ofPairs (pairs : List (Key × Tree)) : Tree :=
  table (pairs.foldl (fun ps (k, t) => putPair k t ps) [])

mutual

/-- The value that a node denotes. -/
def toValue : Tree → Value
  | scalar v => v
  | list items => .arr (toValues items)
  | table pairs => Pairs.toValue (toPairs pairs)
  | again whole => mark (toValue whole)

/-- The values that nodes denote. -/
def toValues : List Tree → List Value
  | [] => []
  | t :: ts => t.toValue :: toValues ts

/-- The keys of pairs with the values that their nodes denote. -/
def toPairs : List (Key × Tree) → List (Key × Value)
  | [] => []
  | (k, t) :: pairs => (k, t.toValue) :: toPairs pairs

end

/-- A node in full, also where it is inside itself. -/
def full : Tree → Tree
  | again whole => full whole
  | t => t

/-- The pairs of a table, none for any other node. -/
def pairs : Tree → List (Key × Tree)
  | table ps => ps
  | _ => []

/-- Whether a node is a table with a key that is no text. -/
def hasOtherKey (t : Tree) : Bool :=
  t.full.pairs.any fun (k, _) => !k.isText

/-- The fields of a table by the names of its keys, each in full. -/
def fields (pairs : List (Key × Tree)) : Entries Value :=
  Pairs.fields (pairs.map fun (k, t) => (k, t.full.toValue))

/-- The value of a section: an object if it is a table, whatever its keys are. -/
def toSection (t : Tree) : Value :=
  match t.full with
  | table pairs => .obj (fields pairs)
  | t => t.toValue

end Tree

end MdxPages.Yaml
