import MdxPages.Value.Basic

/-!
# Source/Tree — source trees

A page document is an object whose lists `children`, `term` and `argument` hold further nodes.
`ofValue` unfolds exactly these lists, so that everything else about a tree can be said by recursion
on it; all other fields stay as they are.  What is no object is a stray, and converts to nothing.
-/

namespace MdxPages

/-- A node of a source tree. -/
inductive Source
  | stray (v : Value)
  | node (fields : List (String × Value)) (children term argument : List Source)

namespace Source

mutual

/-- The source tree of a document value. -/
def ofValue : Value → Source
  | .obj fields =>
    .node fields (ofField "children" fields) (ofField "term" fields) (ofField "argument" fields)
  | v => .stray v

/-- The nodes in the list that a field holds. -/
def ofField (key : String) : List (String × Value) → List Source
  | [] => []
  | (k, v) :: rest =>
    if k = key then
      match v with
      | .arr items => ofValues items
      | _ => []
    else ofField key rest

/-- The source trees of a list of values. -/
def ofValues : List Value → List Source
  | [] => []
  | v :: vs => ofValue v :: ofValues vs

end

/-- The fields of a node, none for a stray. -/
def fields : Source → Entries Value
  | stray _ => []
  | node fields .. => fields

/-- A field of a node, null if it is missing. -/
def field (key : String) (s : Source) : Value :=
  Value.field key s.fields

mutual

/-- The texts that the nodes of a tree hold, in document order. -/
def values : Source → String
  | stray _ => ""
  | node fields children _ _ => (Value.field "value" fields).strOrEmpty ++ valuesEach children

/-- The texts that sibling trees hold. -/
def valuesEach : List Source → String
  | [] => ""
  | s :: ss => values s ++ valuesEach ss

end

/-- The texts of the nodes themselves, those of their children left out. -/
def ownTexts (ss : List Source) : String :=
  String.join (ss.map fun s => (s.field "value").strOrEmpty)

end Source

end MdxPages
