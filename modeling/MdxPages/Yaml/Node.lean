import MdxPages.Fault
import MdxPages.Yaml.Tag

/-!
# Yaml/Node — the nodes of a document

An alias is the node that it names.  Inside that node itself it is the name of a node that is not
yet complete (`enclosing`); once the node is complete the alias is the whole node again (`again`),
in which it stays a name.
-/

namespace MdxPages.Yaml

/-- A node. -/
inductive Node
  | scalar (tag : Tag) (text : String)
  | list (tag : Tag) (items : List Node)
  | table (tag : Tag) (pairs : List (Node × Node))
  | enclosing (name : String) (isTable : Bool)
  | again (whole : Node)
deriving Repr, Inhabited

namespace Node

/-- The scalar that nothing is written for. -/
def empty : Node := scalar .null ""

/-- The kind of a node. -/
def tag : Node → Tag
  | scalar tag _ | list tag _ | table tag _ => tag
  | enclosing _ isTable => if isTable then .table else .list
  | again whole => whole.tag

/-- Whether a node is written as a scalar. -/
def isScalar : Node → Bool
  | scalar .. => true
  | _ => false

/-- A node as a key: the mark of the default value is a text there. -/
def asKey : Node → Node
  | scalar .default text => scalar .text text
  | list .default items => list .text items
  | table .default pairs => table .text pairs
  | node => node

mutual

/-- The text of a scalar; a table stands for its default value. -/
def text? : Node → Option String
  | scalar _ text => some text
  | table _ pairs => defaultText? pairs
  | again whole => text? whole
  | list _ _ | enclosing .. => none

/-- The text of the first default value among pairs. -/
def defaultText? : List (Node × Node) → Option String
  | [] => none
  | (key, value) :: pairs => if key.tag = .default then text? value else defaultText? pairs

end

/-! ## Merging

Merged pairs come before the own ones of a table, and those of the last of several tables first.  Of
two pairs with one key the later one counts. -/

mutual

/-- The pairs of a table: those that are merged into it, and its own, which come behind them. -/
def splitPairs : List (Node × Node) → Except Problem (List (Node × Node) × List (Node × Node))
  | [] => .ok ([], [])
  | (key, value) :: pairs =>
    if key.tag = .merge then do
      let more ← toMerge value
      let (merged, own) ← splitPairs pairs
      return (more ++ merged, own)
    else do
      let (merged, own) ← splitPairs pairs
      return (merged, (key.asKey, value) :: own)

/-- The pairs that a node gives to the table that it is merged into. -/
def toMerge : Node → Except Problem (List (Node × Node))
  | table _ pairs => do
    let (merged, own) ← splitPairs pairs
    return merged ++ own
  | list _ items => eachToMerge items
  | again whole => toMerge whole
  | enclosing .. => .ok []
  | scalar .. => .error .malformed

/-- The pairs that tables give to the table that they are merged into, those of the last one
first. -/
def eachToMerge : List Node → Except Problem (List (Node × Node))
  | [] => .ok []
  | item :: items => do
    let pairs ← tableToMerge item
    return (← eachToMerge items) ++ pairs

/-- The pairs that a table gives to the table that it is merged into with others. -/
def tableToMerge : Node → Except Problem (List (Node × Node))
  | table _ pairs => do
    let (merged, own) ← splitPairs pairs
    return merged ++ own
  | again whole => tableToMerge whole
  | enclosing _ isTable => if isTable then .ok [] else .error .malformed
  | _ => .error .malformed

end

/-- The pairs of a table, those that are merged into it first. -/
def allPairs (pairs : List (Node × Node)) : Except Problem (List (Node × Node)) := do
  let (merged, own) ← splitPairs pairs
  return merged ++ own

/-! ## Completing -/

mutual

/-- A node in which a name that has stood for an enclosing node stands for the whole of it. -/
def complete (name : String) (whole : Node) : Node → Node
  | scalar tag text => scalar tag text
  | list tag items => list tag (completeItems name whole items)
  | table tag pairs => table tag (completePairs name whole pairs)
  | enclosing other isTable => if other = name then again whole else enclosing other isTable
  | again node => again (complete name whole node)

/-- Items in which a name stands for the whole of an enclosing node. -/
def completeItems (name : String) (whole : Node) : List Node → List Node
  | [] => []
  | item :: items => complete name whole item :: completeItems name whole items

/-- Pairs in which a name stands for the whole of an enclosing node. -/
def completePairs (name : String) (whole : Node) : List (Node × Node) → List (Node × Node)
  | [] => []
  | (key, value) :: pairs =>
    (complete name whole key, complete name whole value) :: completePairs name whole pairs

end

/-! ## Height -/

mutual

/-- How many nodes lie below one another. -/
def height : Node → Nat
  | scalar .. | enclosing .. => 1
  | again whole => height whole + 1
  | list _ items => heightOfItems items + 1
  | table _ pairs => heightOfPairs pairs + 1

/-- The height of the highest item. -/
def heightOfItems : List Node → Nat
  | [] => 0
  | item :: items => max (height item) (heightOfItems items)

/-- The height of the highest part of a pair. -/
def heightOfPairs : List (Node × Node) → Nat
  | [] => 0
  | (key, value) :: pairs => max (max (height key) (height value)) (heightOfPairs pairs)

end

end Node

end MdxPages.Yaml
