import MdxPages.Yaml.Scalar
import MdxPages.Yaml.Tree

/-!
# Yaml/Denotation — what the node of a document stands for

Values are built level by level: first the node itself, then what it holds, then what those hold.  A
document with several problems therefore has the one that lies on the lowest level, and of those the
first.  `both` and `all` say so; everything else is a case for each kind of values.
-/

namespace MdxPages.Yaml

/-- A result, or the problem that is met first with the level on which it lies. -/
abbrev Leveled (α : Type) := Except (Nat × Problem) α

namespace Leveled

variable {α β : Type}

/-- A result on a level. -/
def ofLevel (level : Nat) (r : Except Problem α) : Leveled α :=
  r.mapError fun p => (level, p)

/-- Two results; of two problems the one on the lower level, the first of one level. -/
def both (a : Leveled α) (b : Leveled β) : Leveled (α × β) :=
  match a, b with
  | .ok x, .ok y => .ok (x, y)
  | .error p, .ok _ => .error p
  | .ok _, .error q => .error q
  | .error p, .error q => .error (if q.1 < p.1 then q else p)

/-- All results of a list. -/
def all : List (Leveled α) → Leveled (List α)
  | [] => .ok []
  | a :: as => (both a (all as)).map fun (x, xs) => x :: xs

end Leveled

namespace Node

/-- The items of a list. -/
def items? : Node → Option (List Node)
  | list _ items => some items
  | _ => none

/-- The pairs of a table with those that are merged into it. -/
def mergedPairs : Node → Except Problem (List (Node × Node))
  | table _ pairs => allPairs pairs
  | _ => .error .malformed

/-- The only pair of a table. -/
def onlyPair? : Node → Option (Node × Node)
  | table _ [pair] => some pair
  | again whole => onlyPair? whole
  | _ => none

/-- The key that a node is, which has to be a scalar. -/
def key (node : Node) : Except Problem Key :=
  if node.tag.isScalar then (scalarValue node.tag node).map Key.mk else .error .malformed

end Node

/-- A set of keys, shown by its members. -/
def Tree.ofMembers (keys : List Key) : Tree :=
  let members := (Tree.ofPairs (keys.map fun k => (k, Tree.null))).pairs.map Prod.fst
  let values := members.map Key.value
  let text := if values.isEmpty then "set()" else "\x7b" ++ Value.inspectItems values ++ "\x7d"
  .scalar (.foreign (.collection "set" (members.filterMap Key.text?) members.isEmpty
    (if Value.areWritable values then some text else none)))

open Leveled in
/-- What a node on a level stands for; `fuel` bounds the levels below.  What is wrong with a node
that is there again is wrong with it where it is first, on a lower level. -/
def Node.denote : (fuel : Nat) → (level : Nat) → Node → Leveled Tree
  | _, _, .enclosing _ isTable => .ok (.again (Tree.empty isTable))
  | 0, level, _ => .error (level, .malformed)
  | fuel + 1, level, .again whole =>
    match denote fuel level whole with
    | .ok t => .ok (.again t)
    | .error _ => .ok (.again (Tree.empty (whole.tag = .table)))
  | fuel + 1, level, node =>
    let below := level + 1
    let denotePair (pair : Node × Node) : Leveled (Key × Tree) :=
      both (ofLevel below pair.1.key) (denote fuel below pair.2)
    match node.tag with
    | .list => do
      let items ← ofLevel below (Problem.orMalformed node.items?)
      (all (items.map (denote fuel below))).map Tree.list
    | .table => do
      let pairs ← ofLevel below node.mergedPairs
      (all (pairs.map denotePair)).map Tree.ofPairs
    | .set => do
      let pairs ← ofLevel below node.mergedPairs
      (all (pairs.map denotePair)).map fun pairs => Tree.ofMembers (pairs.map Prod.fst)
    | .pairs => do
      let items ← ofLevel below (Problem.orMalformed node.items?)
      let denoteItem (item : Node) : Leveled Tree := do
        let (key, value) ← ofLevel below (Problem.orMalformed item.onlyPair?)
        (both (denote fuel below key) (denote fuel below value)).map fun (k, v) => Tree.list [k, v]
      (all (items.map denoteItem)).map Tree.list
    | tag => ofLevel level ((scalarValue tag node).map Tree.scalar)

/-- What the node of a document stands for. -/
def Node.toTree (node : Node) : Except Problem Tree :=
  (node.denote node.height 0).mapError Prod.snd

end MdxPages.Yaml
