import MdxPages.Entries
import MdxPages.Yaml.Node
import MdxPages.Yaml.Token

/-!
# Yaml/Node/Reader — from tokens to the node of a document
-/

namespace MdxPages.Yaml

/-- What is left to read: the tokens, the nodes with an anchor, and what the handles of tags stand
for. -/
structure Supply where
  tokens : List Token
  anchors : Entries Node := []
  handles : Entries String := []

/-- Reading from tokens. -/
abbrev Reading (α : Type) := StateT Supply (Except Problem) α

/-- The handles that every document knows. -/
def knownHandles : Entries String :=
  [(primaryHandle, primaryHandle), (primaryHandle ++ primaryHandle, standardStart)]

/-- Where a node stands: inside brackets, where a block may start, or as part of a pair in a block,
where a list needs no margin of its own. -/
inductive Place
  | flow
  | block
  | pair
deriving DecidableEq, Repr

namespace Reading

/-- The next token. -/
def peek : Reading Token := do
  match (← get).tokens with
  | [] => return .finish
  | .broken p :: _ => throw p
  | t :: _ => return t

/-- Pass the next token. -/
def pass : Reading Unit :=
  modify fun s => { s with tokens := s.tokens.drop 1 }

/-- Pass the next token if it is the given one, and say whether it was. -/
def accept (t : Token) : Reading Bool := do
  if (← peek) = t then
    pass
    return true
  else return false

/-- Pass the next token, which has to be the given one. -/
def expect (t : Token) : Reading Unit := do
  if !(← accept t) then throw .malformed

/-! ## Properties of nodes -/

/-- An anchor, if there is one. -/
def anchor? : Reading (Option String) := do
  match ← peek with
  | .anchor name =>
    pass
    return some name
  | _ => return none

/-- A tag, if there is one, with its handle explained. -/
def tag? : Reading (Option String) := do
  match ← peek with
  | .tag t =>
    pass
    match t.handle with
    | none => return some t.suffix
    | some handle =>
      match (← get).handles.get? handle with
      | some start => return some (start ++ t.suffix)
      | none => throw .malformed
  | _ => return none

/-- What is said of a node before it: its anchor and its tag, in either order. -/
structure Properties where
  anchor : Option String
  tag : Option String

/-- Whether anything is said of a node. -/
def Properties.isGiven (p : Properties) : Bool :=
  p.anchor.isSome || p.tag.isSome

/-- The tag of a node, unless it leaves the kind to the form of the node. -/
def Properties.kind? (p : Properties) : Option Tag :=
  (p.tag.filter (· != primaryHandle)).map .ofName

/-- What is said of the next node. -/
def properties : Reading Properties := do
  let anchor ← anchor?
  let tag ← tag?
  if anchor.isSome then return ⟨anchor, tag⟩ else return ⟨← anchor?, tag⟩

/-- Name a node; a name stands for one node only. -/
def name (anchor : Option String) (node : Node) : Reading Unit := do
  match anchor with
  | none => return
  | some name =>
    if (← get).anchors.has name then throw .malformed
    else modify fun s => { s with anchors := s.anchors.put name node }

/-- The node that a name stands for. -/
def named (name : String) : Reading Node := do
  Problem.orMalformed ((← get).anchors.get? name)

/-- A scalar. -/
def scalar (p : Properties) (text : String) (plain : Bool) : Reading Node := do
  let formed := Tag.ofPlain text.toList
  let tag := p.kind?.getD (if plain || p.tag.isSome then formed else .text)
  let node := Node.scalar tag text
  name p.anchor node
  return node

/-- A node with content.  Inside itself its name stands for the node that is not yet complete; when
it is, the name stands for it wherever it has been kept. -/
def collection (p : Properties) (isTable : Bool) (content : Reading Node) : Reading Node := do
  match p.anchor with
  | none => content
  | some anchor =>
    name p.anchor (.enclosing anchor isTable)
    let node ← content
    let keep (s : Supply) : Supply :=
      { s with anchors := s.anchors.map fun (other, kept) => (other, kept.complete anchor node) }
    modify keep
    let node := node.complete anchor node
    modify fun s => { s with anchors := s.anchors.put anchor node }
    return node

/-- A list. -/
def list (p : Properties) (items : Reading (List Node)) : Reading Node :=
  collection p false do return .list (p.kind?.getD .list) (← items)

/-- A table. -/
def table (p : Properties) (pairs : Reading (List (Node × Node))) : Reading Node :=
  collection p true do return .table (p.kind?.getD .table) (← pairs)

/-! ## Nodes

A node may be empty.  The tokens that can follow it tell so, and these depend on where it stands. -/

mutual

/-- A node; `fuel` bounds the nodes and parts of nodes that are read. -/
def node (fuel : Nat) (place : Place) : Reading Node :=
  match fuel with
  | 0 => throw .malformed
  | fuel + 1 => do
    match ← peek with
    | .alias name =>
      pass
      named name
    | _ =>
      let p ← properties
      match ← peek with
      | .scalar text plain =>
        pass
        scalar p text plain
      | .openBracket =>
        pass
        list p (flowItems fuel true)
      | .openBrace =>
        pass
        table p (flowPairs fuel true)
      | t =>
        if t = .dash ∧ place = .pair then list p (dashes fuel)
        else if t = .listStart ∧ place ≠ .flow then
          pass
          list p (blockItems fuel)
        else if t = .tableStart ∧ place ≠ .flow then
          pass
          table p (blockPairs fuel)
        else if p.isGiven then scalar p "" true
        else throw .malformed

/-- A node, unless one of the given tokens follows. -/
def nodeUnless (fuel : Nat) (ends : List Token) (place : Place) : Reading Node :=
  match fuel with
  | 0 => throw .malformed
  | fuel + 1 => do
    if ends.contains (← peek) then return .empty else node fuel place

/-- The value of a pair behind a colon, if there is one. -/
def value (fuel : Nat) (ends : List Token) (place : Place) : Reading Node :=
  match fuel with
  | 0 => throw .malformed
  | fuel + 1 => do
    if ← accept .value then nodeUnless fuel ends place else return .empty

/-- Items behind dashes in the column of the key before them. -/
def dashes (fuel : Nat) : Reading (List Node) :=
  match fuel with
  | 0 => throw .malformed
  | fuel + 1 => do
    if ← accept .dash then
      let item ← nodeUnless fuel [.dash, .key, .value, .blockEnd] .block
      return item :: (← dashes fuel)
    else return []

/-- The items of a list in a block. -/
def blockItems (fuel : Nat) : Reading (List Node) :=
  match fuel with
  | 0 => throw .malformed
  | fuel + 1 => do
    if ← accept .dash then
      let item ← nodeUnless fuel [.dash, .blockEnd] .block
      return item :: (← blockItems fuel)
    else
      expect .blockEnd
      return []

/-- The pairs of a table in a block. -/
def blockPairs (fuel : Nat) : Reading (List (Node × Node)) :=
  match fuel with
  | 0 => throw .malformed
  | fuel + 1 => do
    if ← accept .key then
      let key ← nodeUnless fuel [.key, .value, .blockEnd] .pair
      let v ← value fuel [.key, .value, .blockEnd] .pair
      return (key, v) :: (← blockPairs fuel)
    else
      expect .blockEnd
      return []

/-- The items of a list in brackets; a pair is an item, too. -/
def flowItems (fuel : Nat) (first : Bool) : Reading (List Node) :=
  match fuel with
  | 0 => throw .malformed
  | fuel + 1 => do
    if ← accept .closeBracket then return []
    else
      if !first then expect .comma
      if ← accept .closeBracket then return []
      else
        let item ←
          if ← accept .key then
            let key ← nodeUnless fuel [.value, .comma, .closeBracket] .flow
            let v ← value fuel [.comma, .closeBracket] .flow
            pure (Node.table .table [(key, v)])
          else node fuel .flow
        return item :: (← flowItems fuel false)

/-- The pairs of a table in braces; a node alone is a key. -/
def flowPairs (fuel : Nat) (first : Bool) : Reading (List (Node × Node)) :=
  match fuel with
  | 0 => throw .malformed
  | fuel + 1 => do
    if ← accept .closeBrace then return []
    else
      if !first then expect .comma
      if ← accept .closeBrace then return []
      else
        let pair ←
          if ← accept .key then
            let key ← nodeUnless fuel [.value, .comma, .closeBrace] .flow
            let v ← value fuel [.comma, .closeBrace] .flow
            pure (key, v)
          else pure (← node fuel .flow, Node.empty)
        return pair :: (← flowPairs fuel false)

end

/-! ## Documents -/

/-- The handles that directives explain; `versioned` says whether one of them has named a version.
`fuel` bounds their number. -/
def directives (fuel : Nat) (versioned : Bool) (handles : Entries String) :
    Reading (Entries String) :=
  match fuel with
  | 0 => throw .malformed
  | fuel + 1 => do
    match ← peek with
    | .directive d =>
      pass
      match d with
      | .version major =>
        if versioned || major != 1 then throw .malformed else directives fuel true handles
      | .handle name start =>
        if handles.has name then throw .malformed
        else directives fuel versioned (handles.put name start)
      | .other => directives fuel versioned handles
    | _ => return handles

/-- A document behind its directives and its mark. -/
def marked (fuel : Nat) : Reading Node := do
  let handles ← directives fuel false []
  modify fun s => { s with handles := Entries.merge knownHandles handles }
  expect .documentStart
  match ← peek with
  | .directive _ | .documentStart | .documentEnd | .finish => return .empty
  | _ => node fuel .block

/-- Pass the marks behind a document; `fuel` bounds their number. -/
def passEnds : (fuel : Nat) → Reading Unit
  | 0 => return
  | fuel + 1 => do
    if ← accept .documentEnd then passEnds fuel

/-- The node of the only document of a text, if there is one. -/
def document (fuel : Nat) : Reading (Option Node) := do
  match ← peek with
  | .finish => return none
  | t =>
    let isMarked := match t with
      | .directive _ | .documentStart => true
      | _ => false
    let content ← if isMarked then marked fuel else node fuel .block
    passEnds fuel
    expect .finish
    return some content

end Reading

/-- The node that tokens spell, if they spell one. -/
def Node.ofTokens? (tokens : List Token) : Except Problem (Option Node) := do
  let supply : Supply := { tokens, handles := knownHandles }
  let (node, _) ← (Reading.document (4 * tokens.length + 4)).run supply
  return node

end MdxPages.Yaml
