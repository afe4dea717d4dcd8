import MdxPages.Convert.Handling

/-!
# Convert/Pass — from source trees to output trees

One pass over the tree, in document order but for one exception: the title of a section comes
first.  `convertNode` runs the handler of the node's kind over the conversions of its lists;
everything recurses on the source tree, so the pass always ends.
-/

namespace MdxPages.Convert

open MdxPages.Source

variable {σ : Type}

mutual

/-- Convert a node at a section depth. -/
def convertNode (run : Run σ) (place : Place) (depth : Int) : Source → Conversion σ Converted
  | .stray v => do
    record .debug ("Skipping non-object node: " ++ v.inspect)
    return .nothing
  | .node fields children term argument =>
    handle run place depth (kindOf fields) fields children
      { children := convertAll run place depth children
        term := convertAll run place depth term
        argument := convertAll run place depth argument
        title := convertTitle run place depth children
        body := convertBody run place (depth + 1) false children
        lines := convertLines run place depth children
        content := fun place => convertContent run place children }

/-- Convert siblings. -/
def convertAll (run : Run σ) (place : Place) (depth : Int) :
    List Source → Conversion σ (List Node)
  | [] => return []
  | s :: ss => do
    let first ← convertNode run place depth s
    return first.toList ++ (← convertAll run place depth ss)

/-- Convert what is in the first title among siblings. -/
def convertTitle (run : Run σ) (place : Place) (depth : Int) :
    List Source → Conversion σ (List Node)
  | [] => return []
  | .stray _ :: ss => convertTitle run place depth ss
  | .node fields children _ _ :: ss =>
    if isTitle fields then convertAll run place depth children
    else convertTitle run place depth ss

/-- Convert siblings without the first title among them; `passed` says whether it is passed. -/
def convertBody (run : Run σ) (place : Place) (depth : Int) (passed : Bool) :
    List Source → Conversion σ (List Node)
  | [] => return []
  | s :: ss =>
    if !passed && isTitle s.fields then convertBody run place depth true ss
    else do
      let first ← convertNode run place depth s
      return first.toList ++ (← convertBody run place depth passed ss)

/-- Convert siblings as lines, a line break between them. -/
def convertLines (run : Run σ) (place : Place) (depth : Int) :
    List Source → Conversion σ (List Node)
  | [] => return []
  | [s] => do
    let line ← convertNode run place depth s
    return line.toList
  | s :: ss => do
    let line ← convertNode run place depth s
    return line.toList ++ Node.lineBreak :: (← convertLines run place depth ss)

/-- Convert the content of a fragment; an extract that is all of it is seen through. -/
def convertContent (run : Run σ) (place : Place) : List Source → Conversion σ (List Node)
  | [] => return []
  | [.stray v] => do
    let only ← convertNode run place 1 (.stray v)
    return only.toList
  | [.node fields children term argument] =>
    if isExtract fields then convertAll run place 1 children
    else do
      let only ← convertNode run place 1 (.node fields children term argument)
      return only.toList
  | s :: ss => do
    let first ← convertNode run place 1 s
    return first.toList ++ (← convertAll run place 1 ss)

end

/-- Convert the root of a page: its children, assembled with its options. -/
def convertRoot (run : Run σ) (place : Place) (root : Entries Value) : Conversion σ Node := do
  let content ← convertAll run place 1 (ofField "children" root)
  return assemble (Value.field "options" root).fields (← get).file content

/-- Convert a list of nodes as the fragment of a path; a fragment that encloses it is refused. -/
def convertFragment (run : Run σ) (place : Place) (fragment : String) (content : List Value) :
    Conversion σ (Except Failure Node) :=
  if closesCycle run.options place fragment then
    return .error (.includeCycle fragment place.chain)
  else do
    let tree ← fragmentTree place fragment fun place => convertAll run place 1 (ofValues content)
    return .ok tree

/-- The page of a root: the tree or the fault that stopped it, and the state at the end. -/
def convertPage (run : Run σ) (path : String) (root : Entries Value) (emitter : σ) :
    Except Fault Node × Session σ :=
  convertRoot run ⟨path, []⟩ root ⟨{}, emitter, []⟩

end MdxPages.Convert
