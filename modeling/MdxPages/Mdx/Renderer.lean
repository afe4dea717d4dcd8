import MdxPages.Mdx.Render

/-!
# Mdx/Renderer — rendering by visits

A renderer visits the nodes of a tree one after the other.  What they put out collects in its
output; where the text of a part is needed by itself, the output so far is set aside and taken up
again.  A list leaves the marker for the item that is visited next.  A renderer can be used for one
tree after the other, also when one of them made it stop with a fault half-way: the output and the
marker stay as the fault found them, and are cleared before the next tree.
-/

namespace MdxPages.Mdx

/-- A renderer: the texts put out so far, and the marker that a list has left for its next item. -/
structure Renderer where
  output : List String := []
  marker : Option String := none
deriving DecidableEq, Repr, Inhabited

/-- A part of rendering; what it changed in the renderer stays when it stops with a fault. -/
abbrev Visit (α : Type) := ExceptT Fault (StateM Renderer) α

namespace Renderer

/-- What a list item is led by: the marker that is left for it, or the bullet. -/
def lead (o : RenderOptions) (r : Renderer) : String :=
  (r.marker.filter (!·.isEmpty)).getD o.bullet.text

/-- Put out a text. -/
def put (text : String) : Visit Unit :=
  modify fun r => { r with output := r.output ++ [text] }

/-- Leave a marker for the next list item, or none. -/
def setMarker (marker : Option String) : Visit Unit :=
  modify fun r => { r with marker }

/-- The text that a visit puts out, set apart from the output before it. -/
def capture (visit : Visit Unit) : Visit String := do
  let saved := (← get).output
  modify fun r => { r with output := [] }
  visit
  let text := String.join (← get).output
  modify fun r => { r with output := saved }
  return text

mutual

/-- Visit a node: put out its text. -/
def visit (o : RenderOptions) : Node → Visit Unit
  | .root cs => do put (joinBlocks (← visitBlocks o cs))
  | .heading depth cs => do
    let content := Text.replaceChar '\n' " " (← capture (visitAll o cs))
    put ((← headingMarks depth) ++ " " ++ content)
  | .paragraph cs => do put (← capture (visitAll o cs))
  | .code value lang => put (codeText value lang)
  | .blockquote cs => do put (quoteText (joinBlocks (← visitBlocks o cs)))
  | .list ordered start cs => do
    let saved := (← get).marker
    let items ← visitItems o ordered start 0 cs
    setMarker saved
    put (Text.join "\n" items)
  | .listItem cs => do
    let marker := (← get).lead o
    -- the lists in the item choose their own markers
    setMarker none
    let content := joinBlocks (← visitBlocks o cs)
    setMarker (some marker)
    put (itemText marker content)
  | .thematicBreak => put "***"
  | .html value => put value
  | .yaml value => put ("---\n" ++ value ++ "\n---")
  | .imports value => put value
  | .footnoteDefinition identifier _ cs => do
    put (footnoteText identifier (joinBlocks (← visitBlocks o cs)))
  | .flowComponent name attributes cs => do
    let attributes ← attributesText attributes
    put (componentText name attributes (joinBlocks (← visitBlocks o cs)))
  | .text value =>
    put (if o.escapeText.isGiven then String.ofList (escape value.toList) else value)
  | .emphasis cs => do
    let mark := o.emphasis.emphasis
    put (mark ++ (← capture (visitAll o cs)) ++ mark)
  | .strong cs => do
    let mark := o.strong.strong
    put (mark ++ (← capture (visitAll o cs)) ++ mark)
  | .inlineCode value => put (codeSpanText value)
  | .link url cs => do
    put ("[" ++ (← capture (visitAll o cs)) ++ "](" ++ destinationText url ++ ")")
  | .lineBreak => put "\\\n"
  | .footnoteReference identifier _ => put ("[^" ++ identifier ++ "]")
  | .textComponent name attributes cs => do
    let attributes ← attributesText attributes
    put (inlineComponentText name attributes (← capture (visitAll o cs)))

/-- Visit siblings one after the other. -/
def visitAll (o : RenderOptions) : List Node → Visit Unit
  | [] => pure ()
  | n :: ns => do
    visit o n
    visitAll o ns

/-- The texts of siblings, each set apart. -/
def visitBlocks (o : RenderOptions) : List Node → Visit (List String)
  | [] => pure []
  | n :: ns => do
    let first ← capture (visit o n)
    return first :: (← visitBlocks o ns)

/-- The texts of the children of a list, a marker left for each of them; the first of them is at the
given index. -/
def visitItems (o : RenderOptions) (ordered : Bool) (start : Value) (index : Nat) :
    List Node → Visit (List String)
  | [] => pure []
  | n :: ns => do
    let marker ← if ordered then liftM (orderedMarker start index) else pure o.bullet.text
    setMarker (some marker)
    let first ← capture (visit o n)
    return first :: (← visitItems o ordered start (index + 1) ns)

end

/-- The document of a tree. -/
def renderToString (o : RenderOptions) (tree : Node) : Visit String := do
  set ({} : Renderer)
  visit o tree
  let document := closeDocument (String.join (← get).output)
  modify fun r => { r with output := [] }
  return document

/-- A renderer once it has been used for some trees, one after the other. -/
def usedFor (o : RenderOptions) (trees : List Node) (r : Renderer) : Renderer :=
  trees.foldl (fun r tree => (renderToString o tree r).2) r

/-- The text of a node that a new renderer visits by itself. -/
def textAlone (o : RenderOptions) (n : Node) : Except Fault String :=
  (capture (visit o n) {}).1

end Renderer

end MdxPages.Mdx
