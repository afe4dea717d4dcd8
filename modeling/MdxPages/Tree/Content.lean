import MdxPages.Tree.Node

/-!
# Tree/Content — the text and the nodes of a tree in document order
-/

namespace MdxPages

namespace Node

mutual

/-- The text of a tree: text and inline code in document order, a joiner between siblings. -/
def plainText (joiner : String) : Node → String
  | text s | inlineCode s => s
  | root cs | heading _ cs | paragraph cs | blockquote cs | list _ _ cs | listItem cs
  | footnoteDefinition _ _ cs | flowComponent _ _ cs | emphasis cs | strong cs | link _ cs
  | textComponent _ _ cs => plainTexts joiner cs
  | code .. | thematicBreak | html _ | yaml _ | imports _ | lineBreak | footnoteReference .. => ""

/-- The text of sibling trees. -/
def plainTexts (joiner : String) : List Node → String
  | [] => ""
  | [n] => plainText joiner n
  | n :: ns => plainText joiner n ++ joiner ++ plainTexts joiner ns

end

mutual

/-- All nodes of a tree, parents before their children. -/
def preorder : Node → List Node
  | n@(root cs) | n@(heading _ cs) | n@(paragraph cs) | n@(blockquote cs) | n@(list _ _ cs)
  | n@(listItem cs) | n@(footnoteDefinition _ _ cs) | n@(flowComponent _ _ cs) | n@(emphasis cs)
  | n@(strong cs) | n@(link _ cs) | n@(textComponent _ _ cs) => n :: preorders cs
  | leaf => [leaf]

/-- All nodes of sibling trees. -/
def preorders : List Node → List Node
  | [] => []
  | n :: ns => preorder n ++ preorders ns

end

/-- The nodes of a tree that satisfy a condition, in document order. -/
def collect (p : Node → Bool) (n : Node) : List Node :=
  n.preorder.filter p

mutual

/-- A tree without the nodes whose type is to be dropped, if its own type is not. -/
def without (dropped : String → Bool) : Node → Option Node
  | n@(root cs) | n@(heading _ cs) | n@(paragraph cs) | n@(blockquote cs) | n@(list _ _ cs)
  | n@(listItem cs) | n@(footnoteDefinition _ _ cs) | n@(flowComponent _ _ cs) | n@(emphasis cs)
  | n@(strong cs) | n@(link _ cs) | n@(textComponent _ _ cs) =>
    if dropped n.type then none else some (n.withChildren (withouts dropped cs))
  | leaf => if dropped leaf.type then none else some leaf

/-- Sibling trees without the nodes whose type is to be dropped. -/
def withouts (dropped : String → Bool) : List Node → List Node
  | [] => []
  | n :: ns => (without dropped n).toList ++ withouts dropped ns

end

end Node

end MdxPages
