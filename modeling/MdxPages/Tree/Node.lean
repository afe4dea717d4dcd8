import MdxPages.Value.Basic

/-!
# Tree/Node — the tree of an output page

Flow nodes are blocks, phrasing nodes are inline; a few kinds (components) exist in both forms.
Fields that converted trees always fill with one type, but that a tree read from JSON may fill with
anything (`lang`, `label`, `start`), are kept as the values found there, null standing for absent.
-/

namespace MdxPages

/-- The value of an attribute: a text, an expression that is written between braces, or any other
value that a tree read from JSON may hold there. -/
inductive AttributeValue
  | text (s : String)
  | expression (source : String)
  | other (v : Value)
deriving Repr, Inhabited

/-- An attribute of a component. -/
structure Attribute where
  name : String
  value : AttributeValue
deriving Repr, Inhabited

/-- A node of an output tree. -/
inductive Node
  | root (children : List Node)
  | heading (depth : Number) (children : List Node)
  | paragraph (children : List Node)
  | code (value : String) (lang : Value)
  | blockquote (children : List Node)
  | list (ordered : Bool) (start : Value) (children : List Node)
  | listItem (children : List Node)
  | thematicBreak
  | html (value : String)
  | yaml (value : String)
  | imports (value : String)
  | footnoteDefinition (identifier : String) (label : Value) (children : List Node)
  | flowComponent (name : String) (attributes : List Attribute) (children : List Node)
  | text (value : String)
  | emphasis (children : List Node)
  | strong (children : List Node)
  | inlineCode (value : String)
  | link (url : String) (children : List Node)
  | lineBreak
  | footnoteReference (identifier : String) (label : Value)
  | textComponent (name : String) (attributes : List Attribute) (children : List Node)
deriving Repr, Inhabited

namespace Node

/-- The name of the kind of a node, as written in JSON trees. -/
def type : Node → String
  | root _ => "root"
  | heading .. => "heading"
  | paragraph _ => "paragraph"
  | code .. => "code"
  | blockquote _ => "blockquote"
  | list .. => "list"
  | listItem _ => "listItem"
  | thematicBreak => "thematicBreak"
  | html _ => "html"
  | yaml _ => "yaml"
  | imports _ => "mdxjsEsm"
  | footnoteDefinition .. => "footnoteDefinition"
  | flowComponent .. => "mdxJsxFlowElement"
  | text _ => "text"
  | emphasis _ => "emphasis"
  | strong _ => "strong"
  | inlineCode _ => "inlineCode"
  | link .. => "link"
  | lineBreak => "break"
  | footnoteReference .. => "footnoteReference"
  | textComponent .. => "mdxJsxTextElement"

/-- Whether a node is phrasing content. -/
def isPhrasing : Node → Bool
  | text _ | emphasis _ | strong _ | inlineCode _ | link .. | lineBreak | footnoteReference ..
  | textComponent .. => true
  | _ => false

/-- The children of a node, none for a leaf. -/
def children : Node → List Node
  | root cs | heading _ cs | paragraph cs | blockquote cs | list _ _ cs | listItem cs
  | footnoteDefinition _ _ cs | flowComponent _ _ cs | emphasis cs | strong cs | link _ cs
  | textComponent _ _ cs => cs
  | _ => []

/-- A node with other children; a leaf stays as it is. -/
def withChildren (cs : List Node) : Node → Node
  | root _ => root cs
  | heading depth _ => heading depth cs
  | paragraph _ => paragraph cs
  | blockquote _ => blockquote cs
  | list ordered start _ => list ordered start cs
  | listItem _ => listItem cs
  | footnoteDefinition identifier label _ => footnoteDefinition identifier label cs
  | flowComponent name attributes _ => flowComponent name attributes cs
  | emphasis _ => emphasis cs
  | strong _ => strong cs
  | link url _ => link url cs
  | textComponent name attributes _ => textComponent name attributes cs
  | leaf => leaf

/-- The attributes of a component, none for a node of another kind. -/
def attributes? : Node → Option (List Attribute)
  | flowComponent _ attributes _ | textComponent _ attributes _ => some attributes
  | _ => none

/-- The value of the first attribute of a name. -/
def attribute? (name : String) (attributes : List Attribute) : Option AttributeValue :=
  (attributes.find? (·.name == name)).map (·.value)

theorem withChildren_children (n : Node) : n.withChildren n.children = n := by
  cases n <;> rfl

theorem withChildren_withChildren (cs ds : List Node) (n : Node) :
    (n.withChildren cs).withChildren ds = n.withChildren ds := by
  cases n <;> rfl

theorem type_withChildren (cs : List Node) (n : Node) : (n.withChildren cs).type = n.type := by
  cases n <;> rfl

end Node

end MdxPages
