import MdxPages.Failure
import MdxPages.Number.Reading
import MdxPages.Tree.Node

/-!
# Tree/Json — trees as JSON values

`toValue` writes the shape that mdast tools read: every node is an object with a `type`.  `ofValue`
reads such objects leniently: missing fields take their defaults, texts may be given by any value,
and anything that can be walked through counts as a list.  It refuses what names no node.
-/

namespace MdxPages

namespace AttributeValue

/-- The value of an attribute in JSON. -/
def toValue : AttributeValue → Value
  | text s => .str s
  | expression source =>
    .obj [("type", .str "mdxJsxAttributeValueExpression"), ("value", .str source)]
  | other v => v

/-- The attribute value that a JSON value stands for: an object holds an expression. -/
def ofValue : Value → AttributeValue
  | .null => text ""
  | .str s => text s
  | .obj fields => expression (((Entries.get? "value" fields).getD (.str "")).text)
  | v => other v

end AttributeValue

namespace Attribute

/-- An attribute in JSON. -/
def toValue (a : Attribute) : Value :=
  .obj [("type", .str "mdxJsxAttribute"), ("name", .str a.name), ("value", a.value.toValue)]

/-- The attribute that a JSON value stands for. -/
def ofValue : Value → Except Failure Attribute
  | .obj fields =>
    .ok ⟨((Entries.get? "name" fields).getD (.str "")).text, .ofValue (Value.field "value" fields)⟩
  | v => .error (.fault (.noAttribute v.kindName "get"))

end Attribute

namespace Node

/-- A field, left out if its value is null. -/
def optionalField (key : String) : Value → List (String × Value)
  | .null => []
  | v => [(key, v)]

mutual

/-- A tree in JSON. -/
def toValue : Node → Value
  | root cs => .obj [("type", .str "root"), ("children", .arr (toValues cs))]
  | heading depth cs =>
    .obj [("type", .str "heading"), ("depth", .num depth), ("children", .arr (toValues cs))]
  | paragraph cs => .obj [("type", .str "paragraph"), ("children", .arr (toValues cs))]
  | code value lang => .obj [("type", .str "code"), ("lang", lang), ("value", .str value)]
  | blockquote cs => .obj [("type", .str "blockquote"), ("children", .arr (toValues cs))]
  | list ordered start cs =>
    .obj ([("type", .str "list"), ("ordered", .bool ordered)] ++ optionalField "start" start ++
      [("children", .arr (toValues cs))])
  | listItem cs => .obj [("type", .str "listItem"), ("children", .arr (toValues cs))]
  | thematicBreak => .obj [("type", .str "thematicBreak")]
  | html value => .obj [("type", .str "html"), ("value", .str value)]
  | yaml value => .obj [("type", .str "yaml"), ("value", .str value)]
  | imports value => .obj [("type", .str "mdxjsEsm"), ("value", .str value)]
  | footnoteDefinition identifier label cs =>
    .obj ([("type", .str "footnoteDefinition"), ("identifier", .str identifier)] ++
      optionalField "label" label ++ [("children", .arr (toValues cs))])
  | flowComponent name attributes cs =>
    .obj [("type", .str "mdxJsxFlowElement"), ("name", .str name),
      ("attributes", .arr (attributes.map Attribute.toValue)), ("children", .arr (toValues cs))]
  | text value => .obj [("type", .str "text"), ("value", .str value)]
  | emphasis cs => .obj [("type", .str "emphasis"), ("children", .arr (toValues cs))]
  | strong cs => .obj [("type", .str "strong"), ("children", .arr (toValues cs))]
  | inlineCode value => .obj [("type", .str "inlineCode"), ("value", .str value)]
  | link url cs =>
    .obj [("type", .str "link"), ("url", .str url), ("children", .arr (toValues cs))]
  | lineBreak => .obj [("type", .str "break")]
  | footnoteReference identifier label =>
    .obj ([("type", .str "footnoteReference"), ("identifier", .str identifier)] ++
      optionalField "label" label)
  | textComponent name attributes cs =>
    .obj [("type", .str "mdxJsxTextElement"), ("name", .str name),
      ("attributes", .arr (attributes.map Attribute.toValue)), ("children", .arr (toValues cs))]

/-- Sibling trees in JSON. -/
def toValues : List Node → List Value
  | [] => []
  | n :: ns => toValue n :: toValues ns

end

/-- The whole number that a value converts to: the fraction of a number is dropped, and a text is
read. -/
def wholeNumber : Value → Except Failure Int
  | .num (.int i) => .ok i
  | .num (.float (.finite s m e)) => .ok (Double.truncate s m e)
  | .num (.float (.infinite _)) => .error (.fault .infiniteInteger)
  | .num (.float .nan) => .error (.fault .undefinedInteger)
  | .bool b => .ok (if b then 1 else 0)
  | .str s =>
    match Number.int? s with
    | some i => .ok i
    | none => .error (.fault (.notAnInteger (Text.quoted s)))
  | v => .error (.fault (.noIntegerForm v.kindName))

/-- The values that walking through a value meets: the items of a list, the keys of an object, the
characters of a text. -/
def walked : Value → Except Failure (List Value)
  | .arr items => .ok items
  | .obj fields => .ok (fields.map fun (k, _) => .str k)
  | .str s => .ok (s.toList.map fun c => .str (String.singleton c))
  | v => .error (.fault (.notIterable v.kindName))

/-- The attributes that the field `attributes` holds; a value that is not given holds none. -/
def attributesOf (fields : List (String × Value)) : Except Failure (List Attribute) :=
  let v := Value.field "attributes" fields
  if v.isGiven then do (← walked v).mapM Attribute.ofValue else .ok []

/-- The text of the field, empty if it is not given. -/
def textField (key : String) (fields : List (String × Value)) : String :=
  (Value.field key fields).textIfGiven

/-- The node of a type that holds its children and nothing else. -/
def plainContainer? (type : String) : Option (List Node → Node) :=
  match type with
  | "root" => some root
  | "paragraph" => some paragraph
  | "blockquote" => some blockquote
  | "listItem" => some listItem
  | "emphasis" => some emphasis
  | "strong" => some strong
  | _ => none

/-- The node of a type that holds a text and nothing else. -/
def textLeaf? (type : String) : Option (String → Node) :=
  match type with
  | "text" => some text
  | "inlineCode" => some inlineCode
  | "html" => some html
  | "yaml" => some yaml
  | "mdxjsEsm" => some imports
  | _ => none

/-- The node of a type and fields, over the outcome of reading its children.  The fields are read
before the children, but for the start of a list and the name and label around them. -/
def assemble (type : String) (fields : List (String × Value))
    (children : Except Failure (List Node)) : Except Failure Node :=
  match plainContainer? type, textLeaf? type with
  | some make, _ => children.map make
  | none, some make => .ok (make (textField "value" fields))
  | none, none =>
    match type with
    | "thematicBreak" => .ok thematicBreak
    | "break" => .ok lineBreak
    | "heading" => do
      let depth ← wholeNumber ((Entries.get? "depth" fields).getD (.int 1))
      return heading (.int depth) (← children)
    | "code" => .ok (code (textField "value" fields) (Value.field "lang" fields))
    | "list" => do
      return list (Value.field "ordered" fields).isGiven (Value.field "start" fields) (← children)
    | "link" => do return link (textField "url" fields) (← children)
    | "footnoteDefinition" => do
      return footnoteDefinition (textField "identifier" fields) (Value.field "label" fields)
        (← children)
    | "footnoteReference" =>
      .ok (footnoteReference (textField "identifier" fields) (Value.field "label" fields))
    | "mdxJsxFlowElement" => do
      let attributes ← attributesOf fields
      return flowComponent (textField "name" fields) attributes (← children)
    | "mdxJsxTextElement" => do
      let attributes ← attributesOf fields
      return textComponent (textField "name" fields) attributes (← children)
    | _ => .error (.unknownNode type)

/-- Why a value that is not an object, read as a node, is refused. -/
def refuse (_ : Value) : Except Failure Node :=
  .error .untypedNode

/-- Why the children of a node cannot be read, when they are given by something else than a list:
its parts are no objects. -/
def scatteredChildren (v : Value) : Except Failure (List Node) :=
  if v.isGiven then do (← walked v).mapM refuse else .ok []

mutual

/-- The tree that a JSON value stands for. -/
def ofValue : Value → Except Failure Node
  | .obj fields =>
    match Entries.get? "type" fields with
    | none => .error .untypedNode
    | some (.str type) => assemble type fields (ofChildren fields)
    | some (.arr _) => .error (.fault (.notHashable "list"))
    | some (.obj _) => .error (.fault (.notHashable "dict"))
    | some v => .error (.unknownNode v.text)
  | _ => .error .untypedNode

/-- The children that the fields of a node hold. -/
def ofChildren : List (String × Value) → Except Failure (List Node)
  | [] => .ok []
  | (key, v) :: rest =>
    if key = "children" then
      match v with
      | .arr items => ofValues items
      | v => scatteredChildren v
    else ofChildren rest

/-- The sibling trees that JSON values stand for. -/
def ofValues : List Value → Except Failure (List Node)
  | [] => .ok []
  | v :: vs => do
    let n ← ofValue v
    return n :: (← ofValues vs)

end

end Node

end MdxPages
