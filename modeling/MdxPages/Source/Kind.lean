import MdxPages.Source.Tree
import MdxPages.Text.Case

/-!
# Source/Kind — the kinds of source nodes and of directives
-/

namespace MdxPages.Source

/-- What a node is converted as. -/
inductive Kind
  | text
  | paragraph
  | emphasis
  | strong
  | literal
  | code
  | bulletList
  | enumeratedList
  | list
  | listItem
  | fieldList
  | field
  | reference
  | sectionBlock
  | heading
  | directive
  | refRole
  | role
  | superscript
  | subscript
  | definitionList
  | definitionListItem
  | lineBlock
  | line
  | titleReference
  | footnote
  | footnoteReference
  | substitution
  | transparent
  | transition
  | cardGroup
  | ctaBanner
  | tabs
  | only
  | methodSelector
  | target
  | inlineTarget
  | blockQuote
  | admonition
  | dropped
  | tablePart (component : String)
  | unknown
deriving DecidableEq, Repr

/-- The kind of a node by the name of its type. -/
def Kind.ofType : String → Kind
  | "text" => .text
  | "paragraph" => .paragraph
  | "emphasis" => .emphasis
  | "strong" => .strong
  | "literal" => .literal
  | "code" | "literal_block" => .code
  | "bullet_list" => .bulletList
  | "enumerated_list" | "ordered_list" => .enumeratedList
  | "list" => .list
  | "list_item" | "listItem" => .listItem
  | "field_list" => .fieldList
  | "field" => .field
  | "reference" => .reference
  | "section" => .sectionBlock
  | "title" | "heading" => .heading
  | "directive" => .directive
  | "ref_role" | "doc" => .refRole
  | "role" => .role
  | "superscript" => .superscript
  | "subscript" => .subscript
  | "definitionList" => .definitionList
  | "definitionListItem" => .definitionListItem
  | "line_block" => .lineBlock
  | "line" => .line
  | "title_reference" => .titleReference
  | "footnote" => .footnote
  | "footnote_reference" => .footnoteReference
  | "substitution_reference" | "substitution" => .substitution
  | "directive_argument" => .transparent
  | "transition" => .transition
  | "card-group" => .cardGroup
  | "cta-banner" => .ctaBanner
  | "tabs" => .tabs
  | "only" => .only
  | "method-selector" => .methodSelector
  | "target" => .target
  | "inline_target" | "target_identifier" => .inlineTarget
  | "block_quote" => .blockQuote
  | "admonition" => .admonition
  | "named_reference" | "substitution_definition" | "comment" | "comment_block" => .dropped
  | "table" => .tablePart "Table"
  | "table_head" => .tablePart "TableHead"
  | "table_body" => .tablePart "TableBody"
  | "table_row" => .tablePart "TableRow"
  | "table_cell" => .tablePart "TableCell"
  | _ => .unknown

/-- The name of the type of a node, empty if it has none. -/
def typeName (fields : Entries Value) : String :=
  ((fields.get? "type").getD (.str "")).text

/-- The kind of a node. -/
def kindOf (fields : Entries Value) : Kind :=
  .ofType (typeName fields)

/-- What a directive is converted as. -/
inductive Directive
  | metadata
  | figure
  | literalInclude
  | inclusion
  | generic
deriving DecidableEq, Repr

/-- The name of a directive in lower case. -/
def directiveName (fields : Entries Value) : String :=
  Text.lower (Value.field "name" fields).textIfGiven

/-- The kind of a directive. -/
def directiveOf (fields : Entries Value) : Directive :=
  match directiveName fields with
  | "meta" => .metadata
  | "figure" => .figure
  | "literalinclude" => .literalInclude
  | "include" | "sharedinclude" => .inclusion
  | _ => .generic

/-- Whether a value is a given text; a piece of code is none. -/
def isText (s : String) : Value → Bool
  | .str t => t == s
  | _ => false

/-- Whether a node is the title of the section that holds it. -/
def isTitle (fields : Entries Value) : Bool :=
  let type := Value.field "type" fields
  isText "title" type || isText "heading" type

/-- Whether a node is an extract, which an include sees through. -/
def isExtract (fields : Entries Value) : Bool :=
  isText "directive" (Value.field "type" fields) && directiveName fields == "extract"

/-- Whether one of the nodes is a title. -/
def hasTitle (ss : List Source) : Bool :=
  ss.any fun s => isTitle s.fields

end MdxPages.Source
