import MdxPages.Convert.Assembly
import MdxPages.Source.Fields
import MdxPages.Source.Kind

/-!
# Convert/Handling — what each kind of source node becomes

A node becomes nothing, one node, or several siblings.  What its own lists convert to is handed in
as `Parts`, conversions that have not run yet; a kind runs those it needs, in the order in which
their effects are to happen.
-/

namespace MdxPages.Convert

open MdxPages.Source

/-- What a source node converts to. -/
inductive Converted
  | nothing
  | one (n : Node)
  | several (ns : List Node)
deriving Inhabited

/-- The converted nodes as siblings. -/
def Converted.toList : Converted → List Node
  | nothing => []
  | one n => [n]
  | several ns => ns

/-- The conversions of the lists of a node: its children, its term, its argument, the title and the
other children of a section, its children as lines, and its children as the content of a fragment
at another place. -/
structure Parts (σ : Type) where
  children : Conversion σ (List Node)
  term : Conversion σ (List Node)
  argument : Conversion σ (List Node)
  title : Conversion σ (List Node)
  body : Conversion σ (List Node)
  lines : Conversion σ (List Node)
  content : Place → Conversion σ (List Node)

variable {σ : Type}

/-- The name in a field, a default one if it is not given. -/
def nameOr (default : String) (v : Value) : String :=
  if v.isGiven then v.text else default

/-- A block component with the children of the node. -/
def component (name : String) (attributes : List Attribute) (parts : Parts σ) :
    Conversion σ Converted := do
  return .one (.flowComponent name attributes (← parts.children))

/-- Convert the content of a fragment as a file of its own. -/
def fragmentTree (place : Place) (fragment : String)
    (content : Place → Conversion σ (List Node)) : Conversion σ Node :=
  inNewFile do
    let nodes ← content (place.enter fragment)
    return assemble [] (← get).file nodes

/-- The text that names the fragment of an include. -/
def inclusionArgument (fields : Entries Value) : String :=
  Text.strip (argumentText (Value.field "argument" fields))

/-- The marker in the place of an include that would close a cycle. -/
def cycleMarker (fragment : String) : Node :=
  .html ("<!-- include cycle: " ++ fragment ++ " -->")

/-- The warning about such an include. -/
def cycleWarning (place : Place) (fragment importer : String) : String :=
  (Failure.includeCycle fragment place.chain).message ++ "; leaving a marker in " ++ importer

/-- An include: its content becomes a fragment of its own, which is emitted and imported under a
component name.  An include that would re-enter a fragment leaves a marker. -/
def handleInclusion (run : Run σ) (place : Place) (fields : Entries Value) (parts : Parts σ) :
    Conversion σ Converted := do
  if (inclusionArgument fields).isEmpty then
    record .debug "Include directive without a path"
    return .one (.html "<!-- include missing path -->")
  let fragment := Path.fragmentPath (inclusionArgument fields) run.options.fragmentExtension
  if closesCycle run.options place fragment then
    let importer ← importerPath run.options place
    record .warning (cycleWarning place fragment importer)
    return .one (cycleMarker fragment)
  let tree ← fragmentTree place fragment parts.content
  emit run fragment tree
  let name := Path.fragmentComponent fragment run.options.fragmentExtension
  let importer ← importerPath run.options place
  registerImport name (Path.fragmentImport importer fragment)
  return .one (.flowComponent name [] [])

/-- The path of the image of a figure: the text inside the figure, or else its argument. -/
def figureAsset (fields : Entries Value) (children : List Source) : String :=
  let inner := Text.strip (valuesEach children)
  Path.assetPath (if inner.isEmpty then argumentText (Value.field "argument" fields) else inner)

/-- Where the image of a figure lies. -/
def figureTarget (options : ConversionOptions) (importer asset : String) : String :=
  Path.imageTarget asset importer options.imagesDirName.text

/-- The component that shows an imported image. -/
def imageElement (identifier alt : String) (sizes : List Attribute) : Node :=
  .flowComponent "Image"
    (⟨"src", .expression identifier⟩ ::
      (if alt.isEmpty then [] else [⟨"alt", .text alt⟩]) ++ sizes) []

/-- A figure: an image component whose source is an import. -/
def handleFigure (run : Run σ) (place : Place) (fields : Entries Value) (children : List Source) :
    Conversion σ Converted := do
  let asset := figureAsset fields children
  if asset.isEmpty then
    record .debug "Figure directive without an image path"
    return .one (.html "<!-- figure missing src -->")
  let importer ← importerPath run.options place
  let target := figureTarget run.options importer asset
  let identifier := Path.imageIdentifier target
  registerImport identifier (Path.imageImport importer target)
  let options := (Value.field "options" fields).fields
  let sizes ← sizeAttributes options
  return .one (imageElement identifier (Value.field "alt" options).strOrEmpty sizes)

/-- A literal include: the file is not at hand, so its path stands in its place. -/
def literalIncludeCode (fields : Entries Value) : Node :=
  let source := Text.strip (argumentText (Value.field "argument" fields))
  let options := (Value.field "options" fields).fields
  .code
    ("// Source: " ++ source ++ "\n// Content from external file not available during conversion")
    (langOf (Value.field "language" options))

/-- Directives whose argument is a condition. -/
def isConditional (name : String) : Bool :=
  name == "only" || name == "cond"

/-- The component of a directive, nothing if it is among those that are dropped when nothing is in
them. -/
def directiveComponent (options : ConversionOptions) (fields : Entries Value)
    (attributes : List Attribute) (children : List Node) : Converted :=
  if options.droppedEmptyDirectives.any (isText (directiveName fields)) && children.isEmpty &&
      attributes.isEmpty then .nothing
  else
    .one (.flowComponent (Path.componentName (nameOr "Directive" (Value.field "name" fields)))
      attributes children)

/-- Whether the argument of a directive is the condition of a conditional one. -/
def hasCondition (fields : Entries Value) : Bool :=
  (Value.field "argument" fields).isGiven && isConditional (directiveName fields)

/-- What a directive starts with: its argument, unless that is a condition. -/
def directiveLead (fields : Entries Value) (parts : Parts σ) : Conversion σ (List Node) :=
  if hasCondition fields then return []
  else
    match Value.field "argument" fields with
    | .arr _ => parts.argument
    | v => return if v.strOrEmpty.isEmpty then [] else [.text v.strOrEmpty]

/-- The attributes of a directive: its options, and its condition if it has one. -/
def directiveAttributes (fields : Entries Value) : List Attribute :=
  let condition := Text.strip (argumentText (Value.field "argument" fields))
  optionAttributes (Value.field "options" fields) ++
    if hasCondition fields then [⟨"expr", .text condition⟩] else []

/-- Any other directive: a component of its name, with its argument before its children. -/
def handleDirective (run : Run σ) (fields : Entries Value) (parts : Parts σ) :
    Conversion σ Converted := do
  let lead ← directiveLead fields parts
  return directiveComponent run.options fields (directiveAttributes fields)
    (lead ++ (← parts.children))

/-- The heading of a section, at the depth of the section. -/
def sectionNodes (run : Run σ) (depth : Int) (children : List Source) (parts : Parts σ) :
    Conversion σ (List Node) := do
  let title ← if hasTitle children then do
      pure [Node.heading (clampDepth run.options depth) (← parts.title)]
    else pure []
  return title ++ (← parts.body)

/-- The depth that a heading asks for, the depth of its section if it gives no number. -/
def headingDepth (depth : Int) : Value → Except Fault Int
  | .num (.int i) => .ok i
  | .num (.float (.finite s m e)) => .ok (Double.truncate s m e)
  | .num (.float (.infinite _)) => .error .infiniteInteger
  | .num (.float .nan) => .error .undefinedInteger
  | .foreign (.long i) => .ok i
  | _ => .ok depth

/-- Whether a list is numbered: its enumeration type decides if it is a text, else its flag. -/
def isOrdered (fields : Entries Value) : Bool :=
  let type := Value.field "enumtype" fields
  if type.str?.isSome then isText "ordered" type else (Value.field "ordered" fields).isGiven

/-- Where an ordered list starts. -/
def startField (fields : Entries Value) : Except Fault Int :=
  listStart [Value.field "startat" fields, Value.field "start" fields]

/-- The text of code or of a literal: its own, or else that of its children. -/
def ownOr (fields : Entries Value) (children : List Source) : String :=
  let own := (Value.field "value" fields).strOrEmpty
  if own.isEmpty then ownTexts children else own

/-- A role: a component within the line, its own value standing in for missing children. -/
def handleRole (fields : Entries Value) (parts : Parts σ) : Conversion σ Converted := do
  let target := Value.field "target" fields
  let value := Value.field "value" fields
  let children ← parts.children
  return .one (.textComponent (Path.componentName (nameOr "Role" (Value.field "name" fields)))
    (if target.isGiven then [⟨"target", .text target.text⟩] else [])
    (if children.isEmpty && value.isGiven then [.text value.text] else children))

/-- A footnote: a definition if it has an identifier, else its content in place. -/
def handleFootnote (fields : Entries Value) (parts : Parts σ) : Conversion σ Converted := do
  let identifier := (firstField ["id", "name"] fields).nonNull?.elim "" Value.text
  if identifier.isEmpty then return .several (← parts.children)
  else
    return .one (.footnoteDefinition identifier (labelOf (Value.field "name" fields))
      (← parts.children))

/-- A reference to a footnote, nothing if it has no identifier. -/
def footnoteReferenceOf (fields : Entries Value) : Converted :=
  let identifier := (Value.field "id" fields).nonNull?.elim "" Value.text
  if identifier.isEmpty then .nothing
  else .one (.footnoteReference identifier (labelOf (Value.field "refname" fields)))

/-- Anchors as siblings, nothing if there are none. -/
def anchorNodes (ids : List Value) : Converted :=
  match anchors ids with
  | [] => .nothing
  | ns => .several ns

/-- A node of unknown type: its children in place, or a visible marker if it has none. -/
def handleUnknown (fields : Entries Value) (children : List Source) (parts : Parts σ) :
    Conversion σ Converted := do
  if children.isEmpty then
    let type := Value.field "type" fields
    record .debug ("Unsupported node type without children: " ++ type.text)
    return .one
      (.html ("<!-- unsupported: " ++ type.nonNull?.elim "undefined" Value.text ++ " -->"))
  else return .several (← parts.children)

/-- Attributes for the fields that are given, in order. -/
def givenAttributes (keys : List String) (fields : Entries Value) : List Attribute :=
  keys.filterMap fun key =>
    let v := Value.field key fields
    if v.isGiven then some ⟨key, .text v.text⟩ else none

/-- What a node of a kind becomes. -/
def handle (run : Run σ) (place : Place) (depth : Int) (kind : Kind) (fields : Entries Value)
    (children : List Source) (parts : Parts σ) : Conversion σ Converted :=
  match kind with
  | .text | .line => return .one (.text (Value.field "value" fields).strOrEmpty)
  | .paragraph => do return .one (.paragraph (← parts.children))
  | .emphasis | .titleReference => do return .one (.emphasis (← parts.children))
  | .strong => do return .one (.strong (← parts.children))
  | .literal => return .one (.inlineCode (ownOr fields children))
  | .code =>
    return .one (.code (ownOr fields children) (langOf (firstField ["lang", "language"] fields)))
  | .bulletList => do return .one (.list false .null (← parts.children))
  | .enumeratedList => do
    let start ← startField fields
    return .one (.list true (.int start) (← parts.children))
  | .list =>
    if isOrdered fields then do
      let start ← startField fields
      return .one (.list true (.int start) (← parts.children))
    else do return .one (.list false .null (← parts.children))
  | .listItem => do return .one (.listItem (← parts.children))
  | .fieldList => component "FieldList" [] parts
  | .field => component "Field" (givenAttributes ["name", "label"] fields) parts
  | .reference =>
    let target := Value.field "refuri" fields
    if target.isGiven then do return .one (.link target.text (← parts.children))
    else do return .several (← parts.children)
  | .sectionBlock => do return .several (← sectionNodes run depth children parts)
  | .heading => do
    let wanted ← headingDepth depth (Value.field "depth" fields)
    return .one (.heading (clampDepth run.options wanted) (← parts.children))
  | .directive =>
    match directiveOf fields with
    | .metadata => do
      addMetadata (Value.field "options" fields).fields
      return .nothing
    | .figure => handleFigure run place fields children
    | .literalInclude => return .one (literalIncludeCode fields)
    | .inclusion => handleInclusion run place fields parts
    | .generic => handleDirective run fields parts
  | .refRole => do
    let url := firstField ["url", "refuri", "target"] fields
    if url.isGiven then
      return .one (.textComponent "Ref" [⟨"url", .text url.text⟩] (← parts.children))
    else return .several (← parts.children)
  | .role => handleRole fields parts
  | .superscript => do return .one (.textComponent "sup" [] (← parts.children))
  | .subscript => do return .one (.textComponent "sub" [] (← parts.children))
  | .definitionList => component "DefinitionList" [] parts
  | .definitionListItem => do
    let term ← parts.term
    return .one (.flowComponent "DefinitionListItem" [] (term ++ (← parts.children)))
  | .lineBlock => do return .one (.paragraph (← parts.lines))
  | .footnote => handleFootnote fields parts
  | .footnoteReference => return footnoteReferenceOf fields
  | .substitution => do
    let refname := Value.field "refname" fields
    let name := if refname.isGiven then refname else Value.field "name" fields
    return .one (.textComponent "SubstitutionReference"
      (if name.isGiven then [⟨"name", .text name.text⟩] else []) (← parts.children))
  | .transparent => do return .several (← parts.children)
  | .transition => return .one .thematicBreak
  | .cardGroup => component "CardGroup" (optionAttributes (Value.field "options" fields)) parts
  | .ctaBanner => component "CTABanner" (optionAttributes (Value.field "options" fields)) parts
  | .tabs => component "Tabs" [] parts
  | .only =>
    let condition := Text.strip (argumentText (Value.field "argument" fields))
    component "Only" [⟨"condition", .text condition⟩] parts
  | .methodSelector => component "MethodSelector" [] parts
  | .target => return anchorNodes (targetIds fields)
  | .inlineTarget => return anchorNodes (inlineTargetIds fields)
  | .blockQuote => do return .one (.blockquote (← parts.children))
  | .admonition =>
    let name := (firstField ["name", "admonition_type"] fields).nonNull?.elim "note" Value.text
    component (Path.componentName name) [] parts
  | .dropped => return .nothing
  | .tablePart name => component name [] parts
  | .unknown => handleUnknown fields children parts

end MdxPages.Convert
