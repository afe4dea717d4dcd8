import MdxPages.Failure
import MdxPages.Mdx.Escape
import MdxPages.Number.Reading
import MdxPages.Options.Rendering
import MdxPages.Text.Lines
import MdxPages.Tree.Node

/-!
# Mdx/Render — the MDX text of a tree

Every block has a text of its own.  Containers set their blocks apart by blank lines and put a
margin before the lines of what they hold, so the text of a block does not depend on what stands
around it; only the marker of a list item comes from the list.  A tree read from JSON can hold
values that no text can be made of, and a list can count to numbers that are too long to be written:
then rendering stops with a fault.
-/

namespace MdxPages.Mdx

open MdxPages

/-- The margin of the blocks in a component. -/
def componentMargin : String := "  "

/-- The margin of the lines after the first in a footnote. -/
def footnoteMargin : String := "    "

/-- The blocks with content, blank lines between them. -/
def joinBlocks (blocks : List String) : String :=
  Text.join "\n\n" (blocks.filter (!·.isEmpty))

/-- The first line of a text and the rest of it. -/
def firstLine (s : String) : String × String :=
  let (first, rest) := Text.cutAt '\n' s.toList
  (String.ofList first, String.ofList rest)

/-- An attribute as it is written in a tag. -/
def attributeText (a : Attribute) : Except Fault String :=
  match a.value with
  | .text s => .ok (a.name ++ "=\"" ++ Text.replaceChar '"' "&#x22;" s ++ "\"")
  | .expression source => .ok (a.name ++ "=\x7b" ++ source ++ "\x7d")
  | .other v => .error (.noAttribute v.kindName "replace")

/-- The attributes of a tag, each after a blank. -/
def attributesText (attributes : List Attribute) : Except Fault String := do
  let parts ← attributes.mapM attributeText
  return String.join (parts.map (" " ++ ·))

/-- The marks of a heading. -/
def headingMarks : Number → Except Fault String
  | .int depth => .ok (String.ofList (List.replicate depth.toNat '#'))
  | .float _ => .error (.notRepeatable "float")

/-- A whole number as the marker of an item; one of too many digits is not written. -/
def wholeMarker (i : Int) : Except Fault String :=
  if i.natAbs < Number.leastTooLong then .ok (toString i ++ ".") else .error .tooManyDigits

/-- The marker of the item at an index of an ordered list. -/
def orderedMarker (start : Value) (index : Nat) : Except Fault String :=
  match start with
  | .null => wholeMarker (index + 1)
  | .num (.float x) => .ok ((x.addInt index).text ++ ".")
  | v =>
    match v.number? with
    | some (.int i) => wholeMarker (i + index)
    | _ => .error (.notAddable v.kindName)

/-- A code block: the fence is longer than any run of backticks in the code, and a line break at
the end of the code is not doubled. -/
def codeText (value : String) (lang : Value) : String :=
  let fence := ticks (max 3 (longestTicks 0 value.toList + 1))
  let opening := fence ++ lang.textIfGiven ++ "\n"
  if value.isEmpty then opening ++ fence
  else
    let body := if Text.endsWith value "\n" then Text.dropEnd value 1 else value
    opening ++ body ++ "\n" ++ fence

/-- Whether blanks are put around the content of a code span: it starts or ends with a backtick, or
has blanks on both sides that a reader would take away. -/
def needsPadding (value : String) : Bool :=
  Text.startsWith value "`" || Text.endsWith value "`" ||
    (Text.startsWith value " " && Text.endsWith value " " && !Text.isBlank value)

/-- A code span. -/
def codeSpanText (value : String) : String :=
  let fence := ticks (longestTicks 0 value.toList + 1)
  fence ++ (if needsPadding value then " " ++ value ++ " " else value) ++ fence

/-- Whether a link destination is written between angle brackets. -/
def needsBrackets (url : String) : Bool :=
  url.isEmpty || url.toList.any fun c =>
    Text.isSpace c || c == '(' || c == ')' || c == '<' || c == '>'

/-- A link destination. -/
def destinationText (url : String) : String :=
  if needsBrackets url then "<" ++ url ++ ">" else url

/-- A list item: the marker, the first line, and the other lines moved in under it. -/
def itemText (marker content : String) : String :=
  let (first, rest) := firstLine content
  let head := if first.isEmpty then marker else marker ++ " " ++ first
  if rest.isEmpty then head
  else head ++ "\n" ++ Text.indent (String.ofList (List.replicate (marker.length + 1) ' ')) rest

/-- A footnote: its label, the first line, and the other lines moved in. -/
def footnoteText (identifier content : String) : String :=
  let (first, rest) := firstLine content
  let head := Text.stripEnd ("[^" ++ identifier ++ "]: " ++ first)
  if rest.isEmpty then head else head ++ "\n" ++ Text.indent footnoteMargin rest

/-- A block quote: each line marked. -/
def quoteText (content : String) : String :=
  Text.join "\n" ((Text.split '\n' content).map fun line =>
    if line.isEmpty then ">" else "> " ++ line)

/-- A component as a block. -/
def componentText (name attributes content : String) : String :=
  let opening := "<" ++ name ++ attributes
  if content.isEmpty then opening ++ " />"
  else
    opening ++ ">\n" ++ Text.indent componentMargin content ++ "\n</" ++ name ++ ">"

/-- A component within a line. -/
def inlineComponentText (name attributes content : String) : String :=
  let opening := "<" ++ name ++ attributes
  if content.isEmpty then opening ++ " />" else opening ++ ">" ++ content ++ "</" ++ name ++ ">"

mutual

/-- The text of a node; `marker` is what a list item is led by. -/
def nodeText (o : RenderOptions) (marker : String) : Node → Except Fault String
  | .root cs => do return joinBlocks (← nodeTexts o marker cs)
  | .heading depth cs => do
    let content := Text.replaceChar '\n' " " (String.join (← nodeTexts o marker cs))
    return (← headingMarks depth) ++ " " ++ content
  | .paragraph cs => do return String.join (← nodeTexts o marker cs)
  | .code value lang => .ok (codeText value lang)
  | .blockquote cs => do return quoteText (joinBlocks (← nodeTexts o marker cs))
  | .list ordered start cs => do return Text.join "\n" (← itemTexts o ordered start 0 cs)
  | .listItem cs => do return itemText marker (joinBlocks (← nodeTexts o o.bullet.text cs))
  | .thematicBreak => .ok "***"
  | .html value => .ok value
  | .yaml value => .ok ("---\n" ++ value ++ "\n---")
  | .imports value => .ok value
  | .footnoteDefinition identifier _ cs => do
    return footnoteText identifier (joinBlocks (← nodeTexts o marker cs))
  | .flowComponent name attributes cs => do
    let attributes ← attributesText attributes
    return componentText name attributes (joinBlocks (← nodeTexts o marker cs))
  | .text value =>
    .ok (if o.escapeText.isGiven then String.ofList (escape value.toList) else value)
  | .emphasis cs => do
    let mark := o.emphasis.emphasis
    return mark ++ String.join (← nodeTexts o marker cs) ++ mark
  | .strong cs => do
    let mark := o.strong.strong
    return mark ++ String.join (← nodeTexts o marker cs) ++ mark
  | .inlineCode value => .ok (codeSpanText value)
  | .link url cs => do
    return "[" ++ String.join (← nodeTexts o marker cs) ++ "](" ++ destinationText url ++ ")"
  | .lineBreak => .ok "\\\n"
  | .footnoteReference identifier _ => .ok ("[^" ++ identifier ++ "]")
  | .textComponent name attributes cs => do
    let attributes ← attributesText attributes
    return inlineComponentText name attributes (String.join (← nodeTexts o marker cs))

/-- The texts of siblings. -/
def nodeTexts (o : RenderOptions) (marker : String) : List Node → Except Fault (List String)
  | [] => .ok []
  | n :: ns => do
    let first ← nodeText o marker n
    return first :: (← nodeTexts o marker ns)

/-- The texts of the children of a list, the first of them at the given index. -/
def itemTexts (o : RenderOptions) (ordered : Bool) (start : Value) (index : Nat) :
    List Node → Except Fault (List String)
  | [] => .ok []
  | n :: ns => do
    let marker ← if ordered then orderedMarker start index else .ok o.bullet.text
    let first ← nodeText o marker n
    return first :: (← itemTexts o ordered start (index + 1) ns)

end

/-- Line ends of a document: `\r\n` becomes `\n`, and one line end closes a text with content. -/
def closeDocument (s : String) : String :=
  let cs := Text.dropEndWhile (· == '\n') (Text.replacePair '\r' '\n' ['\n'] s.toList)
  if cs.isEmpty then "" else String.ofList (cs ++ ['\n'])

/-- The MDX document of a tree. -/
def render (o : RenderOptions) (tree : Node) : Except Fault String := do
  return closeDocument (← nodeText o o.bullet.text tree)

end MdxPages.Mdx
