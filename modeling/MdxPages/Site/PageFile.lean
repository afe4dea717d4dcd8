import MdxPages.Json.Reader
import MdxPages.Json.Writer
import MdxPages.Site.Page
import MdxPages.Tree.Json

/-!
# Site/PageFile — a page from a JSON file
-/

namespace MdxPages.Site

/-- The endings of inputs that the name of the output drops; the first that fits counts. -/
def inputEndings : List String := ["_ast-input.json", ".json"]

/-- The ending of outputs. -/
def outputEnding : String := "_output.mdx"

/-- The output of an input where nothing else is said. -/
def defaultOutput (input : Location) : Except Fault Location :=
  let name := match inputEndings.find? (Text.endsWith input.name) with
    | some ending => Text.dropEnd input.name ending.length
    | none => input.name
  match input.withName? (name ++ outputEnding) with
  | some output => .ok output
  | none => .error (.emptyName input.text)

/-- The location that a value names, which has to be a text. -/
def locationOf (v : Value) : Except Fault Location :=
  match v with
  | .str s => .ok (.ofString s)
  | v => .error (.notAPath v.kindName)

/-- The location that is named, or another one where nothing is said. -/
def locationOr (named : Value) (other : Location) : Except Fault Location :=
  if named.isGiven then locationOf named else .ok other

/-- The text of a file, for reading it as input. -/
def readInput (input : Location) : Work String := do
  if !(← Work.ask fun d directory => d.contains directory input) then
    throw (.fileNotFound input.text)
  let bytes ← Work.reportingAs (.fileAccess input.text)
    (Work.ask fun d directory => d.read directory input)
  match Bytes.linesText? bytes with
  | some text => return text
  | none => throw (.fileAccess input.text)

/-- Write a tree as JSON. -/
def writeJson (style : Json.Style) (l : Location) (tree : Node) : Work Unit := do
  let text ← Work.liftFault (Json.dump style tree.toValue)
  Work.writeText l (text ++ "\n")

/-- Where the outputs of a page from a file go, as far as it is said. -/
structure PageTargets where
  output : Value := .null
  references : Value := .null
  tree : Value := .null
deriving Repr, Inhabited

/-- Convert a page that is stored as JSON, merge its references into the module beside it, and
write its tree as JSON if that is wanted. -/
def convertFile (o : PageOptions) (input : Location) (targets : PageTargets) : Work Page := do
  let text ← readInput input
  let document ← Work.liftProblem (.invalidJson input.text) (Json.read text)
  let output ← Work.liftFault (match targets.output with
    | .null => defaultOutput input
    | v => locationOf v)
  Registry.clear
  let page ← writePage o output none document
  let references ← Work.liftFault
    (locationOr targets.references (output.parent.join (.ofString Registry.fileName)))
  let _ ← Registry.persist references
  match targets.tree with
  | .null => return page
  | .str s => do
    writeJson (.broken "  ") (.ofString s) page.tree
    Work.record loggerName .info ("Wrote mdast JSON to " ++ s)
    return page
  | v => throw (.fault (.notAStream v.kindName))

end MdxPages.Site
