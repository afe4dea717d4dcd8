import MdxPages.Tree.Node
import MdxPages.Text.Lines

/-!
# Tree/Validation — what a well-formed output tree promises

Heading depths lie between 1 and 6, containers hold the content of their level, lists hold items,
and what must be named is named.  `problems` lists every violation in document order; `check` stops
at the first one.  A `Validator` does either by visiting nodes one after the other.

A problem names a depth that is out of bounds by its digits.  A depth that comes from a document or
from JSON never has too many of them (see `Value/Basic`).
-/

namespace MdxPages

namespace Node

/-- The deepest heading that output knows. -/
def deepestHeading : Int := 6

/-- Blocks under a node that is to hold phrasing content; components and raw HTML are let pass. -/
def flowProblems (type : String) (cs : List Node) : List String :=
  cs.filterMap fun c =>
    match c with
    | flowComponent .. | html _ => none
    | c => if c.isPhrasing then none else some (type ++ " contains flow content: " ++ c.type)

/-- Phrasing nodes under a node that is to hold blocks. -/
def phrasingProblems (type : String) (cs : List Node) : List String :=
  cs.filterMap fun c =>
    if c.isPhrasing then some (type ++ " contains unwrapped phrasing content: " ++ c.type) else none

/-- Children of a list that are no items. -/
def itemProblems (cs : List Node) : List String :=
  cs.filterMap fun c =>
    match c with
    | listItem _ => none
    | c => some ("list contains a non-item child: " ++ Text.quoted c.type)

/-- A problem that exists under a condition. -/
def problemIf (condition : Bool) (problem : String) : List String :=
  if condition then [problem] else []

/-- Lines of an import block that import nothing. -/
def importProblems (value : String) : List String :=
  (Text.lines value).filterMap fun line =>
    if Text.isBlank line || Text.startsWith line "import " then none
    else some ("ESM block contains a non-import line: " ++ Text.quoted line)

/-- The problems of a node itself, those of its descendants left out. -/
def ownProblems : Node → List String
  | n@(root cs) | n@(blockquote cs) | n@(listItem cs) => phrasingProblems n.type cs
  | n@(paragraph cs) | n@(emphasis cs) | n@(strong cs) => flowProblems n.type cs
  | n@(heading depth cs) =>
    problemIf (!((Number.int 1).le depth && depth.le (.int deepestHeading)))
      ("Heading depth must be 1-6, got " ++ depth.text) ++ flowProblems n.type cs
  | list ordered start cs =>
    itemProblems cs ++
      problemIf (!ordered && !start.isNull) "Unordered list must not carry a start index"
  | imports value => importProblems value
  | n@(footnoteDefinition identifier _ cs) =>
    problemIf identifier.isEmpty "Footnote definition requires an identifier" ++
      phrasingProblems n.type cs
  | n@(flowComponent name _ cs) =>
    problemIf name.isEmpty "Flow component requires a name" ++ phrasingProblems n.type cs
  | n@(link url cs) => problemIf url.isEmpty "Link requires a url" ++ flowProblems n.type cs
  | footnoteReference identifier _ =>
    problemIf identifier.isEmpty "Footnote reference requires an identifier"
  | n@(textComponent name _ cs) =>
    problemIf name.isEmpty "Inline component requires a name" ++ flowProblems n.type cs
  | code .. | thematicBreak | html _ | yaml _ | text _ | inlineCode _ | lineBreak => []

mutual

/-- All problems of a tree: those of a node before those of its children. -/
def problems : Node → List String
  | n@(root cs) | n@(heading _ cs) | n@(paragraph cs) | n@(blockquote cs) | n@(list _ _ cs)
  | n@(listItem cs) | n@(footnoteDefinition _ _ cs) | n@(flowComponent _ _ cs) | n@(emphasis cs)
  | n@(strong cs) | n@(link _ cs) | n@(textComponent _ _ cs) => n.ownProblems ++ problemsEach cs
  | leaf => leaf.ownProblems

/-- All problems of sibling trees. -/
def problemsEach : List Node → List String
  | [] => []
  | n :: ns => problems n ++ problemsEach ns

end

/-- Stop at the first of some problems. -/
def stopAt : List String → Except String Unit
  | [] => .ok ()
  | problem :: _ => .error problem

mutual

/-- Walk through a tree up to its first problem. -/
def check : Node → Except String Unit
  | n@(root cs) | n@(heading _ cs) | n@(paragraph cs) | n@(blockquote cs) | n@(list _ _ cs)
  | n@(listItem cs) | n@(footnoteDefinition _ _ cs) | n@(flowComponent _ _ cs) | n@(emphasis cs)
  | n@(strong cs) | n@(link _ cs) | n@(textComponent _ _ cs) => do
    stopAt n.ownProblems
    checkEach cs
  | leaf => stopAt leaf.ownProblems

/-- Walk through sibling trees up to the first problem. -/
def checkEach : List Node → Except String Unit
  | [] => .ok ()
  | n :: ns => do
    check n
    checkEach ns

end

end Node

/-! ## Validation by visits

A validator visits the nodes of a tree one after the other and reports what it finds wrong.  A
strict one stops with the first problem that it reports; the other kind keeps it behind those it has
kept so far, from whichever tree they came, and goes on. -/

/-- A validator: whether it stops at a problem, and the problems that it has kept. -/
structure Validator where
  strict : Bool := true
  problems : List String := []
deriving DecidableEq, Repr, Inhabited

namespace Validator

/-- A part of a visit, which a problem may stop. -/
abbrev Visit (α : Type) := ExceptT String (StateM Validator) α

/-- Report a problem: stop with it, or keep it. -/
def report (problem : String) : Visit Unit := do
  if (← get).strict then throw problem
  modify fun v => { v with problems := v.problems ++ [problem] }

/-- Report a problem under a condition. -/
def reportIf (condition : Bool) (problem : String) : Visit Unit :=
  if condition then report problem else pure ()

/-- Report the blocks among children that are to be phrasing content; components and raw HTML are
let pass. -/
def checkPhrasing (type : String) (cs : List Node) : Visit Unit :=
  cs.forM fun c =>
    match c with
    | .flowComponent .. | .html _ => pure ()
    | c => reportIf (!c.isPhrasing) (type ++ " contains flow content: " ++ c.type)

/-- Report the phrasing nodes among children that are to be blocks. -/
def checkFlow (type : String) (cs : List Node) : Visit Unit :=
  cs.forM fun c =>
    reportIf c.isPhrasing (type ++ " contains unwrapped phrasing content: " ++ c.type)

/-- Report the children of a list that are no items. -/
def checkItems (cs : List Node) : Visit Unit :=
  cs.forM fun c =>
    match c with
    | .listItem _ => pure ()
    | c => report ("list contains a non-item child: " ++ Text.quoted c.type)

/-- Report the lines of an import block that import nothing. -/
def checkImports (value : String) : Visit Unit :=
  (Text.lines value).forM fun line =>
    reportIf (!Text.isBlank line && !Text.startsWith line "import ")
      ("ESM block contains a non-import line: " ++ Text.quoted line)

mutual

/-- Visit a node: report what is wrong with it, and then visit its children. -/
def visit : Node → Visit Unit
  | n@(.root cs) | n@(.blockquote cs) | n@(.listItem cs) => do
    checkFlow n.type cs
    visitEach cs
  | n@(.paragraph cs) | n@(.emphasis cs) | n@(.strong cs) => do
    checkPhrasing n.type cs
    visitEach cs
  | n@(.heading depth cs) => do
    reportIf (!((Number.int 1).le depth && depth.le (.int Node.deepestHeading)))
      ("Heading depth must be 1-6, got " ++ depth.text)
    checkPhrasing n.type cs
    visitEach cs
  | .list ordered start cs => do
    checkItems cs
    reportIf (!ordered && !start.isNull) "Unordered list must not carry a start index"
    visitEach cs
  | .imports value => checkImports value
  | n@(.footnoteDefinition identifier _ cs) => do
    reportIf identifier.isEmpty "Footnote definition requires an identifier"
    checkFlow n.type cs
    visitEach cs
  | n@(.flowComponent name _ cs) => do
    reportIf name.isEmpty "Flow component requires a name"
    checkFlow n.type cs
    visitEach cs
  | n@(.link url cs) => do
    reportIf url.isEmpty "Link requires a url"
    checkPhrasing n.type cs
    visitEach cs
  | .footnoteReference identifier _ =>
    reportIf identifier.isEmpty "Footnote reference requires an identifier"
  | n@(.textComponent name _ cs) => do
    reportIf name.isEmpty "Inline component requires a name"
    checkPhrasing n.type cs
    visitEach cs
  | .code .. | .thematicBreak | .html _ | .yaml _ | .text _ | .inlineCode _ | .lineBreak => pure ()

/-- Visit siblings one after the other. -/
def visitEach : List Node → Visit Unit
  | [] => pure ()
  | n :: ns => do
    visit n
    visitEach ns

end

/-- The problems that a new validator keeps of a tree. -/
def collected (tree : Node) : List String :=
  (visit tree { strict := false }).2.problems

end Validator

end MdxPages
