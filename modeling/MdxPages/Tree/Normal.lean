import MdxPages.Tree.Node

/-!
# Tree/Normal — phrasing content under flow containers, wrapped in paragraphs

A flow container (root, list, list item, block quote, footnote definition, flow component) should
hold blocks only.  `normalize` puts a paragraph around each maximal run of phrasing siblings found
there, at every depth; `IsNormal` says that no such sibling is left.
-/

namespace MdxPages

namespace Node

/-- A paragraph around a run of phrasing nodes, nothing for an empty run. -/
def wrapRun : List Node → List Node
  | [] => []
  | run => [paragraph run]

/-- Wrap the runs of phrasing nodes among siblings; `run` is the run that stands just before. -/
def wrapFrom (run : List Node) : List Node → List Node
  | [] => wrapRun run
  | n :: ns =>
    if n.isPhrasing then wrapFrom (run ++ [n]) ns else wrapRun run ++ n :: wrapFrom [] ns

/-- Wrap each maximal run of phrasing nodes among siblings. -/
def wrapRuns (ns : List Node) : List Node :=
  wrapFrom [] ns

mutual

/-- A tree in which the runs under flow containers are wrapped. -/
def normalize : Node → Node
  | root cs => root (wrapRuns (normalizeEach cs))
  | blockquote cs => blockquote (wrapRuns (normalizeEach cs))
  | list ordered start cs => list ordered start (wrapRuns (normalizeEach cs))
  | listItem cs => listItem (wrapRuns (normalizeEach cs))
  | footnoteDefinition identifier label cs =>
    footnoteDefinition identifier label (wrapRuns (normalizeEach cs))
  | flowComponent name attributes cs => flowComponent name attributes (wrapRuns (normalizeEach cs))
  | heading depth cs => heading depth (normalizeEach cs)
  | paragraph cs => paragraph (normalizeEach cs)
  | emphasis cs => emphasis (normalizeEach cs)
  | strong cs => strong (normalizeEach cs)
  | link url cs => link url (normalizeEach cs)
  | textComponent name attributes cs => textComponent name attributes (normalizeEach cs)
  | leaf => leaf

/-- Sibling trees, each normalized by itself. -/
def normalizeEach : List Node → List Node
  | [] => []
  | n :: ns => normalize n :: normalizeEach ns

end

/-- Siblings of a flow container in normal form: each normalized, and their runs wrapped. -/
def wrapInlineRuns (ns : List Node) : List Node :=
  wrapRuns (normalizeEach ns)

/-- The nodes whose children are to be blocks. -/
def isFlowContainer : Node → Bool
  | root _ | blockquote _ | list .. | listItem _ | footnoteDefinition .. | flowComponent .. => true
  | _ => false

mutual

/-- No flow container in the tree has a phrasing child. -/
def IsNormal : Node → Prop
  | root cs | blockquote cs | list _ _ cs | listItem cs | footnoteDefinition _ _ cs
  | flowComponent _ _ cs => (∀ c ∈ cs, c.isPhrasing = false) ∧ AllNormal cs
  | heading _ cs | paragraph cs | emphasis cs | strong cs | link _ cs | textComponent _ _ cs =>
    AllNormal cs
  | code .. | thematicBreak | html _ | yaml _ | imports _ | text _ | inlineCode _ | lineBreak
  | footnoteReference .. => True

/-- Every one of the sibling trees is in normal form. -/
def AllNormal : List Node → Prop
  | [] => True
  | n :: ns => IsNormal n ∧ AllNormal ns

end

end Node

end MdxPages
