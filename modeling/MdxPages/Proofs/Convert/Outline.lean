import MdxPages.Convert.Pass

/-!
# Proofs/Convert/Outline — what a conversion meets, read off the source alone

Apart from the nodes that it returns, a conversion does two things that last: it changes the state
of the file that it produces, and it emits fragments.  Neither depends on the state that it starts
from, so both can be read off the source: an `Outline` lists, in the order of conversion,

* the **mentions** of the file: its metadata, its figures and its includes,
* the **fragments** that are emitted on the way, inner ones first, as drafts,
* the **visits**: every node that is converted, in this file or in a fragment.

`outline` follows the pass node by node, and `partsOf` says which lists of a node are converted.
-/

namespace MdxPages.Convert

open MdxPages.Source

/-! ## Drafts and mentions

A draft is a file before anything in it is converted.  What the conversion will do to the file is a
list of mentions. -/

/-- A file before its conversion: its place, the options of its page, and its nodes. -/
structure Draft where
  place : Place
  options : Entries Value := []
  content : List Source

/-- What a directive means for the file that holds it. -/
inductive Mention
  | metadata (fields : Entries Value)
  | figure (target : String)
  | inclusion (fragment : Draft)

/-- A node that is converted, and the place where it is. -/
structure Visit where
  place : Place
  fields : Entries Value
  children : List Source

/-- What a conversion meets, in the order in which it does. -/
structure Outline where
  mentions : List Mention := []
  fragments : List Draft := []
  visits : List Visit := []

namespace Outline

/-- The outline of one conversion after another. -/
protected def append (a b : Outline) : Outline :=
  ⟨a.mentions ++ b.mentions, a.fragments ++ b.fragments, a.visits ++ b.visits⟩

instance : Append Outline := ⟨Outline.append⟩

@[simp] theorem mentions_append (a b : Outline) : (a ++ b).mentions = a.mentions ++ b.mentions :=
  rfl

@[simp] theorem fragments_append (a b : Outline) :
    (a ++ b).fragments = a.fragments ++ b.fragments := rfl

@[simp] theorem visits_append (a b : Outline) : (a ++ b).visits = a.visits ++ b.visits := rfl

@[simp] theorem append_empty (a : Outline) : a ++ ({} : Outline) = a := by
  cases a
  change Outline.mk _ _ _ = _
  simp only [List.append_nil]

/-- Outlines in sequence need no brackets. -/
theorem append_assoc (a b c : Outline) : a ++ b ++ c = a ++ (b ++ c) := by
  change Outline.mk _ _ _ = Outline.mk _ _ _
  simp only [mentions_append, fragments_append, visits_append, List.append_assoc]

end Outline

/-! ## What a node stands for

Without its lists, a node adds one mention or none, and an include the files of its fragment before
it. -/

/-- The path that a place is imported from: its own, or the default one if it has none. -/
def importerOf (o : ConversionOptions) (place : Place) : String :=
  match importerPath o place with
  | .ok path => path
  | .error _ => ""

/-- The path of the fragment of an include, unless it has none or would close a cycle. -/
def fragmentOf (o : ConversionOptions) (place : Place) (fields : Entries Value) : Option String :=
  let fragment := Path.fragmentPath (inclusionArgument fields) o.fragmentExtension
  if (inclusionArgument fields).isEmpty || closesCycle o place fragment then none
  else some fragment

/-- The nodes of an include; an extract that is all of it is seen through. -/
def includedContent : List Source → List Source
  | [.node fields children term argument] =>
    if isExtract fields then children else [.node fields children term argument]
  | ss => ss

/-- The draft of an included fragment. -/
def draftOf (place : Place) (fragment : String) (children : List Source) : Draft where
  place := place.enter fragment
  content := includedContent children

/-- What a directive adds to an outline by itself; `inner` is the outline of its content, should it
be an include. -/
def directiveOutline (o : ConversionOptions) (place : Place) (fields : Entries Value)
    (children : List Source) (inner : String → Outline) : Outline :=
  let visit : Visit := ⟨place, fields, children⟩
  match directiveOf fields with
  | .metadata =>
    { mentions := [.metadata (Value.field "options" fields).fields], visits := [visit] }
  | .figure =>
    let asset := figureAsset fields children
    if asset.isEmpty then { visits := [visit] }
    else { mentions := [.figure (figureTarget o (importerOf o place) asset)], visits := [visit] }
  | .inclusion =>
    match fragmentOf o place fields with
    | none => { visits := [visit] }
    | some fragment =>
      let draft := draftOf place fragment children
      { mentions := [.inclusion draft]
        fragments := (inner fragment).fragments ++ [draft]
        visits := (inner fragment).visits ++ [visit] }
  | .literalInclude | .generic => { visits := [visit] }

/-- What a node adds to an outline by itself. -/
def ownOutline (o : ConversionOptions) (place : Place) (kind : Kind) (fields : Entries Value)
    (children : List Source) (inner : String → Outline) : Outline :=
  match kind with
  | .directive => directiveOutline o place fields children inner
  | _ => { visits := [⟨place, fields, children⟩] }

/-- The lists of a node that can be converted in the same file. -/
inductive Part
  | children
  | term
  | argument
  | title
  | body
  | lines

/-- The lists that a directive has converted, in order. -/
def directiveParts (fields : Entries Value) : List Part :=
  match directiveOf fields with
  | .generic =>
    if hasCondition fields then [.children]
    else
      match Value.field "argument" fields with
      | .arr _ => [.argument, .children]
      | _ => [.children]
  | _ => []

/-- The lists that a node has converted, in order. -/
def partsOf (kind : Kind) (fields : Entries Value) (children : List Source) : List Part :=
  match kind with
  | .text | .line | .literal | .code | .footnoteReference | .transition | .target | .inlineTarget
  | .dropped => []
  | .sectionBlock => if hasTitle children then [.title, .body] else [.body]
  | .definitionListItem => [.term, .children]
  | .lineBlock => [.lines]
  | .directive => directiveParts fields
  | .unknown => if children.isEmpty then [] else [.children]
  | _ => [.children]

/-- The outlines of parts, one after the other. -/
def partsOutline (part : Part → Outline) : List Part → Outline
  | [] => {}
  | [p] => part p
  | p :: ps => part p ++ partsOutline part ps

/-! ## Outlines of trees

The recursion is that of the pass: the title of a section before its body, the argument of a
directive before its children, and the content of an include in a place of its own. -/

mutual

/-- The outline of a node. -/
def outline (o : ConversionOptions) (place : Place) : Source → Outline
  | .stray _ => {}
  | .node fields children term argument =>
    ownOutline o place (kindOf fields) fields children
        (fun fragment => outlineContent o (place.enter fragment) children) ++
      partsOutline
        (fun
          | .children | .lines => outlineAll o place children
          | .term => outlineAll o place term
          | .argument => outlineAll o place argument
          | .title => outlineTitle o place children
          | .body => outlineBody o place false children)
        (partsOf (kindOf fields) fields children)

/-- The outline of siblings. -/
def outlineAll (o : ConversionOptions) (place : Place) : List Source → Outline
  | [] => {}
  | s :: ss => outline o place s ++ outlineAll o place ss

/-- The outline of what is in the first title among siblings. -/
def outlineTitle (o : ConversionOptions) (place : Place) : List Source → Outline
  | [] => {}
  | .stray _ :: ss => outlineTitle o place ss
  | .node fields children _ _ :: ss =>
    if isTitle fields then outlineAll o place children else outlineTitle o place ss

/-- The outline of siblings without the first title among them. -/
def outlineBody (o : ConversionOptions) (place : Place) (passed : Bool) : List Source → Outline
  | [] => {}
  | s :: ss =>
    if !passed && isTitle s.fields then outlineBody o place true ss
    else outline o place s ++ outlineBody o place passed ss

/-- The outline of the content of a fragment. -/
def outlineContent (o : ConversionOptions) (place : Place) : List Source → Outline
  | [] => {}
  | [.stray _] => {}
  | [.node fields children term argument] =>
    if isExtract fields then outlineAll o place children
    else outline o place (.node fields children term argument)
  | s :: ss => outline o place s ++ outlineAll o place ss

end

/-- The content of a fragment has the outline of the nodes that it includes. -/
theorem outlineContent_eq (o : ConversionOptions) (place : Place) (ss : List Source) :
    outlineContent o place ss = outlineAll o place (includedContent ss) := by
  match ss with
  | [] => rfl
  | [.stray _] => simp [outlineContent, includedContent, outlineAll, outline]
  | [.node fields children term argument] =>
    by_cases h : isExtract fields <;> simp [outlineContent, includedContent, outlineAll, h]
  | s :: t :: ss =>
    rw [outlineContent, includedContent]
    · rfl
    all_goals simp

/-! ## Outlines of files -/

namespace Draft

/-- The draft of a page. -/
def page (path : String) (root : Entries Value) : Draft where
  place := ⟨path, []⟩
  options := (Value.field "options" root).fields
  content := ofField "children" root

/-- What the conversion of a draft meets. -/
def outline (o : ConversionOptions) (d : Draft) : Outline :=
  outlineAll o d.place d.content

/-- The files that are produced from a draft, in the order in which they are finished. -/
def files (o : ConversionOptions) (d : Draft) : List Draft :=
  (d.outline o).fragments ++ [d]

/-- What is left of a conversion of the draft that nobody listens to. -/
def outcome (o : ConversionOptions) (d : Draft) : Except Fault (List Node) × Session Unit :=
  convertAll ⟨o, none⟩ d.place 1 d.content ⟨{}, (), []⟩

/-- The state of the file when its conversion ends. -/
def state (o : ConversionOptions) (d : Draft) : FileState :=
  (d.outcome o).2.file

/-- The converted nodes of the file, none if a fault stops the conversion. -/
def nodes (o : ConversionOptions) (d : Draft) : List Node :=
  match (d.outcome o).1 with
  | .ok ns => ns
  | .error _ => []

/-- The tree of the file. -/
def tree (o : ConversionOptions) (d : Draft) : Node :=
  assemble d.options (d.state o) (d.nodes o)

/-- What is handed to the emitter when a fragment is finished. -/
def emission (o : ConversionOptions) (d : Draft) : String × Node :=
  (d.place.path, d.tree o)

end Draft

end MdxPages.Convert
