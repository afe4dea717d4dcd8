import MdxPages.Archive.Document
import MdxPages.Archive.Safety
import MdxPages.Convert.Pass
import MdxPages.Mdx.Render
import MdxPages.Site.Registry
import MdxPages.Tree.Validation

/-!
# Site/Page — writing a page and its fragments

Fragments are written while the page is converted, each at the place that its path names below the
root of the output; the page itself comes last.  A fragment that is refused or cannot be written is
logged and left out, and its references are not counted.
-/

namespace MdxPages.Site

/-- The name under which writing pages logs. -/
def loggerName : String := "snooty2mdx.api"

/-- How pages are converted and rendered. -/
structure PageOptions where
  conversion : ConversionOptions := {}
  rendering : RenderOptions := {}
deriving Repr, Inhabited

/-- A written page: its file, its tree, all files written for it in order, and its references. -/
structure Page where
  output : Location
  tree : Node
  written : List Location
  references : References
deriving Repr, Inhabited

/-- What is kept while fragments are written: the workplace, and what has been written. -/
structure Fragments where
  workplace : Workplace
  written : List Location := []
  references : References := {}
deriving Repr, Inhabited

/-- Render a tree and write it to a file. -/
def writeTree (rendering : RenderOptions) (l : Location) (tree : Node) : Work Unit := do
  Work.writeText l (← Work.liftFault (Mdx.render rendering tree))

/-- Write a fragment below the root of the output; the location of its file. -/
def writeFragment (rendering : RenderOptions) (root : Location) (path : String) (tree : Node) :
    Work Location := do
  let w ← get
  let place ← Work.lift (Archive.safePlace w.disk w.directory root path)
  writeTree rendering (.ofPlace place) tree
  return .ofPlace place

/-- Write a fragment when it is emitted.  Only a failure of a kind that is not expected here is
handed back as a refusal. -/
def emitFragment (rendering : RenderOptions) (root : Location) : Convert.Emitter Fragments :=
  fun path tree kept =>
    let (result, w) := writeFragment rendering root path tree kept.workplace
    let kept := { kept with workplace := { w with log := [] } }
    match result with
    | .ok target =>
      ({ log := w.log ++ [⟨.debug, loggerName, "Wrote fragment " ++ target.text⟩] },
        { kept with written := kept.written ++ [target]
                    references := kept.references.merge (References.collect tree) })
    | .error f =>
      match f.category with
      | .archiveSecurity | .outputWrite =>
        let complaint := "Failed to emit include file " ++ path ++ ": " ++ f.message
        ({ log := w.log ++ [⟨.error, loggerName, complaint⟩] }, kept)
      | _ => ({ log := w.log, refusal := some f.message }, kept)

/-- Convert a page and write its fragments on the way. -/
def convertTree (o : PageOptions) (root : Location) (path : String) (source : Entries Value) :
    Work (Node × Fragments) := fun w =>
  let run : Convert.Run Fragments := ⟨o.conversion, some (emitFragment o.rendering root)⟩
  let (result, session) :=
    Convert.convertPage run path source { workplace := { w with log := [] } }
  let done := { session.emitter.workplace with log := w.log ++ session.log }
  match result with
  | .ok tree => (.ok (tree, session.emitter), done)
  | .error f => (.error (.fault f), done)

/-- Leave a warning for each of the problems of a page. -/
def reportProblems (path : String) : List String → Work Unit
  | [] => return
  | problem :: problems => do
    Work.record loggerName .warning (path ++ ": " ++ problem)
    reportProblems path problems

/-- A count with its noun. -/
def filesText (n : Nat) : String :=
  toString n ++ " file" ++ if n = 1 then "" else "s"

/-- Convert a page document and write it as a page, with its fragments below `root`, the directory
of the page where nothing else is said.  Its references are counted once the page is written.  A
run has no clock, so `<t>` stands for the time that the conversion took. -/
def writePage (o : PageOptions) (output : Location) (root : Option Location) (document : Value) :
    Work Page := do
  let source ← Work.lift (Archive.unwrap document)
  let root := root.getD output.parent
  let path := Path.toPosix (Disk.relativePath (← get).directory output root)
  let (tree, fragments) ← convertTree o root path source
  Work.record loggerName .debug ("Converting " ++ path ++ " completed in <t>")
  reportProblems path tree.problems
  writeTree o.rendering output tree
  let page : Page :=
    { output, tree
      written := fragments.written ++ [output]
      references := fragments.references.merge (References.collect tree) }
  Registry.add page.references
  Work.record loggerName .info
    ("Wrote " ++ output.text ++ " (" ++ filesText page.written.length ++ ")")
  return page

end MdxPages.Site
