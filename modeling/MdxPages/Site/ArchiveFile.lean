import MdxPages.Archive.Reading
import MdxPages.Site.PageFile

/-!
# Site/ArchiveFile — all pages of an archive

The pages of an archive keep their places relative to each other.  Assets are extracted once all
pages are written, and the references of all pages are merged into one module.
-/

namespace MdxPages.Site

/-- A converted archive: the folder of the output, the pages and the assets in order, and the module
of references. -/
structure Converted where
  output : Location
  pages : List Page
  assets : List Location
  references : Location
deriving Repr, Inhabited

/-- The number of files written for pages. -/
def fileCount (pages : List Page) : Nat :=
  (pages.map fun page => page.written.length).foldr (· + ·) 0

/-- Write the page of a document; one that has no root is passed over with a warning. -/
def writeDocument (o : PageOptions) (output : Location) (document : Archive.Document) :
    Work (Option Page) := do
  let w ← get
  let place ← Work.lift (Archive.safePlace w.disk w.directory output document.outputPath)
  match Archive.unwrap (.obj document.fields) with
  | .error f =>
    Work.record loggerName .warning ("Skipping " ++ document.path ++ ": " ++ f.message)
    return none
  | .ok root => do
    let folder ← Work.ask fun d directory => d.resolve directory output
    return some (← writePage o (.ofPlace place) (some (.ofPlace folder)) (.obj root))

/-- Write the pages of entries in order; the pages, and the assets that their documents name. -/
def writeEntries (o : PageOptions) (data : List UInt8) (output : Location)
    (assets : Entries String) : List Zip.Entry → Work (List Page × Entries String)
  | [] => return ([], assets)
  | e :: es => do
    match ← Archive.readDocument data e with
    | none => writeEntries o data output assets es
    | some document => do
      let page ← writeDocument o output document
      let (pages, assets) ← writeEntries o data output (assets.merge document.assets) es
      return (page.toList ++ pages, assets)

/-- Extract the assets that pages name, if that is wanted. -/
def writeAssets (o : ArchiveOptions) (archive output : Location) (assets : Entries String) :
    Work (List Location) := do
  if o.extractAssets.isGiven && !assets.isEmpty then
    let written ← Archive.extractAssets archive output assets
    Work.record loggerName .info ("Wrote " ++ toString written.length ++ " static assets")
    return written
  else return []

/-- Convert the pages of an archive below a folder, which is named after the archive where nothing
else is said. -/
def convertArchive (o : PageOptions) (limits : ArchiveOptions) (archive : Location)
    (output references : Value) : Work Converted := do
  if !(← Work.ask fun d directory => d.contains directory archive) then
    throw (.fileNotFound archive.text)
  let output ← Work.liftFault (match output with
    | .null => .ok (.ofString archive.stem)
    | v => locationOf v)
  Work.makeFolders output
  Registry.clear
  let (data, entries) ← Archive.openArchive limits archive
  let (pages, named) ← writeEntries o data output [] entries
  Work.record loggerName .info ("Wrote " ++ toString (fileCount pages) ++ " files")
  let assets ← writeAssets limits archive output named
  let registry ← Work.liftFault
    (locationOr references (output.join (.ofString Registry.fileName)))
  let _ ← Registry.persist registry
  Work.record loggerName .info ("Wrote folder " ++ output.text ++ "/")
  return ⟨output, pages, assets, registry⟩

end MdxPages.Site
