import MdxPages.Archive.Document
import MdxPages.Archive.Safety
import MdxPages.Bson.Reader
import MdxPages.Json.Reader
import MdxPages.Site.Work

/-!
# Archive/Reading — the page documents of an archive

The entries of an archive are read one by one; those that hold no page are passed over.
-/

namespace MdxPages.Archive

/-- The name under which reading archives logs. -/
def loggerName : String := "snooty2mdx.parsers.archive"

/-- The documents in the data of an entry that holds BSON. -/
def decodeBson (name : String) (bytes : List UInt8) : Except Failure (List Value) :=
  match Bson.documents? bytes with
  | some documents => .ok documents
  | none => .error (.invalidBsonEntry name)

/-- The document in the data of an entry that holds JSON. -/
def decodeJson (name : String) (bytes : List UInt8) : Except Failure (List Value) :=
  match Bytes.text? bytes with
  | some text =>
    ((Json.read text).map fun document => [document]).mapError (.ofProblem (.invalidJsonEntry name))
  | none => .error (.invalidJsonEntry name)

/-- The page document among those of an entry: the first one, if it is an object. -/
def pageDocument (name : String) : List Value → Work (Option Document)
  | [] => return none
  | first :: more => do
    if !more.isEmpty then
      Work.record loggerName .warning (name ++ " contains " ++ toString (more.length + 1) ++
        " BSON documents - only the first one will be converted to MDX")
    match first with
    | .obj fields => do
      Work.liftFault (checkAssets fields)
      return some ⟨name, fields, assetsOf fields⟩
    | _ =>
      Work.record loggerName .warning
        ("Skipping archive entry " ++ name ++ ": document is not an object")
      return none

/-- The page document of an entry, if it holds one. -/
def readDocument (data : List UInt8) (e : Zip.Entry) : Work (Option Document) := do
  let name := Path.toPosix e.name
  if ← Work.liftFault e.isFolder then return none
  else if ignoredExtensions.any (Text.endsWith name) then
    Work.record loggerName .debug ("Skipping non-AST archive entry: " ++ name)
    return none
  else if Text.endsWith name bsonExtension then
    let bytes ← Work.liftFault (Zip.read data e)
    pageDocument name (← Work.lift (decodeBson name bytes))
  else if Text.endsWith name jsonExtension then
    let bytes ← Work.liftFault (Zip.read data e)
    pageDocument name (← Work.lift (decodeJson name bytes))
  else return none

/-- The bytes and entries of a valid archive. -/
def openArchive (o : ArchiveOptions) (archive : Location) : Work (List UInt8 × List Zip.Entry) := do
  let w ← get
  let data := w.disk.read w.directory archive
  let entries ← Work.lift (validate o data)
  return (data.toOption.getD [], entries)

/-- The documents of entries up to the first failure, and that failure. -/
def readDocuments (data : List UInt8) :
    List Zip.Entry → StateM Workplace (List Document × Option Failure)
  | [] => return ([], none)
  | e :: es => do
    match ← (readDocument data e).run with
    | .error f => return ([], some f)
    | .ok document =>
      let (documents, failure) ← readDocuments data es
      return (document.toList ++ documents, failure)

/-- The documents of an archive up to the first failure, and that failure. -/
def documents (o : ArchiveOptions) (archive : Location) :
    StateM Workplace (List Document × Option Failure) := do
  match ← (openArchive o archive).run with
  | .error f => return ([], some f)
  | .ok (data, entries) => readDocuments data entries

/-! ## Assets -/

/-- The last segment of a name. -/
def checksumOf (name : String) : String :=
  Path.baseName name

/-- Extract the asset that an entry holds, if its checksum is wanted and has not been seen.  A key
that leads out of the output is passed over with a warning. -/
def extractAsset (data : List UInt8) (output : Location) (assets : Entries String)
    (seen : List String) (e : Zip.Entry) : Work (Option (String × Location)) := do
  let name := Path.toPosix e.name
  let checksum := checksumOf name
  let key := (assets.get? checksum).getD ""
  if (← Work.liftFault e.isFolder) || Text.endsWith name bsonExtension || key.isEmpty ||
      seen.contains checksum then
    return none
  else
    let w ← get
    match safePlace w.disk w.directory output (Text.stripLeading '/' (Path.toPosix key)) with
    | .error f =>
      if f.category = .archiveSecurity then
        Work.record loggerName .warning ("Skipping asset " ++ checksum ++ ": " ++ f.message)
        return none
      else throw f
    | .ok place => do
      let target := Location.ofPlace place
      Work.makeFolders target.parent
      let bytes ← Work.liftFault (Zip.read data e)
      Work.change fun d directory => d.write directory target bytes
      Work.record loggerName .debug
        ("Extracted asset " ++ checksum ++ " -> " ++ target.text)
      return some (checksum, target)

/-- Extract the assets of entries in order. -/
def extractFrom (data : List UInt8) (output : Location) (assets : Entries String)
    (seen : List String) : List Zip.Entry → Work (List Location)
  | [] => return []
  | e :: es => do
    match ← extractAsset data output assets seen e with
    | none => extractFrom data output assets seen es
    | some (checksum, target) =>
      return target :: (← extractFrom data output assets (checksum :: seen) es)

/-- Extract the assets of an archive that pages name, each checksum once. -/
def extractAssets (archive output : Location) (assets : Entries String) : Work (List Location) := do
  let data ← Work.ask fun d directory => d.read directory archive
  extractFrom data output assets [] (← Work.liftFault (Zip.entries data))

end MdxPages.Archive
