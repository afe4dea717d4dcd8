import MdxPages.Disk.Walk
import MdxPages.Options.Archive
import MdxPages.Zip.Reader

/-!
# Archive/Safety — what an archive may contain, and where its names may lead

Archives are not trusted.  Before anything is read, the entries are counted, named and measured;
and every name that becomes the path of a file goes through `safePlace`, which answers with a place
at or below the folder of the output or refuses the name.
-/

namespace MdxPages.Archive

/-- A name with slashes for backslashes. -/
def slashed (name : String) : String :=
  String.ofList (name.toList.map fun c => if c == '\\' then '/' else c)

/-- Whether a name starts with a drive: any character and a colon. -/
def namesDrive (name : String) : Bool :=
  match name.toList with
  | _ :: ':' :: _ => true
  | _ => false

/-- Whether a place is another one or below it; nothing counts as below the root. -/
def liesIn (folder place : Place) : Bool :=
  place == folder || (!folder.isEmpty && folder.isPrefixOf place)

/-- The place below a folder that a name from an archive stands for.  The name has to be relative,
with a segment and without `..`, and no link may lead it out of the folder. -/
def safePlace (d : Disk) (directory : Place) (folder : Location) (name : String) :
    Except Failure Place := do
  let l := Location.ofString (slashed name)
  if namesDrive (slashed name) then throw (.driveEntry name)
  if l.isAbsolute then throw (.absoluteEntry name)
  if l.names.isEmpty then throw (.emptyEntry (Text.quoted name))
  if l.names.contains ".." then throw (.relativeEntry name "..")
  let folder ← (d.resolve directory folder).mapError .fault
  let place ← (d.resolve folder ⟨0, l.names⟩).mapError .fault
  if liesIn folder place then return place
  else throw (.escapingEntry name (Location.ofPlace place).text)

/-! ## Limits

The sizes are those that the directory of the archive names. -/

/-- Whether a number exceeds a limit. -/
def exceeds (n : Number) (limit : Value) : Except Failure Bool :=
  match limit.number? with
  | some m => .ok (m.lt n)
  | none => .error (.fault (.notComparable (Value.num n).kindName limit.kindName))

/-- A size in megabytes, with one decimal place. -/
def megabytes (n : Number) : String :=
  (n.divNat 1048576).textTenths

/-- Refuse the name of an entry that is absolute or goes up. -/
def checkName (e : Zip.Entry) : Except Failure Unit :=
  let name := slashed e.name
  if namesDrive name then .error (.driveName e.name)
  else if Text.startsWith name "/" || (Location.ofString name).names.contains ".." then
    .error (.suspiciousName e.name)
  else .ok ()

/-- Refuse entries with unsafe names, or those that take too much room; `total` is the size of the
entries before them. -/
def checkEntries (o : ArchiveOptions) (total : Nat) : List Zip.Entry → Except Failure Unit
  | [] => .ok ()
  | e :: es => do
    checkName e
    let total := total + e.size
    if ← exceeds (.int total) o.maxUncompressedSize then
      throw (.tooLarge (megabytes (.int total))
        (megabytes ((o.maxUncompressedSize.number?).getD (.int 0))))
    checkEntries o total es

/-- Refuse entries that are packed beyond the allowed ratio as a whole. -/
def checkRatio (o : ArchiveOptions) (entries : List Zip.Entry) : Except Failure Unit := do
  let size := (entries.map Zip.Entry.size).foldr (· + ·) 0
  let packed := (entries.map Zip.Entry.packedSize).foldr (· + ·) 0
  if packed ≠ 0 then
    let ratio := Double.ofRatio false size packed
    if ← exceeds (.float ratio) o.maxCompressionRatio then
      throw (.suspiciousRatio ratio.textTenths)

/-- Refuse the entries of an archive that breaks its limits. -/
def check (o : ArchiveOptions) (entries : List Zip.Entry) : Except Failure Unit := do
  if ← exceeds (.int entries.length) o.maxEntries then
    throw (.tooManyEntries entries.length o.maxEntries.text)
  checkEntries o 0 entries
  checkRatio o entries

/-- What a fault met while opening an archive means. -/
def openingFailure (f : Fault) : Failure :=
  match f.kind with
  | .corruptArchive => .invalidZip
  | _ => if f.isSystem then .unreadableZip else .fault f

/-- Refuse an archive that cannot be opened or that breaks its limits; its entries otherwise. -/
def validate (o : ArchiveOptions) (data : Except Fault (List UInt8)) :
    Except Failure (List Zip.Entry) := do
  let entries ← (data.bind Zip.entries).mapError openingFailure
  check o entries
  return entries

end MdxPages.Archive
