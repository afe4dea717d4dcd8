import MdxPages.Disk.Walk

/-!
# Disk/Access — asking, reading and writing

Every operation names its file by a location relative to a directory.  Writing changes one place;
`makeFolders` puts folders only where nothing stood.
-/

namespace MdxPages.Disk

/-- What stands at a location once links are followed. -/
def lookUp (d : Disk) (directory : Place) (l : Location) : Except Fault (Option Item) := do
  return d.at? (← d.find directory l)

/-- Whether something stands at a location.  Only a name that no disk could hold is a fault. -/
def contains (d : Disk) (directory : Place) (l : Location) : Except Fault Bool :=
  match d.lookUp directory l with
  | .ok item => .ok item.isSome
  | .error (.nameTooLong path) => .error (.nameTooLong path)
  | .error _ => .ok false

/-- Whether a location is a file. -/
def isFile (d : Disk) (directory : Place) (l : Location) : Bool :=
  match d.lookUp directory l with
  | .ok (some (.file _)) => true
  | _ => false

/-- Whether a location is a folder. -/
def isFolder (d : Disk) (directory : Place) (l : Location) : Bool :=
  match d.lookUp directory l with
  | .ok (some .folder) => true
  | _ => false

/-- The bytes of a file. -/
def read (d : Disk) (directory : Place) (l : Location) : Except Fault (List UInt8) := do
  match ← d.lookUp directory l with
  | some (.file bytes) => .ok bytes
  | some _ => .error (.isADirectory l.text)
  | none => .error (.noSuchFile l.text)

/-- The disk with a file at a location, over the file that was there. -/
def write (d : Disk) (directory : Place) (l : Location) (bytes : List UInt8) :
    Except Fault Disk := do
  let place ← d.find directory l
  match d.at? place with
  | some .folder => .error (.isADirectory l.text)
  | _ => .ok (d.put place (.file bytes))

/-- The disk with more bytes at the end of a file, which is made if it is missing. -/
def append (d : Disk) (directory : Place) (l : Location) (bytes : List UInt8) :
    Except Fault Disk := do
  let place ← d.find directory l
  match d.at? place with
  | some .folder => .error (.isADirectory l.text)
  | some (.file old) => .ok (d.put place (.file (old ++ bytes)))
  | _ => .ok (d.put place (.file bytes))

/-- The disk with a new folder at a location whose parent is a folder. -/
def makeFolder (d : Disk) (directory : Place) (l : Location) : Except Fault Disk := do
  match l.names.getLast? with
  | none => .error (.fileExists l.text)
  | some last =>
    let above ← d.find directory l.parent
    let place := if last = ".." then above.dropLast else above ++ [last]
    if hasNullByte l then .error .nullByte
    else if !(d.at? above == some .folder) then .error (noFolder above (d.at? above))
    else if maxNameBytes < last.utf8ByteSize then .error (.nameTooLong l.text)
    else if (d.at? place).isSome then .error (.fileExists l.text)
    else .ok (d.put place .folder)

/-- A new folder, or the disk as it is if the folder is there. -/
def ensureFolder (d : Disk) (directory : Place) (l : Location) : Except Fault Unit × Disk :=
  match d.makeFolder directory l with
  | .ok d => (.ok (), d)
  | .error fault => (if d.isFolder directory l then .ok () else .error fault, d)

/-- A folder and all that are missing above it, and the fault that stopped it, if one did; `names`
are the names of its location from the last to the first. -/
def makeFoldersFrom (d : Disk) (directory : Place) (slashes : Nat) :
    (names : List String) → Except Fault Unit × Disk
  | [] => d.ensureFolder directory ⟨slashes, []⟩
  | name :: above =>
    let l : Location := ⟨slashes, (name :: above).reverse⟩
    match d.makeFolder directory l with
    | .error (.noSuchFile _) =>
      match makeFoldersFrom d directory slashes above with
      | (.ok _, d) => d.ensureFolder directory l
      | failed => failed
    | _ => d.ensureFolder directory l

/-- A folder and all that are missing above it, and the fault that stopped it, if one did. -/
def makeFolders (d : Disk) (directory : Place) (l : Location) : Except Fault Unit × Disk :=
  d.makeFoldersFrom directory l.slashes l.names.reverse

end MdxPages.Disk
