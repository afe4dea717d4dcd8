import MdxPages.Disk.Basic

/-!
# Disk/Walk — from locations to places

Names are taken one by one: `..` goes up, a link is replaced by the names of its target.  A strict
walk needs a folder under every step; the other kind goes on by the names alone where the disk has
nothing, so that it also answers for files that are yet to be written.  At most `maxLinks` links
are followed.
-/

namespace MdxPages.Disk

/-- The number of links that a walk follows at most. -/
def maxLinks : Nat := 40

/-- The number of bytes that a name may have. -/
def maxNameBytes : Nat := 255

/-- The fault of a step from a place that is no folder. -/
def noFolder (here : Place) : Option Item → Fault
  | none => .noSuchFile (Location.ofPlace here).text
  | some _ => .notADirectory (Location.ofPlace here).text

/-- Walk from a place along names. -/
def walk (d : Disk) (strict : Bool) (links : Nat) (here : Place) (names : List String) :
    Except Fault Place :=
  match names with
  | [] => .ok here
  | name :: rest =>
    if strict && !(d.at? here == some .folder) then .error (noFolder here (d.at? here))
    else if strict && decide (maxNameBytes < name.utf8ByteSize) then
      .error (.nameTooLong (Location.ofPlace (here ++ [name])).text)
    else if name = ".." then walk d strict links here.dropLast rest
    else
      match d.at? (here ++ [name]) with
      | some (.link target) =>
        match links with
        | 0 => .error (.tooManyLinks (Location.ofPlace (here ++ [name])).text)
        | links + 1 =>
          let target := Location.ofString target
          walk d strict links (if target.isAbsolute then [] else here) (target.names ++ rest)
      | _ => walk d strict links (here ++ [name]) rest
termination_by (links, names.length)

/-- The place where a walk for a location starts. -/
def startOf (directory : Place) (l : Location) : Place :=
  if l.isAbsolute then [] else directory

/-- Whether a location has a name that no file system takes. -/
def hasNullByte (l : Location) : Bool :=
  l.names.any fun name => name.toList.contains '\x00'

/-- The place that a location names; only its last name may be missing. -/
def find (d : Disk) (directory : Place) (l : Location) : Except Fault Place :=
  if hasNullByte l then .error .nullByte
  else d.walk true maxLinks (startOf directory l) l.names

/-- The place that a location names, whether it exists or not. -/
def resolve (d : Disk) (directory : Place) (l : Location) : Except Fault Place :=
  if hasNullByte l then .error .nullByte
  else
    match d.walk false maxLinks (startOf directory l) l.names with
    | .error (.tooManyLinks path) => .error (.endlessLink path)
    | result => result

/-- The place of a location by its names alone. -/
def lexicalPlace (directory : Place) (l : Location) : Place :=
  Path.resolveFrom true [] (startOf directory l ++ l.names)

/-- The path of a location relative to a folder, by names alone. -/
def relativePath (directory : Place) (l folder : Location) : String :=
  let way := Text.join "/"
    (Path.wayBetween (lexicalPlace directory folder) (lexicalPlace directory l))
  if way.isEmpty then "." else way

end MdxPages.Disk
