import MdxPages.Fault
import MdxPages.Path.Posix

/-!
# Disk/Location — how a file is named

A location is the list of the names on the way, and the slashes it starts with.  Empty and `.`
names are dropped when it is read; a `..` stays, since what it undoes depends on the disk.
-/

namespace MdxPages

/-- A named place of a disk: absolute if it starts with slashes, else relative to a directory. -/
structure Location where
  slashes : Nat
  names : List String
deriving DecidableEq, Repr, Inhabited

namespace Location

/-- The location that a text names. -/
def ofString (s : String) : Location :=
  ⟨Path.leadingSlashes s, (Path.segments s).filter fun name => !Path.isVoid name⟩

/-- The absolute location of names from the root. -/
def ofPlace (names : List String) : Location :=
  ⟨1, names⟩

/-- The text of a location. -/
def text (l : Location) : String :=
  let written := String.ofList (List.replicate l.slashes '/') ++ Text.join "/" l.names
  if written.isEmpty then "." else written

/-- Whether a location does not depend on a directory. -/
def isAbsolute (l : Location) : Bool :=
  l.slashes != 0

/-- The last name, empty if there is none. -/
def name (l : Location) : String :=
  l.names.getLastD ""

/-- A name cut before its last point; a point at its start or end does not count. -/
def cutName (name : String) : String × String :=
  let cs := name.toList
  let ending := (cs.reverse.takeWhile (· != '.')).length
  if ending = 0 ∨ cs.length ≤ ending + 1 then (name, "")
  else (String.ofList (cs.take (cs.length - ending - 1)),
    String.ofList (cs.drop (cs.length - ending - 1)))

/-- The last name without its extension. -/
def stem (l : Location) : String :=
  (cutName l.name).1

/-- The extension of the last name, with its point. -/
def suffix (l : Location) : String :=
  (cutName l.name).2

/-- The location without its last name. -/
def parent (l : Location) : Location :=
  { l with names := l.names.dropLast }

/-- A location below another one; an absolute one stands for itself. -/
def join (base l : Location) : Location :=
  if l.isAbsolute then l else { base with names := base.names ++ l.names }

/-- A location with another last name, if it has one. -/
def withName? (l : Location) (name : String) : Option Location :=
  match l.names with
  | [] => none
  | _ :: _ => some { l with names := l.names.dropLast ++ [name] }

@[simp] theorem isAbsolute_ofPlace (names : List String) : (ofPlace names).isAbsolute = true := rfl

@[simp] theorem names_ofPlace (names : List String) : (ofPlace names).names = names := rfl

end Location

end MdxPages
