import MdxPages.Bytes.Basic
import MdxPages.Disk.Access
import MdxPages.Failure
import MdxPages.Log
import MdxPages.References.Basic

/-!
# Site/Work — work on a disk

Work reads and changes a disk, counts references and leaves records.  It may fail, and what it did
before it failed stays done: the workplace is part of the answer in either case.
-/

namespace MdxPages

/-- Where work is done: the disk, the directory that relative locations start from, the references
counted so far, and the records made so far. -/
structure Workplace where
  disk : Disk := {}
  directory : Place := []
  registry : References := {}
  log : List LogEntry := []
deriving Repr, Inhabited

/-- Work that may fail. -/
abbrev Work (α : Type) := ExceptT Failure (StateM Workplace) α

namespace Work

variable {α : Type}

/-- Leave a record. -/
def record (logger : String) (level : Level) (message : String) : Work Unit :=
  modify fun w => { w with log := w.log ++ [⟨level, logger, message⟩] }

/-- A result as work. -/
def lift (r : Except Failure α) : Work α :=
  ExceptT.mk (pure r)

/-- A result that may be a fault as work. -/
def liftFault (r : Except Fault α) : Work α :=
  lift (r.mapError .fault)

/-- What has been read from a text as work; a text of the wrong form is reported as a failure. -/
def liftProblem (malformed : Failure) (r : Except Problem α) : Work α :=
  lift (r.mapError (.ofProblem malformed))

/-- Ask the disk. -/
def ask (f : Disk → Place → Except Fault α) : Work α := do
  let w ← get
  liftFault (f w.disk w.directory)

/-- Change the disk. -/
def change (f : Disk → Place → Except Fault Disk) : Work Unit := do
  let disk ← ask f
  modify fun w => { w with disk }

/-- Make a folder and all that are missing above it. -/
def makeFolders (l : Location) : Work Unit := do
  let w ← get
  let (result, disk) := w.disk.makeFolders w.directory l
  set { w with disk }
  liftFault result

/-- Work whose failure is handed over instead of ending the work that follows. -/
def attempt (x : Work α) : Work (Except Failure α) := fun w =>
  let (result, w) := x w
  (.ok result, w)

/-- Work in which every fault of the file system is reported as one failure. -/
def reportingAs (failure : Failure) (x : Work α) : Work α := fun w =>
  match x w with
  | (.error (.fault f), w) => (.error (if f.isSystem then failure else .fault f), w)
  | result => result

/-- Write a text to a file and make the folders that are missing above it. -/
def writeText (l : Location) (text : String) : Work Unit :=
  reportingAs (.outputWrite l.text) do
    makeFolders l.parent
    change fun d directory => d.write directory l (Bytes.ofText text)

end Work

end MdxPages
