import MdxPages.Proofs.Site.ArchiveFile

/-!
# Proofs/Site/PageFile — converting only adds to the disk

Whatever is converted and however it ends, files and folders are added to the disk or written over
files, and nothing that was there is gone (`adds_convertFile`, `adds_convertArchive`).
-/

namespace MdxPages

namespace Work

variable {w : Workplace} {α β : Type} {x : Work α} {f : α → Work β}

/-- Work that only adds to the disk, if its directory is there, reached through folders. -/
def Adds (x : Work α) : Prop :=
  ∀ w, w.disk.Solid w.directory → Changes (fun _ _ _ => True) x w

theorem Changes.true {P : Disk → Disk → Place → Prop} (h : Changes P x w) :
    Changes (fun _ _ _ => True) x w :=
  h.mono fun _ _ => trivial

namespace Adds

/-- Work that leaves records adds nothing. -/
theorem of_onlyRecords (h : OnlyRecords x) : Adds x :=
  fun _ _ => h.changes

/-- Nor does work that leaves the disk and the directory alone. -/
theorem of_still (h : ∀ w, (x w).2.disk = w.disk ∧ (x w).2.directory = w.directory) : Adds x :=
  fun w _ => .still (h w).1 (h w).2

/-- Steps that only add to the disk do so one after the other. -/
theorem bind (hx : Adds x) (hf : ∀ a, Adds (f a)) : Adds (x >>= f) := fun w hw =>
  Changes.bind ⟨fun hp _ => hp, fun _ hp => hp⟩ (hx w hw) fun a w' hgrown _ =>
    hf a w' (hgrown.directory ▸ hw.grown hgrown.disk)

theorem get {f : Workplace → Work β} (h : ∀ w, Adds (f w)) : Adds (MonadState.get >>= f) :=
  fun w hw => .get (h w w hw)

theorem ite {c : Prop} [Decidable c] {y : Work α} (hx : Adds x) (hy : Adds y) :
    Adds (if c then x else y) := by
  split
  · exact hx
  · exact hy

theorem pure (a : α) : Adds (Pure.pure a) :=
  .of_onlyRecords (.pure a)

theorem lift (r : Except Failure α) : Adds (Work.lift r) :=
  .of_onlyRecords (.lift r)

theorem liftFault (r : Except Fault α) : Adds (Work.liftFault r) :=
  .of_onlyRecords (.liftFault r)

theorem record (logger : String) (level : Level) (message : String) :
    Adds (Work.record logger level message) :=
  .of_onlyRecords (.record logger level message)

/-- A text that is written adds its file, and folders above it. -/
theorem writeText (l : Location) (text : String) : Adds (Work.writeText l text) :=
  fun _ hw => (changes_writeText hw l text).true

end Adds

end Work

namespace Site

open Work

/-- Persisting the registry writes one file. -/
theorem adds_persist (l : Location) : Adds (Registry.persist l) :=
  fun _ hw => (changes_persist hw l).true

theorem adds_writeTree (rendering : RenderOptions) (l : Location) (tree : Node) :
    Adds (writeTree rendering l tree) :=
  (Adds.liftFault _).bind fun _ => .writeText l _

/-- A fragment is a file, if it is written. -/
theorem adds_writeFragment (rendering : RenderOptions) (root : Location) (path : String)
    (tree : Node) : Adds (writeFragment rendering root path tree) :=
  .get fun _ => (Adds.lift _).bind fun _ => (adds_writeTree rendering _ tree).bind fun _ => .pure _

/-- A conversion adds the files of its fragments. -/
theorem adds_convertTree (o : PageOptions) (root : Location) (path : String)
    (source : Entries Value) : Adds (convertTree o root path source) := by
  intro w hw
  obtain ⟨log, hworkplace⟩ := convertTree_workplace o root path source w
  have hgrown := preserved_by_convertPage
    (I := fun kept => w.Grown (fun _ => True) kept.workplace)
    ⟨o.conversion, some (emitFragment o.rendering root)⟩
    (fun emission kept hkept => hkept.trans (by
      have hwritten := adds_writeFragment o.rendering root emission.1 emission.2 kept.workplace
        (hkept.directory ▸ hw.grown hkept.disk)
      rw [Convert.deliver, emitFragment_workplace]
      exact ⟨hwritten.directory, hwritten.disk⟩))
    path source { workplace := { w with log := [] } } ⟨rfl, .refl _ _⟩
  rw [Changes, hworkplace]
  exact ⟨hgrown.directory, hgrown.disk⟩

/-- A page adds its file and those of its fragments. -/
theorem adds_writePage (o : PageOptions) (output : Location) (root : Option Location)
    (document : Value) : Adds (writePage o output root document) := by
  refine (Adds.lift _).bind fun source => .get fun w => ?_
  refine (adds_convertTree o _ _ source).bind fun (tree, fragments) => ?_
  refine (Adds.record _ _ _).bind fun _ => ?_
  refine (Adds.of_onlyRecords (onlyRecords_reportProblems _ _)).bind fun _ => ?_
  refine (adds_writeTree o.rendering output tree).bind fun _ => ?_
  refine (Adds.of_still fun _ => ⟨rfl, rfl⟩).bind fun _ => ?_
  exact (Adds.record _ _ _).bind fun _ => .pure _

/-- Reading the input adds nothing. -/
theorem adds_readInput (input : Location) : Adds (readInput input) := by
  refine (Adds.of_still fun _ => ⟨rfl, rfl⟩).bind fun there => ?_
  refine .ite (.of_onlyRecords (.throw _)) ?_
  refine Adds.bind (fun _ _ => .reportingAs (.ask _)) fun bytes => ?_
  split
  · exact .pure _
  · exact .of_onlyRecords (.throw _)

/-- **Converting a page only adds to the disk.** -/
theorem adds_convertFile (o : PageOptions) (input : Location) (targets : PageTargets) :
    Adds (convertFile o input targets) := by
  refine (adds_readInput input).bind fun text => (Adds.lift _).bind fun document => ?_
  refine (Adds.liftFault _).bind fun output => (Adds.of_still fun _ => ⟨rfl, rfl⟩).bind fun _ => ?_
  refine (adds_writePage o output none document).bind fun page => ?_
  refine (Adds.liftFault _).bind fun references => (adds_persist references).bind fun _ => ?_
  split
  · exact .pure _
  · refine Adds.bind ?_ fun _ => (Adds.record _ _ _).bind fun _ => .pure _
    exact (Adds.liftFault _).bind fun _ => .writeText _ _
  · exact .of_onlyRecords (.throw _)

/-- **Converting an archive only adds to the disk.** -/
theorem adds_convertArchive (o : PageOptions) (limits : ArchiveOptions) (archive : Location)
    (output references : Value) : Adds (convertArchive o limits archive output references) := by
  intro w hw
  cases hfolder : folderOf archive output with
  | error f => exact (unchanged_of_folderOf hfolder o limits references).true
  | ok folder => exact (changes_convertArchive hw hfolder o limits references).true

end Site

end MdxPages
