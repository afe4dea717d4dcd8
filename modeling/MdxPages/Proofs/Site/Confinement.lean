import MdxPages.Proofs.Archive.Safety
import MdxPages.Proofs.Disk.Making
import MdxPages.Proofs.Site.Work

/-!
# Proofs/Site/Confinement — what work changes

Whether it succeeds or fails, work changes certain places of the disk and no others (`Changes`).
Steps that leave the disk alone change none, and one step after another changes what either of them
does.  Work that changes nothing but places at or below a folder keeps to that folder (`Keeps`), as
writing texts at straight places below it does.
-/

namespace MdxPages

/-! ## Workplaces -/

namespace Workplace

variable {P Q : Place → Prop} {w w' w'' : Workplace} {root : Place}

/-- A workplace whose disk has grown at none but the given places. -/
structure Grown (P : Place → Prop) (w w' : Workplace) : Prop where
  directory : w'.directory = w.directory
  disk : Disk.Grown P w.disk w'.disk

theorem Grown.refl (P : Place → Prop) (w : Workplace) : w.Grown P w :=
  ⟨rfl, .refl P w.disk⟩

/-- Growing twice is growing. -/
theorem Grown.trans (h : Grown P w w') (h' : Grown P w' w'') : Grown P w w'' :=
  ⟨h'.directory.trans h.directory, h.disk.trans h'.disk⟩

/-- A location stands for the same place still. -/
theorem Grown.resolve_eq {l : Location} (h : Grown P w w') :
    w'.disk.resolve w'.directory l = w.disk.resolve w.directory l := by
  rw [h.directory, h.disk.resolve_eq]

/-- The names of an archive are safe, and lead where they led. -/
theorem Grown.safePlace_eq {l : Location} {name : String} (h : Grown P w w') :
    Archive.safePlace w'.disk w'.directory l name =
      Archive.safePlace w.disk w.directory l name := by
  unfold Archive.safePlace
  simp only [h.directory, h.disk.resolve_eq]

/-- A workplace with two folders, reached by folders only: its directory, and the one to work in. -/
structure Rooted (w : Workplace) (root : Place) : Prop where
  directory : w.disk.Solid w.directory
  root : w.disk.Solid root

/-- A workplace keeps its two folders when its disk grows. -/
theorem Rooted.grown (h : w.Rooted root) (hw : Grown P w w') : w'.Rooted root :=
  ⟨hw.directory ▸ h.directory.grown hw.disk, h.root.grown hw.disk⟩

end Workplace

/-! ## Work

What a place has to do with two disks is left open, for a place may be new, or be written over. -/

namespace Work

variable {P P' : Disk → Disk → Place → Prop} {w w' : Workplace} {root place : Place} {l : Location}
  {α β : Type} {x : Work α} {f : α → Work β}

/-- What may be said of a place that changes between two disks, and may still be said if the disk
had grown before or grows afterwards. -/
structure Lasting (P : Disk → Disk → Place → Prop) : Prop where
  later : ∀ {d d' d'' Q p}, P d d' p → Disk.Grown Q d' d'' → P d d'' p
  earlier : ∀ {d d' d'' Q p}, Disk.Grown Q d d' → P d' d'' p → P d d'' p

/-- Work in a workplace adds files and folders to the disk, and all places that it changes are of
one kind. -/
def Changes (P : Disk → Disk → Place → Prop) (x : Work α) (w : Workplace) : Prop :=
  w.Grown (P w.disk (x w).2.disk) (x w).2

namespace Changes

/-- Work that leaves the disk alone. -/
theorem still (hdisk : (x w).2.disk = w.disk) (hdirectory : (x w).2.directory = w.directory) :
    Changes P x w :=
  ⟨hdirectory, hdisk ▸ .refl _ _⟩

theorem pure (a : α) : Changes P (Pure.pure a) w :=
  still rfl rfl

/-- A result by itself leaves no record. -/
theorem lift (r : Except Failure α) : Changes P (Work.lift r) w :=
  still rfl rfl

theorem liftFault (r : Except Fault α) : Changes P (Work.liftFault r) w :=
  still rfl rfl

/-- A record is one. -/
theorem record (logger : String) (level : Level) (message : String) :
    Changes P (Work.record logger level message) w :=
  still rfl rfl

theorem ask (f : Disk → Place → Except Fault α) : Changes P (Work.ask f) w :=
  still rfl rfl

/-- Work that changes some places changes no more than a wider set of them. -/
theorem mono (h : Changes P x w) (hP : ∀ p, P w.disk (x w).2.disk p → P' w.disk (x w).2.disk p) :
    Changes P' x w :=
  ⟨h.directory, h.disk.mono hP⟩

/-- **One step after the other.** -/
theorem bind (hP : Lasting P) (hx : Changes P x w)
    (hf : ∀ a w', w.Grown (P w.disk w'.disk) w' → x w = (.ok a, w') → Changes P (f a) w') :
    Changes P (x >>= f) w := by
  rw [Changes] at hx ⊢
  rw [bind_apply]
  cases h : x w with
  | mk result w' =>
    rw [h] at hx
    cases result with
    | error e => exact hx
    | ok a =>
      have hrest := hf a w' hx h
      exact .trans ⟨hx.directory, hx.disk.mono fun p hp => hP.later hp hrest.disk⟩
        ⟨hrest.directory, hrest.disk.mono fun p hp => hP.earlier hx.disk hp⟩

theorem get {f : Workplace → Work β} (h : Changes P (f w) w) :
    Changes P (MonadState.get >>= f) w := by
  rw [Changes, bind_of_ok (get_apply w)]
  exact h

/-- A fault that is reported under another name has changed what it changed. -/
theorem reportingAs {failure : Failure} (h : Changes P x w) :
    Changes P (Work.reportingAs failure x) w := by
  rw [Changes, reportingAs_snd]
  exact h

theorem ite {c : Prop} [Decidable c] {y : Work α} (h : c → Changes P x w)
    (h' : ¬ c → Changes P y w) : Changes P (if c then x else y) w := by
  split
  · next hc => exact h hc
  · next hc => exact h' hc

/-- Work that changes the disk in one go. -/
theorem change {change : Disk → Place → Except Fault Disk}
    (h : ∀ d, change w.disk w.directory = .ok d → Disk.Grown (P w.disk d) w.disk d) :
    Changes P (Work.change change) w := by
  cases hchange : change w.disk w.directory with
  | error f =>
    have hfailed : Work.change change w = (.error (.fault f), w) := by
      rw [Work.change, bind_apply, ask_apply, liftFault_apply, hchange]
      rfl
    rw [Changes, hfailed]
    exact .refl _ w
  | ok d =>
    rw [Changes, change_apply hchange]
    exact ⟨rfl, h d hchange⟩

end Changes

/-! ## Work that only leaves records

The log is no part of the disk. -/

/-- Work that does no more than leave records, and gives the same answer in every workplace. -/
def OnlyRecords (x : Work α) : Prop :=
  ∃ answer, ∀ w, ∃ log, x w = (answer, { w with log })

namespace OnlyRecords

theorem lift (r : Except Failure α) : OnlyRecords (Work.lift r) :=
  ⟨r, fun w => ⟨w.log, rfl⟩⟩

theorem pure (a : α) : OnlyRecords (Pure.pure a : Work α) :=
  lift (.ok a)

theorem liftFault (r : Except Fault α) : OnlyRecords (Work.liftFault r) :=
  lift _

theorem throw (f : Failure) : OnlyRecords (throw f : Work α) :=
  lift (.error f)

theorem record (logger : String) (level : Level) (message : String) :
    OnlyRecords (Work.record logger level message) :=
  ⟨.ok (), fun _ => ⟨_, rfl⟩⟩

/-- Steps that leave records leave records. -/
theorem bind (hx : OnlyRecords x) (hf : ∀ a, OnlyRecords (f a)) : OnlyRecords (x >>= f) := by
  obtain ⟨answer, hx⟩ := hx
  cases answer with
  | error e =>
    refine ⟨.error e, fun w => ?_⟩
    obtain ⟨log, hw⟩ := hx w
    exact ⟨log, by rw [bind_apply, hw]⟩
  | ok a =>
    obtain ⟨answer, hfa⟩ := hf a
    refine ⟨answer, fun w => ?_⟩
    obtain ⟨log, hw⟩ := hx w
    obtain ⟨log', hw'⟩ := hfa { w with log }
    exact ⟨log', by rw [bind_of_ok hw, hw']⟩

theorem ite {c : Prop} [Decidable c] {y : Work α} (h : OnlyRecords x) (h' : OnlyRecords y) :
    OnlyRecords (if c then x else y) := by
  split
  · exact h
  · exact h'

theorem changes (h : OnlyRecords x) : Changes P x w := by
  obtain ⟨answer, h⟩ := h
  obtain ⟨log, hw⟩ := h w
  exact .still (by rw [hw]) (by rw [hw])

/-- The disk and the directory stay as they are. -/
theorem grown_empty {a : α} (h : OnlyRecords x) (hx : x w = (.ok a, w')) :
    w.Grown (fun _ => False) w' := by
  have hchanges : Changes (fun _ _ _ => False) x w := h.changes
  rw [Changes, hx] at hchanges
  exact hchanges

/-- The answer of such work does not depend on the workplace. -/
theorem answer_eq (h : OnlyRecords x) (w w' : Workplace) : (x w).1 = (x w').1 := by
  obtain ⟨answer, h⟩ := h
  obtain ⟨log, hw⟩ := h w
  obtain ⟨log', hw'⟩ := h w'
  rw [hw, hw']

end OnlyRecords

/-! ## Writing a file

A file is written in two steps, of which the first makes folders and may fail after it has made
some. -/

/-- A place that changes when a file is written: the one that its location leads to, or a new folder
on the way there. -/
def WrittenTo (directory : Place) (l : Location) (d d' : Disk) (p : Place) : Prop :=
  d'.find directory l = .ok p ∨ d.MadeFor d' directory l p

/-- Where a file is written stays where it is written. -/
theorem lasting_writtenTo (directory : Place) (l : Location) : Lasting (WrittenTo directory l) where
  later hp hd := hp.imp (Disk.find_grown hd) (·.later hd)
  earlier hd hp := hp.imp_right (.earlier hd)

/-- **A text is written to its file**, and folders are made on the way there. -/
theorem changes_writeText (hdirectory : w.disk.Solid w.directory) (l : Location) (text : String) :
    Changes (WrittenTo w.directory l) (writeText l text) w := by
  have hfolders : Changes (WrittenTo w.directory l) (makeFolders l.parent) w :=
    ⟨rfl, (Disk.grown_makeFolders hdirectory l.parent).mono fun p hp =>
      .inr (hp.of_le (List.dropLast_prefix l.names))⟩
  refine Changes.reportingAs (hfolders.bind (lasting_writtenTo _ _) fun _ w' hw _ => ?_)
  have hdirectory' : w'.disk.Solid w'.directory := hw.directory ▸ hdirectory.grown hw.disk
  exact .change fun d hwrite => (Disk.grown_write hdirectory' hwrite).mono fun p hp =>
    .inl (hw.directory ▸ hp)

/-! ## Work below a folder

For a folder that is reached by folders only, a straight place below it can be named from the root.
-/

/-- Work in a workplace changes nothing that is not at or below a folder. -/
abbrev Keeps (root : Place) (x : Work α) (w : Workplace) : Prop :=
  Changes (fun _ _ p => root <+: p) x w

/-- Below a folder stays below it. -/
theorem lasting_below (root : Place) : Lasting fun _ _ p => root <+: p where
  later hp _ := hp
  earlier _ hp := hp

theorem Keeps.bind (hx : Keeps root x w)
    (hf : ∀ a w', w.Grown (root <+: ·) w' → x w = (.ok a, w') → Keeps root (f a) w') :
    Keeps root (x >>= f) w :=
  Changes.bind (lasting_below root) hx hf

/-- A step after which it does not matter what the step before it gave. -/
theorem Keeps.seq (hx : Keeps root x w)
    (hf : ∀ a w', w.Grown (root <+: ·) w' → Keeps root (f a) w') : Keeps root (x >>= f) w :=
  hx.bind fun a w' hw _ => hf a w' hw

/-- Folders above a straight place below a folder. -/
theorem keeps_makeFolders (hw : w.Rooted root) (hle : root <+: place)
    (hplace : w.disk.Straight place) :
    Keeps root (makeFolders (Location.ofPlace place).parent) w :=
  ⟨rfl, Disk.grown_makeFolders_ofPlace hw.directory hw.root hle hplace⟩

/-- A file is written at a straight place below the folder. -/
theorem keeps_write {bytes : List UInt8} (hw : w.Rooted root) (hle : root <+: place)
    (hplace : w.disk.Straight place) :
    Keeps root (Work.change fun d directory => d.write directory (.ofPlace place) bytes) w :=
  .change fun _ hwrite => Disk.grown_write_ofPlace hw.directory hle hplace hwrite

/-- **A text is written at a straight place below a folder.** -/
theorem keeps_writeText (hw : w.Rooted root) (hle : root <+: place)
    (hplace : w.disk.Straight place) (text : String) :
    Keeps root (writeText (.ofPlace place) text) w :=
  ((keeps_makeFolders hw hle hplace).seq fun _ _ hgrown =>
    keeps_write (hw.grown hgrown) hle (hplace.grown hgrown.disk)).reportingAs

end Work

end MdxPages
