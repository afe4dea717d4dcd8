import Mathlib.Data.Finset.Card
import MdxPages.Proofs.Archive.Naming
import MdxPages.Proofs.Site.Assets
import MdxPages.Proofs.Site.PageFile
import MdxPages.Proofs.Site.Tally

/-!
# Proofs/Site/Reported — the files that a run reports

A page names a file each time it writes it, and an archive counts what its pages name.  All files
that are named are there when the run is over (`PageReport.isFile`, `ArchiveReport.isFile`).  **They
are different files exactly if no fragment was written twice**, be it for one page or for two, and
none where the page itself goes (`reported_files`); a page that includes a fragment twice names its
file twice (`fragment_reported_twice`).
-/

namespace MdxPages

variable {P : Place → Prop} {w w' : Workplace} {l : Location} {p : Place}

/-- A location that is the file at a place. -/
structure Workplace.FileAt (w : Workplace) (l : Location) (p : Place) : Prop where
  find : w.disk.find w.directory l = .ok p
  file : w.disk.HasFile p

namespace Workplace.FileAt

/-- A file stays one when the disk grows. -/
theorem grown (h : w.FileAt l p) (hw : w.Grown P w') : w'.FileAt l p :=
  ⟨hw.directory ▸ Disk.find_grown hw.disk h.find, hw.disk.file h.file⟩

/-- A location that is the file at a place is a file. -/
theorem isFile (h : w.FileAt l p) : w.disk.isFile w.directory l = true := by
  obtain ⟨bytes, hbytes⟩ := h.file
  exact Disk.isFile_of_read (Disk.read_eq_ok_iff.2 ⟨p, h.find, hbytes⟩)

theorem congr (h : w.FileAt l p) (hdisk : w'.disk = w.disk)
    (hdirectory : w'.directory = w.directory) : w'.FileAt l p :=
  ⟨by rw [hdisk, hdirectory, h.find], hdisk ▸ h.file⟩

end Workplace.FileAt

namespace Work

/-- **A text that is written is a file afterwards.** -/
theorem exists_fileAt_of_writeText (hdirectory : w.disk.Solid w.directory) {text : String}
    (h : writeText l text w = (.ok (), w')) : ∃ p, w'.FileAt l p := by
  have hwrite : (makeFolders l.parent >>= fun _ =>
      change fun d directory => d.write directory l (Bytes.ofText text)) w = (.ok (), w') := by
    rw [writeText, reportingAs] at h
    split at h
    · cases h
    · exact h
  obtain ⟨_, w₁, hfolders, hwrite⟩ := exists_of_bind_eq_ok hwrite
  obtain ⟨d, hput, rfl⟩ := exists_of_change_eq_ok hwrite
  have hsolid : w₁.disk.Solid w₁.directory := by
    rw [makeFolders_apply] at hfolders
    obtain ⟨-, rfl⟩ := Prod.mk.inj hfolders
    exact hdirectory.grown (Disk.grown_makeFolders hdirectory _)
  obtain ⟨p, hfind, hfolder, rfl⟩ := Disk.exists_of_write hput
  have hvacant := Disk.vacant_of_find hsolid hfind hfolder
  have hgrown := Disk.Grown.put_file hvacant (Bytes.ofText text)
  exact ⟨p, Disk.find_grown hgrown hfind, _, Disk.at?_put_self _ _ hvacant.ne_nil⟩

end Work

namespace Site

open Work

variable {rendering : RenderOptions} {root output archive : Location} {path : String} {tree : Node}
  {added kept : List (Location × Node)} {fragments : List (String × Node)} {o : PageOptions}

/-! ## Fragments

A fragment has one file, which its path leads to from the output. -/

/-- A location that is the file of a fragment. -/
def FragmentAt (w w' : Workplace) (root : Location) (path : String) (l : Location) : Prop :=
  ∃ place, Archive.safePlace w.disk w.directory root path = .ok place ∧ l = .ofPlace place ∧
    w'.FileAt l place

/-- The file of a fragment stays its file. -/
theorem FragmentAt.grown {w'' : Workplace} (h : FragmentAt w w' root path l)
    (hw : w'.Grown P w'') : FragmentAt w w'' root path l := by
  obtain ⟨place, hsafe, hl, hfile⟩ := h
  exact ⟨place, hsafe, hl, hfile.grown hw⟩

theorem FragmentAt.earlier {w₁ : Workplace} (h : FragmentAt w₁ w' root path l)
    (hw : w.Grown P w₁) : FragmentAt w w' root path l := by
  obtain ⟨place, hsafe, hl, hfile⟩ := h
  exact ⟨place, hw.safePlace_eq ▸ hsafe, hl, hfile⟩

/-- A fragment that is delivered is the file that is named for it, if one is. -/
theorem Delivery.fragmentAt (h : Delivery rendering root path tree w added w')
    (hdirectory : w.disk.Solid w.directory) :
    added = [] ∨ ∃ l, added = [(l, tree)] ∧ FragmentAt w w' root path l := by
  cases h with
  | refused | unrendered | unwritten => exact .inl rfl
  | @written place _ _ safe rendered wrote =>
    obtain ⟨p, hfile⟩ := exists_fileAt_of_writeText hdirectory wrote
    obtain ⟨-, -, -, hstraight⟩ := Archive.exists_of_safePlace hdirectory.straight safe
    have hgrown := (Delivery.written safe rendered wrote).wrote hdirectory
    obtain rfl := Disk.find_ofPlace (hstraight.grown hgrown.disk) hfile.find
    exact .inr ⟨_, rfl, p, safe, rfl, hfile⟩

/-- All files of fragments are there. -/
theorem forall_fileAt {written : List String} {targets : List Location}
    (h : List.Forall₂ (FragmentAt w w' root) written targets) :
    ∀ l ∈ targets, ∃ p, l = .ofPlace p ∧ w'.FileAt l p := by
  induction h with
  | nil => exact List.forall_mem_nil _
  | cons hfragment _ ih =>
    obtain ⟨p, -, hl, hfile⟩ := hfragment
    exact List.forall_mem_cons.2 ⟨⟨p, hl, hfile⟩, ih⟩

/-- **The files that are named for fragments are theirs**, one for each that has been written. -/
theorem Deliveries.exists_paths (h : Deliveries rendering root w fragments kept w')
    (hdirectory : w.disk.Solid w.directory) :
    ∃ written, written.Sublist (fragments.map Prod.fst) ∧
      List.Forall₂ (FragmentAt w w' root) written (kept.map Prod.fst) := by
  induction h with
  | nil w => exact ⟨[], .slnil, .nil⟩
  | @cons w w₁ w' path tree fragments added kept first rest ih =>
    have hfirst := first.wrote hdirectory
    have hdirectory₁ : w₁.disk.Solid w₁.directory := hfirst.directory ▸ hdirectory.grown hfirst.disk
    obtain ⟨written, hsublist, hrest⟩ := ih hdirectory₁
    have hrest := hrest.imp fun _ _ hfragment => hfragment.earlier hfirst
    obtain rfl | ⟨l, rfl, hfragment⟩ := first.fragmentAt hdirectory
    · exact ⟨written, hsublist.cons _, hrest⟩
    · exact ⟨path :: written, hsublist.cons_cons _,
        .cons (hfragment.grown (rest.wrote hdirectory₁)) hrest⟩

/-! ## Pages -/

/-- What a page that has come out has written: the files of fragments among those that it has
emitted, and then its own. -/
structure PageFiles (o : PageOptions) (w w' : Workplace) (output : Location) (root : Location)
    (document : Value) (written : List String) (page : Page) : Prop where
  emitted : ∃ source s, Archive.unwrap document = .ok source ∧
    Convert.convertPage ⟨o.conversion, some .recording⟩ (Path.toPosix
      (Disk.relativePath w.directory output root)) source [] = (.ok page.tree, s) ∧
    written.Sublist (s.emitter.map Prod.fst)
  files : ∃ targets place, page.written = targets ++ [output] ∧
    List.Forall₂ (FragmentAt w w' root) written targets ∧ w'.FileAt output place

/-- The steps of a page that has come out: its tree is converted, and between the last fragment and
the page itself there are only records. -/
theorem exists_of_writePage_eq_ok {folder : Option Location} {document : Value} {page : Page}
    (h : writePage o output folder document w = (.ok page, w')) :
    ∃ source fragments w₁ w₂ w₃ text, Archive.unwrap document = .ok source ∧
      convertTree o (folder.getD output.parent) (Path.toPosix
        (Disk.relativePath w.directory output (folder.getD output.parent))) source w =
          (.ok (page.tree, fragments), w₁) ∧
      w₁.Grown (fun _ => False) w₂ ∧ writeText output text w₂ = (.ok (), w₃) ∧
      w'.disk = w₃.disk ∧ w'.directory = w₃.directory ∧
      page.written = fragments.written ++ [output] := by
  obtain ⟨source, w₁, hlift, h⟩ := exists_of_bind_eq_ok h
  obtain ⟨hsource, rfl⟩ := lift_eq_ok_iff.1 hlift
  obtain ⟨_, _, hget, h⟩ := exists_of_bind_eq_ok h
  obtain ⟨hok, rfl⟩ := Prod.mk.inj hget
  obtain rfl := Except.ok.inj hok
  obtain ⟨⟨tree, fragments⟩, w₂, hconvert, h⟩ := exists_of_bind_eq_ok h
  obtain ⟨_, w₃, hrecord, h⟩ := exists_of_bind_eq_ok h
  obtain ⟨_, w₄, hproblems, h⟩ := exists_of_bind_eq_ok h
  obtain ⟨_, w₅, hwrite, h⟩ := exists_of_bind_eq_ok h
  obtain ⟨_, w₆, hadd, h⟩ := exists_of_bind_eq_ok h
  obtain ⟨_, w₇, hrecord', h⟩ := exists_of_bind_eq_ok h
  obtain ⟨hok, rfl⟩ := Prod.mk.inj h
  obtain rfl := Except.ok.inj hok
  obtain ⟨-, rfl⟩ := Prod.mk.inj hadd
  obtain ⟨-, rfl⟩ := Prod.mk.inj hrecord'
  obtain ⟨text, _, hrender, hwrite⟩ := exists_of_bind_eq_ok hwrite
  obtain ⟨-, rfl⟩ := liftFault_eq_ok_iff.1 hrender
  have hrecords := ((OnlyRecords.record _ _ _).grown_empty hrecord).trans
    ((onlyRecords_reportProblems _ _).grown_empty hproblems)
  exact ⟨source, fragments, w₂, w₄, w₅, text, hsource, hconvert, hrecords, hwrite, rfl, rfl, rfl⟩

/-- **A page that has come out names its files**, each of which is there. -/
theorem exists_pageFiles (hdirectory : w.disk.Solid w.directory) {folder : Option Location}
    {document : Value} {page : Page}
    (h : writePage o output folder document w = (.ok page, w')) :
    ∃ written, PageFiles o w w' output (folder.getD output.parent) document written page := by
  obtain ⟨source, fragments, w₁, w₂, w₃, text, hsource, hconvert, hrecords, hwrite, hdisk,
    hdirectory', hpage⟩ := exists_of_writePage_eq_ok h
  obtain ⟨s, hconverted⟩ := exists_convertPage_of_convertTree hconvert
  obtain ⟨fragments', kept, log, hconvert', hdeliveries, hwritten, -⟩ :=
    exists_convertTree hconverted (folder.getD output.parent) w
  obtain ⟨hok, rfl⟩ := Prod.mk.inj (hconvert'.symm.trans hconvert)
  obtain ⟨-, rfl⟩ := Prod.mk.inj (Except.ok.inj hok)
  obtain ⟨written, hsublist, hfragments⟩ := hdeliveries.exists_paths hdirectory
  have hrecords : Workplace.Grown (fun _ => False) fragments'.workplace w₂ :=
    ⟨hrecords.directory, hrecords.disk⟩
  have hdelivered := hdeliveries.wrote hdirectory
  have hwrote : Wrote (kept.map Prod.fst) w w₂ :=
    Wrote.still ⟨hdelivered.directory, hdelivered.disk⟩ hrecords
  have hdirectory₂ : w₂.disk.Solid w₂.directory := hwrote.directory ▸ hdirectory.grown hwrote.disk
  obtain ⟨place, hfile⟩ := exists_fileAt_of_writeText hdirectory₂ hwrite
  have hchanges := changes_writeText hdirectory₂ output text
  rw [Changes, hwrite] at hchanges
  refine ⟨written, ⟨source, s, hsource, hconverted, hsublist⟩, kept.map Prod.fst, place, ?_,
    hfragments.imp fun path l hfragment => ?_, hfile.congr hdisk hdirectory'⟩
  · exact hpage.trans (congrArg (· ++ [output]) hwritten)
  · obtain ⟨place, hsafe, hl, hfragment⟩ := (hfragment.grown hrecords).grown hchanges
    exact ⟨place, hsafe, hl, hfragment.congr hdisk hdirectory'⟩

/-- The place below a folder where the names of a path lead. -/
def placeBelow (folder : Place) (path : String) : Place :=
  folder ++ Path.named (Archive.slashed path)

/-- What a page reports: files that are there, those of fragments and then its own.  They are
different files exactly if the paths of the fragments have different names and none of them leads to
the page. -/
structure PageReport (o : PageOptions) (w w' : Workplace) (output root : Location)
    (document : Value) (page : Page) : Prop where
  isFile : ∀ l ∈ page.written, w'.disk.isFile w'.directory l = true
  places : ∃ source s written folder place, Archive.unwrap document = .ok source ∧
    Convert.convertPage ⟨o.conversion, some .recording⟩ (Path.toPosix
      (Disk.relativePath w.directory output root)) source [] = (.ok page.tree, s) ∧
    written.Sublist (s.emitter.map Prod.fst) ∧
    (written ≠ [] → w.disk.resolve w.directory root = .ok folder) ∧
    w.disk.resolve w.directory output = .ok place ∧
    page.written.map (w'.disk.find w'.directory) =
      (written.map (placeBelow folder) ++ [place]).map .ok ∧
    ((page.written.map (w'.disk.find w'.directory)).Nodup ↔
      (written.map fun path => Path.named (Archive.slashed path)).Nodup ∧
        place ∉ written.map (placeBelow folder))

/-- Without links a fragment is where its names lead. -/
theorem FragmentAt.find_eq (h : FragmentAt w w' root path l)
    (hlink : ∀ p target, w.disk.at? p ≠ some (.link target)) {folder : Place}
    (hfolder : w.disk.resolve w.directory root = .ok folder) :
    w'.disk.find w'.directory l = .ok (placeBelow folder path) := by
  obtain ⟨place, hsafe, -, hfile⟩ := h
  obtain ⟨-, -, -, hup, folder', hfolder', hplace, -⟩ := Archive.safePlace_eq_ok_iff.1 hsafe
  obtain rfl := Except.ok.inj (hfolder.symm.trans hfolder')
  have hwalk := Disk.walk_of_resolve hplace
  have hdown : w.disk.walk false Disk.maxLinks folder (Path.named (Archive.slashed path)) =
      .ok (placeBelow folder path) :=
    Disk.walk_eq_append
      (fun hmem => Bool.false_ne_true (hup.symm.trans (List.contains_iff_mem.2 hmem)))
      fun p target _ _ => hlink _ target
  rw [hfile.find, ← hdown]
  exact hwalk.symm

/-- Different names of fragments lead to different files where there are no links. -/
theorem find_targets {written : List String} {targets : List Location}
    (h : List.Forall₂ (FragmentAt w w' root) written targets)
    (hlink : ∀ p target, w.disk.at? p ≠ some (.link target)) {folder : Place}
    (hfolder : written ≠ [] → w.disk.resolve w.directory root = .ok folder) :
    targets.map (w'.disk.find w'.directory) = (written.map (placeBelow folder)).map .ok := by
  induction h with
  | nil => rfl
  | cons hfragment _ ih =>
    have hfolder := hfolder (List.cons_ne_nil _ _)
    rw [List.map_cons, List.map_cons, List.map_cons, hfragment.find_eq hlink hfolder,
      ih fun _ => hfolder]

/-- A page that has come out has such a report. -/
theorem report_of_writePage (hdirectory : w.disk.Solid w.directory)
    (hlink : ∀ p target, w.disk.at? p ≠ some (.link target)) {folder : Option Location}
    {document : Value} {page : Page}
    (h : writePage o output folder document w = (.ok page, w')) :
    PageReport o w w' output (folder.getD output.parent) document page := by
  obtain ⟨written, ⟨source, s, hsource, hpage, hsublist⟩, targets, place, hwritten, htargets,
    hfile⟩ := exists_pageFiles hdirectory h
  have hgrown := adds_writePage o output folder document w hdirectory
  rw [Changes, h] at hgrown
  have hplace : w.disk.resolve w.directory output = .ok place :=
    hgrown.resolve_eq.symm.trans (Disk.resolve_of_find hfile.find)
  obtain ⟨root, hroot⟩ : ∃ root, written ≠ [] →
      w.disk.resolve w.directory (folder.getD output.parent) = .ok root := by
    cases htargets with
    | nil => exact ⟨[], fun hne => absurd rfl hne⟩
    | cons hfragment _ =>
      obtain ⟨_, hsafe, -, -⟩ := hfragment
      obtain ⟨-, -, -, -, root, hroot, -, -⟩ := Archive.safePlace_eq_ok_iff.1 hsafe
      exact ⟨root, fun _ => hroot⟩
  have hfind : page.written.map (w'.disk.find w'.directory) =
      (written.map (placeBelow root) ++ [place]).map .ok := by
    rw [hwritten, List.map_append, List.map_append, find_targets htargets hlink hroot,
      List.map_singleton, List.map_singleton, hfile.find]
  have hsame : (written.map (placeBelow root)).Nodup ↔
      (written.map fun path => Path.named (Archive.slashed path)).Nodup := by
    have hbelow : written.map (placeBelow root) =
        (written.map fun path => Path.named (Archive.slashed path)).map (root ++ ·) :=
      List.map_map.symm
    rw [hbelow, List.nodup_map_iff (List.append_right_injective root)]
  refine ⟨?_, source, s, written, root, place, hsource, hpage, hsublist, hroot, hplace, hfind, ?_⟩
  · rw [hwritten, List.forall_mem_append, List.forall_mem_singleton]
    refine ⟨fun l hl => ?_, hfile.isFile⟩
    obtain ⟨p, -, hfragment⟩ := forall_fileAt htargets l hl
    exact hfragment.isFile
  · rw [hfind, List.nodup_map_iff fun _ _ => Except.ok.inj, ← hsame, List.nodup_append_comm,
      List.singleton_append, List.nodup_cons, and_comm]

/-! ## Archives

Files of several pages may coincide, so the count of an archive is compared with the set of its
files. -/

/-- Every file that a page of an archive names is there. -/
theorem forall_fileAt_of_writePage (hdirectory : w.disk.Solid w.directory)
    (hplace : w.disk.Straight p) {folder : Option Location} {document : Value} {page : Page}
    (h : writePage o (.ofPlace p) folder document w = (.ok page, w')) :
    ∀ l ∈ page.written, ∃ p, l = .ofPlace p ∧ w'.FileAt l p := by
  obtain ⟨written, -, targets, place, hwritten, htargets, hfile⟩ := exists_pageFiles hdirectory h
  have hgrown := adds_writePage o (.ofPlace p) folder document w hdirectory
  rw [Changes, h] at hgrown
  obtain rfl := Disk.find_ofPlace (hplace.grown hgrown.disk) hfile.find
  rw [hwritten, List.forall_mem_append, List.forall_mem_singleton]
  exact ⟨forall_fileAt htargets, place, rfl, hfile⟩

/-- Every file that the page of a document names is there. -/
theorem forall_fileAt_of_writeDocument (hdirectory : w.disk.Solid w.directory)
    {document : Archive.Document} {page : Option Page}
    (h : writeDocument o output document w = (.ok page, w')) :
    ∀ l ∈ writtenFor page.toList, ∃ p, l = .ofPlace p ∧ w'.FileAt l p := by
  obtain ⟨_, _, hget, h⟩ := exists_of_bind_eq_ok h
  obtain ⟨hok, rfl⟩ := Prod.mk.inj hget
  obtain rfl := Except.ok.inj hok
  obtain ⟨place, _, hplace, h⟩ := exists_of_bind_eq_ok h
  obtain ⟨hsafe, rfl⟩ := lift_eq_ok_iff.1 hplace
  obtain ⟨_, -, -, hstraight⟩ := Archive.exists_of_safePlace hdirectory.straight hsafe
  cases hroot : Archive.unwrap (.obj document.fields) with
  | error f =>
    simp only [hroot] at h
    obtain ⟨_, w₁, hrecord, h⟩ := exists_of_bind_eq_ok h
    obtain ⟨hok, rfl⟩ := Prod.mk.inj h
    obtain rfl := Except.ok.inj hok
    exact List.forall_mem_nil _
  | ok source =>
    simp only [hroot] at h
    obtain ⟨folder, _, hask, h⟩ := exists_of_bind_eq_ok h
    rw [ask_apply, liftFault_eq_ok_iff] at hask
    obtain ⟨-, rfl⟩ := hask
    obtain ⟨page, w₁, hpage, h⟩ := exists_of_bind_eq_ok h
    obtain ⟨hok, rfl⟩ := Prod.mk.inj h
    obtain rfl := Except.ok.inj hok
    rw [Option.toList_some, writtenFor, List.flatMap_singleton]
    exact forall_fileAt_of_writePage hdirectory hstraight hpage

/-- **The files of pages stay** while the pages of later entries are written. -/
theorem forall_fileAt_of_writeEntries (hdirectory : w.disk.Solid w.directory) {data : List UInt8}
    {assets named : Entries String} {entries : List Zip.Entry} {pages : List Page}
    (h : writeEntries o data output assets entries w = (.ok (pages, named), w')) :
    ∀ l ∈ writtenFor pages, ∃ p, l = .ofPlace p ∧ w'.FileAt l p := by
  induction entries generalizing w assets pages with
  | nil =>
    obtain ⟨hok, rfl⟩ := Prod.mk.inj h
    obtain ⟨rfl, rfl⟩ := Prod.mk.inj (Except.ok.inj hok)
    exact List.forall_mem_nil _
  | cons e entries ih =>
    obtain ⟨document, w₁, hread, h⟩ := exists_of_bind_eq_ok h
    have hread' := (onlyRecords_readDocument data e).grown_empty hread
    have hdirectory₁ : w₁.disk.Solid w₁.directory := hread'.directory ▸ hdirectory.grown hread'.disk
    cases document with
    | none => exact ih hdirectory₁ h
    | some document =>
      obtain ⟨page, w₂, hpage, h⟩ := exists_of_bind_eq_ok h
      obtain ⟨⟨rest, named'⟩, w₃, hrest, h⟩ := exists_of_bind_eq_ok h
      obtain ⟨hok, rfl⟩ := Prod.mk.inj h
      obtain ⟨rfl, rfl⟩ := Prod.mk.inj (Except.ok.inj hok)
      have hpage' := wrote_writeDocument hdirectory₁ hpage
      have hdirectory₂ := hpage'.directory ▸ hdirectory₁.grown hpage'.disk
      have hgrown := wrote_writeEntries hdirectory₂ hrest
      rw [writtenFor, List.flatMap_append, List.forall_mem_append]
      refine ⟨fun l hl => ?_, ih hdirectory₂ hrest⟩
      obtain ⟨p, heq, hfile⟩ := forall_fileAt_of_writeDocument hdirectory₁ hpage l hl
      exact ⟨p, heq, hfile.grown hgrown⟩

/-- The different files that pages name, each of them once. -/
def filesOfPages (w : Workplace) (pages : List Page) : Finset Place :=
  ((writtenFor pages).filterMap fun l => (w.disk.find w.directory l).toOption).toFinset

/-- What an archive reports: files that are there.  They are counted as often as pages name them, so
that the count is that of the files exactly if no page names a file twice and no two pages name the
same one. -/
structure ArchiveReport (w' : Workplace) (pages : List Page) : Prop where
  isFile : ∀ l ∈ writtenFor pages, w'.disk.isFile w'.directory l = true
  card_le : (filesOfPages w' pages).card ≤ fileCount pages
  card_eq_iff : fileCount pages = (filesOfPages w' pages).card ↔
    (∀ page ∈ pages, page.written.Nodup) ∧
      pages.Pairwise fun page page' => page.written.Disjoint page'.written

/-- The count of an archive is that of the files its pages name, with repetitions. -/
theorem fileCount_eq (pages : List Page) : fileCount pages = (writtenFor pages).length := by
  rw [fileCount, writtenFor, List.length_flatMap]
  rfl

/-- Locations that are the files at places, and those places. -/
theorem exists_places {ls : List Location} (h : ∀ l ∈ ls, ∃ p, l = .ofPlace p ∧ w.FileAt l p) :
    ∃ places : List Place, ls = places.map .ofPlace ∧
      ls.filterMap (fun l => (w.disk.find w.directory l).toOption) = places := by
  induction ls with
  | nil => exact ⟨[], rfl, rfl⟩
  | cons l ls ih =>
    obtain ⟨⟨p, rfl, hfile⟩, hls⟩ := List.forall_mem_cons.1 h
    obtain ⟨places, hplaces, hfind⟩ := ih hls
    refine ⟨p :: places, by rw [hplaces, List.map_cons], ?_⟩
    have hp : (w.disk.find w.directory (.ofPlace p)).toOption = some p := by
      rw [hfile.find]
      rfl
    rw [List.filterMap_cons, hp, hfind]

/-- Pages whose files are there have such a report. -/
theorem archiveReport {pages : List Page}
    (h : ∀ l ∈ writtenFor pages, ∃ p, l = .ofPlace p ∧ w.FileAt l p) : ArchiveReport w pages := by
  obtain ⟨places, hplaces, hfind⟩ := exists_places h
  have hcount : fileCount pages = places.length := by
    rw [fileCount_eq, hplaces, List.length_map]
  have hnodup : places.Nodup ↔ (∀ page ∈ pages, page.written.Nodup) ∧
      pages.Pairwise fun page page' => page.written.Disjoint page'.written := by
    have hplace : Function.Injective Location.ofPlace := fun _ _ => congrArg Location.names
    rw [← List.nodup_map_iff hplace, ← hplaces, writtenFor, List.nodup_flatMap]
  refine ⟨fun l hl => ?_, ?_, ?_⟩
  · obtain ⟨p, -, hfile⟩ := h l hl
    exact hfile.isFile
  · rw [filesOfPages, hfind, hcount]
    exact List.toFinset_card_le places
  · rw [filesOfPages, hfind, hcount, ← hnodup, eq_comm]
    exact Multiset.toFinset_card_eq_card_iff_nodup (m := (places : Multiset Place))

/-- **An archive that has been converted reports files that are there.** -/
theorem report_of_convertArchive (hdirectory : w.disk.Solid w.directory) {limits : ArchiveOptions}
    {output' references : Value} {c : Converted}
    (h : convertArchive o limits archive output' references w = (.ok c, w')) :
    ArchiveReport w' c.pages := by
  obtain ⟨root, data, entries, named, w₁, w₂, w₃, w₄, P, -, hready, -, hpages, hrecord, hassets,
    hend⟩ := exists_of_convertArchive_eq_ok hdirectory h
  have hready₃ : Ready w.directory c.output root w₃ :=
    (hready.grown (wrote_writeEntries hready.rooted.directory hpages)).grown hrecord
  have hextracted := keeps_writeAssets hready₃.rooted hready₃.resolve limits archive named
  rw [Keeps, Changes, hassets] at hextracted
  refine archiveReport fun l hl => ?_
  obtain ⟨p, heq, hfile⟩ := forall_fileAt_of_writeEntries hready.rooted.directory hpages l hl
  exact ⟨p, heq, ((hfile.grown hrecord).grown hextracted).grown hend⟩

/-- **What is reported is there, and counted as often as it is written.**  A page reports different
files exactly if no fragment is written twice, or where the page itself goes; the count of an
archive is that of its files exactly if this holds of its pages, and no two of them report the same
file. -/
theorem reported_files (o : PageOptions) (w : Workplace) (hdirectory : w.disk.Solid w.directory) :
    (∀ (output : Location) (folder : Option Location) (document : Value) (page : Page)
      (w' : Workplace), (∀ p target, w.disk.at? p ≠ some (.link target)) →
      writePage o output folder document w = (.ok page, w') →
        PageReport o w w' output (folder.getD output.parent) document page) ∧
    ∀ (limits : ArchiveOptions) (archive : Location) (output references : Value) (c : Converted)
      (w' : Workplace), convertArchive o limits archive output references w = (.ok c, w') →
        ArchiveReport w' c.pages :=
  ⟨fun _ _ _ _ _ hlink h => report_of_writePage hdirectory hlink h,
    fun _ _ _ _ _ _ h => report_of_convertArchive hdirectory h⟩

/-! ### A fragment that is included twice -/

/-- A page that includes an empty fragment twice. -/
def twiceRoot : Entries Value :=
  Convert.rootOf [Convert.directiveValue "include" "/a.rst" [],
    Convert.directiveValue "include" "/a.rst" []]

/-- The page itself. -/
def twiceTree : Node :=
  .root [.imports "import A from './a.mdx';", .flowComponent "A" [] [], .flowComponent "A" [] []]

theorem at?_folderWith_ne_link :
    ∀ p target, (folderWith []).disk.at? p ≠ some (.link target) :=
  Disk.at?_ne_link (by simp [folderWith])

theorem solid_folderWith : (folderWith []).disk.Solid ["s"] := by
  refine (Disk.solid_root _).founded_concat (by decide) |>.solid rfl

/-- The fragment is written, and then written again. -/
theorem deliveries_twice :
    Deliveries {} ⟨0, []⟩ (folderWith []) [("a.mdx", .root []), ("a.mdx", .root [])]
      [(.ofPlace ["s", "a.mdx"], .root []), (.ofPlace ["s", "a.mdx"], .root [])]
      (folderWith [("a.mdx", [])]) := by
  have hrender : Mdx.render {} (.root []) = .ok "" := rfl
  have hfind : (folderWith []).disk.find ["s"] (.ofPlace ["s", "a.mdx"]) = .ok ["s", "a.mdx"] :=
    find_folderWith 1 (by decide) rfl _ (.inl ⟨rfl, rfl⟩)
  have hwrite : writeText (.ofPlace ["s", "a.mdx"]) "" (folderWith []) =
      (.ok (), folderWith [("a.mdx", [])]) :=
    writeText_of_find (List.cons_ne_nil _ _) hfind (.inl rfl) ""
  have hfirst : Delivery {} ⟨0, []⟩ "a.mdx" (.root []) (folderWith [])
      [(.ofPlace ["s", "a.mdx"], .root [])] (folderWith [("a.mdx", [])]) :=
    .written safePlace_folderWith hrender hwrite
  have hgrown := hfirst.wrote solid_folderWith
  have hagain : writeText (.ofPlace ["s", "a.mdx"]) "" (folderWith [("a.mdx", [])]) =
      (.ok (), folderWith [("a.mdx", [])]) :=
    writeText_of_find (List.cons_ne_nil _ _) (Disk.find_grown hgrown.disk hfind) (.inr ⟨[], rfl⟩) ""
  exact .cons hfirst
    (.cons (.written (hgrown.safePlace_eq.trans safePlace_folderWith) hrender hagain) (.nil _))

set_option maxRecDepth 100000 in
theorem convertPage_twice :
    ∃ s, Convert.convertPage ⟨{}, some .recording⟩ "index.mdx" twiceRoot [] = (.ok twiceTree, s) ∧
      s.emitter = [("a.mdx", .root []), ("a.mdx", .root [])] := by
  have hdraft : (Convert.Draft.page "index.mdx" twiceRoot).Faultless {} := by rfl
  have htree : (Convert.Draft.page "index.mdx" twiceRoot).tree {} = twiceTree := by rfl
  obtain ⟨s, hs, -, hemitter⟩ := Convert.convertPage_of_faultless ⟨{}, some .recording⟩ hdraft []
  refine ⟨s, hs.trans (by rw [htree]), ?_⟩
  rw [hemitter, Convert.foldl_deliver_recording]
  rfl

/-- The page names the file of the fragment twice. -/
theorem writePage_twice :
    ∃ page w', writePage {} ⟨0, ["index.mdx"]⟩ none (.obj twiceRoot) (folderWith []) =
        (.ok page, w') ∧
      page.written =
        [.ofPlace ["s", "a.mdx"], .ofPlace ["s", "a.mdx"], ⟨0, ["index.mdx"]⟩] := by
  obtain ⟨s, hconvert, hemitter⟩ := convertPage_twice
  have hpath : Path.toPosix (Disk.relativePath ["s"] ⟨0, ["index.mdx"]⟩ ⟨0, []⟩) = "index.mdx" := by
    cbv
  have hrender : Mdx.render {} twiceTree =
      .ok "import A from './a.mdx';\n\n<A />\n\n<A />\n" := by rfl
  have hfind : (folderWith [("a.mdx", [])]).disk.find ["s"] ⟨0, ["index.mdx"]⟩ =
      .ok ["s", "index.mdx"] :=
    find_folderWith 0 (by decide) rfl _ (.inr ⟨rfl, rfl⟩)
  have hwritable : (folderWith [("a.mdx", [])]).Writable ⟨0, ["index.mdx"]⟩ :=
    ⟨_, _, Disk.makeFolders_of_isFolder (Disk.isFolder_parent hfind (List.cons_ne_nil _ _)), hfind,
      .inl rfl⟩
  have hpage : Convert.convertPage ⟨{}, some .recording⟩ (Path.toPosix
      (Disk.relativePath (folderWith []).directory ⟨0, ["index.mdx"]⟩ ⟨0, []⟩)) twiceRoot [] =
        (.ok twiceTree, s) :=
    (congrArg (Convert.convertPage _ · twiceRoot []) hpath).trans hconvert
  have hsource : Archive.unwrap (.obj twiceRoot) = .ok twiceRoot := by rfl
  obtain ⟨page, w', hrun, -, hwritten⟩ := exists_writePage {} none hsource hpage
    (hemitter ▸ deliveries_twice) hrender hwritable
  exact ⟨page, w', hrun, hwritten⟩

/-- The reports of that page and of an archive. -/
theorem reported_files_twice :
    (∃ page w', writePage {} ⟨0, ["index.mdx"]⟩ none (.obj twiceRoot) (folderWith []) =
        (.ok page, w') ∧
      PageReport {} (folderWith []) w' ⟨0, ["index.mdx"]⟩ ⟨0, []⟩ (.obj twiceRoot) page) ∧
    ∃ c w', convertArchive {} {} ⟨0, ["s.zip"]⟩ .null .null (archived pageAndAsset) = (.ok c, w') ∧
      c.pages = [emptyPage] ∧ ArchiveReport w' c.pages := by
  obtain ⟨page, w', hrun, -⟩ := writePage_twice
  obtain ⟨-, w'', harchive, -⟩ := convertArchive_archived
  have hpage := (reported_files {} (folderWith []) solid_folderWith).1 _ _ _ _ _
    at?_folderWith_ne_link hrun
  have hreport := (reported_files {} (archived pageAndAsset) (Disk.solid_root _)).2 _ _ _ _ _ _
    harchive
  exact ⟨⟨page, w', hrun, hpage⟩, _, w'', harchive, rfl, hreport⟩

/-- **A page that includes a fragment twice reports its file twice.** -/
theorem fragment_reported_twice :
    ∃ page w', writePage {} ⟨0, ["index.mdx"]⟩ none (.obj twiceRoot) (folderWith []) =
        (.ok page, w') ∧
      (∀ p target, (folderWith []).disk.at? p ≠ some (.link target)) ∧
      page.written =
        [.ofPlace ["s", "a.mdx"], .ofPlace ["s", "a.mdx"], ⟨0, ["index.mdx"]⟩] ∧
      ¬ page.written.Nodup := by
  obtain ⟨page, w', hrun, hwritten⟩ := writePage_twice
  refine ⟨page, w', hrun, at?_folderWith_ne_link, hwritten, ?_⟩
  rw [hwritten]
  decide

end Site

end MdxPages
