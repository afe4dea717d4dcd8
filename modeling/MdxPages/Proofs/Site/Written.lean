import MdxPages.Proofs.Site.Output

/-!
# Proofs/Site/Written — the files that a page names

A page names the files that were written for it, its fragments among them.  Nothing else has changed
then but for new folders (`wrote_writePage`), and so it is with the pages of an archive
(`wrote_writeEntries`).  A fragment that was refused has left no more than new folders
(`writes_writeFragment`).
-/

namespace MdxPages

/-- A place where nothing stands, or where one of some files is. -/
def Disk.FreeOr (d : Disk) (files : List Location) (p : Place) : Prop :=
  d.at? p = none ∨ Location.ofPlace p ∈ files

namespace Work

variable {w w' w'' : Workplace} {place : Place} {l : Location} {files files' : List Location}

/-- A workplace in which files have been written, and folders made. -/
abbrev Wrote (files : List Location) (w w' : Workplace) : Prop :=
  w.Grown (w.disk.FreeOr files) w'

/-- What has been written are some of more files. -/
theorem Wrote.mono (h : Wrote files w w') (hfiles : files ⊆ files') : Wrote files' w w' :=
  ⟨h.directory, h.disk.mono fun _ hp => hp.imp_right fun hmem => hfiles hmem⟩

/-- Files written one after the other. -/
theorem Wrote.trans (h : Wrote files w w') (h' : Wrote files' w' w'') :
    Wrote (files ++ files') w w'' := by
  refine Workplace.Grown.trans (h.mono (List.subset_append_left _ _)) ⟨h'.directory, ?_⟩
  refine h'.disk.mono fun p hp => ?_
  obtain hfree | hmem := hp
  · exact .inl (h.disk.kept hfree)
  · exact .inr (List.mem_append_right _ hmem)

/-- Work that leaves the disk alone may follow. -/
theorem Wrote.still (h : Wrote files w w') (h' : w'.Grown (fun _ => False) w'') :
    Wrote files w w'' :=
  Workplace.Grown.trans h ⟨h'.directory, h'.disk.mono fun _ => False.elim⟩

/-- What stood at a place that none of the files is at stands there still. -/
theorem Wrote.at?_eq (h : Wrote files w w') {item : Item} (hitem : w.disk.at? place = some item)
    (hplace : Location.ofPlace place ∉ files) : w'.disk.at? place = some item := by
  rw [h.disk.same place, hitem]
  rintro (hfree | hmem)
  · rw [hitem] at hfree
    cases hfree
  · exact hplace hmem

/-- A file that is not written over reads as before. -/
theorem Wrote.read_eq {bytes : List UInt8} (h : Wrote files w w')
    (hread : w.disk.read w.directory l = .ok bytes)
    (hl : ∀ place, w.disk.find w.directory l = .ok place → Location.ofPlace place ∉ files) :
    w'.disk.read w'.directory l = .ok bytes := by
  obtain ⟨place, hfind, hfile⟩ := Disk.read_eq_ok_iff.1 hread
  rw [h.directory, Disk.read_eq_ok_iff]
  exact ⟨place, Disk.find_grown h.disk hfind, h.at?_eq hfile (hl place hfind)⟩

/-- The files that a result names, none if there is no result. -/
def filesOf {α : Type} (files : α → List Location) : Except Failure α → List Location
  | .ok a => files a
  | .error _ => []

/-- Work that has failed to write a text has made no more than new folders. -/
theorem wrote_of_writeText_eq_error (hdirectory : w.disk.Solid w.directory) {text : String}
    {f : Failure} (h : writeText l text w = (.error f, w')) : Wrote [] w w' := by
  have hfolders : Wrote [] w (makeFolders l.parent w).2 :=
    ⟨rfl, (Disk.grown_makeFolders hdirectory l.parent).mono fun p hp => .inl hp.before⟩
  rw [writeText, reportingAs, bind_apply] at h
  cases hmade : makeFolders l.parent w with
  | mk result w₁ =>
    rw [hmade] at h hfolders
    cases result with
    | error g =>
      cases g <;> exact (Prod.mk.inj h).2 ▸ hfolders
    | ok made =>
      dsimp only at h
      cases hwrite : w₁.disk.write w₁.directory l (Bytes.ofText text) with
      | ok d =>
        rw [change_apply hwrite] at h
        cases h
      | error fault =>
        have hfailed : Work.change (fun d directory => d.write directory l (Bytes.ofText text)) w₁ =
            (.error (.fault fault), w₁) := by
          rw [Work.change, bind_apply, ask_apply, liftFault_apply, hwrite]
          rfl
        rw [hfailed] at h
        exact (Prod.mk.inj h).2 ▸ hfolders

/-- **A text that is written changes its file**, and one that is refused none. -/
theorem writes_writeText (hdirectory : w.disk.Solid w.directory) (hplace : w.disk.Straight place)
    (text : String) :
    Wrote (filesOf (fun _ => [.ofPlace place]) (writeText (.ofPlace place) text w).1) w
      (writeText (.ofPlace place) text w).2 := by
  have hchanges := changes_writeText hdirectory (.ofPlace place) text
  cases h : writeText (.ofPlace place) text w with
  | mk result w' =>
    cases result with
    | error f => exact wrote_of_writeText_eq_error hdirectory h
    | ok _ =>
      rw [Changes, h] at hchanges
      refine ⟨hchanges.directory, hchanges.disk.mono fun p hp => ?_⟩
      obtain hfind | hmade := hp
      · obtain rfl := Disk.find_ofPlace (hplace.grown hchanges.disk) hfind
        exact .inr List.mem_cons_self
      · exact .inl hmade.before

end Work

namespace Site

open Work

variable {w w' : Workplace} {root place : Place} {output : Location}

/-- A tree that is written changes its file, and one that is not changes none. -/
theorem writes_writeTree (hdirectory : w.disk.Solid w.directory) (hplace : w.disk.Straight place)
    (rendering : RenderOptions) (tree : Node) :
    Wrote (filesOf (fun _ => [.ofPlace place]) (writeTree rendering (.ofPlace place) tree w).1) w
      (writeTree rendering (.ofPlace place) tree w).2 := by
  rw [writeTree, bind_apply, liftFault_apply]
  cases Mdx.render rendering tree with
  | error f => exact .refl _ w
  | ok text => exact writes_writeText hdirectory hplace text

/-- **A fragment that is written changes its file**, and one that is refused none. -/
theorem writes_writeFragment (hdirectory : w.disk.Solid w.directory) (rendering : RenderOptions)
    (root : Location) (path : String) (tree : Node) :
    Wrote (filesOf (fun target => [target]) (writeFragment rendering root path tree w).1) w
      (writeFragment rendering root path tree w).2 := by
  rw [writeFragment, bind_of_ok (get_apply w)]
  cases hsafe : Archive.safePlace w.disk w.directory root path with
  | error f => exact .refl _ w
  | ok place =>
    obtain ⟨_, -, -, hplace⟩ := Archive.exists_of_safePlace hdirectory.straight hsafe
    have hlift : Work.lift (.ok place) w = (.ok place, w) := rfl
    have hwrote := writes_writeTree hdirectory hplace rendering tree
    rw [bind_of_ok hlift, bind_apply]
    cases h : writeTree rendering (.ofPlace place) tree w with
    | mk result w' =>
      rw [h] at hwrote
      cases result <;> exact hwrote

/-! ## Pages

While a page is converted, the files that it will name grow with each fragment that is written. -/

/-- Emitting a fragment adds its file to those that have been written, unless it is refused. -/
theorem wrote_emitFragment (rendering : RenderOptions) (root : Location) (path : String)
    (tree : Node) {kept : Fragments} (hdirectory : w.disk.Solid w.directory)
    (hkept : Wrote kept.written w kept.workplace) :
    let kept' := (emitFragment rendering root path tree kept).2
    Wrote kept'.written w kept'.workplace := by
  have hfragment := writes_writeFragment (hkept.directory ▸ hdirectory.grown hkept.disk) rendering
    root path tree
  have hboth := hkept.trans hfragment
  dsimp only
  rw [emitFragment_workplace]
  refine ⟨hboth.directory, ?_⟩
  unfold emitFragment
  cases h : writeFragment rendering root path tree kept.workplace with
  | mk result w' =>
    rw [h] at hboth
    cases result with
    | ok target => exact hboth.disk
    | error f =>
      have hsame : Wrote kept.written w w' := hboth.mono (by simp [filesOf])
      dsimp only
      split <;> exact hsame.disk

/-- **Converting a page writes the fragments that it keeps.** -/
theorem wrote_convertTree (hdirectory : w.disk.Solid w.directory) {o : PageOptions}
    {root : Location} {path : String} {source : Entries Value} {tree : Node}
    {fragments : Fragments}
    (h : convertTree o root path source w = (.ok (tree, fragments), w')) :
    Wrote fragments.written w w' := by
  have hkept := preserved_by_convertPage (I := fun kept => Wrote kept.written w kept.workplace)
    ⟨o.conversion, some (emitFragment o.rendering root)⟩
    (fun emission kept hkept => wrote_emitFragment o.rendering root _ _ hdirectory hkept)
    path source { workplace := { w with log := [] } } ⟨rfl, .refl _ _⟩
  unfold convertTree at h
  dsimp only at h
  split at h
  · obtain ⟨hok, rfl⟩ := Prod.mk.inj h
    obtain ⟨-, rfl⟩ := Prod.mk.inj (Except.ok.inj hok)
    exact ⟨hkept.directory, hkept.disk⟩
  · cases h

/-- **A page that has come out names the files that were written for it.** -/
theorem wrote_writePage (hdirectory : w.disk.Solid w.directory) (hplace : w.disk.Straight place)
    {o : PageOptions} {folder : Option Location} {document : Value} {page : Page}
    (h : writePage o (.ofPlace place) folder document w = (.ok page, w')) :
    Wrote page.written w w' := by
  obtain ⟨source, w₁, hsource, h⟩ := exists_of_bind_eq_ok h
  obtain ⟨-, rfl⟩ := lift_eq_ok_iff.1 hsource
  obtain ⟨_, _, hget, h⟩ := exists_of_bind_eq_ok h
  obtain ⟨-, rfl⟩ := Prod.mk.inj hget
  obtain ⟨⟨tree, fragments⟩, w₂, hconvert, h⟩ := exists_of_bind_eq_ok h
  obtain ⟨_, w₃, hrecord, h⟩ := exists_of_bind_eq_ok h
  obtain ⟨_, w₄, hproblems, h⟩ := exists_of_bind_eq_ok h
  obtain ⟨_, w₅, hwrite, h⟩ := exists_of_bind_eq_ok h
  obtain ⟨_, w₆, hadd, h⟩ := exists_of_bind_eq_ok h
  obtain ⟨_, w₇, hrecord', h⟩ := exists_of_bind_eq_ok h
  obtain ⟨hok, rfl⟩ := Prod.mk.inj h
  obtain rfl := Except.ok.inj hok
  have hconverted : Wrote fragments.written w w₃ :=
    (wrote_convertTree hdirectory hconvert).still ((OnlyRecords.record _ _ _).grown_empty hrecord)
  have hfragments : Wrote fragments.written w w₄ :=
    hconverted.still ((onlyRecords_reportProblems _ _).grown_empty hproblems)
  have hpage := writes_writeTree (hfragments.directory ▸ hdirectory.grown hfragments.disk)
    (hplace.grown hfragments.disk) o.rendering tree
  rw [hwrite] at hpage
  obtain ⟨-, rfl⟩ := Prod.mk.inj hadd
  obtain ⟨-, rfl⟩ := Prod.mk.inj hrecord'
  have hboth := hfragments.trans hpage
  exact ⟨hboth.directory, hboth.disk⟩

/-- The files written for pages. -/
def writtenFor (pages : List Page) : List Location :=
  pages.flatMap Page.written

/-- The page of a document changes the files that it names. -/
theorem wrote_writeDocument (hdirectory : w.disk.Solid w.directory) {o : PageOptions}
    {document : Archive.Document} {page : Option Page}
    (h : writeDocument o output document w = (.ok page, w')) :
    Wrote (writtenFor page.toList) w w' := by
  obtain ⟨_, _, hget, h⟩ := exists_of_bind_eq_ok h
  obtain ⟨hok, rfl⟩ := Prod.mk.inj hget
  obtain rfl := Except.ok.inj hok
  obtain ⟨place, _, hplace, h⟩ := exists_of_bind_eq_ok h
  obtain ⟨hsafe, rfl⟩ := lift_eq_ok_iff.1 hplace
  obtain ⟨_, -, -, hstraight⟩ := Archive.exists_of_safePlace hdirectory.straight hsafe
  cases hroot : Archive.unwrap (.obj document.fields) with
  | error f =>
    simp only [hroot] at h
    obtain ⟨_, w₁, hrecord, h⟩ := exists_of_bind_eq_ok h
    obtain ⟨hok, rfl⟩ := Prod.mk.inj h
    obtain rfl := Except.ok.inj hok
    exact Wrote.still (.refl _ w) ((OnlyRecords.record _ _ _).grown_empty hrecord)
  | ok source =>
    simp only [hroot] at h
    obtain ⟨folder, _, hask, h⟩ := exists_of_bind_eq_ok h
    rw [ask_apply, liftFault_eq_ok_iff] at hask
    obtain ⟨-, rfl⟩ := hask
    obtain ⟨page, w₁, hpage, h⟩ := exists_of_bind_eq_ok h
    obtain ⟨hok, rfl⟩ := Prod.mk.inj h
    obtain rfl := Except.ok.inj hok
    exact (wrote_writePage hdirectory hstraight hpage).mono (by simp [writtenFor])

/-- **The pages of an archive name the files that were written for them.** -/
theorem wrote_writeEntries (hdirectory : w.disk.Solid w.directory) {o : PageOptions}
    {data : List UInt8} {assets named : Entries String} {entries : List Zip.Entry}
    {pages : List Page}
    (h : writeEntries o data output assets entries w = (.ok (pages, named), w')) :
    Wrote (writtenFor pages) w w' := by
  induction entries generalizing w assets pages with
  | nil =>
    obtain ⟨hok, rfl⟩ := Prod.mk.inj h
    exact .refl _ w
  | cons e entries ih =>
    obtain ⟨document, w₁, hread, h⟩ := exists_of_bind_eq_ok h
    have hread' := (onlyRecords_readDocument data e).grown_empty hread
    have hdirectory₁ : w₁.disk.Solid w₁.directory := hread'.directory ▸ hdirectory.grown hread'.disk
    have hread₁ : Wrote [] w w₁ := Wrote.still (.refl _ w) hread'
    cases document with
    | none => exact hread₁.trans (ih hdirectory₁ h)
    | some document =>
      obtain ⟨page, w₂, hpage, h⟩ := exists_of_bind_eq_ok h
      obtain ⟨⟨rest, named'⟩, w₃, hrest, h⟩ := exists_of_bind_eq_ok h
      obtain ⟨hok, rfl⟩ := Prod.mk.inj h
      obtain ⟨rfl, rfl⟩ := Prod.mk.inj (Except.ok.inj hok)
      have hpage' := wrote_writeDocument hdirectory₁ hpage
      have hdirectory₂ := hpage'.directory ▸ hdirectory₁.grown hpage'.disk
      have hall := (hread₁.trans hpage').trans (ih hdirectory₂ hrest)
      exact hall.mono (by simp [writtenFor])

end Site

end MdxPages
