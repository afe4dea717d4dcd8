import MdxPages.Proofs.Convert.Production
import MdxPages.Proofs.Site.Confinement
import MdxPages.Site.ArchiveFile

/-!
# Proofs/Site/Output — where the output of an archive lies

Pages, fragments and assets are written at or below the folder of the output, whatever their names
are and whatever stands on the disk: each name goes through `Archive.safePlace` first, and nothing
that is written changes where the folder lies or makes a link.
-/

namespace MdxPages.Site

open Work

variable {w : Workplace} {root place : Place} {output : Location}

/-! ## Pages

A fragment is written while its page is converted, so what an emission keeps has to be carried
through the conversion. -/

/-- A tree is written at its place below the folder. -/
theorem keeps_writeTree (hw : w.Rooted root) (hle : root <+: place)
    (hplace : w.disk.Straight place) (rendering : RenderOptions) (tree : Node) :
    Keeps root (writeTree rendering (.ofPlace place) tree) w :=
  Keeps.seq (.liftFault _) fun text _ hgrown =>
    keeps_writeText (hw.grown hgrown) hle (hplace.grown hgrown.disk) text

/-- **A fragment is written below the folder**, whatever its path is. -/
theorem keeps_writeFragment (hw : w.Rooted root) (rendering : RenderOptions) (path : String)
    (tree : Node) : Keeps root (writeFragment rendering (.ofPlace root) path tree) w := by
  refine .get ?_
  cases hsafe : Archive.safePlace w.disk w.directory (.ofPlace root) path with
  | error f => exact .still rfl rfl
  | ok place =>
    obtain ⟨folder, hfolder, hle, hplace⟩ :=
      Archive.exists_of_safePlace hw.directory.straight hsafe
    obtain rfl := Disk.resolve_ofPlace hw.root.straight hfolder
    refine Keeps.bind (.lift _) fun place' w' hgrown hlift => ?_
    obtain ⟨hok, rfl⟩ := lift_eq_ok_iff.1 hlift
    obtain rfl := Except.ok.inj hok
    exact (keeps_writeTree hw hle hplace rendering tree).seq fun _ _ _ => .pure _

/-- **What every emission preserves, a conversion preserves** of what its emitter keeps. -/
theorem preserved_by_convertPage {σ : Type} {I : σ → Prop} (run : Convert.Run σ)
    (hdeliver : ∀ emission kept, I kept → I (Convert.deliver run.emitter kept emission))
    (path : String) (source : Entries Value) (kept : σ) (hkept : I kept) :
    I (Convert.convertPage run path source kept).2.emitter := by
  obtain ⟨a, ha⟩ := Convert.exists_page_account run.options path source
  rw [(ha run kept rfl).2.2]
  induction a.emissions generalizing kept with
  | nil => exact hkept
  | cons emission emissions ih => exact ih _ (hdeliver emission kept hkept)

/-- What is kept once a fragment has been emitted: the workplace in which it was written, without
its log. -/
theorem emitFragment_workplace (rendering : RenderOptions) (l : Location) (path : String)
    (tree : Node) (kept : Fragments) :
    (emitFragment rendering l path tree kept).2.workplace =
      { (writeFragment rendering l path tree kept.workplace).2 with log := [] } := by
  unfold emitFragment
  obtain ⟨result, w⟩ := writeFragment rendering l path tree kept.workplace
  cases result with
  | ok target => rfl
  | error f =>
    dsimp only
    split <;> rfl

/-- Converting a tree changes the workplace as its emissions do, and leaves records. -/
theorem convertTree_workplace (o : PageOptions) (l : Location) (path : String)
    (source : Entries Value) (w : Workplace) :
    ∃ log, (convertTree o l path source w).2 =
      { (Convert.convertPage ⟨o.conversion, some (emitFragment o.rendering l)⟩ path source
          { workplace := { w with log := [] } }).2.emitter.workplace with log } := by
  unfold convertTree
  dsimp only
  split <;> exact ⟨_, rfl⟩

/-- **Converting a page writes its fragments below the folder.** -/
theorem keeps_convertTree (hw : w.Rooted root) (o : PageOptions) (path : String)
    (source : Entries Value) : Keeps root (convertTree o (.ofPlace root) path source) w := by
  obtain ⟨log, hworkplace⟩ := convertTree_workplace o (.ofPlace root) path source w
  have hgrown := preserved_by_convertPage (I := fun kept => w.Grown (root <+: ·) kept.workplace)
    ⟨o.conversion, some (emitFragment o.rendering (.ofPlace root))⟩
    (fun emission kept hkept => hkept.trans (by
      have hwritten := keeps_writeFragment (hw.grown hkept) o.rendering emission.1 emission.2
      rw [Convert.deliver, emitFragment_workplace]
      exact ⟨hwritten.directory, hwritten.disk⟩))
    path source { workplace := { w with log := [] } } ⟨rfl, .refl _ _⟩
  rw [Keeps, Changes, hworkplace]
  exact ⟨hgrown.directory, hgrown.disk⟩

theorem onlyRecords_reportProblems (path : String) (problems : List String) :
    OnlyRecords (reportProblems path problems) := by
  induction problems with
  | nil => exact .pure _
  | cons problem problems ih => exact (OnlyRecords.record _ _ _).bind fun _ => ih

/-- **A page is written below the folder**, and its fragments with it. -/
theorem keeps_writePage (hw : w.Rooted root) (hle : root <+: place)
    (hplace : w.disk.Straight place) (o : PageOptions) (document : Value) :
    Keeps root (writePage o (.ofPlace place) (some (.ofPlace root)) document) w := by
  refine Keeps.seq (.lift _) fun source w₁ h₁ => .get ?_
  refine (keeps_convertTree (hw.grown h₁) o _ source).seq fun (tree, fragments) w₂ h₂ => ?_
  refine Keeps.seq (.record _ _ _) fun _ w₃ h₃ => ?_
  refine Keeps.seq (onlyRecords_reportProblems _ _).changes fun _ w₄ h₄ => ?_
  have hgrown := ((h₁.trans h₂).trans h₃).trans h₄
  have hpage := keeps_writeTree (hw.grown hgrown) hle (hplace.grown hgrown.disk) o.rendering tree
  refine hpage.seq fun _ w₅ h₅ => ?_
  refine Keeps.seq (.still rfl rfl) fun _ w₆ h₆ => ?_
  exact Keeps.seq (.record _ _ _) fun _ _ _ => .pure _

/-! ## Documents -/

/-- **The page of a document is written below the folder**, whatever the path of its entry is. -/
theorem keeps_writeDocument (hw : w.Rooted root)
    (hroot : w.disk.resolve w.directory output = .ok root) (o : PageOptions)
    (document : Archive.Document) : Keeps root (writeDocument o output document) w := by
  refine .get ?_
  cases hsafe : Archive.safePlace w.disk w.directory output document.outputPath with
  | error f => exact .still rfl rfl
  | ok place =>
    obtain ⟨folder, hfolder, hle, hplace⟩ :=
      Archive.exists_of_safePlace hw.directory.straight hsafe
    obtain rfl : root = folder := Except.ok.inj (hroot.symm.trans hfolder)
    refine Keeps.bind (.lift _) fun place' w' hgrown hlift => ?_
    obtain ⟨hok, rfl⟩ := lift_eq_ok_iff.1 hlift
    obtain rfl := Except.ok.inj hok
    split
    · exact Keeps.seq (.record _ _ _) fun _ _ _ => .pure _
    · next source _ =>
      refine Keeps.bind (.ask _) fun folder w' hgrown hask => ?_
      rw [ask_apply, liftFault_eq_ok_iff, hroot] at hask
      obtain ⟨hok, rfl⟩ := hask
      obtain rfl := Except.ok.inj hok
      exact (keeps_writePage hw hle hplace o _).seq fun _ _ _ => .pure _

theorem onlyRecords_pageDocument (name : String) (documents : List Value) :
    OnlyRecords (Archive.pageDocument name documents) := by
  cases documents with
  | nil => exact .pure _
  | cons first more =>
    unfold Archive.pageDocument
    refine .ite (OnlyRecords.bind (.record _ _ _) fun _ => ?_) ?_
    all_goals
      split
      · exact OnlyRecords.bind (.liftFault _) fun _ => .pure _
      · exact OnlyRecords.bind (.record _ _ _) fun _ => .pure _

/-- Reading a document leaves no more than records, and depends on the archive alone. -/
theorem onlyRecords_readDocument (data : List UInt8) (e : Zip.Entry) :
    OnlyRecords (Archive.readDocument data e) := by
  refine OnlyRecords.bind (.liftFault _) fun isFolder => .ite (.pure _) (.ite ?_ (.ite ?_ ?_))
  · exact OnlyRecords.bind (.record _ _ _) fun _ => .pure _
  · exact OnlyRecords.bind (.liftFault _) fun _ => OnlyRecords.bind (.lift _) fun _ =>
      onlyRecords_pageDocument _ _
  · exact .ite (OnlyRecords.bind (.liftFault _) fun _ => OnlyRecords.bind (.lift _) fun _ =>
      onlyRecords_pageDocument _ _) (.pure _)

/-- **The pages of all entries are written below the folder.** -/
theorem keeps_writeEntries (hw : w.Rooted root)
    (hroot : w.disk.resolve w.directory output = .ok root) (o : PageOptions) (data : List UInt8)
    (assets : Entries String) (entries : List Zip.Entry) :
    Keeps root (writeEntries o data output assets entries) w := by
  induction entries generalizing w assets with
  | nil => exact .pure _
  | cons e entries ih =>
    refine Keeps.seq (onlyRecords_readDocument data e).changes fun document w₁ h₁ => ?_
    have hw₁ := hw.grown h₁
    have hroot₁ := h₁.resolve_eq.trans hroot
    cases document with
    | none => exact ih hw₁ hroot₁ assets
    | some document =>
      refine (keeps_writeDocument hw₁ hroot₁ o document).seq fun page w₂ h₂ => ?_
      exact (ih (hw₁.grown h₂) (h₂.resolve_eq.trans hroot₁) _).seq fun _ _ _ => .pure _

/-! ## Assets

The key of an asset is a name of the archive too, and goes through the same check. -/

/-- **An asset is extracted below the folder**, whatever its key is. -/
theorem keeps_extractAsset (hw : w.Rooted root)
    (hroot : w.disk.resolve w.directory output = .ok root) (data : List UInt8)
    (assets : Entries String) (seen : List String) (e : Zip.Entry) :
    Keeps root (Archive.extractAsset data output assets seen e) w := by
  refine Keeps.seq (.liftFault _) fun isFolder w' h' => .ite (fun _ => .pure _) fun _ => .get ?_
  have hw' := hw.grown h'
  have hroot' := h'.resolve_eq.trans hroot
  split
  · exact .ite (fun _ => Keeps.seq (.record _ _ _) fun _ _ _ => .pure _) fun _ => .still rfl rfl
  · next place hsafe =>
    obtain ⟨folder, hfolder, hle, hplace⟩ :=
      Archive.exists_of_safePlace hw'.directory.straight hsafe
    obtain rfl : root = folder := Except.ok.inj (hroot'.symm.trans hfolder)
    refine (keeps_makeFolders hw' hle hplace).seq fun _ w₁ h₁ => ?_
    refine Keeps.seq (.liftFault _) fun bytes w₂ h₂ => ?_
    have h := h₁.trans h₂
    refine (keeps_write (hw'.grown h) hle (hplace.grown h.disk)).seq fun _ _ _ => ?_
    exact Keeps.seq (.record _ _ _) fun _ _ _ => .pure _

/-- Assets are extracted one by one below the folder. -/
theorem keeps_extractFrom (hw : w.Rooted root)
    (hroot : w.disk.resolve w.directory output = .ok root) (data : List UInt8)
    (assets : Entries String) (seen : List String) (entries : List Zip.Entry) :
    Keeps root (Archive.extractFrom data output assets seen entries) w := by
  induction entries generalizing w seen with
  | nil => exact .pure _
  | cons e entries ih =>
    refine (keeps_extractAsset hw hroot data assets seen e).seq fun extracted w₁ h₁ => ?_
    have hw₁ := hw.grown h₁
    have hroot₁ := h₁.resolve_eq.trans hroot
    cases extracted with
    | none => exact ih hw₁ hroot₁ seen
    | some asset => exact (ih hw₁ hroot₁ _).seq fun _ _ _ => .pure _

/-- **All assets are extracted below the folder.** -/
theorem keeps_writeAssets (hw : w.Rooted root)
    (hroot : w.disk.resolve w.directory output = .ok root) (o : ArchiveOptions)
    (archive : Location) (assets : Entries String) :
    Keeps root (writeAssets o archive output assets) w := by
  refine .ite (fun _ => ?_) fun _ => .pure _
  have hextract : Keeps root (Archive.extractAssets archive output assets) w := by
    refine Keeps.seq (.ask _) fun data w₁ h₁ => Keeps.seq (.liftFault _) fun entries w₂ h₂ => ?_
    have h := h₁.trans h₂
    exact keeps_extractFrom (hw.grown h) (h.resolve_eq.trans hroot) data assets [] entries
  exact hextract.seq fun _ _ _ => Keeps.seq (.record _ _ _) fun _ _ _ => .pure _

end MdxPages.Site
