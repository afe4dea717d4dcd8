import Mathlib
import MdxPages.Proofs.Results
import MdxPages.Proofs.Site.Output
import MdxPages.Proofs.Site.Registry
import MdxPages.Proofs.Site.Written

/-!
# Proofs/Site/ArchiveFile — what converting an archive changes

Nothing outside the folder of the output is touched but that folder itself, where it has to be made,
and the module of references (`convertArchive_changes`).  Names of entries, paths of inclusions and
keys of assets have no say in it, nor do links on the disk, nor does it matter how the run ends.
-/

namespace MdxPages.Site

open Work Archive

variable {w w' : Workplace} {folder : Location} {references : Value} {directory root p : Place}

/-- The folder of the output, which is named after the archive where nothing else is said. -/
def folderOf (archive : Location) : Value → Except Fault Location
  | .null => .ok (.ofString archive.stem)
  | v => locationOf v

/-- The location of the module of references, which is in the folder of the output where nothing
else is said. -/
def moduleOf (folder : Location) (references : Value) : Except Fault Location :=
  locationOr references (folder.join (.ofString Registry.fileName))

/-- A place that converting an archive may change. -/
inductive Touched (directory : Place) (folder : Location) (references : Value) (d d' : Disk)
    (p : Place) : Prop
  /-- At or below the place that the folder of the output stands for. -/
  | output {root : Place} (hroot : d.resolve directory folder = .ok root) (hle : root <+: p)
  /-- A new folder on the way to the folder of the output, or that folder itself. -/
  | above (h : d.MadeFor d' directory folder p)
  /-- The module of references, or a new folder on the way to it. -/
  | module {l : Location} (hl : moduleOf folder references = .ok l)
    (h : WrittenTo directory l d d' p)

/-- What may be touched is the same before and after a change that touches nothing else. -/
theorem lasting_touched (directory : Place) (folder : Location) (references : Value) :
    Lasting (Touched directory folder references) where
  later hp hd := by
    cases hp with
    | output hroot hle => exact .output hroot hle
    | above h => exact .above (h.later hd)
    | module hl h => exact .module hl ((lasting_writtenTo _ _).later h hd)
  earlier hd hp := by
    cases hp with
    | output hroot hle => exact .output (hd.resolve_eq ▸ hroot) hle
    | above h => exact .above (h.earlier hd)
    | module hl h => exact .module hl ((lasting_writtenTo _ _).earlier hd h)

/-! ## The steps of a run

Each step is given the folder of the output as it is on the disk, and leaves it so for the next one.
-/

/-- **Persisting the registry writes one file.** -/
theorem changes_persist (hdirectory : w.disk.Solid w.directory) (l : Location) :
    Changes (WrittenTo w.directory l) (Registry.persist l) w := by
  have hlasting := lasting_writtenTo w.directory l
  have hread : Changes (WrittenTo w.directory l) (Registry.readExisting l) w := by
    obtain ⟨log, hread⟩ := Registry.readExisting_apply l w
    exact .still (by rw [hread]) (by rw [hread])
  refine hread.bind hlasting fun old w₁ h₁ _ => .get ?_
  have hwrite := changes_writeText (h₁.directory ▸ hdirectory.grown h₁.disk) l
    (References.render (old.merge w₁.registry))
  rw [h₁.directory] at hwrite
  exact hwrite.bind hlasting fun _ w₂ h₂ _ => Changes.bind hlasting (.record _ _ _) fun _ _ _ _ =>
    .pure _

/-- Where the folder of the output is made, it is a folder that work can keep to. -/
theorem rooted_of_makeFolders (hdirectory : w.disk.Solid w.directory)
    (h : makeFolders folder w = (.ok (), w')) :
    ∃ root, w'.Rooted root ∧ w'.disk.resolve w'.directory folder = .ok root := by
  have hgrown := Disk.grown_makeFolders hdirectory folder
  rw [makeFolders_apply] at h
  cases hmade : w.disk.makeFolders w.directory folder with
  | mk result d =>
    rw [hmade] at h hgrown
    obtain ⟨hok, rfl⟩ := Prod.mk.inj h
    cases result with
    | error f => cases hok
    | ok =>
      obtain ⟨root, hfind, hfolder⟩ :=
        Disk.isFolder_iff.1 (Disk.isFolder_makeFolders hdirectory hmade)
      have hdirectory' := hdirectory.grown hgrown
      exact ⟨root, ⟨hdirectory', (Disk.founded_of_find hdirectory' hfind).solid hfolder⟩,
        Disk.resolve_of_find hfind⟩

/-- What all steps of a run rely on once the folder of the output is made. -/
structure Ready (directory : Place) (folder : Location) (root : Place) (w : Workplace) : Prop where
  directory : w.directory = directory
  rooted : w.Rooted root
  resolve : w.disk.resolve w.directory folder = .ok root

/-- A run that is ready stays so while files are written. -/
theorem Ready.grown {P : Place → Prop} (h : Ready directory folder root w) (hw : w.Grown P w') :
    Ready directory folder root w' :=
  ⟨hw.directory.trans h.directory, h.rooted.grown hw, hw.resolve_eq.trans h.resolve⟩

/-- Work that keeps to the folder of the output touches nothing else. -/
theorem Ready.changes {α : Type} {x : Work α} (h : Ready directory folder root w)
    (hx : Keeps root x w) : Changes (Touched directory folder references) x w :=
  hx.mono fun _ hp => .output (h.directory ▸ h.resolve) hp

/-- A valid archive is opened. -/
theorem openArchive_of_read {limits : ArchiveOptions} {archive : Location} {data : List UInt8}
    {entries : List Zip.Entry}
    (hread : w.disk.read w.directory archive = .ok data)
    (hvalid : validate limits (.ok data) = .ok entries) :
    openArchive limits archive w = (.ok (data, entries), w) := by
  rw [openArchive, bind_of_ok (get_apply w), hread, bind_of_ok (lift_eq_ok_iff.2 ⟨hvalid, rfl⟩)]
  rfl

/-- **Whatever an archive holds, converting it touches its output and the module of references.** -/
theorem changes_convertArchive {output : Value} {archive : Location}
    (hdirectory : w.disk.Solid w.directory) (hfolder : folderOf archive output = .ok folder)
    (o : PageOptions) (limits : ArchiveOptions) (references : Value) :
    Changes (Touched w.directory folder references)
      (convertArchive o limits archive output references) w := by
  have hlasting := lasting_touched w.directory folder references
  refine Changes.bind hlasting (.ask _) fun there w₀ h₀ _ => ?_
  refine .ite (fun _ => .still rfl rfl) fun _ => ?_
  refine Changes.bind hlasting (.liftFault _) fun output' w₁ h₁ hlift => ?_
  obtain ⟨houtput, rfl⟩ := liftFault_eq_ok_iff.1 hlift
  obtain rfl : folder = output' := Except.ok.inj (hfolder.symm.trans houtput)
  have hdirectory₀ : w₀.disk.Solid w₀.directory := h₀.directory ▸ hdirectory.grown h₀.disk
  have hfolders : Changes (Touched w.directory folder references) (makeFolders folder) w₀ :=
    ⟨rfl, (Disk.grown_makeFolders hdirectory₀ folder).mono fun p hp => .above (h₀.directory ▸ hp)⟩
  refine hfolders.bind hlasting fun _ w₂ h₂ hmade => ?_
  obtain ⟨root, hrooted, hresolve⟩ := rooted_of_makeFolders hdirectory₀ hmade
  have hready : Ready w.directory folder root w₂ :=
    ⟨h₂.directory.trans h₀.directory, hrooted, hresolve⟩
  refine Changes.bind hlasting (.still rfl rfl) fun _ w₃ h₃ _ => ?_
  have hopen : Changes (Touched w.directory folder references)
      (openArchive limits archive) w₃ :=
    .get (.bind hlasting (.lift _) fun _ _ _ _ => .pure _)
  refine hopen.bind hlasting fun (data, entries) w₄ h₄ _ => ?_
  have hready₄ := (hready.grown h₃).grown h₄
  have hpages := keeps_writeEntries hready₄.rooted hready₄.resolve o data [] entries
  refine (hready₄.changes hpages).bind hlasting fun (pages, named) w₅ h₅ _ => ?_
  refine Changes.bind hlasting (.record _ _ _) fun _ w₆ h₆ _ => ?_
  have hready₆ := (hready₄.grown h₅).grown h₆
  have hassets := keeps_writeAssets hready₆.rooted hready₆.resolve limits archive named
  refine (hready₆.changes hassets).bind hlasting fun assets w₇ h₇ _ => ?_
  refine Changes.bind hlasting (.liftFault _) fun l w₈ h₈ hlift => ?_
  obtain ⟨hl, rfl⟩ := liftFault_eq_ok_iff.1 hlift
  have hready₇ := hready₆.grown h₇
  have hpersist : Changes (Touched w.directory folder references) (Registry.persist l) w₇ :=
    (changes_persist hready₇.rooted.directory l).mono fun p hp =>
      .module hl (hready₇.directory ▸ hp)
  refine hpersist.bind hlasting fun _ w₈ _ _ => ?_
  exact Changes.bind hlasting (.record _ _ _) fun _ _ _ _ => .pure _

/-- A run that does not know its output changes nothing. -/
theorem unchanged_of_folderOf {output : Value} {archive : Location} {f : Fault}
    (hfolder : folderOf archive output = .error f) (o : PageOptions) (limits : ArchiveOptions)
    (references : Value) :
    Changes (fun _ _ _ => False) (convertArchive o limits archive output references) w := by
  have hlasting : Lasting fun _ _ _ => False := ⟨fun hp _ => hp, fun _ hp => hp⟩
  refine Changes.bind hlasting (.ask _) fun there w₀ _ _ => ?_
  refine .ite (fun _ => .still rfl rfl) fun _ => ?_
  refine Changes.bind hlasting (.liftFault _) fun output' w₁ _ hlift => ?_
  obtain ⟨houtput, -⟩ := liftFault_eq_ok_iff.1 hlift
  cases hfolder.symm.trans houtput

/-- **The output of an archive stays inside its folder.**  Whatever the archive holds, whatever
stands on the disk and however the run ends, a place that it changes lies at or below the folder of
the output, or is that folder or one above it and was missing, or belongs to the module of
references.  Only the working directory has to be there, reached through folders. -/
theorem convertArchive_changes (hdirectory : w.disk.Solid w.directory) (o : PageOptions)
    (limits : ArchiveOptions) (archive : Location) (output references : Value) (p : Place)
    (hp : (convertArchive o limits archive output references w).2.disk.at? p ≠ w.disk.at? p) :
    ∃ folder, folderOf archive output = .ok folder ∧
      Touched w.directory folder references w.disk
        (convertArchive o limits archive output references w).2.disk p := by
  cases hfolder : folderOf archive output with
  | error f =>
    exact absurd ((unchanged_of_folderOf hfolder o limits references).disk.same p id) hp
  | ok folder =>
    refine ⟨folder, rfl, Classical.byContradiction fun htouched => hp ?_⟩
    exact (changes_convertArchive hdirectory hfolder o limits references).disk.same p htouched

/-! ## A page and an asset

The archive is given byte by byte, and the run on it step by step, each of which is evaluated. -/

/-- A page that names one asset under two keys. -/
def pageText : String :=
  "\x7b\"static_assets\":[\x7b\"checksum\":\"c\",\"key\":\"a\"\x7d," ++
    "\x7b\"checksum\":\"c\",\"key\":\"b\"\x7d]\x7d"

/-- An archive of that page and the asset, neither of them packed. -/
def pageAndAsset : List UInt8 :=
  [
    80, 75, 3, 4, 20, 0, 0, 0, 0, 0, 0, 0, 33, 0, 161, 240, 128, 234, 73, 0, 0, 0, 73, 0, 0, 0, 6,
    0, 0, 0, 112, 46, 106, 115, 111, 110] ++
    Bytes.ofText pageText ++ [
    80, 75, 3, 4, 20, 0, 0, 0, 0, 0, 0, 0, 33, 0, 0, 0, 0, 0, 0, 0, 0, 0, 0, 0, 0, 0, 1, 0, 0, 0,
    99, 80, 75, 1, 2, 20, 0, 20, 0, 0, 0, 0, 0, 0, 0, 33, 0, 161, 240, 128, 234, 73, 0, 0, 0, 73,
    0, 0, 0, 6, 0, 0, 0, 0, 0, 0, 0, 0, 0, 0, 0, 128, 1, 0, 0, 0, 0, 112, 46, 106, 115, 111, 110,
    80, 75, 1, 2, 20, 0, 20, 0, 0, 0, 0, 0, 0, 0, 33, 0, 0, 0, 0, 0, 0, 0, 0, 0, 0, 0, 0, 0, 1, 0,
    0, 0, 0, 0, 0, 0, 0, 0, 0, 0, 128, 1, 109, 0, 0, 0, 99, 80, 75, 5, 6, 0, 0, 0, 0, 2, 0, 2, 0,
    99, 0, 0, 0, 140, 0, 0, 0, 0, 0]

/-- The entry of the page, and that of the asset. -/
def pageEntry : Zip.Entry := ⟨"p.json", "p.json", 0, 0, 3934318753, 73, 73, 0, 109⟩

@[inherit_doc pageEntry]
def assetEntry : Zip.Entry := ⟨"c", "c", 0, 0, 0, 0, 0, 109, 140⟩

/-- The document of the page. -/
def twoKeys : Document where
  path := "p.json"
  fields := [("static_assets", .arr [.obj [("checksum", .str "c"), ("key", .str "a")],
    .obj [("checksum", .str "c"), ("key", .str "b")]])]
  assets := [("c", "b")]

set_option maxRecDepth 100000 in
/-- The archive has the two entries. -/
theorem entries_pageAndAsset : Zip.entries pageAndAsset = .ok [pageEntry, assetEntry] := by
  cbv

set_option maxRecDepth 100000 in
theorem read_pageEntry : Zip.read pageAndAsset pageEntry = .ok (Bytes.ofText pageText) :=
  eq_ok_of_toOption (by cbv)

set_option maxRecDepth 100000 in
theorem read_assetEntry : Zip.read pageAndAsset assetEntry = .ok [] :=
  eq_ok_of_toOption (by cbv)

set_option maxRecDepth 100000 in
/-- The text of the page is one document. -/
theorem decodeJson_pageText :
    decodeJson "p.json" (Bytes.ofText pageText) = .ok [.obj twoKeys.fields] := by
  cbv

/-- The entry of the page gives its document. -/
theorem readDocument_pageEntry (w : Workplace) :
    readDocument pageAndAsset pageEntry w = (.ok (some twoKeys), w) := by
  have hfolder : pageEntry.isFolder = .ok false := by cbv
  rw [readDocument, bind_of_ok (liftFault_eq_ok_iff.2 ⟨hfolder, rfl⟩), if_neg (by decide),
    if_neg (ne_true_of_eq_false (by cbv)), if_neg (ne_true_of_eq_false (by cbv)), if_pos (by cbv),
    bind_of_ok (liftFault_eq_ok_iff.2 ⟨read_pageEntry, rfl⟩),
    show Path.toPosix pageEntry.name = "p.json" by cbv,
    bind_of_ok (lift_eq_ok_iff.2 ⟨decodeJson_pageText, rfl⟩)]
  rfl

/-- That of the asset gives none. -/
theorem readDocument_assetEntry (w : Workplace) :
    readDocument pageAndAsset assetEntry w = (.ok none, w) := by
  have hfolder : assetEntry.isFolder = .ok false := by cbv
  rw [readDocument, bind_of_ok (liftFault_eq_ok_iff.2 ⟨hfolder, rfl⟩), if_neg (by decide),
    if_neg (ne_true_of_eq_false (by cbv)), if_neg (ne_true_of_eq_false (by cbv)),
    if_neg (ne_true_of_eq_false (by cbv))]
  rfl

/-- A workplace with an archive alone. -/
def archived (archive : List UInt8) : Workplace where
  disk := ⟨[(["s.zip"], .file archive)]⟩

/-- The workplace with a folder beside an archive, and empty files in that folder. -/
def siteOf (archive : List UInt8) (files : List String) (log : List LogEntry) : Workplace where
  disk := ⟨(["s.zip"], .file archive) :: (["s"], .folder) ::
    files.map fun name => (["s", name], .file [])⟩
  log

section

variable (archive : List UInt8) (files : List String) (log : List LogEntry) (name : String)

theorem directory_siteOf : (siteOf archive files log).directory = [] := rfl

theorem read_siteOf :
    (siteOf archive files log).disk.read [] ⟨0, ["s.zip"]⟩ = .ok archive :=
  Disk.read_eq_ok_iff.2
    ⟨["s.zip"], Disk.find_eq_ok_iff.2 ⟨by decide, .on ⟨rfl, by decide⟩ (by decide)
      (fun _ htarget => nomatch htarget) .done⟩, rfl⟩

theorem resolve_siteOf : (siteOf archive files log).disk.resolve [] ⟨0, ["s"]⟩ = .ok ["s"] :=
  Disk.resolve_of_find (Disk.find_eq_ok_iff.2 ⟨by decide, .on ⟨rfl, by decide⟩ (by decide)
    (fun _ htarget => nomatch htarget) .done⟩)

/-- The way from the folder to a new file in it. -/
theorem leads_siteOf (hname : name ∈ ["p.mdx", "b", "references.ts"])
    (hmissing : (siteOf archive files log).disk.at? ["s", name] = none) :
    (siteOf archive files log).disk.Leads ["s", name] Disk.maxLinks ["s"] [name] := by
  have hplain : ∀ name ∈ ["p.mdx", "b", "references.ts"],
      name.utf8ByteSize ≤ Disk.maxNameBytes ∧ name ≠ ".." := by decide
  refine .on ⟨rfl, (hplain name hname).1⟩ (hplain name hname).2 (fun _ htarget => ?_) .done
  cases hmissing.symm.trans htarget

/-- A new file in the folder is found at its place. -/
theorem find_siteOf (slashes : Nat) (hname : name ∈ ["p.mdx", "b", "references.ts"])
    (hmissing : (siteOf archive files log).disk.at? ["s", name] = none) :
    (siteOf archive files log).disk.find [] ⟨slashes, ["s", name]⟩ = .ok ["s", name] := by
  have hnull : ∀ name ∈ ["p.mdx", "b", "references.ts"],
      (["s", name].any fun name => name.toList.contains '\x00') = false := by decide
  have hstart : Disk.startOf [] ⟨slashes, ["s", name]⟩ = [] := ite_self _
  rw [Disk.find_eq_ok_iff, hstart]
  exact ⟨hnull name hname, .on ⟨rfl, by decide⟩ (by decide) (fun _ htarget => nomatch htarget)
    (leads_siteOf archive files log name hname hmissing)⟩

/-- Its name is safe. -/
theorem safePlace_siteOf (hname : name ∈ ["p.mdx", "b"])
    (hmissing : (siteOf archive files log).disk.at? ["s", name] = none) :
    safePlace (siteOf archive files log).disk [] ⟨0, ["s"]⟩ name = .ok ["s", name] := by
  have hplain : ∀ name ∈ ["p.mdx", "b"], namesDrive (slashed name) = false ∧
      Location.ofString (slashed name) = ⟨0, [name]⟩ ∧ ([name].contains "..") = false ∧
      Disk.hasNullByte ⟨0, [name]⟩ = false := by decide
  obtain ⟨hdrive, hlocation, hup, hnull⟩ := hplain name hname
  have hplace : (siteOf archive files log).disk.resolve ["s"] ⟨0, [name]⟩ = .ok ["s", name] :=
    Disk.resolve_of_find (Disk.find_eq_ok_iff.2 ⟨hnull,
      leads_siteOf archive files log name (List.mem_append_left _ hname) hmissing⟩)
  rw [safePlace_eq_ok_iff, hlocation]
  exact ⟨hdrive, rfl, rfl, hup, ["s"], resolve_siteOf archive files log, hplace, by simp [liesIn]⟩

/-! ### The page -/

/-- The page, which has no content. -/
def emptyPage : Page where
  output := .ofPlace ["s", "p.mdx"]
  tree := .root []
  written := [.ofPlace ["s", "p.mdx"]]
  references := {}

/-- The page is written. -/
theorem writeText_page :
    writeText (.ofPlace ["s", "p.mdx"]) "" (siteOf archive [] log) =
      (.ok (), siteOf archive ["p.mdx"] log) :=
  writeText_of_find (List.cons_ne_nil _ _) (find_siteOf archive [] log _ 1 (by decide) rfl)
    (.inl rfl) ""

/-- Its tree has no content. -/
theorem convertTree_twoKeys :
    convertTree {} (.ofPlace ["s"]) "p.mdx" twoKeys.fields (siteOf archive [] []) =
      (.ok (.root [], { workplace := siteOf archive [] [] }), siteOf archive [] []) := by
  cbv

/-- So the page comes out empty. -/
theorem writePage_twoKeys :
    ∃ log, writePage {} (.ofPlace ["s", "p.mdx"]) (some (.ofPlace ["s"])) (.obj twoKeys.fields)
        (siteOf archive [] []) = (.ok emptyPage, siteOf archive ["p.mdx"] log) := by
  have hpath : Path.toPosix (Disk.relativePath [] (.ofPlace ["s", "p.mdx"]) (.ofPlace ["s"])) =
      "p.mdx" := by cbv
  have hwrite (log : List LogEntry) :
      writeTree {} (.ofPlace ["s", "p.mdx"]) (.root []) (siteOf archive [] log) =
        (.ok (), siteOf archive ["p.mdx"] log) := by
    have hrender : Mdx.render {} (.root []) = .ok "" := rfl
    rw [writeTree, bind_of_ok (liftFault_eq_ok_iff.2 ⟨hrender, rfl⟩), writeText_page]
  have hrecord (message : String) (log : List LogEntry) :
      record loggerName .debug message (siteOf archive [] log) =
        (.ok (), siteOf archive [] (log ++ [⟨.debug, loggerName, message⟩])) := rfl
  have hproblems (w : Workplace) :
      reportProblems "p.mdx" (Node.problems (.root [])) w = (.ok (), w) := rfl
  apply Exists.intro
  rw [writePage, bind_of_ok (lift_eq_ok_iff.2 ⟨show unwrap _ = .ok twoKeys.fields from rfl, rfl⟩),
    bind_of_ok (get_apply _)]
  dsimp only [Option.getD_some]
  rw [directory_siteOf, hpath, bind_of_ok (convertTree_twoKeys archive)]
  dsimp only
  rw [bind_of_ok (hrecord _ _), bind_of_ok (hproblems _), bind_of_ok (hwrite _)]
  rfl

theorem writeDocument_twoKeys :
    ∃ log, writeDocument {} ⟨0, ["s"]⟩ twoKeys (siteOf archive [] []) =
      (.ok (some emptyPage), siteOf archive ["p.mdx"] log) := by
  obtain ⟨log, hpage⟩ := writePage_twoKeys archive
  have hpath : twoKeys.outputPath = "p.mdx" := by cbv
  have hsafe := safePlace_siteOf archive [] [] "p.mdx" (by decide) rfl
  have hfolder : ask (fun d directory => d.resolve directory ⟨0, ["s"]⟩) (siteOf archive [] []) =
      (.ok ["s"], siteOf archive [] []) :=
    liftFault_eq_ok_iff.2 ⟨resolve_siteOf archive [] [], rfl⟩
  refine ⟨log, ?_⟩
  rw [writeDocument, bind_of_ok (get_apply _), directory_siteOf, hpath,
    bind_of_ok (lift_eq_ok_iff.2 ⟨hsafe, rfl⟩),
    show unwrap (.obj twoKeys.fields) = .ok twoKeys.fields from rfl]
  dsimp only
  rw [bind_of_ok hfolder, bind_of_ok hpage]
  rfl

/-- The one page of the archive is written, and its last key for the checksum is kept. -/
theorem writeEntries_twoKeys :
    ∃ log, writeEntries {} pageAndAsset ⟨0, ["s"]⟩ [] [pageEntry, assetEntry]
        (siteOf archive [] []) =
      (.ok ([emptyPage], [("c", "b")]), siteOf archive ["p.mdx"] log) := by
  obtain ⟨log, hdocument⟩ := writeDocument_twoKeys archive
  have hrest (w : Workplace) :
      writeEntries {} pageAndAsset ⟨0, ["s"]⟩ (Entries.merge [] twoKeys.assets) [assetEntry] w =
        (.ok ([], [("c", "b")]), w) := by
    rw [writeEntries, bind_of_ok (readDocument_assetEntry w)]
    rfl
  refine ⟨log, ?_⟩
  rw [writeEntries, bind_of_ok (readDocument_pageEntry _)]
  dsimp only
  rw [bind_of_ok hdocument, bind_of_ok (hrest _)]
  rfl

/-! ### The asset -/

/-- The entry of the page is no asset. -/
theorem extractAsset_pageEntry (w : Workplace) :
    extractAsset pageAndAsset ⟨0, ["s"]⟩ [("c", "b")] [] pageEntry w = (.ok none, w) := by
  have hfolder : pageEntry.isFolder = .ok false := by cbv
  rw [extractAsset, bind_of_ok (liftFault_eq_ok_iff.2 ⟨hfolder, rfl⟩), if_pos (by cbv)]
  rfl

/-- The asset is extracted to the last of its keys. -/
theorem extractAsset_assetEntry :
    ∃ log', extractAsset pageAndAsset ⟨0, ["s"]⟩ [("c", "b")] [] assetEntry
        (siteOf archive ["p.mdx"] log) =
      (.ok (some ("c", .ofPlace ["s", "b"])), siteOf archive ["p.mdx", "b"] log') := by
  have hfolder : assetEntry.isFolder = .ok false := by cbv
  have hkey : Text.stripLeading '/' (Path.toPosix
      ((Entries.get? (checksumOf (Path.toPosix assetEntry.name)) [("c", "b")]).getD "")) = "b" := by
    cbv
  have hsafe := safePlace_siteOf archive ["p.mdx"] log "b" (by decide) rfl
  have hfind := find_siteOf archive ["p.mdx"] log "b" 1 (by decide) rfl
  have hfolders : makeFolders (Location.parent (.ofPlace ["s", "b"]))
      (siteOf archive ["p.mdx"] log) = (.ok (), siteOf archive ["p.mdx"] log) :=
    makeFolders_of_isFolder (Disk.isFolder_parent hfind (List.cons_ne_nil _ _))
  have hwrite : change (fun d directory => d.write directory (.ofPlace ["s", "b"]) [])
      (siteOf archive ["p.mdx"] log) = (.ok (), siteOf archive ["p.mdx", "b"] log) :=
    change_apply (Disk.write_eq hfind (.inl rfl))
  apply Exists.intro
  rw [extractAsset, bind_of_ok (liftFault_eq_ok_iff.2 ⟨hfolder, rfl⟩),
    if_neg (ne_true_of_eq_false (by cbv)),
    bind_of_ok (get_apply _), hkey, directory_siteOf, hsafe]
  dsimp only
  rw [bind_of_ok hfolders, bind_of_ok (liftFault_eq_ok_iff.2 ⟨read_assetEntry, rfl⟩),
    bind_of_ok hwrite]
  rfl

/-- And it is the only one. -/
theorem writeAssets_twoKeys :
    ∃ log', writeAssets {} ⟨0, ["s.zip"]⟩ ⟨0, ["s"]⟩ [("c", "b")]
        (siteOf pageAndAsset ["p.mdx"] log) =
      (.ok [.ofPlace ["s", "b"]], siteOf pageAndAsset ["p.mdx", "b"] log') := by
  obtain ⟨log', hasset⟩ := extractAsset_assetEntry pageAndAsset log
  have hread : ask (fun d directory => d.read directory ⟨0, ["s.zip"]⟩)
      (siteOf pageAndAsset ["p.mdx"] log) = (.ok pageAndAsset, siteOf pageAndAsset ["p.mdx"] log) :=
    liftFault_eq_ok_iff.2 ⟨read_siteOf _ _ _, rfl⟩
  have hextract : extractAssets ⟨0, ["s.zip"]⟩ ⟨0, ["s"]⟩ [("c", "b")]
      (siteOf pageAndAsset ["p.mdx"] log) =
        (.ok [.ofPlace ["s", "b"]], siteOf pageAndAsset ["p.mdx", "b"] log') := by
    rw [extractAssets, bind_of_ok hread,
      bind_of_ok (liftFault_eq_ok_iff.2 ⟨entries_pageAndAsset, rfl⟩), extractFrom,
      bind_of_ok (extractAsset_pageEntry _)]
    dsimp only
    rw [extractFrom, bind_of_ok hasset]
    rfl
  apply Exists.intro
  rw [writeAssets, if_pos (by decide), bind_of_ok hextract]
  rfl

/-! ### The run -/

/-- Persisting the registry leaves the other files as they are. -/
theorem persist_siteOf :
    ∃ r w', Registry.persist ⟨0, ["s", "references.ts"]⟩ (siteOf archive ["p.mdx", "b"] log) =
      (.ok r, w') ∧ ∀ name, name ≠ "references.ts" → w'.disk.at? ["s", name] =
        (siteOf archive ["p.mdx", "b"] log).disk.at? ["s", name] := by
  have hfind (log : List LogEntry) := find_siteOf archive ["p.mdx", "b"] log
    "references.ts" 0 (by decide) rfl
  obtain ⟨log', hexisting⟩ : ∃ log', Registry.readExisting ⟨0, ["s", "references.ts"]⟩
      (siteOf archive ["p.mdx", "b"] log) = (.ok {}, siteOf archive ["p.mdx", "b"] log') := by
    apply Exists.intro
    rw [Registry.readExisting, bind_of_ok (get_apply _), directory_siteOf,
      Disk.read_of_missing (hfind log) rfl]
    rfl
  have hwrite (text : String) := writeText_of_find (l := ⟨0, ["s", "references.ts"]⟩)
    (w := siteOf archive ["p.mdx", "b"] log') (List.cons_ne_nil _ _) (hfind log') (.inl rfl) text
  apply Exists.intro
  apply Exists.intro
  rw [Registry.persist, bind_of_ok hexisting, bind_of_ok (get_apply _), bind_of_ok (hwrite _)]
  exact ⟨rfl, fun name hname => Disk.at?_put_of_ne _ _ (by simpa using hname)⟩

theorem makeFolders_archived :
    makeFolders ⟨0, ["s"]⟩ (archived archive) = (.ok (), siteOf archive [] []) := by
  cbv

theorem find_archived : (archived archive).disk.find [] ⟨0, ["s.zip"]⟩ = .ok ["s.zip"] :=
  Disk.find_eq_ok_iff.2 ⟨by decide, .on ⟨rfl, by decide⟩ (by decide)
    (fun _ htarget => nomatch htarget) .done⟩

theorem read_archived : (archived archive).disk.read [] ⟨0, ["s.zip"]⟩ = .ok archive :=
  Disk.read_eq_ok_iff.2 ⟨["s.zip"], find_archived archive, rfl⟩

theorem contains_archived : (archived archive).disk.contains [] ⟨0, ["s.zip"]⟩ = .ok true := by
  rw [Disk.contains, Disk.lookUp, find_archived]
  rfl

end

/-- The archive is valid. -/
theorem validate_pageAndAsset :
    validate {} (.ok pageAndAsset) = .ok [pageEntry, assetEntry] := by
  rw [validate, Except.bind, entries_pageAndAsset]
  rfl

/-- The run on the archive: a page, and the asset at the second of its keys.  Beside them the folder
of the output holds the module of references only. -/
theorem convertArchive_archived :
    ∃ log w', convertArchive {} {} ⟨0, ["s.zip"]⟩ .null .null (archived pageAndAsset) =
      (.ok ⟨⟨0, ["s"]⟩, [emptyPage], [.ofPlace ["s", "b"]], ⟨0, ["s", "references.ts"]⟩⟩, w') ∧
        ∀ name, name ≠ "references.ts" → w'.disk.at? ["s", name] =
          (siteOf pageAndAsset ["p.mdx", "b"] log).disk.at? ["s", name] := by
  have hcontains : ask (fun d directory => d.contains directory ⟨0, ["s.zip"]⟩)
      (archived pageAndAsset) = (.ok true, archived pageAndAsset) :=
    liftFault_eq_ok_iff.2 ⟨contains_archived pageAndAsset, rfl⟩
  have hclear : Registry.clear (siteOf pageAndAsset [] []) = (.ok (), siteOf pageAndAsset [] []) :=
    rfl
  have hopen := openArchive_of_read (read_siteOf pageAndAsset [] []) validate_pageAndAsset
  obtain ⟨log₁, hpages⟩ := writeEntries_twoKeys pageAndAsset
  have hrecord (message : String) (files : List String) (log : List LogEntry) :
      record loggerName .info message (siteOf pageAndAsset files log) =
        (.ok (), siteOf pageAndAsset files (log ++ [⟨.info, loggerName, message⟩])) := rfl
  obtain ⟨log₂, hassets⟩ := writeAssets_twoKeys
    (log₁ ++ [⟨.info, loggerName, "Wrote " ++ toString (fileCount [emptyPage]) ++ " files"⟩])
  obtain ⟨r, w', hpersist, hplaces⟩ := persist_siteOf pageAndAsset log₂
  have houtput : (Except.ok (.ofString (Location.stem ⟨0, ["s.zip"]⟩)) : Except Fault Location) =
      .ok ⟨0, ["s"]⟩ := rfl
  have hmodule : locationOr .null (Location.join ⟨0, ["s"]⟩ (.ofString Registry.fileName)) =
      .ok ⟨0, ["s", "references.ts"]⟩ := rfl
  refine ⟨log₂, ?_⟩
  apply Exists.intro
  rw [convertArchive, bind_of_ok hcontains, if_neg (by decide)]
  dsimp only
  rw [bind_of_ok (liftFault_eq_ok_iff.2 ⟨houtput, rfl⟩),
    bind_of_ok (makeFolders_archived pageAndAsset), bind_of_ok hclear, bind_of_ok hopen]
  dsimp only
  rw [bind_of_ok hpages]
  dsimp only
  rw [bind_of_ok (hrecord _ _ _), bind_of_ok hassets,
    bind_of_ok (liftFault_eq_ok_iff.2 ⟨hmodule, rfl⟩), bind_of_ok hpersist]
  exact ⟨rfl, hplaces⟩

/-- The files of the page and of the asset are new, and lie in the folder of the output. -/
theorem convertArchive_changes_archived :
    (archived pageAndAsset).disk.Solid (archived pageAndAsset).directory ∧
      ∃ w', convertArchive {} {} ⟨0, ["s.zip"]⟩ .null .null (archived pageAndAsset) =
          (.ok ⟨⟨0, ["s"]⟩, [emptyPage], [.ofPlace ["s", "b"]], ⟨0, ["s", "references.ts"]⟩⟩, w') ∧
        ∀ p ∈ [["s", "p.mdx"], ["s", "b"]],
          w'.disk.at? p ≠ (archived pageAndAsset).disk.at? p ∧
            ∃ folder, folderOf ⟨0, ["s.zip"]⟩ .null = .ok folder ∧
              Touched (archived pageAndAsset).directory folder .null (archived pageAndAsset).disk
                w'.disk p := by
  have hsolid : (archived pageAndAsset).disk.Solid (archived pageAndAsset).directory :=
    Disk.solid_root _
  obtain ⟨log, w', h, hplaces⟩ := convertArchive_archived
  have hchanged : ∀ p ∈ [["s", "p.mdx"], ["s", "b"]],
      w'.disk.at? p ≠ (archived pageAndAsset).disk.at? p := by
    refine List.forall_mem_cons.2 ⟨?_, List.forall_mem_singleton.2 ?_⟩
    · rw [hplaces "p.mdx" (by decide)]
      exact nofun
    · rw [hplaces "b" (by decide)]
      exact nofun
  refine ⟨hsolid, w', h, fun p hp => ⟨hchanged p hp, ?_⟩⟩
  have htouched := convertArchive_changes hsolid {} {} ⟨0, ["s.zip"]⟩ .null .null p
  rw [h] at htouched
  exact htouched (hchanged p hp)

end MdxPages.Site
