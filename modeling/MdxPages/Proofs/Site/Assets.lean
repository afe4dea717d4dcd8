import MdxPages.Proofs.Results
import MdxPages.Proofs.Site.ArchiveFile
import MdxPages.Proofs.Site.Extraction
import MdxPages.Proofs.Site.Written

/-!
# Proofs/Site/Assets — the assets of an archive

An asset that the archive holds is there when the run is over, at the key that is named last for its
checksum (`asset_extracted`), though not at a key that another one of the same checksum replaces
(`asset_of_replaced_key_is_missing`).
-/

namespace MdxPages.Site

open Work Archive

variable {w w' : Workplace} {archive : Location} {place : Place} {data : List UInt8}
  {entries : List Zip.Entry} {checksum key : String} {o : PageOptions}

/-- An archive that is opened is valid, and is what could be read. -/
theorem openArchive_eq_ok {limits : ArchiveOptions} {bytes : List UInt8}
    (h : openArchive limits archive w = (.ok (bytes, entries), w')) :
    validate limits (w.disk.read w.directory archive) = .ok entries ∧
      bytes = (w.disk.read w.directory archive).toOption.getD [] ∧ w = w' := by
  rw [openArchive, bind_of_ok (get_apply w)] at h
  obtain ⟨entries', w₁, hlift, h⟩ := exists_of_bind_eq_ok h
  obtain ⟨hvalid, rfl⟩ := lift_eq_ok_iff.1 hlift
  obtain ⟨hok, rfl⟩ := Prod.mk.inj h
  obtain ⟨rfl, rfl⟩ := Prod.mk.inj (Except.ok.inj hok)
  exact ⟨hvalid, rfl, rfl⟩

/-- The entries of a valid archive are those that it has. -/
theorem entries_of_validate {limits : ArchiveOptions}
    (h : validate limits (.ok data) = .ok entries) : Zip.entries data = .ok entries := by
  obtain ⟨entries', hentries, h⟩ := exists_of_bind_mapError h
  cases hcheck : check limits entries' with
  | error f =>
    rw [hcheck] at h
    cases h
  | ok _ =>
    rw [hcheck] at h
    obtain rfl := Except.ok.inj h
    exact hentries

/-- The documents of an archive are those of its entries, if it can be opened. -/
theorem documents_apply (limits : ArchiveOptions) (archive : Location) (w : Workplace) :
    documents limits archive w =
      match openArchive limits archive w with
      | (.error f, w') => (([], some f), w')
      | (.ok (data, entries), w') => readDocuments data entries w' := by
  have hbind {α β : Type} (x : StateM Workplace α) (f : α → StateM Workplace β) :
      (x >>= f) w = f (x w).1 (x w).2 := rfl
  rw [documents, hbind,
    show (openArchive limits archive).run w = openArchive limits archive w from rfl]
  obtain ⟨answer, w'⟩ := openArchive limits archive w
  cases answer <;> rfl

theorem documents_of_openArchive {limits : ArchiveOptions}
    (h : openArchive limits archive w = (.ok (data, entries), w')) :
    (documents limits archive w).1 = (readDocuments data entries w').1 := by
  rw [documents_apply, h]

/-- What a run has done when it is over: it has made folders, written pages, extracted assets and
updated the module. -/
theorem exists_of_convertArchive_eq_ok (hdirectory : w.disk.Solid w.directory)
    {limits : ArchiveOptions} {output' references : Value} {c : Converted}
    (h : convertArchive o limits archive output' references w = (.ok c, w')) :
    ∃ root data entries named w₁ w₂ w₃ w₄ P,
      Wrote [] w w₁ ∧ Ready w.directory c.output root w₁ ∧
      openArchive limits archive w₁ = (.ok (data, entries), w₁) ∧
      writeEntries o data c.output [] entries w₁ = (.ok (c.pages, named), w₂) ∧
      w₂.Grown (fun _ => False) w₃ ∧
      writeAssets limits archive c.output named w₃ = (.ok c.assets, w₄) ∧
      w₄.Grown P w' := by
  obtain ⟨there, w₀, hask, h⟩ := exists_of_bind_eq_ok h
  rw [ask_apply, liftFault_eq_ok_iff] at hask
  obtain ⟨-, rfl⟩ := hask
  cases there with
  | false => cases h
  | true =>
    rw [if_neg (by decide)] at h
    obtain ⟨folder, _, hfolder, h⟩ := exists_of_bind_eq_ok h
    obtain ⟨-, rfl⟩ := liftFault_eq_ok_iff.1 hfolder
    obtain ⟨_, w₁, hmade, h⟩ := exists_of_bind_eq_ok h
    obtain ⟨_, w₂, hclear, h⟩ := exists_of_bind_eq_ok h
    obtain ⟨⟨data, entries⟩, w₃, hopen, h⟩ := exists_of_bind_eq_ok h
    obtain ⟨⟨pages, named⟩, w₄, hpages, h⟩ := exists_of_bind_eq_ok h
    obtain ⟨_, w₅, hrecord, h⟩ := exists_of_bind_eq_ok h
    obtain ⟨assets, w₆, hassets, h⟩ := exists_of_bind_eq_ok h
    obtain ⟨l, _, hlift, h⟩ := exists_of_bind_eq_ok h
    obtain ⟨-, rfl⟩ := liftFault_eq_ok_iff.1 hlift
    obtain ⟨_, w₇, hpersist, h⟩ := exists_of_bind_eq_ok h
    obtain ⟨_, w₈, hrecord', h⟩ := exists_of_bind_eq_ok h
    obtain ⟨hok, rfl⟩ := Prod.mk.inj h
    obtain rfl := Except.ok.inj hok
    obtain ⟨root, hrooted, hresolve⟩ := rooted_of_makeFolders hdirectory hmade
    have hfolders : Wrote [] w w₁ := by
      rw [makeFolders_apply] at hmade
      obtain ⟨-, rfl⟩ := Prod.mk.inj hmade
      exact ⟨rfl, (Disk.grown_makeFolders hdirectory folder).mono fun p hp => .inl hp.before⟩
    obtain ⟨-, rfl⟩ := Prod.mk.inj hclear
    obtain ⟨-, -, rfl⟩ := openArchive_eq_ok hopen
    have hready : Ready w.directory folder root { w₁ with registry := {} } :=
      ⟨hfolders.directory, ⟨hrooted.directory, hrooted.root⟩, hresolve⟩
    have hrecorded := (OnlyRecords.record _ _ _).grown_empty hrecord
    have hready₄ := hready.grown (wrote_writeEntries hready.rooted.directory hpages)
    have hready₅ := hready₄.grown hrecorded
    have hgrown := keeps_writeAssets hready₅.rooted hready₅.resolve limits archive named
    rw [Keeps, Changes, hassets] at hgrown
    have hmodule := changes_persist (hready₅.grown hgrown).rooted.directory l
    rw [Changes, hpersist] at hmodule
    have hend := (OnlyRecords.record _ _ _).grown_empty hrecord'
    exact ⟨root, data, entries, named, { w₁ with registry := {} }, w₄, w₅, w₆, _,
      ⟨hfolders.directory, hfolders.disk⟩, hready, hopen, hpages, hrecorded, hassets,
      .trans hmodule ⟨hend.directory, hend.disk.mono fun _ => False.elim⟩⟩

/-- The asset of a checksum is in an archive. -/
def HoldsAsset (w : Workplace) (archive : Location) (checksum : String) : Prop :=
  ∃ data entries, w.disk.read w.directory archive = .ok data ∧ Zip.entries data = .ok entries ∧
    ∃ e ∈ entries, IsAsset e checksum

/-- No asset is named by an empty key. -/
theorem key_of_mem_namedAssets {documents : List Document}
    (h : (checksum, key) ∈ namedAssets documents) : key.isEmpty = false := by
  obtain ⟨document, -, h⟩ := List.mem_flatMap.1 h
  obtain ⟨v, -, h⟩ := List.mem_filterMap.1 h
  rw [asset?] at h
  split at h
  · cases h
  · next hnone =>
    obtain ⟨-, rfl⟩ := Prod.mk.inj (Option.some.inj h)
    rw [Bool.or_eq_true, not_or, Bool.not_eq_true, Bool.not_eq_true] at hnone
    exact hnone.2

/-- **Every asset that a page names is extracted.**  Where a run succeeds that extracts assets, the
archive holds the asset of a checksum, and the key that is named last for it leads to a place below
the folder of the output, a file is there when the run is over.  None of the files written for pages
may have replaced the archive, since assets are read from it when all pages are written. -/
theorem asset_extracted (hdirectory : w.disk.Solid w.directory) {limits : ArchiveOptions}
    {output' references : Value} {c : Converted}
    (h : convertArchive o limits archive output' references w = (.ok c, w'))
    (hwanted : limits.extractAssets.isGiven = true) {before after : List (String × String)}
    (hnamed : namedAssets (documents limits archive w).1.1 = before ++ (checksum, key) :: after)
    (hlast : ∀ later ∈ after, later.1 ≠ checksum) (hholds : HoldsAsset w archive checksum)
    (hsafe : safePlace w.disk w.directory c.output (Text.stripLeading '/' key) = .ok place)
    (harchive : ∀ p, w.disk.find w.directory archive = .ok p →
      Location.ofPlace p ∉ writtenFor c.pages) :
    w'.disk.HasFile place := by
  obtain ⟨root, data', entries', named, w₁, w₂, w₃, w₄, P, hfolders, hready, hopen, hpages, hrecord,
    hassets, hend⟩ := exists_of_convertArchive_eq_ok hdirectory h
  obtain ⟨data, entries, hread, hentries, e, hmem, he⟩ := hholds
  -- the archive reads alike before the run, when it is opened and when assets are extracted
  have hread₁ := hfolders.read_eq hread fun _ _ => List.not_mem_nil
  have hwrote : Wrote (writtenFor c.pages) w w₃ :=
    (hfolders.trans (wrote_writeEntries hready.rooted.directory hpages)).still hrecord
  have hread₃ := hwrote.read_eq hread harchive
  obtain ⟨hvalid, hdata, -⟩ := openArchive_eq_ok hopen
  rw [hread₁] at hvalid hdata
  obtain rfl : data' = data := hdata
  obtain rfl : entries' = entries :=
    Except.ok.inj ((entries_of_validate hvalid).symm.trans hentries)
  have hdocuments : (documents limits archive w).1.1 = (readDocuments data' entries' w).1.1 := by
    rw [documents_of_openArchive (openArchive_of_read hread hvalid)]
  have hget : named.get? checksum = some key := by
    rw [get?_of_writeEntries w hpages, ← hdocuments, hnamed, Entries.get?_ofList_of_last hlast]
    rfl
  have hnonempty : key.isEmpty = false := by
    have hmem : (checksum, key) ∈ namedAssets (documents limits archive w).1.1 := by simp [hnamed]
    exact key_of_mem_namedAssets hmem
  have hready₃ : Ready w.directory c.output root w₃ :=
    (hready.grown (wrote_writeEntries hready.rooted.directory hpages)).grown hrecord
  rw [← hwrote.safePlace_eq] at hsafe
  exact hend.disk.file (hasFile_of_writeAssets hready₃.rooted hready₃.resolve hwanted hread₃
    hentries hmem he hget hnonempty (safePlace_toPosix hsafe) hassets)

/-! ## A key that is replaced -/

/-- Both keys are safe. -/
theorem safePlace_archived {name : String} (hname : name ∈ ["a", "b"]) :
    safePlace (archived pageAndAsset).disk [] ⟨0, ["s"]⟩ (Text.stripLeading '/' name) =
      .ok ["s", name] := by
  have hplain : ∀ name ∈ ["a", "b"], namesDrive (slashed (Text.stripLeading '/' name)) = false ∧
      Location.ofString (slashed (Text.stripLeading '/' name)) = ⟨0, [name]⟩ ∧
      [name].contains ".." = false ∧
      ([name].any fun name => name.toList.contains '\x00') = false ∧ name ≠ ".." := by
    decide
  obtain ⟨hdrive, hlocation, hup, hnull⟩ := hplain name hname
  have hfolder : (archived pageAndAsset).disk.resolve [] ⟨0, ["s"]⟩ = .ok ["s"] := by cbv
  have hplace : (archived pageAndAsset).disk.resolve ["s"] ⟨0, [name]⟩ = .ok ["s", name] := by
    obtain rfl | rfl : name = "a" ∨ name = "b" := by simpa using hname
    · cbv
    · cbv
  rw [safePlace_eq_ok_iff, hlocation]
  exact ⟨hdrive, rfl, rfl, hup, ["s"], hfolder, hplace, by simp [liesIn]⟩

/-- The archive holds the asset. -/
theorem holdsAsset_archived : HoldsAsset (archived pageAndAsset) ⟨0, ["s.zip"]⟩ "c" := by
  have hasset : IsAsset assetEntry "c" := ⟨by cbv, by cbv, by cbv⟩
  exact ⟨pageAndAsset, _, read_archived pageAndAsset, entries_pageAndAsset, assetEntry, by simp,
    hasset⟩

theorem documents_archived :
    (documents {} ⟨0, ["s.zip"]⟩ (archived pageAndAsset)).1.1 = [twoKeys] := by
  have hopen := openArchive_of_read (read_archived pageAndAsset) validate_pageAndAsset
  obtain ⟨w₁, hpage⟩ := readDocuments_cons [assetEntry] (archived pageAndAsset)
    (readDocument_pageEntry (archived pageAndAsset))
  obtain ⟨w₂, hasset⟩ := readDocuments_cons [] w₁ (readDocument_assetEntry w₁)
  rw [documents_of_openArchive hopen, hpage, hasset]
  rfl

/-- The page names it under two keys. -/
theorem namedAssets_archived :
    namedAssets (documents {} ⟨0, ["s.zip"]⟩ (archived pageAndAsset)).1.1 =
      [("c", "a"), ("c", "b")] := by
  rw [documents_archived]
  rfl

/-- No page is written over the archive. -/
theorem not_written_archived (p : Place)
    (hp : (archived pageAndAsset).disk.find [] ⟨0, ["s.zip"]⟩ = .ok p) :
    Location.ofPlace p ∉ writtenFor [emptyPage] := by
  obtain rfl := Except.ok.inj ((find_archived pageAndAsset).symm.trans hp)
  decide

/-- The asset is extracted to the last of its keys. -/
theorem asset_extracted_archived :
    ∃ c w', convertArchive {} {} ⟨0, ["s.zip"]⟩ .null .null (archived pageAndAsset) = (.ok c, w') ∧
      namedAssets (documents {} ⟨0, ["s.zip"]⟩ (archived pageAndAsset)).1.1 =
        [("c", "a")] ++ ("c", "b") :: [] ∧
      HoldsAsset (archived pageAndAsset) ⟨0, ["s.zip"]⟩ "c" ∧
      safePlace (archived pageAndAsset).disk [] c.output (Text.stripLeading '/' "b") =
        .ok ["s", "b"] ∧
      w'.disk.HasFile ["s", "b"] := by
  obtain ⟨-, w', h, -⟩ := convertArchive_archived
  have hsafe := safePlace_archived (List.mem_cons_of_mem _ List.mem_cons_self)
  refine ⟨_, w', h, namedAssets_archived, holdsAsset_archived, hsafe, ?_⟩
  have hnamed : namedAssets (documents {} ⟨0, ["s.zip"]⟩ (archived pageAndAsset)).1.1 =
      [("c", "a")] ++ ("c", "b") :: [] := namedAssets_archived
  exact asset_extracted (Disk.solid_root _) h rfl hnamed (fun _ hlater => nomatch hlater)
    holdsAsset_archived hsafe not_written_archived

/-- **A key that another one of its checksum replaces gets no file**, though a page names it, the
archive holds its asset, and it is safe. -/
theorem asset_of_replaced_key_is_missing :
    ∃ c w', convertArchive {} {} ⟨0, ["s.zip"]⟩ .null .null (archived pageAndAsset) = (.ok c, w') ∧
      ({} : ArchiveOptions).extractAssets.isGiven = true ∧
      ("c", "a") ∈ namedAssets (documents {} ⟨0, ["s.zip"]⟩ (archived pageAndAsset)).1.1 ∧
      HoldsAsset (archived pageAndAsset) ⟨0, ["s.zip"]⟩ "c" ∧
      safePlace (archived pageAndAsset).disk [] c.output (Text.stripLeading '/' "a") =
        .ok ["s", "a"] ∧
      (∀ p, (archived pageAndAsset).disk.find [] ⟨0, ["s.zip"]⟩ = .ok p →
        Location.ofPlace p ∉ writtenFor c.pages) ∧
      ¬ w'.disk.HasFile ["s", "a"] := by
  obtain ⟨log, w', h, hplaces⟩ := convertArchive_archived
  have hnamed : ("c", "a") ∈
      namedAssets (documents {} ⟨0, ["s.zip"]⟩ (archived pageAndAsset)).1.1 := by
    rw [namedAssets_archived]
    exact List.mem_cons_self
  refine ⟨_, w', h, rfl, hnamed, holdsAsset_archived,
    safePlace_archived List.mem_cons_self, not_written_archived, ?_⟩
  rintro ⟨bytes, hfile⟩
  cases (hplaces "a" (by decide)).symm.trans hfile

end MdxPages.Site
