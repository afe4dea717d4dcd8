import MdxPages.Proofs.Archive.Naming
import MdxPages.Proofs.Entries
import MdxPages.Proofs.Site.Output

/-!
# Proofs/Site/Extraction — which assets are extracted

The assets of all pages are one map by checksum, in which the last page that names a checksum says
where its asset goes (`get?_of_writeEntries`).  Each entry whose checksum is wanted is extracted,
unless one with the same checksum was before, and nothing that comes later takes its file away
(`hasFile_of_extractFrom`).
-/

namespace MdxPages

namespace Archive

open Work

variable {w w' : Workplace} {output archive : Location} {root place : Place} {data : List UInt8}
  {assets : Entries String} {seen : List String} {e : Zip.Entry} {entries : List Zip.Entry}
  {checksum key : String}

/-! ## Named assets -/

/-- The checksums and keys of the assets that documents name, in order. -/
def namedAssets (documents : List Document) : List (String × String) :=
  documents.flatMap fun document =>
    (Value.field "static_assets" document.fields).items.filterMap asset?

/-- A document that is read has the assets that its fields name. -/
theorem eq_of_pageDocument {name : String} {documents : List Value} {document : Document}
    (h : pageDocument name documents w = (.ok (some document), w')) :
    document = ⟨name, document.fields, assetsOf document.fields⟩ := by
  cases documents with
  | nil => cases h
  | cons first more =>
    -- whether there are more documents makes no difference but for a record
    obtain ⟨w₁, h⟩ : ∃ w₁, pageDocument name [first] w₁ = (.ok (some document), w') := by
      unfold pageDocument at h
      dsimp only at h
      split at h
      · obtain ⟨_, w₁, -, h⟩ := exists_of_bind_eq_ok h
        exact ⟨w₁, h⟩
      · exact ⟨w, h⟩
    cases first with
    | obj fields =>
      obtain ⟨_, _, -, h⟩ := exists_of_bind_eq_ok h
      obtain ⟨hok, -⟩ := Prod.mk.inj h
      obtain rfl := Option.some.inj (Except.ok.inj hok)
      rfl
    | _ =>
      obtain ⟨_, _, -, h⟩ := exists_of_bind_eq_ok h
      cases h

/-- A document has the path of its entry, which is that of a page. -/
theorem eq_of_readDocument {document : Document}
    (h : readDocument data e w = (.ok (some document), w')) :
    document = ⟨Path.toPosix e.name, document.fields, assetsOf document.fields⟩ ∧
      ∃ extension ∈ pageExtensions, Text.endsWith (Path.toPosix e.name) extension = true := by
  obtain ⟨isFolder, w₁, -, h⟩ := exists_of_bind_eq_ok h
  split at h
  · cases h
  split at h
  · obtain ⟨_, _, -, h⟩ := exists_of_bind_eq_ok h
    cases h
  split at h
  · next hends =>
    obtain ⟨_, _, -, h⟩ := exists_of_bind_eq_ok h
    obtain ⟨_, _, -, h⟩ := exists_of_bind_eq_ok h
    exact ⟨eq_of_pageDocument h, bsonExtension, by decide, hends⟩
  split at h
  · next hends =>
    obtain ⟨_, _, -, h⟩ := exists_of_bind_eq_ok h
    obtain ⟨_, _, -, h⟩ := exists_of_bind_eq_ok h
    exact ⟨eq_of_pageDocument h, jsonExtension, by decide, hends⟩
  · cases h

/-! ## Extracting

A checksum is extracted once, so the first entry that has it decides what the file holds. -/

/-- An entry is the asset of a checksum: it is neither a folder nor BSON, and is named so. -/
structure IsAsset (e : Zip.Entry) (checksum : String) : Prop where
  folder : e.isFolder = .ok false
  bson : Text.endsWith (Path.toPosix e.name) bsonExtension = false
  name : checksumOf (Path.toPosix e.name) = checksum

/-- **A wanted asset is extracted** if its checksum has not been seen. -/
theorem hasFile_of_extractAsset (hdirectory : w.disk.Solid w.directory)
    {result : Option (String × Location)} (he : IsAsset e checksum) (hseen : checksum ∉ seen)
    (hkey : assets.get? checksum = some key) (hne : key.isEmpty = false)
    (hsafe : safePlace w.disk w.directory output (Text.stripLeading '/' (Path.toPosix key)) =
      .ok place)
    (h : extractAsset data output assets seen e w = (.ok result, w')) :
    result = some (checksum, .ofPlace place) ∧ w'.disk.HasFile place := by
  unfold extractAsset at h
  dsimp only at h
  have hwanted : ¬(false || Text.endsWith (Path.toPosix e.name) bsonExtension ||
      ((some key).getD "").isEmpty || seen.contains checksum) = true := by
    simpa [he.bson, hne] using hseen
  rw [he.name, hkey, bind_of_ok (liftFault_eq_ok_iff.2 ⟨he.folder, rfl⟩), if_neg hwanted,
    bind_of_ok (get_apply w), Option.getD_some, hsafe] at h
  dsimp only at h
  obtain ⟨_, -, -, hstraight⟩ := exists_of_safePlace hdirectory.straight hsafe
  obtain ⟨_, w₁, hfolders, h⟩ := exists_of_bind_eq_ok h
  obtain ⟨bytes, w₂, hread, h⟩ := exists_of_bind_eq_ok h
  obtain ⟨_, w₃, hwrite, h⟩ := exists_of_bind_eq_ok h
  obtain ⟨_, w₄, hrecord, h⟩ := exists_of_bind_eq_ok h
  obtain ⟨hok, rfl⟩ := Prod.mk.inj h
  obtain ⟨-, rfl⟩ := liftFault_eq_ok_iff.1 hread
  have hstraight₁ : w₁.disk.Straight place := by
    rw [makeFolders_apply] at hfolders
    obtain ⟨-, rfl⟩ := Prod.mk.inj hfolders
    exact hstraight.grown (Disk.grown_makeFolders hdirectory _)
  obtain ⟨d, hput, rfl⟩ := exists_of_change_eq_ok hwrite
  obtain ⟨-, rfl⟩ := Prod.mk.inj hrecord
  exact ⟨(Except.ok.inj hok).symm, Disk.hasFile_of_write hstraight₁ hput⟩

/-- What has been extracted is an asset that had not been seen. -/
theorem isAsset_of_extractAsset {target : Location}
    (h : extractAsset data output assets seen e w = (.ok (some (checksum, target)), w')) :
    IsAsset e checksum ∧ checksum ∉ seen := by
  unfold extractAsset at h
  dsimp only at h
  obtain ⟨isFolder, _, hlift, h⟩ := exists_of_bind_eq_ok h
  obtain ⟨hfolder, rfl⟩ := liftFault_eq_ok_iff.1 hlift
  split at h
  · cases h
  · next hwanted =>
    obtain ⟨_, _, hget, h⟩ := exists_of_bind_eq_ok h
    generalize safePlace _ _ _ _ = place at h
    cases place with
    | error f =>
      dsimp only at h
      split at h
      · obtain ⟨_, _, -, h⟩ := exists_of_bind_eq_ok h
        cases h
      · cases h
    | ok place =>
      obtain ⟨_, w₁, -, h⟩ := exists_of_bind_eq_ok h
      obtain ⟨_, w₂, -, h⟩ := exists_of_bind_eq_ok h
      obtain ⟨_, w₃, -, h⟩ := exists_of_bind_eq_ok h
      obtain ⟨_, w₄, -, h⟩ := exists_of_bind_eq_ok h
      obtain ⟨hok, -⟩ := Prod.mk.inj h
      obtain ⟨rfl, -⟩ := Prod.mk.inj (Option.some.inj (Except.ok.inj hok))
      simp only [Bool.or_eq_true, not_or, Bool.not_eq_true] at hwanted
      obtain ⟨⟨⟨rfl, hbson⟩, -⟩, hseen⟩ := hwanted
      exact ⟨⟨hfolder, hbson, rfl⟩, by simpa using hseen⟩

end Archive

namespace Site

open Work Archive

variable {w w' : Workplace} {output archive : Location} {root place : Place} {data : List UInt8}
  {assets named : Entries String} {seen : List String} {e : Zip.Entry} {entries : List Zip.Entry}
  {checksum key : String} {o : PageOptions} {pages : List Page}

/-- Reading the documents of entries stops at the first failure. -/
theorem readDocuments_cons_apply (data : List UInt8) (e : Zip.Entry) (entries : List Zip.Entry)
    (w : Workplace) :
    readDocuments data (e :: entries) w =
      match readDocument data e w with
      | (.error f, w') => (([], some f), w')
      | (.ok document, w') =>
        ((document.toList ++ (readDocuments data entries w').1.1,
          (readDocuments data entries w').1.2), (readDocuments data entries w').2) := by
  have hbind {α β : Type} (x : StateM Workplace α) (f : α → StateM Workplace β) :
      (x >>= f) w = f (x w).1 (x w).2 := rfl
  rw [readDocuments, hbind, show (readDocument data e).run w = readDocument data e w from rfl]
  obtain ⟨answer, w'⟩ := readDocument data e w
  cases answer <;> rfl

/-- The documents of entries, the first of which has been read. -/
theorem readDocuments_cons {document : Option Document} (entries : List Zip.Entry)
    (w₀ : Workplace)
    (h : readDocument data e w = (.ok document, w')) :
    ∃ w₁, (readDocuments data (e :: entries) w₀).1.1 =
      document.toList ++ (readDocuments data entries w₁).1.1 := by
  have hanswer : readDocument data e w₀ = (.ok document, (readDocument data e w₀).2) :=
    Prod.ext ((onlyRecords_readDocument data e).answer_eq w₀ w |>.trans (by rw [h])) rfl
  refine ⟨(readDocument data e w₀).2, ?_⟩
  rw [readDocuments_cons_apply, hanswer]

/-- **The last page that names a checksum says where its asset goes.** -/
theorem get?_of_writeEntries (w₀ : Workplace)
    (h : writeEntries o data output assets entries w = (.ok (pages, named), w')) :
    named.get? checksum =
      ((Entries.ofList (namedAssets (readDocuments data entries w₀).1.1)).get? checksum).or
        (assets.get? checksum) := by
  rw [Entries.get?_ofList]
  induction entries generalizing w w₀ assets pages with
  | nil =>
    obtain ⟨hok, rfl⟩ := Prod.mk.inj h
    obtain ⟨-, rfl⟩ := Prod.mk.inj (Except.ok.inj hok)
    rfl
  | cons e entries ih =>
    obtain ⟨document, w₁, hread, h⟩ := exists_of_bind_eq_ok h
    obtain ⟨w₀', hdocuments⟩ := readDocuments_cons entries w₀ hread
    rw [hdocuments]
    cases document with
    | none => exact ih w₀' h
    | some document =>
      obtain ⟨page, w₂, hpage, h⟩ := exists_of_bind_eq_ok h
      obtain ⟨⟨rest, named'⟩, w₃, hrest, h⟩ := exists_of_bind_eq_ok h
      obtain ⟨hok, rfl⟩ := Prod.mk.inj h
      obtain ⟨-, rfl⟩ := Prod.mk.inj (Except.ok.inj hok)
      rw [ih w₀' hrest, congrArg Document.assets (eq_of_readDocument hread).1, assetsOf,
        Entries.get?_merge_of_nodup _ _ (Entries.nodup_keys_ofList _), Entries.get?_ofList,
        Option.toList_some, List.singleton_append, namedAssets, namedAssets, List.flatMap_cons,
        List.reverse_append, Entries.get?_append, Option.or_assoc]

/-- **Assets that are wanted are extracted**, each checksum once. -/
theorem hasFile_of_extractFrom (hw : w.Rooted root)
    (hroot : w.disk.resolve w.directory output = .ok root) {targets : List Location}
    (hmem : e ∈ entries) (he : IsAsset e checksum) (hseen : checksum ∉ seen)
    (hkey : assets.get? checksum = some key) (hne : key.isEmpty = false)
    (hsafe : safePlace w.disk w.directory output (Text.stripLeading '/' (Path.toPosix key)) =
      .ok place)
    (h : extractFrom data output assets seen entries w = (.ok targets, w')) :
    w'.disk.HasFile place := by
  induction entries generalizing w seen targets with
  | nil => cases hmem
  | cons head entries ih =>
    obtain ⟨extracted, w₁, hhead, h⟩ := exists_of_bind_eq_ok h
    have hgrown := keeps_extractAsset hw hroot data assets seen head
    rw [Keeps, Changes, hhead] at hgrown
    have hw₁ := hw.grown hgrown
    have hroot₁ := hgrown.resolve_eq.trans hroot
    have hsafe₁ := hsafe
    rw [← hgrown.safePlace_eq] at hsafe₁
    have hrest {seen' : List String} (hseen' : checksum ∉ seen') (hne : e ≠ head)
        {targets : List Location}
        (h : extractFrom data output assets seen' entries w₁ = (.ok targets, w')) :
        w'.disk.HasFile place :=
      ih hw₁ hroot₁ ((List.mem_cons.1 hmem).resolve_left hne) hseen' hsafe₁ h
    cases extracted with
    | none =>
      refine hrest hseen ?_ h
      rintro rfl
      cases (hasFile_of_extractAsset hw.directory he hseen hkey hne hsafe hhead).1
    | some asset =>
      obtain ⟨checksum', target⟩ := asset
      obtain ⟨hasset, -⟩ := isAsset_of_extractAsset hhead
      obtain ⟨targets', w₂, hlater, hend⟩ := exists_of_bind_eq_ok h
      obtain ⟨-, rfl⟩ := Prod.mk.inj hend
      by_cases hchecksum : checksum' = checksum
      · subst hchecksum
        have hfile := (hasFile_of_extractAsset hw.directory hasset hseen hkey hne hsafe hhead).2
        have hgrown' := keeps_extractFrom hw₁ hroot₁ data assets (checksum' :: seen) entries
        rw [Keeps, Changes, hlater] at hgrown'
        exact hgrown'.disk.file hfile
      · refine hrest ?_ ?_ hlater
        · rw [List.mem_cons, not_or]
          exact ⟨Ne.symm hchecksum, hseen⟩
        · rintro rfl
          exact hchecksum (hasset.name.symm.trans he.name)

/-- **Each wanted asset of an archive is there** once all have been extracted. -/
theorem hasFile_of_writeAssets (hw : w.Rooted root)
    (hroot : w.disk.resolve w.directory output = .ok root) {limits : ArchiveOptions}
    (hwanted : limits.extractAssets.isGiven = true) {targets : List Location}
    (hread : w.disk.read w.directory archive = .ok data) (hentries : Zip.entries data = .ok entries)
    (hmem : e ∈ entries) (he : IsAsset e checksum) (hkey : assets.get? checksum = some key)
    (hne : key.isEmpty = false)
    (hsafe : safePlace w.disk w.directory output (Text.stripLeading '/' (Path.toPosix key)) =
      .ok place)
    (h : writeAssets limits archive output assets w = (.ok targets, w')) :
    w'.disk.HasFile place := by
  have hassets : assets.isEmpty = false := by
    cases assets with
    | nil => cases hkey
    | cons => rfl
  rw [writeAssets, hwanted, hassets, if_pos (by decide)] at h
  obtain ⟨written, w₁, hextract, h⟩ := exists_of_bind_eq_ok h
  obtain ⟨_, w₂, hrecord, h⟩ := exists_of_bind_eq_ok h
  obtain ⟨-, rfl⟩ := Prod.mk.inj h
  obtain ⟨bytes, _, hask, hextract⟩ := exists_of_bind_eq_ok hextract
  rw [ask_apply, liftFault_eq_ok_iff, hread] at hask
  obtain ⟨hbytes, rfl⟩ := hask
  obtain rfl := Except.ok.inj hbytes
  obtain ⟨entries', _, hlift, hextract⟩ := exists_of_bind_eq_ok hextract
  rw [liftFault_eq_ok_iff, hentries] at hlift
  obtain ⟨hentries', rfl⟩ := hlift
  obtain rfl := Except.ok.inj hentries'
  have hfile := hasFile_of_extractFrom hw hroot hmem he List.not_mem_nil hkey hne hsafe hextract
  exact ((OnlyRecords.record _ _ _).grown_empty hrecord).disk.file hfile

end Site

end MdxPages
