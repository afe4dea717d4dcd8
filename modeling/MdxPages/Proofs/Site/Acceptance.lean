import MdxPages.Proofs.Archive.Naming
import MdxPages.Proofs.Site.Assets

/-!
# Proofs/Site/Acceptance — the pages of a valid archive have a safe place

The entries of an archive are checked when it is opened, and the path of each page is checked again
before it is written.  The second check never fails where the first one did not: **a page of a valid
archive has its place below the output**, where the name of its entry leads
(`safePlace_outputPath`).
-/

namespace MdxPages

namespace Zip

/-- The entries of a directory are read one after the other. -/
theorem exists_of_readEntries {place : DirectoryPlace} {left : Nat} {data : List UInt8}
    {entries : List Entry} (h : readEntries place left data = .ok entries) :
    entries = [] ∨ ∃ e rest used, entries = e :: rest ∧ '\x00' ∉ e.name.toList ∧
      readEntries place (left - used) (data.drop used) = .ok rest := by
  rw [readEntries] at h
  split at h
  · exact .inl (Except.ok.inj h).symm
  · right
    dsimp only at h
    split at h
    · cases h
    split at h
    · cases h
    obtain ⟨written, -, h⟩ := exists_of_bind h
    split at h
    · cases h
    obtain ⟨extent, -, h⟩ := exists_of_bind h
    obtain ⟨rest, hrest, h⟩ := exists_of_bind h
    refine ⟨_, rest, _, (Except.ok.inj h).symm, ?_, hrest⟩
    rw [String.toList_ofList]
    exact fun hnull => by simpa using List.all_eq_true.1 List.all_takeWhile '\x00' hnull

/-- No name holds a zero character. -/
theorem null_notMem_of_readEntries {place : DirectoryPlace} {left : Nat} {data : List UInt8}
    {entries : List Entry} (h : readEntries place left data = .ok entries) :
    ∀ e ∈ entries, '\x00' ∉ e.name.toList := by
  induction entries generalizing left data with
  | nil => exact List.forall_mem_nil _
  | cons e entries ih =>
    obtain h | ⟨_, _, used, heq, hnull, hrest⟩ := exists_of_readEntries h
    · cases h
    · obtain ⟨rfl, rfl⟩ := List.cons.inj heq
      exact List.forall_mem_cons.2 ⟨hnull, ih hrest⟩

/-- Limiting the sizes of entries leaves their names. -/
theorem names_limitEntries (offsets seen : List Int) (entries : List Entry) :
    (limitEntries offsets seen entries).map Entry.name = entries.map Entry.name := by
  induction entries generalizing seen with
  | nil => rfl
  | cons e entries ih =>
    rw [limitEntries, List.map_cons, List.map_cons, ih]

/-- The names of entries end before a zero character. -/
theorem null_notMem_of_entries {data : List UInt8} {entries : List Entry}
    (h : Zip.entries data = .ok entries) : ∀ e ∈ entries, '\x00' ∉ e.name.toList := by
  obtain ⟨place, -, h⟩ := exists_of_bind h
  obtain ⟨listed, hlisted, h⟩ := exists_of_bind h
  obtain rfl := Except.ok.inj h
  intro e he
  have hname : e.name ∈ listed.map Entry.name := by
    rw [← names_limitEntries (listed.map Entry.offset) []]
    exact List.mem_map_of_mem he
  obtain ⟨e', he', heq⟩ := List.mem_map.1 hname
  exact heq ▸ null_notMem_of_readEntries hlisted e' he'

end Zip

namespace Archive

open Work

variable {w w' : Workplace} {archive : Location} {data : List UInt8} {entries : List Zip.Entry}
  {e : Zip.Entry} {limits : ArchiveOptions} {document : Document}

/-! ## Entries of valid archives -/

/-- Each entry has passed the check of its name. -/
theorem checkName_of_checkEntries {total : Nat} (h : checkEntries limits total entries = .ok ()) :
    ∀ e ∈ entries, checkName e = .ok () := by
  induction entries generalizing total with
  | nil => exact List.forall_mem_nil _
  | cons e entries ih =>
    obtain ⟨_, hname, h⟩ := exists_of_bind h
    obtain ⟨large, -, h⟩ := exists_of_bind h
    dsimp only at h
    split at h
    · cases h
    · exact List.forall_mem_cons.2 ⟨hname, ih h⟩

/-- The same of an archive that has been checked as a whole. -/
theorem checkName_of_check (h : check limits entries = .ok ()) :
    ∀ e ∈ entries, checkName e = .ok () := by
  obtain ⟨many, -, h⟩ := exists_of_bind h
  dsimp only at h
  split at h
  · cases h
  · obtain ⟨_, hentries, -⟩ := exists_of_bind h
    exact checkName_of_checkEntries hentries

/-- What opening a valid archive makes sure of. -/
theorem forall_of_validate {read : Except Fault (List UInt8)}
    (h : validate limits read = .ok entries) :
    ∀ e ∈ entries, checkName e = .ok () ∧ '\x00' ∉ e.name.toList := by
  obtain ⟨entries', hentries, h⟩ := exists_of_bind_mapError h
  obtain ⟨_, hcheck, h⟩ := exists_of_bind h
  obtain rfl := Except.ok.inj h
  obtain ⟨data, -, hentries⟩ := exists_of_bind hentries
  exact fun e he => ⟨checkName_of_check hcheck e he, Zip.null_notMem_of_entries hentries e he⟩

/-! ## Documents of entries -/

/-- A document that is read is that of an entry. -/
theorem exists_of_mem_readDocuments (h : document ∈ (readDocuments data entries w).1.1) :
    ∃ e ∈ entries, ∃ w w', readDocument data e w = (.ok (some document), w') := by
  induction entries generalizing w with
  | nil => cases h
  | cons e entries ih =>
    cases hread : readDocument data e w with
    | mk answer w' =>
    cases answer with
    | error f =>
      rw [Site.readDocuments_cons_apply, hread] at h
      cases h
    | ok first =>
      obtain ⟨w₁, hdocuments⟩ := Site.readDocuments_cons entries w hread
      rw [hdocuments, List.mem_append, Option.mem_toList] at h
      obtain rfl | h := h
      · exact ⟨e, List.mem_cons_self, w, w', hread⟩
      · obtain ⟨e', he', hread'⟩ := ih h
        exact ⟨e', List.mem_cons_of_mem e he', hread'⟩

/-- A document of an archive is that of an entry of the archive, which is valid. -/
theorem exists_of_mem_documents (h : document ∈ (documents limits archive w).1.1) :
    ∃ entries, validate limits (w.disk.read w.directory archive) = .ok entries ∧
      ∃ e ∈ entries, document.path = Path.toPosix e.name ∧
        ∃ extension ∈ pageExtensions, Text.endsWith (Path.toPosix e.name) extension = true := by
  cases hopen : openArchive limits archive w with
  | mk answer w' =>
  cases answer with
  | error f =>
    rw [Site.documents_apply, hopen] at h
    cases h
  | ok opened =>
    obtain ⟨data, entries⟩ := opened
    obtain ⟨hvalid, -, -⟩ := Site.openArchive_eq_ok hopen
    rw [Site.documents_of_openArchive hopen] at h
    obtain ⟨e, he, _, _, hread⟩ := exists_of_mem_readDocuments h
    obtain ⟨hdocument, hends⟩ := eq_of_readDocument hread
    exact ⟨entries, hvalid, e, he, congrArg Document.path hdocument, hends⟩

/-! ## Places of pages

The name of an entry leads inward, and the page differs from it in the last name only. -/

/-- **A page of a valid archive has a safe place**: below the folder of the output, where the names
of its entry lead, with another last name. -/
theorem safePlace_outputPath {d : Disk} {directory folder : Place} {output : Location}
    (h : document ∈ (documents limits archive w).1.1)
    (hfolder : d.resolve directory output = .ok folder) (hroot : folder ≠ [])
    (hlink : ∀ p target, folder <+: p → p ≠ folder → d.at? p ≠ some (.link target)) :
    ∃ entries, validate limits (w.disk.read w.directory archive) = .ok entries ∧
      ∃ e ∈ entries, document.path = Path.toPosix e.name ∧
        ∃ above stem extension, extension ∈ [bsonExtension, jsonExtension] ∧
          Path.named (slashed e.name) = above ++ [stem ++ extension] ∧
          safePlace d directory output document.outputPath =
            .ok (folder ++ above ++
              [if stem.toList.all (· == '.') then stem ++ extension ++ ".mdx"
                else stem ++ ".mdx"]) := by
  obtain ⟨entries, hvalid, e, he, hpath, extension, hextension, hends⟩ := exists_of_mem_documents h
  obtain ⟨hname, hnull⟩ := forall_of_validate hvalid e he
  obtain ⟨above, stem, hnamed, hpage, hinward⟩ :=
    (inward_toPosix hname hnull).outputPath hextension hends
  refine ⟨entries, hvalid, e, he, hpath, above, stem, extension, hextension, ?_, ?_⟩
  · rw [← named_toPosix, hnamed]
  · rw [Document.outputPath, hpath, hinward.safePlace_eq (by simp [hpage]) hfolder hroot hlink,
      hpage, ← List.append_assoc]
    rfl

/-! ## A page of an archive -/

/-- The page of an archive beside a folder that is yet to be made. -/
theorem safePlace_outputPath_archived :
    Site.twoKeys ∈ (documents {} ⟨0, ["s.zip"]⟩ (Site.archived Site.pageAndAsset)).1.1 ∧
      (Site.archived Site.pageAndAsset).disk.resolve [] ⟨0, ["s"]⟩ = .ok ["s"] ∧
      ∃ entries, validate {} ((Site.archived Site.pageAndAsset).disk.read [] ⟨0, ["s.zip"]⟩) =
          .ok entries ∧
        ∃ e ∈ entries, Site.twoKeys.path = Path.toPosix e.name ∧
          ∃ above stem extension, extension ∈ [bsonExtension, jsonExtension] ∧
            Path.named (slashed e.name) = above ++ [stem ++ extension] ∧
            safePlace (Site.archived Site.pageAndAsset).disk [] ⟨0, ["s"]⟩ Site.twoKeys.outputPath =
              .ok (["s"] ++ above ++ [if stem.toList.all (· == '.') then stem ++ extension ++ ".mdx"
                else stem ++ ".mdx"]) := by
  have hmem : Site.twoKeys ∈
      (documents {} ⟨0, ["s.zip"]⟩ (Site.archived Site.pageAndAsset)).1.1 := by
    rw [Site.documents_archived]
    exact List.mem_singleton_self _
  have hfolder : (Site.archived Site.pageAndAsset).disk.resolve [] ⟨0, ["s"]⟩ = .ok ["s"] := by cbv
  have hlink := Disk.at?_ne_link (d := (Site.archived Site.pageAndAsset).disk)
    (by simp [Site.archived])
  exact ⟨hmem, hfolder, safePlace_outputPath hmem hfolder (List.cons_ne_nil _ _) fun p target _ _ =>
    hlink p target⟩

end Archive

end MdxPages
