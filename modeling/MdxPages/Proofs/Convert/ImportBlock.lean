import MdxPages.Proofs.Convert.Imports
import MdxPages.Proofs.Path.Script

/-!
# Proofs/Convert/ImportBlock — the imports of a file as a script

Every include of a file is registered under the name of its component, unless that name is empty.
Where what a file mentions can be imported, its import block is a script (`import_block`): one line
for each registered import, each a name and a path that an import statement can hold.

File names are not made into identifiers in all cases: a name with a blank in it is bound as it is
(`exists_import_of_no_identifier`).
-/

namespace MdxPages

namespace Script

variable {letter : Char → Bool} {name path : String} {entries : Entries String}

/-- An import statement holds no line break. -/
theorem isLineBreak_of_mem_importLine (h : IsImport letter name path) :
    ∀ c ∈ (Convert.importLine name path).toList, isLineBreak c = false := by
  simp only [Convert.importLine, String.toList_append, List.forall_mem_append]
  exact ⟨⟨⟨⟨by simp [isLineBreak], fun c hc => isLineBreak_of_isNameChar (h.identifier.chars c hc)⟩,
    by simp [isLineBreak]⟩, fun c hc => isLineBreak_of_isPlain (h.specifier.chars c hc)⟩,
    by simp [isLineBreak]⟩

/-- **Import statements keep to their lines.** -/
theorem lines_importLines (hne : entries ≠ [])
    (h : ∀ name path, (name, path) ∈ entries → IsImport letter name path) :
    lines (Text.join "\n" (entries.map fun (name, path) => Convert.importLine name path)) =
      entries.map fun (name, path) => Convert.importLine name path := by
  refine Text.splitOn_join rfl (by decide) (mt List.map_eq_nil_iff.1 hne) fun line hline => ?_
  obtain ⟨⟨name, path⟩, hentry, rfl⟩ := List.mem_map.1 hline
  exact isLineBreak_of_mem_importLine (h name path hentry)

end Script

namespace Convert

variable {letter : Char → Bool} {o : ConversionOptions} {place : Place} {f : Draft}
  {name path : String}

/-- What a mention asks for can be imported: the path of an image holds nothing that ends quotes or
lines, and a fragment is importable from the file. -/
def Mention.Importable (letter : Char → Bool) (o : ConversionOptions) (place : Place) :
    Mention → Prop
  | metadata _ => True
  | figure target => ∀ c ∈ (Path.toPosix target).toList, Script.isPlain c = true
  | inclusion fragment =>
    Path.Importable letter o.fragmentExtension (importerOf o place) fragment.place.path

/-- What can be imported is registered as an import. -/
theorem Mention.Importable.isImport {m : Mention} (h : m.Importable letter o place)
    (himport : m.import? o place = some (name, path)) : Script.IsImport letter name path := by
  cases m with
  | metadata fields => cases himport
  | figure target =>
    obtain ⟨rfl, rfl⟩ := Prod.mk.inj (Option.some.inj himport)
    exact Path.isImport_image letter _ h
  | inclusion fragment =>
    obtain ⟨rfl, rfl⟩ := Prod.mk.inj (Option.some.inj himport)
    exact Path.isImport_fragment h

/-- **What a file mentions is registered**, unless it is to have an empty name. -/
theorem Draft.registered (hf : f.Faultless o) {m : Mention} (hm : m ∈ (f.outline o).mentions)
    (himport : m.import? o f.place = some (name, path)) (hname : name ≠ "") :
    name ∈ (f.imports o).keys := by
  rw [imports_eq hf]
  have hnonempty : (!name.isEmpty) = true := by
    simp [hname]
  exact Entries.mem_keys_ofList (List.mem_map.2 ⟨(name, path),
    List.mem_filter.2 ⟨List.mem_filterMap.2 ⟨m, hm, himport⟩, hnonempty⟩, rfl⟩)

/-- Writing images last leaves nothing out and adds nothing. -/
theorem orderedImports_perm (imports : Entries String) : (orderedImports imports).Perm imports := by
  simpa [orderedImports] using
    List.filter_append_perm (fun entry : String × String => !Path.isImage entry.2) imports

/-- A file whose import block is a script: its includes have names, under which they are imported;
each import is a statement; and if there are any, they stand in the file, each on a line. -/
structure Draft.ImportsScript (letter : Char → Bool) (o : ConversionOptions) (f : Draft) :
    Prop where
  registered : ∀ v ∈ f.visits o, ∀ fragment, v.mention? o = some (.inclusion fragment) →
    ∃ name path, (Mention.inclusion fragment).import? o f.place = some (name, path) ∧
      (f.tree o).Uses name ∧ name ≠ "" ∧ name ∈ (f.imports o).keys
  valid : ∀ name path, (name, path) ∈ f.imports o → Script.IsImport letter name path
  written : f.imports o ≠ [] → ∃ text, ∃ entries : Entries String,
    .imports text ∈ (f.tree o).children ∧
    entries.Perm (f.imports o) ∧
      Script.lines text = entries.map fun (name, path) =>
        "import " ++ name ++ " from '" ++ path ++ "';"

/-- The import block of a file is a script, if all that it mentions can be imported. -/
theorem Draft.importsScript (hf : f.Faultless o)
    (h : ∀ m ∈ (f.outline o).mentions, m.Importable letter o f.place) :
    f.ImportsScript letter o := by
  have hvalid : ∀ name path, (name, path) ∈ f.imports o → Script.IsImport letter name path := by
    intro name path hentry
    obtain ⟨m, hm, himport⟩ := exists_mention_of_mem_imports hf hentry
    exact (h m hm).isImport himport
  refine ⟨fun v hv fragment hm => ?_, hvalid, fun hne => ?_⟩
  · have hmention := mem_mentions_of_visit hv hm
    have hname := ((h _ hmention).isImport rfl).identifier.ne_empty
    exact ⟨_, _, rfl, uses_of_visit hf hv hm rfl, hname, registered hf hmention rfl hname⟩
  · have hperm := orderedImports_perm (f.imports o)
    have hblock : importBlock (f.imports o) = [.imports (Text.join "\n"
        ((orderedImports (f.imports o)).map fun (name, path) => importLine name path))] := by
      rw [importBlock, if_neg (by simpa using hne)]
    refine ⟨_, orderedImports (f.imports o), importBlock_subset_assemble _ _ _ ?_, hperm,
      Script.lines_importLines (fun hempty => hne (List.nil_perm.1 (hempty ▸ hperm)))
        fun name path hentry => hvalid name path (hperm.mem_iff.1 hentry)⟩
    exact hblock ▸ List.mem_singleton_self _

/-- **The import block.**  In every file that a page comes out as, an include that is to have a
name is imported under it; and the import block is a script if what the file mentions can be
imported. -/
theorem import_block (letter : Char → Bool) {root : Entries Value} {tree : Node}
    {s : Session (List (String × Node))}
    (h : convertPage ⟨o, some .recording⟩ path root [] = (.ok tree, s)) :
    s.emitter ++ [(path, tree)] = ((Draft.page path root).files o).map (Draft.emission o) ∧
      ∀ f ∈ (Draft.page path root).files o,
        (∀ m ∈ (f.outline o).mentions, ∀ name path,
          m.import? o f.place = some (name, path) → name ≠ "" → name ∈ (f.imports o).keys) ∧
        ((∀ m ∈ (f.outline o).mentions, m.Importable letter o f.place) →
          f.ImportsScript letter o) := by
  obtain ⟨hpage, rfl, -, hemitter⟩ := faultless_of_convertPage h
  refine ⟨?_, fun f hf => ?_⟩
  · rw [Draft.files, List.map_append]
    exact congrArg (· ++ _) (hemitter.trans (foldl_deliver_recording _ _))
  · have hfile := hpage.of_mem_files hf
    exact ⟨fun m hm name path himport => Draft.registered hfile hm himport,
      Draft.importsScript hfile⟩

/-- A page that includes a fragment and shows an image. -/
def notesRoot : Entries Value :=
  rootOf [directiveValue "include" "/a/3.0-release_notes.rst" [],
    directiveValue "figure" "/images/x.png" []]

/-- Its import block is a script. -/
theorem import_block_notes :
    ∃ tree s, convertPage ⟨{}, some .recording⟩ "index.mdx" notesRoot [] = (.ok tree, s) ∧
      (Draft.page "index.mdx" notesRoot).ImportsScript (fun _ => false) {} := by
  have hpage : (Draft.page "index.mdx" notesRoot).Faultless {} := by rfl
  have hmentions : ((Draft.page "index.mdx" notesRoot).outline {}).mentions =
      [.inclusion (draftOf ⟨"index.mdx", []⟩ "a/3.0-release_notes.mdx" []),
        .figure "images/x.png"] := by rfl
  obtain ⟨s, hs, -⟩ := convertPage_of_faultless ⟨{}, some .recording⟩ hpage []
  refine ⟨_, s, hs, ((import_block (fun _ => false) hs).2 _
    (List.mem_append_right _ (List.mem_singleton_self _))).2 ?_⟩
  rw [hmentions, List.forall_mem_cons, List.forall_mem_singleton]
  have hstem : Path.fragmentStem "a/3.0-release_notes.mdx" ".mdx" = "3.0-release_notes" := by rfl
  have hnamed : ∃ c ∈ (Path.fragmentStem "a/3.0-release_notes.mdx" ".mdx").toList,
      c ≠ '-' ∧ c ≠ '_' := by
    rw [hstem]
    exact ⟨'3', by simp⟩
  exact ⟨⟨List.all_eq_true.1 (by rfl), hnamed, List.all_eq_true.1 (by rfl),
    "a", ["3.0-release_notes.mdx"], by rfl, by decide⟩, List.all_eq_true.1 (by rfl)⟩

/-- A page that includes a fragment with a blank in its name. -/
def blankRoot : Entries Value :=
  rootOf [directiveValue "include" "release notes.rst" []]

/-- **Not every import can be read**: the name of a component keeps what is no identifier. -/
theorem exists_import_of_no_identifier :
    ∃ tree s, convertPage ⟨{}, none⟩ "index.mdx" blankRoot () = (.ok tree, s) ∧
      .imports "import Release notes from './release notes.mdx';" ∈ tree.children ∧
      ∀ letter, ¬Script.IsIdentifier letter "Release notes" := by
  have hpage : (Draft.page "index.mdx" blankRoot).Faultless {} := by rfl
  obtain ⟨s, hs, -⟩ := convertPage_of_faultless ⟨{}, none⟩ hpage ()
  have himports : (Draft.page "index.mdx" blankRoot).imports {} =
      [("Release notes", "./release notes.mdx")] :=
    (Draft.imports_eq hpage).trans (by decide +kernel)
  refine ⟨_, s, hs, importBlock_subset_assemble _ _ _ ?_, fun letter h => ?_⟩
  · change _ ∈ importBlock ((Draft.page "index.mdx" blankRoot).imports {})
    rw [himports]
    exact List.mem_singleton.2 (congrArg Node.imports (by decide +kernel))
  · have hblank := h.chars ' ' (by decide)
    simp [Script.isNameChar] at hblank

end Convert
end MdxPages
