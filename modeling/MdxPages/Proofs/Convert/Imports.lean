import MdxPages.Proofs.Convert.Production

/-!
# Proofs/Convert/Imports — what the files of a page import

Two laws about the imports of a page and of its fragments.

**Import closure** (`imports_closed`): no name is imported twice; each import is that of a figure
in the file, or of a fragment that the file includes and that was emitted before the file was
finished; and each is used in the tree of the file.

**The last one wins** (`import_of_last_mention`): an import stands for what the last directive of
its name in the file asks for, and different files or images can share a name.
-/

namespace MdxPages.Convert

open MdxPages.Source

variable {o : ConversionOptions} {d f : Draft} {before after : List Draft}

/-! ## Import closure

The files before a file are those that are finished when it is.  A fragment is among them as soon as
an import asks for it. -/

/-- An emitter that keeps all that it is handed, in order. -/
def Emitter.recording : Emitter (List (String × Node)) := fun path tree kept =>
  ({}, kept ++ [(path, tree)])

/-- Emissions are kept in the order in which they come. -/
theorem foldl_deliver_recording (kept emissions : List (String × Node)) :
    emissions.foldl (deliver (some Emitter.recording)) kept = kept ++ emissions := by
  induction emissions generalizing kept with
  | nil => rw [List.foldl_nil, List.append_nil]
  | cons emission emissions ih =>
    rw [List.foldl_cons, ih]
    exact List.append_cons kept emission emissions |>.symm

/-- The statements that import some components, each on a line, those of images last. -/
def importStatements (imports : Entries String) : String :=
  "\n".intercalate
    ((imports.filter (fun (_, path) => !Path.isImage path) ++
      imports.filter fun (_, path) => Path.isImage path).map fun (name, path) =>
        "import " ++ name ++ " from '" ++ path ++ "';")

/-- The imports of a file that is finished after the files before it: all are written in its import
block, no name twice; each is that of a fragment before it or of a figure, for a node of the file;
and each is used in its tree. -/
structure Draft.ImportsClosed (o : ConversionOptions) (before : List Draft) (f : Draft) : Prop where
  written : f.imports o ≠ [] → .imports (importStatements (f.imports o)) ∈ (f.tree o).children
  distinct : (f.imports o).keys.Nodup
  accounted : ∀ name path, (name, path) ∈ f.imports o → ∃ v ∈ f.visits o,
    (∃ g ∈ before, v.mention? o = some (.inclusion g) ∧
      name = Path.fragmentComponent g.place.path o.fragmentExtension ∧
      path = Path.fragmentImport (importerOf o f.place) g.place.path) ∨
    (∃ target, v.mention? o = some (.figure target) ∧
      name = Path.imageIdentifier target ∧
      path = Path.imageImport (importerOf o f.place) target)
  used : ∀ name ∈ (f.imports o).keys, (f.tree o).Uses name

/-- An import of a file is asked for by one of its mentions. -/
theorem Draft.exists_mention_of_mem_imports (hf : f.Faultless o) {entry : String × String}
    (h : entry ∈ f.imports o) :
    ∃ m ∈ (f.outline o).mentions, m.import? o f.place = some entry := by
  rw [imports_eq hf] at h
  exact List.mem_filterMap.1 (List.mem_filter.1 (Entries.mem_of_mem_ofList h)).1

/-- A file whose visits meet no fault has closed imports. -/
theorem Draft.importsClosed (hf : f.Faultless o) (h : d.files o = before ++ f :: after) :
    f.ImportsClosed o before where
  written hne := by
    have hne : ¬(f.state o).imports.isEmpty = true := mt List.isEmpty_iff.1 hne
    refine importBlock_subset_assemble _ _ _ ?_
    rw [importBlock, if_neg hne]
    exact List.mem_singleton_self _
  distinct := by
    rw [imports_eq hf]
    exact Entries.nodup_keys_ofList _
  accounted name path hentry := by
    obtain ⟨m, hm, himport⟩ := exists_mention_of_mem_imports hf hentry
    obtain ⟨v, hv, hmention⟩ := List.mem_filterMap.1 (mentions_eq o f ▸ hm)
    refine ⟨v, hv, ?_⟩
    cases m with
    | metadata fields => cases himport
    | figure target =>
      obtain ⟨rfl, rfl⟩ := Prod.mk.inj (Option.some.inj himport)
      exact .inr ⟨target, hmention, rfl, rfl⟩
    | inclusion g =>
      obtain ⟨rfl, rfl⟩ := Prod.mk.inj (Option.some.inj himport)
      exact .inl ⟨g, mem_before_of_inclusion h hm, hmention, rfl, rfl⟩
  used name hname := by
    obtain ⟨entry, hentry, rfl⟩ := List.mem_map.1 hname
    obtain ⟨m, hm, himport⟩ := exists_mention_of_mem_imports hf hentry
    exact uses_of_mention hf hm (Mention.name?_of_import? himport)

/-- **Import closure.**  The files that a page comes out as, in the order in which they are
finished, are those of its drafts, and the imports of each are closed. -/
theorem imports_closed {path : String} {root : Entries Value} {tree : Node}
    {s : Session (List (String × Node))}
    (h : convertPage ⟨o, some .recording⟩ path root [] = (.ok tree, s)) :
    s.emitter ++ [(path, tree)] = ((Draft.page path root).files o).map (Draft.emission o) ∧
      s.file.imports = (Draft.page path root).imports o ∧
      ∀ before f after, (Draft.page path root).files o = before ++ f :: after →
        f.ImportsClosed o before := by
  obtain ⟨hpage, rfl, hfile, hemitter⟩ := faultless_of_convertPage h
  refine ⟨?_, congrArg FileState.imports hfile, fun before f after hfiles => ?_⟩
  · rw [Draft.files, List.map_append]
    exact congrArg (· ++ _) (hemitter.trans (foldl_deliver_recording _ _))
  · refine Draft.importsClosed (hpage.of_mem_files ?_) hfiles
    rw [hfiles]
    exact List.mem_append_right _ List.mem_cons_self

/-- A directive of a document, with a text as its argument. -/
def directiveValue (name argument : String) (children : List Value) : Value :=
  .obj [("type", .str "directive"), ("name", .str name), ("argument", .str argument),
    ("children", .arr children)]

/-- The root of a document with the given nodes. -/
def rootOf (nodes : List Value) : Entries Value :=
  [("type", .str "root"), ("children", .arr nodes)]

/-- A page that includes a fragment with a figure in it. -/
def figureWithinRoot : Entries Value :=
  rootOf [directiveValue "include" "/a/steps.rst" [directiveValue "figure" "/images/x.png" []]]

/-- The image stays with the fragment. -/
theorem imports_closed_figureWithin :
    ∃ tree s, convertPage ⟨{}, some .recording⟩ "index.mdx" figureWithinRoot [] = (.ok tree, s) ∧
      s.emitter.map Prod.fst = ["a/steps.mdx"] ∧
      s.file.imports = [("Steps", "./a/steps.mdx")] ∧
      .imports "import Steps from './a/steps.mdx';" ∈ tree.children ∧
      ∀ before f after,
        (Draft.page "index.mdx" figureWithinRoot).files {} = before ++ f :: after →
          f.ImportsClosed {} before := by
  have hpage : (Draft.page "index.mdx" figureWithinRoot).Faultless {} := by rfl
  obtain ⟨s, hs, hfile, hemitter⟩ :=
    convertPage_of_faultless ⟨{}, some .recording⟩ hpage []
  have himports : (Draft.page "index.mdx" figureWithinRoot).imports {} =
      [("Steps", "./a/steps.mdx")] :=
    (Draft.imports_eq hpage).trans (by decide +kernel)
  have hclosed := (imports_closed hs).2.2
  refine ⟨_, s, hs, ?_, (congrArg FileState.imports hfile).trans himports, ?_, hclosed⟩
  · rw [hemitter, foldl_deliver_recording]
    rfl
  · have hwritten := (hclosed _ _ [] rfl).written (by simp [himports])
    rw [himports] at hwritten
    exact hwritten

/-! ## The last one wins

Registering an import under a name that is taken overwrites its path, and the name stays where it
is. -/

/-- What the mentions after the last one of a name register is under other names. -/
theorem Draft.registrations_of_last {earlier later : List Mention} {last : Mention}
    {name target : String}
    (hmentions : (d.outline o).mentions = earlier ++ last :: later)
    (hlast : last.import? o d.place = some (name, target)) (hname : name ≠ "")
    (hlater : ∀ m ∈ later, m.name? o ≠ some name) :
    ∃ xs ys, d.registrations o = xs ++ (name, target) :: ys ∧ ∀ entry ∈ ys, entry.1 ≠ name := by
  have hnonempty : name.isEmpty = false := String.isEmpty_eq_false_iff.2 hname
  refine ⟨(earlier.filterMap (Mention.import? o d.place)).filter fun entry => !entry.1.isEmpty,
    (later.filterMap (Mention.import? o d.place)).filter fun entry => !entry.1.isEmpty, ?_, ?_⟩
  · rw [registrations, hmentions, List.filterMap_append, List.filterMap_cons, hlast,
      List.filter_append, List.filter_cons]
    simp [hnonempty]
  · intro entry hentry heq
    obtain ⟨m, hm, himport⟩ := List.mem_filterMap.1 (List.mem_filter.1 hentry).1
    exact hlater m hm (heq ▸ Mention.name?_of_import? himport)

/-- An empty name stands for nothing. -/
theorem Draft.get?_imports_empty (hd : d.Faultless o) : (d.imports o).get? "" = none := by
  refine Entries.get?_eq_none fun entry hentry hempty => ?_
  rw [imports_eq hd] at hentry
  have hnonempty := (List.mem_filter.1 (Entries.mem_of_mem_ofList hentry)).2
  rw [hempty] at hnonempty
  cases hnonempty

/-- **The last one wins.**  Once the conversion of a file has ended, the element of an include or a
figure in it is in its tree.  An empty name stands for nothing; any other stands for the path that
the last directive of the name asks for. -/
theorem import_of_last_mention {σ : Type} {run : Run σ} {s s' : Session σ} {ns : List Node}
    (hs : s.file = {}) (h : convertAll run d.place 1 d.content s = (.ok ns, s')) {v : Visit}
    {m : Mention} (hv : v ∈ d.visits run.options) (hm : v.mention? run.options = some m)
    {name path : String} (himport : m.import? run.options d.place = some (name, path)) :
    (assemble d.options s'.file ns).Uses name ∧
      (name = "" ∧ s'.file.imports.get? name = none ∨
        ∃ earlier last later target,
          (d.visits run.options).filterMap (Visit.mention? run.options) =
            earlier ++ last :: later ∧
          last.import? run.options d.place = some (name, target) ∧
          (∀ m ∈ later, m.name? run.options ≠ some name) ∧
          s'.file.imports.get? name = some target) := by
  obtain ⟨hd, rfl, hfile⟩ := Draft.faultless_of_convertAll hs h
  have himports : s'.file.imports = d.imports run.options := congrArg FileState.imports hfile
  refine ⟨hfile ▸ Draft.uses_of_visit hd hv hm himport, ?_⟩
  rw [himports]
  by_cases hname : name = ""
  · exact .inl ⟨hname, hname ▸ Draft.get?_imports_empty hd⟩
  · -- of all mentions of the name, the registry keeps the last one
    have hnamed : ∃ m ∈ (d.outline run.options).mentions, m.name? run.options = some name :=
      ⟨m, Draft.mem_mentions_of_visit hv hm, Mention.name?_of_import? himport⟩
    obtain ⟨earlier, last, later, hmentions, hlast, hlater⟩ := Entries.exists_last hnamed
    rw [last.name?_eq run.options d.place] at hlast
    obtain ⟨⟨_, target⟩, htarget, rfl⟩ := Option.map_eq_some_iff.1 hlast
    obtain ⟨xs, ys, hregistrations, hys⟩ :=
      Draft.registrations_of_last hmentions htarget hname hlater
    refine .inr ⟨earlier, last, later, target, ?_, htarget, hlater, ?_⟩
    · rw [← Draft.mentions_eq, hmentions]
    · rw [Draft.imports_eq hd, hregistrations]
      exact Entries.get?_ofList_of_last hys

/-- A page with two includes of one name, and one of an empty name. -/
def oneNameRoot : Entries Value :=
  rootOf [directiveValue "include" "/a/steps.rst" [], directiveValue "include" "/b/steps.rst" [],
    directiveValue "include" "/-.rst" []]

/-- The include of a path in it. -/
def oneNameVisit (argument : String) : Visit :=
  ⟨⟨"index.mdx", []⟩, (directiveValue "include" argument []).fields, []⟩

/-- None of the includes of the page meets a fault. -/
theorem oneName_faultless : (Draft.page "index.mdx" oneNameRoot).Faultless {} := by rfl

/-- The includes of the page are visited in their order. -/
theorem oneName_visits : (Draft.page "index.mdx" oneNameRoot).visits {} =
    [oneNameVisit "/a/steps.rst", oneNameVisit "/b/steps.rst", oneNameVisit "/-.rst"] := by rfl

/-- What the first include of the page means. -/
def oneNameMention : Mention :=
  .inclusion (draftOf ⟨"index.mdx", []⟩ "a/steps.mdx" [])

/-- The first include means the fragment of its path. -/
theorem oneName_mention :
    (oneNameVisit "/a/steps.rst").mention? {} = some oneNameMention := by rfl

/-- It asks for an import under the name that both includes share. -/
theorem oneName_import :
    oneNameMention.import? {} ⟨"index.mdx", []⟩ = some ("Steps", "./a/steps.mdx") := by rfl

/-- The name of the first include of the page is used, and stands for some path. -/
theorem import_of_last_mention_oneName :
    ∃ ns s, convertAll ⟨{}, none⟩ ⟨"index.mdx", []⟩ 1 (ofField "children" oneNameRoot)
        (⟨{}, (), []⟩ : Session Unit) = (.ok ns, s) ∧
      (assemble [] s.file ns).Uses "Steps" ∧
      ∃ target, s.file.imports.get? "Steps" = some target := by
  have hvisit : oneNameVisit "/a/steps.rst" ∈ (Draft.page "index.mdx" oneNameRoot).visits {} := by
    simp [oneName_visits]
  obtain ⟨s, hs, -⟩ := oneName_faultless.convertAll_eq ⟨{}, none⟩ rfl
    (s := (⟨{}, (), []⟩ : Session Unit)) rfl
  obtain ⟨huses, ⟨hempty, -⟩ | ⟨-, -, -, target, -, -, -, htarget⟩⟩ :=
    import_of_last_mention rfl hs hvisit oneName_mention oneName_import
  · exact absurd hempty (by decide)
  · exact ⟨_, s, hs, huses, target, htarget⟩

/-- **A component need not stand for its own fragment**: the first of two includes of one name shows
the fragment of the second, and a component without a name is not imported at all. -/
theorem exists_include_without_own_import :
    ∃ tree s, convertPage ⟨{}, none⟩ "index.mdx" oneNameRoot () = (.ok tree, s) ∧
      (∃ v ∈ (Draft.page "index.mdx" oneNameRoot).visits {}, ∃ m, v.mention? {} = some m ∧
        m.import? {} ⟨"index.mdx", []⟩ = some ("Steps", "./a/steps.mdx") ∧
        tree.Uses "Steps" ∧ s.file.imports.get? "Steps" = some "./b/steps.mdx") ∧
      ∃ v ∈ (Draft.page "index.mdx" oneNameRoot).visits {}, ∃ m, v.mention? {} = some m ∧
        m.import? {} ⟨"index.mdx", []⟩ = some ("", "./-.mdx") ∧
        tree.Uses "" ∧ s.file.imports.get? "" = none := by
  have hsteps : oneNameVisit "/a/steps.rst" ∈ (Draft.page "index.mdx" oneNameRoot).visits {} := by
    simp [oneName_visits]
  have hempty : oneNameVisit "/-.rst" ∈ (Draft.page "index.mdx" oneNameRoot).visits {} := by
    simp [oneName_visits]
  have himports : (Draft.page "index.mdx" oneNameRoot).imports {} = [("Steps", "./b/steps.mdx")] :=
    (Draft.imports_eq oneName_faultless).trans (by decide +kernel)
  obtain ⟨s, hs, hfile, -⟩ := convertPage_of_faultless ⟨{}, none⟩ oneName_faultless ()
  have hfile : s.file.imports = [("Steps", "./b/steps.mdx")] :=
    (congrArg FileState.imports hfile).trans himports
  have hemptyImport : (oneNameVisit "/-.rst").mention? {} =
      some (.inclusion (draftOf ⟨"index.mdx", []⟩ "-.mdx" [])) := rfl
  exact ⟨_, s, hs,
    ⟨_, hsteps, _, oneName_mention, oneName_import,
      Draft.uses_of_visit oneName_faultless hsteps oneName_mention oneName_import, hfile ▸ rfl⟩,
    _, hempty, _, hemptyImport, rfl,
      Draft.uses_of_visit oneName_faultless hempty hemptyImport rfl, hfile ▸ rfl⟩

end MdxPages.Convert
