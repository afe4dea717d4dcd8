import MdxPages.Proofs.Convert.Storage
import MdxPages.Proofs.Convert.Yields

/-!
# Proofs/Convert/Shape — how a file is put together

A file that comes out has its frontmatter first, then its imports, then its wrapped content, and
nothing of the first two further down (`shape_of_convertPage`).  The frontmatter is the options of
the page, overridden by the metadata of the file's own directives; a fragment has no options.
-/

namespace MdxPages

/-! ## What stands at the top only

Frontmatter and imports are made when a file is put together.  No handler makes them, so they cannot
come up further down. -/

namespace Node

/-- Whether a node is a root, a frontmatter block or an import block. -/
def isTop : Node → Bool
  | root _ | yaml _ | imports _ => true
  | _ => false

/-- Whether a node stands at the top depends on its fields only. -/
theorem isTop_ofFields : OfFields fun n => n.isTop = false where
  withChildren n cs h := by cases n <;> exact h
  ofParagraph _ := rfl

/-- A frontmatter block is no phrasing, and is not wrapped. -/
theorem wrapInlineRuns_yaml (text : String) (ns : List Node) :
    wrapInlineRuns (yaml text :: ns) = yaml text :: wrapInlineRuns ns := rfl

/-- Nor is an import block. -/
theorem wrapInlineRuns_imports (text : String) (ns : List Node) :
    wrapInlineRuns (imports text :: ns) = imports text :: wrapInlineRuns ns := rfl

end Node

namespace Convert

open MdxPages.Source Node

variable {σ : Type} {run : Run σ} {o : ConversionOptions} {place : Place} {depth : Int}
  {fields : Entries Value} {children : List Source} {parts : Parts σ} {f : Draft}

/-! ## Handlers -/

/-- Whatever an emitter may keep. -/
abbrev anything : σ → Prop :=
  fun _ => True

/-- The node is to stand below the top of a file. -/
abbrev Below (n : Node) : Prop :=
  n.isTop = false

theorem throughout_below_anchorNodes (ids : List Value) :
    Throughout Below (anchorNodes ids).toList := by
  have hanchors : Throughout Below (anchors ids) := by
    refine Node.forall_preorders_iff.2 fun n hn => ?_
    obtain ⟨id, -, hid⟩ := List.mem_filterMap.1 hn
    split at hid
    · cases hid
    · cases hid
    · obtain rfl := Option.some.inj hid
      exact Node.forall_preorder_iff.2 ⟨rfl, throughout_nil _⟩
  unfold anchorNodes
  split
  · exact throughout_nil _
  · exact hanchors

/-- An include leaves its element or a marker. -/
theorem handleInclusion_below (h : parts.Yield anything Below) :
    YieldsOnce anything Below (handleInclusion run place fields parts) := by
  unfold handleInclusion
  refine Meets.ite (fun _ => YieldsOnce.recorded _ _ rfl rfl) fun _ => ?_
  refine Meets.ite (fun _ => ?_) fun _ => ?_
  · exact (Meets.lift (promised_trivial _)).bind fun _ _ => YieldsOnce.recorded _ _ rfl rfl
  · refine (Meets.fragmentTree (T := fun _ => True) (h.content _) fun _ _ _ => trivial).bind
      fun _ _ => ?_
    refine (Meets.emitting (P := fun _ => True) (fun _ _ => trivial) trivial).bind fun _ _ => ?_
    refine (Meets.lift (promised_trivial _)).bind fun _ _ => ?_
    refine (Meets.registerImport (P := fun _ => True) _ _ trivial).bind fun _ _ => ?_
    exact YieldsOnce.leaf rfl rfl

theorem handleFigure_below :
    YieldsOnce anything Below (handleFigure run place fields children) := by
  unfold handleFigure
  refine Meets.ite (fun _ => YieldsOnce.recorded _ _ rfl rfl) fun _ => ?_
  refine (Meets.lift (promised_trivial _)).bind fun _ _ => ?_
  refine (Meets.registerImport (P := fun _ => True) _ _ trivial).bind fun _ _ => ?_
  exact (Meets.lift (promised_trivial _)).bind fun _ _ => YieldsOnce.leaf rfl rfl

/-- A directive leaves an element around its children. -/
theorem handleDirective_below (h : parts.Yield anything Below) :
    YieldsOnce anything Below (handleDirective run fields parts) := by
  have hlead : Yields anything Below (directiveLead fields parts) := by
    unfold directiveLead
    refine Meets.ite (fun _ => .pure (throughout_nil _)) fun _ => ?_
    split
    · exact h.argument
    · refine .pure ?_
      split
      · exact throughout_nil _
      · exact throughout_leaf rfl rfl
  refine hlead.bind fun lead hlead => h.children.map fun ns hns => ?_
  unfold directiveComponent
  split
  · exact throughout_nil _
  · exact throughout_singleton.2 ⟨rfl, throughout_append.2 ⟨hlead, hns⟩⟩

/-- A section leaves a heading and what its body leaves. -/
theorem sectionNodes_below (h : parts.Yield anything Below) :
    Yields anything Below (sectionNodes run depth children parts) := by
  have hbody {title : List Node} (htitle : Throughout Below title) :
      Yields anything Below (parts.body >>= fun ns => pure (title ++ ns)) :=
    h.body.map fun ns hns => throughout_append.2 ⟨htitle, hns⟩
  simp only [sectionNodes]
  cases hasTitle children with
  | true => exact h.title.bind fun ns hns => hbody (throughout_singleton.2 ⟨rfl, hns⟩)
  | false => exact hbody (throughout_nil _)

theorem handleRole_below (h : parts.Yield anything Below) :
    YieldsOnce anything Below (handleRole fields parts) := by
  refine h.children.map fun ns hns => throughout_singleton.2 ⟨rfl, ?_⟩
  simp only [Node.children]
  split
  · exact throughout_leaf rfl rfl
  · exact hns

theorem throughout_below_footnoteReferenceOf (fields : Entries Value) :
    Throughout Below (footnoteReferenceOf fields).toList := by
  simp only [footnoteReferenceOf]
  split
  · exact throughout_nil _
  · exact throughout_leaf rfl rfl

/-- **No handler makes a node that is to stand at the top.** -/
theorem handle_below (kind : Kind) (h : parts.Yield anything Below) :
    YieldsOnce anything Below (handle run place depth kind fields children parts) := by
  cases kind with
  | text | line | literal | transition | code => exact .leaf rfl rfl
  | paragraph | emphasis | titleReference | strong | listItem | blockQuote | bulletList | fieldList
  | definitionList | tabs | methodSelector | admonition | tablePart | field | cardGroup | ctaBanner
  | only | superscript | subscript | substitution => exact h.children.one fun _ => ⟨rfl, rfl⟩
  | enumeratedList | heading =>
    exact (Meets.lift (promised_trivial _)).bind fun _ _ => h.children.one fun _ => ⟨rfl, rfl⟩
  | list =>
    refine Meets.ite (fun _ => ?_) fun _ => h.children.one fun _ => ⟨rfl, rfl⟩
    exact (Meets.lift (promised_trivial _)).bind fun _ _ => h.children.one fun _ => ⟨rfl, rfl⟩
  | reference | refRole =>
    exact Meets.ite (fun _ => h.children.one fun _ => ⟨rfl, rfl⟩) fun _ => h.children.several
  | sectionBlock => exact (sectionNodes_below h).several
  | transparent => exact h.children.several
  | lineBlock => exact h.lines.one fun _ => ⟨rfl, rfl⟩
  | definitionListItem =>
    refine h.term.bind fun term hterm => h.children.map fun ns hns => ?_
    exact throughout_singleton.2 ⟨rfl, throughout_append.2 ⟨hterm, hns⟩⟩
  | role => exact handleRole_below h
  | footnote =>
    exact Meets.ite (fun _ => h.children.several) fun _ => h.children.one fun _ => ⟨rfl, rfl⟩
  | footnoteReference => exact .pure (throughout_below_footnoteReferenceOf fields)
  | target | inlineTarget => exact .pure (throughout_below_anchorNodes _)
  | dropped => exact .nothing
  | unknown =>
    exact Meets.ite (fun _ => YieldsOnce.recorded _ _ rfl rfl) fun _ => h.children.several
  | directive =>
    simp only [handle]
    cases directiveOf fields with
    | metadata =>
      exact (Meets.addMetadata (P := fun _ => True) _ trivial).bind fun _ _ => YieldsOnce.nothing
    | figure => exact handleFigure_below
    | literalInclude => exact .leaf rfl rfl
    | inclusion => exact handleInclusion_below h
    | generic => exact handleDirective_below h

/-- No handler of any run makes a node that is to stand at the top. -/
theorem gives_below (run : Run σ) : run.Gives anything Below (fun _ => True) where
  lineBreak := rfl
  handle _ _ fields _ _ _ h := handle_below (kindOf fields) h

/-- Nothing in the content of a file is to stand at its top. -/
theorem Draft.below_nodes (hf : f.Faultless o) : Throughout Below (f.nodes o) := by
  obtain ⟨s, hs, -⟩ := hf.convertAll_eq (⟨o, none⟩ : Run Unit) rfl (s := ⟨{}, (), []⟩) rfl
  have hbelow := (convertAll_yields (gives_below ⟨o, none⟩) f.place 1 f.content
    (everyIn_of_forall (fun _ => trivial) _) ⟨{}, (), []⟩ trivial).2
  rw [hs] at hbelow
  exact hbelow

/-! ## Metadata

A meta directive counts for the file that it stands in, and a later one overrides an earlier one key
by key. -/

/-- The options of a meta directive. -/
def Visit.metadata? (v : Visit) : Option (Entries Value) :=
  match kindOf v.fields, directiveOf v.fields with
  | .directive, .metadata => some (Value.field "options" v.fields).fields
  | _, _ => none

/-- The metadata that a mention is. -/
def Mention.metadata? : Mention → Option (Entries Value)
  | metadata fields => some fields
  | _ => none

/-- The options of a meta directive are the metadata that it means. -/
theorem Visit.metadata?_eq (o : ConversionOptions) (v : Visit) :
    v.metadata? = (v.mention? o).bind Mention.metadata? := by
  unfold Visit.metadata? Visit.mention?
  cases kindOf v.fields with
  | directive =>
    cases directiveOf v.fields with
    | figure =>
      simp only
      split <;> rfl
    | inclusion => cases fragmentOf o v.place v.fields <;> rfl
    | metadata | literalInclude | generic => rfl
  | _ => rfl

namespace Draft

/-- The options of the meta directives in a file itself, in the order of conversion. -/
def metas (o : ConversionOptions) (d : Draft) : List (Entries Value) :=
  (d.visits o).filterMap Visit.metadata?

/-- The meta directives of a file are those among its mentions. -/
theorem metas_eq (o : ConversionOptions) (d : Draft) :
    d.metas o = (d.outline o).mentions.filterMap Mention.metadata? := by
  rw [metas, mentions_eq, List.filterMap_filterMap]
  exact congrArg (List.filterMap · _) (funext fun v => v.metadata?_eq o)

end Draft

/-- An import is no metadata. -/
theorem FileState.metadata_importing (name path : String) (file : FileState) :
    (file.importing name path).metadata = file.metadata := by
  unfold importing
  split <;> rfl

theorem FileState.metadata_note (file : FileState) (m : Mention) :
    (file.note o place m).metadata = file.metadata.merge (m.metadata?.getD []) := by
  cases m with
  | metadata fields => rfl
  | figure target => exact metadata_importing _ _ file
  | inclusion fragment => exact metadata_importing _ _ file

/-- Mentions add their metadata one after the other. -/
theorem FileState.metadata_foldl_note (file : FileState) (ms : List Mention) :
    (ms.foldl (FileState.note o place) file).metadata =
      file.metadata.merge (ms.filterMap Mention.metadata?).flatten := by
  induction ms generalizing file with
  | nil => rfl
  | cons m ms ih =>
    rw [List.foldl_cons, ih, metadata_note, ← Entries.merge_append, List.filterMap_cons]
    cases m.metadata? <;> rfl

/-- **The metadata of a file is that of its own directives.** -/
theorem Draft.metadata_eq (hf : f.Faultless o) :
    (f.state o).metadata = Entries.ofList (f.metas o).flatten := by
  rw [hf.state_eq, FileState.metadata_foldl_note, ← metas_eq]
  rfl

/-! ## Options -/

/-- No fragment has options of its own. -/
theorem fragments_without_options (o : ConversionOptions) :
    Hereditary o fun _ out => ∀ f ∈ out.fragments, f.options = [] where
  empty _ := List.forall_mem_nil _
  append _ _ _ ha hb := List.forall_mem_append.2 ⟨ha, hb⟩
  own place fields children hinner := by
    have hnone : ∀ f ∈ ([] : List Draft), f.options = [] := List.forall_mem_nil _
    cases kindOf fields with
    | directive =>
      simp only [ownOutline, directiveOutline]
      cases directiveOf fields with
      | figure =>
        simp only
        split <;> exact hnone
      | inclusion =>
        cases fragmentOf o place fields with
        | none => exact hnone
        | some fragment =>
          exact List.forall_mem_append.2
            ⟨hinner fragment, List.forall_mem_singleton.2 rfl⟩
      | metadata | literalInclude | generic => exact hnone
    | _ => exact hnone

/-! ## Files

The parts of a file are put together once its content is converted, when all its mentions are known.
-/

/-- Options in their order, overridden in place by others, the last of which wins; new keys come
after them, each where it is first met. -/
structure Overridden (options others merged : Entries Value) : Prop where
  keys_eq : merged.keys = options.keys ++ (Entries.keys others).eraseDups.removeAll options.keys
  get?_eq : ∀ key, merged.get? key = (Entries.get? key others.reverse).or (options.get? key)

/-- Merging overrides in place, and adds new keys behind. -/
theorem overridden_merge (options others : Entries Value) :
    Overridden options others (options.merge (Entries.ofList others)) where
  keys_eq := by
    rw [Entries.keys_merge_of_nodup _ (Entries.nodup_keys_ofList _), Entries.keys_ofList]
  get?_eq key := by
    rw [Entries.get?_merge_of_nodup key options (Entries.nodup_keys_ofList _), Entries.get?_ofList]

/-- The imports that are registered, each where its name is first met, with the path that is
registered last. -/
structure Registered (registrations imports : Entries String) : Prop where
  keys_eq : imports.keys = (Entries.keys registrations).eraseDups
  get?_eq : ∀ name, imports.get? name = Entries.get? name registrations.reverse

/-- How a file is put together: frontmatter, imports, content. -/
structure Draft.Shape (o : ConversionOptions) (f : Draft) (frontmatter : Entries Value)
    (imports : Entries String) : Prop where
  tree_eq : f.tree o = .root
    ((if Frontmatter.text frontmatter = "" then [] else [.yaml (Frontmatter.text frontmatter)]) ++
      (if imports = [] then [] else [.imports (Text.join "\n"
        ((imports.filter (fun (_, path) => !Path.isImage path) ++
            imports.filter fun (_, path) => Path.isImage path).map fun (name, path) =>
          "import " ++ name ++ " from '" ++ path ++ "';"))]) ++
      wrapInlineRuns (f.nodes o))
  below : ∀ n ∈ preorders (wrapInlineRuns (f.nodes o)), n.isTop = false
  frontmatter_eq : Overridden f.options (f.metas o).flatten frontmatter
  imports_eq : Registered (f.registrations o) imports

/-- Frontmatter and imports are no phrasing, and so they stay out of the wrapping. -/
theorem assemble_eq (options : Entries Value) (file : FileState) (content : List Node) :
    assemble options file content =
      .root (frontmatterBlock options file.metadata ++ importBlock file.imports ++
        wrapInlineRuns content) := by
  rw [assemble]
  unfold frontmatterBlock importBlock
  simp only
  split <;> split <;> simp [wrapInlineRuns_yaml, wrapInlineRuns_imports]

/-- The tree of a draft without faults is put together as `Shape` says. -/
theorem Draft.shape (hf : f.Faultless o) :
    f.Shape o (f.options.merge (f.state o).metadata) (f.imports o) where
  tree_eq := by
    rw [tree, assemble_eq, frontmatterBlock, importBlock]
    simp [Draft.imports, orderedImports, importLine]
  below := isTop_ofFields.wrapInlineRuns (below_nodes hf)
  frontmatter_eq := by
    rw [metadata_eq hf]
    exact overridden_merge _ _
  imports_eq :=
    { keys_eq := by rw [Draft.imports_eq hf, Entries.keys_ofList]
      get?_eq := fun name => by rw [Draft.imports_eq hf, Entries.get?_ofList] }

/-- **How files are put together.**  Every file that a page comes out as has its shape: its
frontmatter overridden by its own metadata, its own imports, and its wrapped content.  Only the page
has options of its own. -/
theorem shape_of_convertPage {path : String} {root : Entries Value} {tree : Node}
    {s : Session (List (String × Node))}
    (h : convertPage ⟨o, some .recording⟩ path root [] = (.ok tree, s)) :
    s.emitter ++ [(path, tree)] = ((Draft.page path root).files o).map (Draft.emission o) ∧
      (∀ f ∈ ((Draft.page path root).outline o).fragments, f.options = []) ∧
      ∀ f ∈ (Draft.page path root).files o, ∃ frontmatter imports,
        f.Shape o frontmatter imports := by
  obtain ⟨hpage, rfl, -, hemitter⟩ := faultless_of_convertPage h
  refine ⟨?_, (fragments_without_options o).draft _,
    fun f hf => ⟨_, _, Draft.shape (hpage.of_mem_files hf)⟩⟩
  rw [Draft.files, List.map_append]
  exact congrArg (· ++ _) (hemitter.trans (foldl_deliver_recording _ _))

/-- A meta directive with one option. -/
def metaValue (key text : String) : Value :=
  .obj [("type", .str "directive"), ("name", .str "meta"),
    ("options", .obj [(key, .str text)])]

/-- A page with a title that its directives override; those of the fragment do not count. -/
def overriddenRoot : Entries Value :=
  ("options", .obj [("title", .str "A"), ("description", .str "x")]) ::
    rootOf [nodeValue "section" [metaValue "keywords" "k", metaValue "title" "B",
        directiveValue "figure" "/images/pic.png" []],
      directiveValue "include" "/steps.rst" [metaValue "title" "C"], metaValue "title" "D"]

/-- The last title of the page itself is in the place of its option. -/
theorem shape_of_convertPage_overridden :
    ∃ tree s, convertPage ⟨{}, some .recording⟩ "index.mdx" overriddenRoot [] = (.ok tree, s) ∧
      ∃ frontmatter imports,
        (Draft.page "index.mdx" overriddenRoot).Shape {} frontmatter imports ∧
        frontmatter.keys = ["title", "description", "keywords"] ∧
        frontmatter.get? "title" = some (.str "D") ∧ imports.keys = ["PicImg", "Steps"] := by
  have hpage : (Draft.page "index.mdx" overriddenRoot).Faultless {} := by rfl
  obtain ⟨s, hs, -⟩ := convertPage_of_faultless ⟨{}, some .recording⟩ hpage []
  obtain ⟨-, -, hshape⟩ := shape_of_convertPage hs
  obtain ⟨frontmatter, imports, hpage⟩ :=
    hshape _ (List.mem_append_right _ (List.mem_singleton_self _))
  exact ⟨_, s, hs, frontmatter, imports, hpage, hpage.frontmatter_eq.keys_eq.trans (by rfl),
    (hpage.frontmatter_eq.get?_eq "title").trans (by rfl),
    hpage.imports_eq.keys_eq.trans (by decide +kernel)⟩

end Convert

end MdxPages
