import MdxPages.Proofs.Convert.Storage
import MdxPages.Proofs.Convert.Yields
import MdxPages.Proofs.Tree.Typed

/-!
# Proofs/Convert/Typing — converted trees are well-typed

However loosely the fields of a source are typed, the trees of a page and of its fragments are
well-typed and in normal form, and no heading in them is deeper than the limit of the options
(`sound_of_convertPage`).  So they can be validated, rendered and written as JSON; but the numbers
of the items of a list, or its start, may be too long to be written (`exists_page_without_text`).
-/

namespace MdxPages

/-! ## Sources of values

A document is read from a value.  What all scalars of the value have in common, all fields of the
source have. -/

namespace Source

variable {p : Value → Prop}

mutual

/-- What holds of every scalar of a value holds of those in its source. -/
theorem every_ofValue (v : Value) (h : v.Scalars p) : (ofValue v).Every (Value.ScalarsIn p) := by
  match v with
  | .obj fields =>
    exact ⟨h, everyIn_ofField "children" fields h, everyIn_ofField "term" fields h,
      everyIn_ofField "argument" fields h⟩
  | .null | .bool _ | .num _ | .str _ | .arr _ | .foreign _ => trivial

/-- What holds of every scalar of an object holds of those of the nodes in its fields. -/
theorem everyIn_ofField (key : String) (fields : List (String × Value))
    (h : Value.ScalarsIn p fields) : EveryIn (Value.ScalarsIn p) (ofField key fields) := by
  match fields with
  | [] => trivial
  | (k, v) :: rest =>
    rw [ofField.eq_def]
    simp only
    split
    · split
      · next items => exact everyIn_ofValues items h.1
      · trivial
    · exact everyIn_ofField key rest h.2

/-- …of those in the sources of several values. -/
theorem everyIn_ofValues (vs : List Value) (h : Value.ScalarsEach p vs) :
    EveryIn (Value.ScalarsIn p) (ofValues vs) := by
  match vs with
  | [] => trivial
  | v :: vs => exact ⟨every_ofValue v h.1, everyIn_ofValues vs h.2⟩

end

end Source

namespace Convert

open MdxPages.Source Node

variable {σ : Type} {o : ConversionOptions} {place : Place} {depth limit : Int}
  {fields : Entries Value} {children : List Source} {parts : Parts σ} {I : σ → Prop}

/-! ## Files -/

/-- A well-typed tree in normal form. -/
structure TypedTree (limit : Int) (tree : Node) : Prop where
  typed : ∀ m ∈ tree.preorder, m.WellTyped limit
  normal : tree.IsNormal

/-- **The tree of a file is well-typed and in normal form** if its content is well-typed. -/
theorem typedTree_assemble (options : Entries Value) (file : FileState) {ns : List Node}
    (h : Throughout (WellTyped limit) ns) : TypedTree limit (assemble options file ns) := by
  refine ⟨?_, Node.isNormal_root_wrapInlineRuns _⟩
  rw [assemble, Node.forall_preorder_iff]
  refine ⟨trivial, (Node.wellTyped_ofFields limit).wrapInlineRuns ?_⟩
  have hfrontmatter : Throughout (WellTyped limit) (frontmatterBlock options file.metadata) := by
    simp only [frontmatterBlock]
    split
    · exact throughout_nil _
    · exact throughout_leaf trivial rfl
  have himports : Throughout (WellTyped limit) (importBlock file.imports) := by
    simp only [importBlock]
    split
    · exact throughout_nil _
    · exact throughout_leaf trivial rfl
  exact throughout_append.2 ⟨throughout_append.2 ⟨hfrontmatter, himports⟩, h⟩

/-! ## Fields

What a field holds is checked when it is read, and what does not fit is left out or replaced.  So
attributes are literal and depths are whole numbers, whatever the source says. -/

/-- A depth within 1 and a limit that is a whole number. -/
theorem clampDepth_eq (hlimit : o.headingLimit = .int limit) (depth : Int) :
    clampDepth o depth = .int (max 1 (min depth limit)) := by
  rw [clampDepth, hlimit, Number.minFirst_int, Number.maxFirst_int]

/-- A clamped depth is a whole number between 1 and the limit. -/
theorem exists_clampDepth_eq (hlimit : o.headingLimit = .int limit) (hone : 1 ≤ limit)
    (depth : Int) : ∃ d : Int, clampDepth o depth = .int d ∧ 1 ≤ d ∧ d ≤ limit :=
  ⟨_, clampDepth_eq hlimit depth, by omega, by omega⟩

/-- A heading is well-typed around any content. -/
theorem wellTyped_heading (hlimit : o.headingLimit = .int limit) (hone : 1 ≤ limit) (depth : Int)
    (ns : List Node) : (Node.heading (clampDepth o depth) ns).WellTyped limit :=
  exists_clampDepth_eq hlimit hone depth

/-- The language of a code block is a text or left out. -/
theorem isText?_langOf (v : Value) : IsText? (langOf v) := by
  cases v with
  | null => exact .inl rfl
  | _ => exact .inr ⟨_, rfl⟩

theorem isText?_labelOf (v : Value) : IsText? (labelOf v) := by
  unfold labelOf
  split
  · exact .inr ⟨_, rfl⟩
  · exact .inl rfl

/-- The options of a directive become attributes with literal values. -/
theorem isLiteral_optionAttributes (options : Value) :
    ∀ a ∈ optionAttributes options, a.IsLiteral := by
  intro a ha
  obtain ⟨⟨key, v⟩, -, rfl⟩ := List.mem_map.1 ha
  cases hv : v.str? <;> simp [hv, Attribute.IsLiteral]

/-- So do all fields of a directive that are shown. -/
theorem isLiteral_directiveAttributes (fields : Entries Value) :
    ∀ a ∈ directiveAttributes fields, a.IsLiteral := by
  rw [directiveAttributes, List.forall_mem_append]
  refine ⟨isLiteral_optionAttributes _, ?_⟩
  split <;> simp [Attribute.IsLiteral]

theorem isLiteral_givenAttributes (keys : List String) (fields : Entries Value) :
    ∀ a ∈ givenAttributes keys fields, a.IsLiteral := by
  intro a ha
  obtain ⟨key, -, hkey⟩ := List.mem_filterMap.1 ha
  simp only at hkey
  split at hkey
  · obtain rfl := Option.some.inj hkey
    trivial
  · cases hkey

/-- A size becomes such an attribute, or its reading fails. -/
theorem promised_sizeAttribute (name : String) (raw : Value) :
    Promised (fun _ => True) (fun a? => ∀ a ∈ a?, Attribute.IsLiteral a)
      (sizeAttribute name raw) := by
  unfold sizeAttribute
  split
  · simp [Promised]
  · simp [Promised, Attribute.IsLiteral]
  · simp [Promised]
  · split
    · simp [Promised, Attribute.IsLiteral]
    · simp only
      split
      · split <;> simp [Promised, Attribute.IsLiteral]
      · simp [Promised, Attribute.IsLiteral]

theorem promised_sizeAttributes (options : Entries Value) :
    Promised (fun _ => True) (fun as => ∀ a ∈ as, Attribute.IsLiteral a)
      (sizeAttributes options) := by
  refine (promised_sizeAttribute "width" _).bind fun width hwidth => ?_
  refine (promised_sizeAttribute "height" _).bind fun height hheight => ?_
  refine List.forall_mem_append.2 ⟨?_, ?_⟩
  · simpa using hwidth
  · simpa using hheight

theorem throughout_anchorNodes (ids : List Value) :
    Throughout (WellTyped limit) (anchorNodes ids).toList := by
  have hanchors : Throughout (WellTyped limit) (anchors ids) := by
    refine Node.forall_preorders_iff.2 fun n hn => ?_
    obtain ⟨id, -, hid⟩ := List.mem_filterMap.1 hn
    split at hid
    · cases hid
    · cases hid
    · obtain rfl := Option.some.inj hid
      refine Node.forall_preorder_iff.2 ⟨?_, throughout_nil _⟩
      simp [WellTyped, Attribute.IsLiteral]
  unfold anchorNodes
  split
  · exact throughout_nil _
  · exact hanchors

/-! ## Handlers

One lemma for each handler, as far as it makes nodes of its own. -/

/-- The limit of headings is a number from 1 on, and the emitter takes well-typed trees. -/
structure Run.WithinLimit (run : Run σ) (I : σ → Prop) (limit : Int) : Prop where
  bound : run.options.headingLimit = .int limit
  one : 1 ≤ limit
  accepts : Accepts run.emitter I (TypedTree limit)

variable {run : Run σ}

/-- An element around the converted lists of a node is well-typed. -/
theorem component_typed {name : String} {attributes : List Attribute}
    (hattributes : ∀ a ∈ attributes, a.IsLiteral) (h : parts.Yield I (WellTyped limit)) :
    YieldsOnce I (WellTyped limit) (component name attributes parts) :=
  h.children.one fun _ => ⟨hattributes, rfl⟩

/-- What an include leaves is well-typed, and so is the fragment that it emits. -/
theorem handleInclusion_typed (hrun : run.WithinLimit I limit)
    (h : parts.Yield I (WellTyped limit)) :
    YieldsOnce I (WellTyped limit) (handleInclusion run place fields parts) := by
  unfold handleInclusion
  refine Meets.ite (fun _ => ?_) fun _ => ?_
  · exact YieldsOnce.recorded _ _ trivial rfl
  refine Meets.ite (fun _ => ?_) fun _ => ?_
  · exact (Meets.lift (promised_trivial _)).bind fun _ _ => YieldsOnce.recorded _ _ trivial rfl
  · refine (Meets.fragmentTree (h.content _) fun file ns => typedTree_assemble [] file).bind
      fun tree htree => ?_
    refine (Meets.emit (P := fun _ => True) _ hrun.accepts htree trivial).bind fun _ _ => ?_
    refine (Meets.lift (promised_trivial _)).bind fun _ _ => ?_
    refine (Meets.registerImport (P := fun _ => True) _ _ trivial).bind fun _ _ => ?_
    exact YieldsOnce.leaf (by simp [WellTyped]) rfl

/-- What a figure leaves is well-typed. -/
theorem handleFigure_typed :
    YieldsOnce I (WellTyped limit) (handleFigure run place fields children) := by
  unfold handleFigure
  refine Meets.ite (fun _ => ?_) fun _ => ?_
  · exact YieldsOnce.recorded _ _ trivial rfl
  · refine (Meets.lift (promised_trivial _)).bind fun _ _ => ?_
    refine (Meets.registerImport (P := fun _ => True) _ _ trivial).bind fun _ _ => ?_
    refine (Meets.lift (promised_sizeAttributes _)).bind fun sizes hsizes => ?_
    refine YieldsOnce.leaf (List.forall_mem_cons.2 ⟨trivial, ?_⟩) rfl
    refine List.forall_mem_append.2 ⟨?_, hsizes⟩
    split <;> simp [Attribute.IsLiteral]

/-- What a directive leaves is well-typed. -/
theorem handleDirective_typed (h : parts.Yield I (WellTyped limit)) :
    YieldsOnce I (WellTyped limit) (handleDirective run fields parts) := by
  have hlead : Yields I (WellTyped limit) (directiveLead fields parts) := by
    unfold directiveLead
    refine Meets.ite (fun _ => .pure (throughout_nil _)) fun _ => ?_
    split
    · exact h.argument
    · refine .pure ?_
      split
      · exact throughout_nil _
      · exact throughout_leaf trivial rfl
  refine hlead.bind fun lead hlead => h.children.map fun ns hns => ?_
  unfold directiveComponent
  split
  · exact throughout_nil _
  · exact throughout_singleton.2
      ⟨isLiteral_directiveAttributes fields, throughout_append.2 ⟨hlead, hns⟩⟩

/-- A section leaves a heading within the limit, and what its body leaves. -/
theorem sectionNodes_typed (hrun : run.WithinLimit I limit)
    (h : parts.Yield I (WellTyped limit)) :
    Yields I (WellTyped limit) (sectionNodes run depth children parts) := by
  have hbody {title : List Node} (htitle : Throughout (WellTyped limit) title) :
      Yields I (WellTyped limit) (parts.body >>= fun ns => pure (title ++ ns)) :=
    h.body.map fun ns hns => throughout_append.2 ⟨htitle, hns⟩
  simp only [sectionNodes]
  cases hasTitle children with
  | true =>
    exact h.title.bind fun ns hns =>
      hbody (throughout_singleton.2 ⟨wellTyped_heading hrun.bound hrun.one depth ns, hns⟩)
  | false => exact hbody (throughout_nil _)

/-- What a role leaves is well-typed. -/
theorem handleRole_typed (h : parts.Yield I (WellTyped limit)) :
    YieldsOnce I (WellTyped limit) (handleRole fields parts) := by
  refine h.children.map fun ns hns => throughout_singleton.2 ⟨?_, ?_⟩
  · simp only [WellTyped]
    split <;> simp [Attribute.IsLiteral]
  · simp only [Node.children]
    split
    · exact throughout_leaf trivial rfl
    · exact hns

/-- What a footnote leaves is well-typed. -/
theorem handleFootnote_typed (h : parts.Yield I (WellTyped limit)) :
    YieldsOnce I (WellTyped limit) (handleFootnote fields parts) := by
  unfold handleFootnote
  refine Meets.ite (fun _ => h.children.several) fun hidentifier => h.children.one fun _ => ?_
  exact ⟨⟨mt String.isEmpty_iff.2 hidentifier, isText?_labelOf _⟩, rfl⟩

theorem throughout_footnoteReferenceOf (fields : Entries Value) :
    Throughout (WellTyped limit) (footnoteReferenceOf fields).toList := by
  unfold footnoteReferenceOf
  simp only
  split
  · exact throughout_nil _
  · next hidentifier =>
    exact throughout_leaf ⟨mt String.isEmpty_iff.2 hidentifier, isText?_labelOf _⟩ rfl

theorem handleUnknown_typed (h : parts.Yield I (WellTyped limit)) :
    YieldsOnce I (WellTyped limit) (handleUnknown fields children parts) := by
  unfold handleUnknown
  refine Meets.ite (fun _ => ?_) fun _ => h.children.several
  exact YieldsOnce.recorded _ _ trivial rfl

/-- **Whatever a node of a kind becomes is well-typed**, if its parts are. -/
theorem handle_typed (hrun : run.WithinLimit I limit) (kind : Kind)
    (hfields : Value.ScalarsIn Value.Shown fields) (h : parts.Yield I (WellTyped limit)) :
    YieldsOnce I (WellTyped limit) (handle run place depth kind fields children parts) := by
  have hnumbered (i : Int) : YieldsOnce I (WellTyped limit)
      (parts.children >>= fun ns => pure (.one (.list true (.int i) ns))) :=
    h.children.one fun _ => ⟨⟨i, rfl⟩, rfl⟩
  cases kind with
  | text | line | literal | transition => exact .leaf trivial rfl
  | code => exact .leaf (isText?_langOf _) rfl
  | paragraph | emphasis | titleReference | strong | listItem | blockQuote =>
    exact h.children.one fun _ => ⟨trivial, rfl⟩
  | bulletList => exact h.children.one fun _ => ⟨rfl, rfl⟩
  | enumeratedList => exact (Meets.lift (promised_trivial _)).bind fun i _ => hnumbered i
  | list =>
    refine Meets.ite (fun _ => ?_) fun _ => h.children.one fun _ => ⟨rfl, rfl⟩
    exact (Meets.lift (promised_trivial _)).bind fun i _ => hnumbered i
  | fieldList | definitionList | tabs | methodSelector | admonition | tablePart =>
    exact component_typed (by simp) h
  | field => exact component_typed (isLiteral_givenAttributes _ _) h
  | cardGroup | ctaBanner => exact component_typed (isLiteral_optionAttributes _) h
  | only => exact component_typed (by simp [Attribute.IsLiteral]) h
  | reference =>
    refine Meets.ite (fun hgiven => h.children.one fun _ => ⟨?_, rfl⟩) fun _ => h.children.several
    exact Value.text_ne_empty (Value.scalars_field trivial hfields) hgiven
  | refRole =>
    refine Meets.ite (fun _ => h.children.one fun _ => ⟨?_, rfl⟩) fun _ => h.children.several
    simp [WellTyped, Attribute.IsLiteral]
  | superscript | subscript => exact h.children.one fun _ => ⟨by simp [WellTyped], rfl⟩
  | substitution =>
    refine h.children.one fun _ => ⟨?_, rfl⟩
    simp only [WellTyped]
    split <;> simp [Attribute.IsLiteral]
  | heading =>
    exact (Meets.lift (promised_trivial _)).bind fun wanted _ =>
      h.children.one fun ns => ⟨wellTyped_heading hrun.bound hrun.one wanted ns, rfl⟩
  | sectionBlock => exact (sectionNodes_typed hrun h).several
  | transparent => exact h.children.several
  | lineBlock => exact h.lines.one fun _ => ⟨trivial, rfl⟩
  | definitionListItem =>
    refine h.term.bind fun term hterm => h.children.map fun ns hns => ?_
    exact throughout_singleton.2 ⟨by simp [WellTyped], throughout_append.2 ⟨hterm, hns⟩⟩
  | role => exact handleRole_typed h
  | footnote => exact handleFootnote_typed h
  | footnoteReference => exact .pure (throughout_footnoteReferenceOf fields)
  | target | inlineTarget => exact .pure (throughout_anchorNodes _)
  | dropped => exact .nothing
  | unknown => exact handleUnknown_typed h
  | directive =>
    simp only [handle]
    cases directiveOf fields with
    | metadata =>
      exact (Meets.addMetadata (P := fun _ => True) _ trivial).bind fun _ _ => YieldsOnce.nothing
    | figure => exact handleFigure_typed
    | literalInclude => exact .leaf (isText?_langOf _) rfl
    | inclusion => exact handleInclusion_typed hrun h
    | generic => exact handleDirective_typed h

/-- Every handler of a run within the limit gives well-typed nodes. -/
theorem gives_typed (hrun : run.WithinLimit I limit) :
    run.Gives I (WellTyped limit) (Value.ScalarsIn Value.Shown) where
  lineBreak := trivial
  handle _ _ fields _ _ hfields h := handle_typed hrun (kindOf fields) hfields h

/-! ## Pages

A page comes out with whatever limit its options have, and its tree is sound for limits that pass
their check. -/

/-- Of a tree whose headings are within a limit: every node has fields of their types, and none is
phrasing right under a flow container.  So validation reports nothing but open problems, and the
tree has an MDX text and a JSON text, with every margin whose blanks can be counted, unless a number
in it is too long to be written. -/
structure Sound (limit : Int) (tree : Node) : Prop where
  typed : ∀ n ∈ tree.preorder, n.WellTyped limit
  normal : ∀ n ∈ tree.preorder, n.isFlowContainer = true → ∀ c ∈ n.children, c.isPhrasing = false
  problems : tree.problems = tree.preorder.flatMap Node.openProblems
  rendered : ∀ o, Succeeds (Mdx.render o tree) ↔
    ∀ n ∈ tree.preorder, ∀ i ∈ n.itemNumbers, Number.Writable i
  written {indent : Option Int} (hindent : Node.CountsMargin indent)
      (h : ∀ n ∈ tree.preorder, ∀ i ∈ n.start?, Number.Writable i) :
    ∃ text, tree.toJson indent = .ok text ∧ Node.ofJson text = .ok tree
  unwritten {indent : Option Int} (hindent : Node.CountsMargin indent)
      (h : ¬∀ n ∈ tree.preorder, ∀ i ∈ n.start?, Number.Writable i) :
    tree.toJson indent = .error (.fault .tooManyDigits)

/-- A well-typed tree in normal form is sound if its limit is within the deepest heading. -/
theorem TypedTree.sound {tree : Node} (h : TypedTree limit tree)
    (hlimit : limit ≤ Node.deepestHeading) : Sound limit tree where
  typed := h.typed
  normal := (Node.isNormal_iff tree).1 h.normal
  problems := Node.problems_eq_openProblems hlimit h.typed h.normal
  rendered o := Node.succeeds_render o h.typed
  written hindent hstarts := Node.exists_toJson_eq_ok hindent (fun m hm => (h.typed m hm).declared)
    ((Node.integersWritable_iff hlimit h.typed).2 hstarts)
  unwritten hindent hstarts :=
    Node.toJson_eq_tooManyDigits hindent (fun m hm => (h.typed m hm).declared)
      fun hn => hstarts ((Node.integersWritable_iff hlimit h.typed).1 hn)

/-- A page is well-typed, and so is all that its emitter has kept. -/
theorem convertPage_typed (hrun : run.WithinLimit I limit) (path : String) (root : Entries Value)
    {emitter : σ} (hemitter : I emitter) (hroot : Value.ScalarsIn Value.Shown root) :
    I (convertPage run path root emitter).2.emitter ∧
      Promised (fun _ => True) (TypedTree limit) (convertPage run path root emitter).1 := by
  have hcontent := convertAll_yields (gives_typed hrun) ⟨path, []⟩ 1 (ofField "children" root)
    (everyIn_ofField "children" root hroot) ⟨{}, emitter, []⟩ hemitter
  rw [convertPage_eq]
  generalize convertAll run ⟨path, []⟩ 1 (ofField "children" root) ⟨{}, emitter, []⟩ = p at hcontent
  obtain ⟨f | ns, s⟩ := p
  · exact hcontent
  · exact ⟨hcontent.1, typedTree_assemble _ _ hcontent.2⟩

/-- Limits that pass their check are between 1 and the deepest heading. -/
theorem limit_of_checkHeadingDepth {v : Value} (hv : v.number? = some (.int limit))
    (h : ConversionOptions.checkHeadingDepth v = .ok ()) :
    1 ≤ limit ∧ limit ≤ Node.deepestHeading := by
  simp only [ConversionOptions.checkHeadingDepth, hv, Number.le_int] at h
  split at h
  · next hbounds => simpa [Node.deepestHeading] using hbounds
  · cases h

/-- A limit that is a whole number is used as it is. -/
theorem headingLimit_eq (h : o.maxHeadingDepth.number? = some (.int limit)) :
    o.headingLimit = .int limit := by
  rw [ConversionOptions.headingLimit, h, Option.getD_some]

/-- **The trees of a page are sound**: that of the page itself, and those of its fragments. -/
theorem sound_of_convertPage {path : String} {root : Entries Value} {tree : Node}
    {s : Session (List (String × Node))} (hlimit : o.maxHeadingDepth.number? = some (.int limit))
    (hcheck : ConversionOptions.checkHeadingDepth o.maxHeadingDepth = .ok ())
    (hroot : Value.ScalarsIn Value.Shown root)
    (h : convertPage ⟨o, some .recording⟩ path root [] = (.ok tree, s)) :
    Sound limit tree ∧ ∀ e ∈ s.emitter, Sound limit e.2 := by
  obtain ⟨hone, hdeepest⟩ := limit_of_checkHeadingDepth hlimit hcheck
  have hbound := headingLimit_eq hlimit
  have hrun : Run.WithinLimit ⟨o, some .recording⟩
      (fun kept : List (String × Node) => ∀ e ∈ kept, TypedTree limit e.2) limit :=
    { bound := hbound
      one := hone
      accepts := fun path tree kept htree hkept => List.forall_mem_append.2
        ⟨hkept, List.forall_mem_singleton.2 htree⟩ }
  have htyped := convertPage_typed hrun path root (List.forall_mem_nil _) hroot
  rw [h] at htyped
  exact ⟨htyped.2.sound hdeepest, fun e he => (htyped.1 e he).sound hdeepest⟩

/-- A list of two items that starts with a number. -/
def numberedValue (start : Int) : Value :=
  .obj [("type", .str "enumerated_list"), ("startat", .int start),
    ("children", .arr [nodeValue "list_item" [nodeValue "paragraph" [textValue "x"]],
      nodeValue "list_item" [nodeValue "paragraph" [textValue "y"]]])]

/-- The tree of a page with such a list. -/
def numberedTree (start : Int) : Node :=
  .root [.list true (.int start)
    [.listItem [.paragraph [.text "x"]], .listItem [.paragraph [.text "y"]]]]

/-- A page that shows such a list, and includes it as a fragment. -/
def numberedRoot (start : Int) : Entries Value :=
  rootOf [numberedValue start, directiveValue "include" "/list.rst" [numberedValue start]]

/-- The fragment is as sound as the page. -/
theorem sound_of_convertPage_numbered :
    ∃ tree s, convertPage ⟨{}, some .recording⟩ "index.mdx" (numberedRoot 3) [] = (.ok tree, s) ∧
      Sound 6 tree ∧ s.emitter = [("list.mdx", numberedTree 3)] ∧ Sound 6 (numberedTree 3) := by
  have hpage : (Draft.page "index.mdx" (numberedRoot 3)).Faultless {} := by rfl
  obtain ⟨s, hs, -, hemitter⟩ := convertPage_of_faultless ⟨{}, some .recording⟩ hpage []
  have hfragment : s.emitter = [("list.mdx", numberedTree 3)] := by
    rw [hemitter, foldl_deliver_recording]
    rfl
  have hroot : Value.ScalarsIn Value.Shown (numberedRoot 3) := by
    simp [numberedRoot, numberedValue, rootOf, directiveValue, nodeValue, textValue,
      Value.ScalarsIn, Value.Scalars, Value.ScalarsEach, Value.Shown]
  obtain ⟨htree, hfragments⟩ := sound_of_convertPage rfl (by rfl) hroot hs
  exact ⟨_, s, hs, htree, hfragment, hfragments _ (hfragment ▸ List.mem_singleton_self _)⟩

/-- The page with such a list comes out, whatever number the list starts with. -/
theorem convertPage_numbered (start : Int) :
    (convertPage ⟨{}, none⟩ "index.mdx" (rootOf [numberedValue start]) ()).1 =
      .ok (numberedTree start) := by
  rfl

/-- **Not every page has a text**: when a list starts with the largest number that can be written,
its second item cannot be numbered.  Nor has every page a JSON text: the start itself may be too
long. -/
theorem exists_page_without_text :
    (∃ tree, (convertPage ⟨{}, none⟩ "index.mdx"
        (rootOf [numberedValue (Number.leastTooLong - 1)]) ()).1 = .ok tree ∧
      ∀ o, ¬ Succeeds (Mdx.render o tree)) ∧
    ∃ tree, (convertPage ⟨{}, none⟩ "index.mdx"
        (rootOf [numberedValue Number.leastTooLong]) ()).1 = .ok tree ∧
      tree.toJson none = .error (.fault .tooManyDigits) := by
  have htyped (start : Int) : ∀ n ∈ (numberedTree start).preorder, n.WellTyped 6 := by
    simp [numberedTree, Node.preorder, Node.preorders, WellTyped]
  have hlist (start : Int) : Node.list true (.int start)
      [.listItem [.paragraph [.text "x"]], .listItem [.paragraph [.text "y"]]] ∈
        (numberedTree start).preorder := by
    simp [numberedTree, Node.preorder, Node.preorders]
  refine ⟨⟨_, convertPage_numbered _, fun o hrendered => ?_⟩,
    _, convertPage_numbered _, ?_⟩
  · have hsecond := (Node.succeeds_render o (htyped _)).1 hrendered _ (hlist _)
      (Number.leastTooLong - 1 + 1) (List.mem_map.2 ⟨1, by decide, rfl⟩)
    rw [Int.sub_add_cancel] at hsecond
    exact Number.not_writable_leastTooLong hsecond
  · refine Node.toJson_eq_tooManyDigits (by simp [Node.CountsMargin])
      (fun m hm => (htyped _ m hm).declared) fun hwritable => ?_
    have hstarts := (Node.integersWritable_iff (by decide) (htyped _)).1 hwritable
    exact Number.not_writable_leastTooLong (hstarts _ (hlist _) _ rfl)

end Convert

end MdxPages
