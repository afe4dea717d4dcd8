import MdxPages.Proofs.Convert.Follows

/-!
# Proofs/Convert/Handling — every handler follows the outline of its node

One case per kind of node.  Most kinds convert one list of theirs and put its nodes into a new one
(`Lists.one`) or in their own place (`Lists.several`); the directives that change the file or emit
a fragment are taken one by one.
-/

namespace MdxPages.Convert

open MdxPages.Source

variable {α : Type} {o : ConversionOptions} {place : Place} {depth : Int}
  {fields : Entries Value} {children : List Source}

namespace Follows

variable {x y : ∀ σ : Type, Run σ → Conversion σ α} {nodes : α → List Node} {out : Outline}

/-- Conversions that agree on runs with the given options follow the same outlines. -/
theorem congr (h : ∀ (σ : Type) (run : Run σ), run.options = o → x σ run = y σ run)
    (hy : Follows o place y nodes out) : Follows o place x nodes out := by
  obtain ⟨a, ha, hperf⟩ := hy
  refine ⟨a, ha, fun σ run hrun => ?_⟩
  rw [h σ run hrun]
  exact hperf σ run hrun

/-- A record in the log before a conversion is no part of what it follows. -/
theorem recording (level : Level) (message : String) (hx : Follows o place x nodes out) :
    Follows o place (fun σ run => record level message >>= fun _ => x σ run) nodes out := by
  obtain ⟨a, ha, hperf⟩ := hx
  exact ⟨a, ha, fun σ run hrun => (Performs.record level message).bind fun _ _ => hperf σ run hrun⟩

end Follows

/-- The conversions of the lists of a node follow the outlines of these lists, and its content is
converted as the content of its draft. -/
structure Lists (o : ConversionOptions) (place : Place) (sources : List Source)
    (P : ∀ σ : Type, Run σ → Parts σ) (part : Part → Outline) (inner : String → Outline) :
    Prop where
  children : Follows o place (fun σ run => (P σ run).children) id (part .children)
  term : Follows o place (fun σ run => (P σ run).term) id (part .term)
  argument : Follows o place (fun σ run => (P σ run).argument) id (part .argument)
  title : Follows o place (fun σ run => (P σ run).title) id (part .title)
  body : Follows o place (fun σ run => (P σ run).body) id (part .body)
  lines : Follows o place (fun σ run => (P σ run).lines) id (part .lines)
  content (fragment : String) : Follows o (place.enter fragment)
    (fun σ run => (P σ run).content (place.enter fragment)) id (inner fragment)
  content_eq (σ : Type) (run : Run σ) (inside : Place) :
    (P σ run).content inside = convertAll run inside 1 (includedContent sources)

variable {P : ∀ σ : Type, Run σ → Parts σ} {part : Part → Outline} {inner : String → Outline}

/-! ## Kinds with nothing but their lists

A converted list keeps the references of its nodes, whether they are put into one more node or left
in their own place. -/

/-- Nodes put into one more node lose no reference. -/
theorem references_one {ns : List Node} {n : Node} (h : n.children = ns) :
    (Node.references ns).Sublist (Node.references (Converted.one n).toList) :=
  h ▸ Node.references_children_sublist n

namespace Lists

/-- The children of a node put into one new node. -/
theorem one (hP : Lists o place children P part inner) (g : List Node → Node)
    (hg : ∀ ns, (g ns).children = ns) :
    Follows o place (fun σ run => (P σ run).children >>= fun ns => pure (.one (g ns)))
      Converted.toList (part .children) :=
  hP.children.map _ fun ns => references_one (hg ns)

/-- The children of a node put in its own place. -/
theorem several (hP : Lists o place children P part inner) :
    Follows o place (fun σ run => (P σ run).children >>= fun ns => pure (.several ns))
      Converted.toList (part .children) :=
  hP.children.map _ fun _ => .refl _

end Lists

/-- The fault of a heading does not depend on the depth of its section. -/
theorem faultIn_headingDepth (depth : Int) (v : Value) :
    faultIn (headingDepth depth v) = faultIn (headingDepth 1 v) := by
  unfold headingDepth
  split <;> rfl

/-- A role follows the outline of its children, whatever it becomes. -/
theorem role_follows (hP : Lists o place children P part inner) :
    Follows o place (fun σ run => handleRole fields (P σ run)) Converted.toList
      (part .children) := by
  refine hP.children.map _ fun ns => ?_
  cases ns with
  | nil => exact List.nil_sublist _
  | cons n ns => exact references_one rfl

/-- A footnote follows the outline of its children. -/
theorem footnote_follows (hP : Lists o place children P part inner) :
    Follows o place (fun σ run => handleFootnote fields (P σ run)) Converted.toList
      (part .children) := by
  simp only [handleFootnote]
  split
  · exact hP.several
  · exact hP.one _ fun _ => rfl

/-- A section follows the outline of its title and then that of its body. -/
theorem section_follows (hP : Lists o place children P part inner) :
    Follows o place (fun σ run => sectionNodes run depth children (P σ run)) id
      (partsOutline part (partsOf .sectionBlock fields children)) := by
  simp only [sectionNodes, partsOf]
  cases hasTitle children with
  | false => exact (Follows.pure []).seq hP.body _ fun _ _ => .refl _
  | true =>
    refine Follows.congr (fun σ run hrun => ?_) ((hP.title.map
      (fun ns => [Node.heading (clampDepth o depth) ns]) fun ns => ?_).seq hP.body (· ++ ·)
        fun _ _ => .refl _)
    · simp [hrun]
    · exact references_one rfl

/-! ## Directives

Only three directives do more than convert their lists: a meta directive, a figure and an include.
-/

/-- The element of a directive loses no reference. -/
theorem references_directiveComponent (attributes : List Attribute) (ns : List Node) :
    (Node.references ns).Sublist
      (Node.references (directiveComponent o fields attributes ns).toList) := by
  unfold directiveComponent
  split
  · next h =>
    simp only [Bool.and_eq_true, List.isEmpty_iff] at h
    rw [h.1.2]
    exact List.nil_sublist _
  · exact references_one rfl

/-- A directive without a meaning of its own follows the outlines of its lists. -/
theorem generic_follows (hP : Lists o place children P part inner)
    (h : directiveOf fields = .generic) :
    Follows o place (fun σ run => handleDirective run fields (P σ run)) Converted.toList
      (partsOutline part (directiveParts fields)) := by
  have hlead (out : Outline)
      (hl : Follows o place (fun σ run => directiveLead fields (P σ run)) id out) :
      Follows o place (fun σ run => handleDirective run fields (P σ run)) Converted.toList
        (out ++ part .children) := by
    refine Follows.congr (fun σ run hrun => ?_) (hl.seq hP.children
      (fun led ns => directiveComponent o fields (directiveAttributes fields) (led ++ ns))
      fun _ _ => references_directiveComponent _ _)
    rw [handleDirective, hrun]
  simp only [directiveLead] at hlead
  simp only [directiveParts, h]
  split
  · next hc => exact hlead {} (by simpa [hc] using Follows.pure [])
  · next hc =>
    simp only [hc] at hlead
    split
    · next ha => exact hlead _ (by simpa [ha] using hP.argument)
    · next v ha => exact hlead {} (by simpa [ha] using Follows.pure _)

/-- A meta directive mentions its options. -/
theorem metadata_follows (metadata : Entries Value)
    (hv : Visit.fault? o ⟨place, fields, children⟩ = none) :
    Follows o place (fun _ _ => addMetadata metadata >>= fun _ => pure .nothing) Converted.toList
      { mentions := [.metadata metadata], visits := [⟨place, fields, children⟩] } := by
  refine ⟨_, .completed .nothing rfl ?_ rfl rfl (List.nil_sublist _),
    fun _ _ _ => (Performs.addMetadata metadata).map fun _ => Converted.nothing⟩
  rw [Outline.faults, List.filterMap_cons, hv]
  rfl

/-- The importer is the one that is asked for, where asking has no fault. -/
theorem importerOf_eq {importer : String} (h : importerPath o place = .ok importer) :
    importerOf o place = importer := by
  rw [importerOf, h]

/-- The fault of a directive is one that its kind can meet. -/
theorem directive_fault? (o : ConversionOptions) (place : Place) (children : List Source)
    (hk : kindOf fields = .directive) :
    Visit.fault? o ⟨place, fields, children⟩ = directiveFault o place fields children := by
  rw [Visit.fault?, hk]
  rfl

/-- What a figure does: its import comes before its sizes are read. -/
def figureAccount (o : ConversionOptions) (place : Place) (fields : Entries Value)
    (asset : String) : Account Converted :=
  let target := figureTarget o (importerOf o place) asset
  let alt := (Value.field "alt" (Value.field "options" fields).fields).strOrEmpty
  (⟨importerPath o place, [], []⟩ : Account String).bind fun _ =>
    (⟨.ok (), [.figure target], []⟩ : Account Unit).bind fun _ =>
      (⟨figureSizes fields, [], []⟩ : Account (List Attribute)).bind fun sizes =>
        ⟨.ok (.one (imageElement (Path.imageIdentifier target) alt sizes)), [], []⟩

/-- A figure with an asset does what its account says. -/
theorem figure_performs {σ : Type} (run : Run σ) (hrun : run.options = o)
    (h : (figureAsset fields children).isEmpty = false) :
    Performs run place (handleFigure run place fields children)
      (figureAccount o place fields (figureAsset fields children)) := by
  subst hrun
  simp only [handleFigure, h, Bool.false_eq_true, if_false]
  refine (Performs.lift _).bind fun importer himporter => ?_
  obtain rfl := importerOf_eq himporter
  exact (Performs.registerImport fun _ => rfl).bind fun _ _ =>
    (Performs.lift _).bind fun _ _ => .pure _

/-- A figure mentions its asset, if it has one. -/
theorem figure_follows (hk : kindOf fields = .directive) (h : directiveOf fields = .figure) :
    Follows o place (fun _ run => handleFigure run place fields children) Converted.toList
      (directiveOutline o place fields children inner) := by
  have hv := directive_fault? o place children hk
  simp only [directiveFault, h] at hv
  simp only [directiveOutline, h]
  cases hasset : (figureAsset fields children).isEmpty with
  | true =>
    simp only [hasset, if_true] at hv
    simp only [handleFigure, hasset, if_true]
    exact ((Follows.pure _).visiting hv).recording _ _
  | false =>
    simp only [hasset, Bool.false_eq_true, if_false] at hv
    refine ⟨_, ?_, fun σ run hrun => figure_performs run hrun hasset⟩
    simp only [Bool.false_eq_true, if_false, figureAccount]
    cases himporter : importerPath o place with
    | error f =>
      refine .stopped f rfl ?_
      simp [Outline.faults, hv, himporter, faultIn]
    | ok importer =>
      cases hsizes : figureSizes fields with
      | error f =>
        refine .stopped f rfl ?_
        simp [Outline.faults, hv, himporter, hsizes, faultIn]
      | ok sizes =>
        refine .completed _ rfl ?_ rfl rfl ?_
        · simp [Outline.faults, hv, himporter, hsizes, faultIn]
        · exact .refl _

/-! ## Includes

An include may stop before it enters its fragment, for want of a path or for a cycle.  Otherwise its
account is that of its content with an emission and a mention after it. -/

/-- The component of a fragment refers to it by name, whatever the name. -/
theorem references_component (name : String) :
    Node.references [.flowComponent name [] []] = [name] := by
  rw [Node.references_singleton, Node.reference?, Node.importedSource]
  · rfl
  · simp

/-- The tree of a draft is read off any account of its content. -/
theorem tree_of_performs {d : Draft} {a : Account (List Node)} {ns : List Node}
    (h : Performs (⟨o, none⟩ : Run Unit) d.place (convertAll ⟨o, none⟩ d.place 1 d.content) a)
    (answer : a.answer = .ok ns) :
    d.tree o = assemble d.options (a.mentions.foldl (FileState.note o d.place) {}) ns := by
  obtain ⟨hanswer, hfile, -⟩ := h ⟨{}, (), []⟩
  have hnodes : d.nodes o = ns := by
    rw [Draft.nodes, Draft.outcome, hanswer, answer]
  rw [Draft.tree, Draft.state, Draft.outcome, hfile, hnodes]

/-- What an include does, given what its content does: its import comes after its emission. -/
def inclusionAccount (o : ConversionOptions) (place : Place) (fragment : String)
    (children : List Source) (a : Account (List Node)) : Account Converted :=
  let file := a.mentions.foldl (FileState.note o (place.enter fragment)) {}
  (⟨a.answer.map (assemble [] file), [], a.emissions⟩ : Account Node).bind fun tree =>
    (⟨.ok (), [], [(fragment, tree)]⟩ : Account Unit).bind fun _ =>
      (⟨importerPath o place, [], []⟩ : Account String).bind fun _ =>
        (⟨.ok (), [.inclusion (draftOf place fragment children)], []⟩ : Account Unit).bind fun _ =>
          ⟨.ok (.one (.flowComponent (Path.fragmentComponent fragment o.fragmentExtension) [] [])),
            [], []⟩

/-- An include that enters its fragment does what its account says, given that its content does. -/
theorem inclusion_performs {σ : Type} {run : Run σ} {parts : Parts σ} {fragment : String}
    {a : Account (List Node)} (hrun : run.options = o)
    (h : fragmentOf o place fields = some fragment)
    (ha : Performs run (place.enter fragment) (parts.content (place.enter fragment)) a) :
    Performs run place (handleInclusion run place fields parts)
      (inclusionAccount o place fragment children a) := by
  subst hrun
  simp only [fragmentOf] at h
  split at h
  · cases h
  · next hc =>
    obtain rfl := Option.some.inj h
    rw [Bool.or_eq_true, not_or] at hc
    simp only [handleInclusion, hc.1, hc.2]
    refine (Performs.fragmentTree ha).bind fun tree _ => (Performs.emit _ tree).bind fun _ _ =>
      (Performs.lift _).bind fun importer himporter => ?_
    obtain rfl := importerOf_eq himporter
    exact (Performs.registerImport fun _ => rfl).bind fun _ _ => .pure _

/-- An include that enters a fragment has a path. -/
theorem inclusionArgument_of_fragmentOf {fragment : String}
    (h : fragmentOf o place fields = some fragment) :
    ¬ (inclusionArgument fields).isEmpty = true := by
  intro hempty
  simp [fragmentOf, hempty] at h

/-- An include without a path, or one that would close a cycle, leaves a marker. -/
theorem uninclusion_follows (hv : Visit.fault? o ⟨place, fields, children⟩ =
      if (inclusionArgument fields).isEmpty then none else faultIn (importerPath o place))
    (h : fragmentOf o place fields = none) :
    Follows o place (fun σ run => handleInclusion run place fields (P σ run)) Converted.toList
      { visits := [⟨place, fields, children⟩] } := by
  simp only [fragmentOf] at h
  split at h
  · next hc =>
    rw [Bool.or_eq_true] at hc
    cases hempty : (inclusionArgument fields).isEmpty with
    | true =>
      simp only [hempty, if_true] at hv
      simp only [handleInclusion, hempty, if_true]
      exact ((Follows.pure _).visiting hv).recording _ _
    | false =>
      simp only [hempty, Bool.false_eq_true, if_false, false_or] at hv hc
      let fragment := Path.fragmentPath (inclusionArgument fields) o.fragmentExtension
      refine Follows.congr (fun σ run hrun => ?_) (Follows.checking hv fun importer _ =>
        (Follows.pure (Converted.one (cycleMarker fragment))).recording .warning
          (cycleWarning place fragment importer))
      rw [handleInclusion, hrun]
      simp only [hempty, hc]
      rfl
  · cases h

/-- **An include follows the outline of its fragment**, and mentions it. -/
theorem inclusion_follows (hP : Lists o place children P part inner)
    (hk : kindOf fields = .directive) (h : directiveOf fields = .inclusion) :
    Follows o place (fun σ run => handleInclusion run place fields (P σ run)) Converted.toList
      (directiveOutline o place fields children inner) := by
  have hv := directive_fault? o place children hk
  simp only [directiveFault, h] at hv
  simp only [directiveOutline, h]
  cases hf : fragmentOf o place fields with
  | none => exact uninclusion_follows hv hf
  | some fragment =>
    have hv : Visit.fault? o ⟨place, fields, children⟩ = faultIn (importerPath o place) := by
      rw [hv, if_neg (inclusionArgument_of_fragmentOf hf)]
    obtain ⟨a, ha, hperf⟩ := hP.content fragment
    refine ⟨inclusionAccount o place fragment children a, ?_, fun σ run hrun =>
      inclusion_performs hrun hf (hperf σ run hrun)⟩
    cases ha with
    | stopped f answer first =>
      refine .stopped f (by simp [inclusionAccount, Account.bind, answer, Except.map]) ?_
      rw [Outline.faults, List.filterMap_append, List.head?_append]
      exact Option.or_eq_some_iff.2 (.inl first)
    | completed ns answer faults mentions emissions references =>
      have hcontent := hperf Unit ⟨o, none⟩ rfl
      simp only [hP.content_eq] at hcontent
      have htree := tree_of_performs (d := draftOf place fragment children) hcontent answer
      have hfaults : (inner fragment).visits.filterMap (Visit.fault? o) = [] := faults
      cases himporter : importerPath o place with
      | error f =>
        refine .stopped f (by simp [inclusionAccount, Account.bind, answer, Except.map,
          himporter]) ?_
        simp [Outline.faults, hfaults, hv, himporter, faultIn]
      | ok importer =>
        refine .completed (.one (.flowComponent (Path.fragmentComponent fragment
          o.fragmentExtension) [] [])) ?_ ?_ ?_ ?_ ?_
        · simp only [inclusionAccount, Account.bind, answer, Except.map, himporter]
        · simp [Outline.faults, hfaults, hv, himporter, faultIn]
        · simp [inclusionAccount, Account.bind, answer, Except.map, himporter]
        · simp only [inclusionAccount, Account.bind, answer, Except.map, himporter, emissions,
            List.map_append, List.map_cons, List.map_nil, Draft.emission, htree]
          simp [draftOf, Place.enter]
        · rw [Converted.toList, references_component]
          exact .refl _

end MdxPages.Convert
