import MdxPages.Proofs.Convert.Storage
import MdxPages.Proofs.Convert.Typing
import MdxPages.Proofs.Tree.Preorder

/-!
# Proofs/Convert/Headings — headings are as deep as their sections are nested

Every node that is converted in a file occurs there at the end of a trail: the nodes around it in
the same file, and the list of each in which the next one is.  The trail alone says how deep a
heading is, one level for each section that it enters other than through the title.  The headings
of a file are, in their order, those that its sections and its headings make
(`headings_of_convertPage`).
-/

namespace MdxPages

/-- Whether a node is a heading. -/
def Node.isHeading : Node → Bool
  | heading .. => true
  | _ => false

namespace Source

/-- The children of a node, none of a stray. -/
def inside : Source → List Source
  | stray _ => []
  | node _ children _ _ => children

/-- What is in the first title among siblings. -/
def titleContent (ss : List Source) : List Source :=
  (ss.find? fun s => isTitle s.fields).elim [] inside

/-- The depth that a value states, if it is a finite number; fractions are dropped. -/
def statedDepth? (v : Value) : Option Int :=
  match v.num? with
  | some (.int i) => some i
  | some (.float (.finite s m e)) => some (Double.truncate s m e)
  | _ => none

end Source

namespace Convert

open MdxPages.Source

/-! ## Occurrences

A trail is read from the node outwards.  It stays within the file, so the nodes around an include
are in no trail of its content. -/

/-- A node around others, and the list of it that the way to them goes through. -/
structure Step where
  fields : Entries Value
  part : Part

/-- Whether a step leads into a section, other than into its title. -/
def Step.deepens (step : Step) : Bool :=
  match kindOf step.fields, step.part with
  | .sectionBlock, .title => false
  | .sectionBlock, _ => true
  | _, _ => false

/-- The number of sections that a trail leads into, other than into their titles. -/
def levelOf (trail : List Step) : Nat :=
  trail.countP Step.deepens

/-- A node that is converted in a file, and the trail to it from the top of the file. -/
structure Occurrence where
  trail : List Step
  fields : Entries Value
  children : List Source

mutual

/-- The occurrences in a tree at the end of a trail. -/
def occurrences (trail : List Step) : Source → List Occurrence
  | .stray _ => []
  | .node fields children term argument =>
    ⟨trail, fields, children⟩ :: (partsOf (kindOf fields) fields children).flatMap fun part =>
      let trail := trail ++ [⟨fields, part⟩]
      match part with
      | .children | .lines => occurrencesAll trail children
      | .term => occurrencesAll trail term
      | .argument => occurrencesAll trail argument
      | .title => occurrencesTitle trail children
      | .body => occurrencesBody trail false children

/-- The occurrences in sibling trees. -/
def occurrencesAll (trail : List Step) : List Source → List Occurrence
  | [] => []
  | s :: ss => occurrences trail s ++ occurrencesAll trail ss

/-- The occurrences in the first title among siblings. -/
def occurrencesTitle (trail : List Step) : List Source → List Occurrence
  | [] => []
  | .stray _ :: ss => occurrencesTitle trail ss
  | .node fields children _ _ :: ss =>
    if isTitle fields then occurrencesAll trail children else occurrencesTitle trail ss

/-- The occurrences in sibling trees without the first title among them. -/
def occurrencesBody (trail : List Step) (passed : Bool) : List Source → List Occurrence
  | [] => []
  | s :: ss =>
    if !passed && isTitle s.fields then occurrencesBody trail true ss
    else occurrences trail s ++ occurrencesBody trail passed ss

end

/-! ## The headings of a file

The right side of the main statement: the occurrences of a file in their order, and the heading that
each makes, if it makes one. -/

/-- What siblings convert to at a section depth, nothing if a fault stops the conversion. -/
def converted (o : ConversionOptions) (place : Place) (depth : Int) (ss : List Source) :
    List Node :=
  match (convertAll (⟨o, none⟩ : Run Unit) place depth ss ⟨{}, (), []⟩).1 with
  | .ok ns => ns
  | .error _ => []

namespace Occurrence

/-- The number of sections around an occurrence, those left out in whose titles it is. -/
def level (x : Occurrence) : Nat :=
  levelOf x.trail

/-- The depth of the heading that an occurrence makes, and what is in the heading.  The title of a
section is as deep as the section, whatever it states; any other heading is as deep as it states,
within 1 and the limit, or else as deep as it is nested. -/
def heading? (limit : Int) (x : Occurrence) : Option (Int × List Source) :=
  let nested := min ((x.level : Int) + 1) limit
  match kindOf x.fields with
  | .sectionBlock =>
    if hasTitle x.children then some (nested, titleContent x.children) else none
  | .heading =>
    let depth :=
      match statedDepth? (Value.field "depth" x.fields) with
      | some stated => max 1 (min stated limit)
      | none => nested
    some (depth, x.children)
  | _ => none

/-- The heading that an occurrence in the file of a place makes. -/
def heading (o : ConversionOptions) (limit : Int) (place : Place) (x : Occurrence) : Option Node :=
  (x.heading? limit).map fun (depth, ss) =>
    .heading (.int depth) (converted o place ((x.level : Int) + 1) ss)

end Occurrence

namespace Draft

/-- The occurrences in the file of a draft. -/
def occurrences (d : Draft) : List Occurrence :=
  occurrencesAll [] d.content

/-- The headings that the nodes of a draft make, in order. -/
def headings (o : ConversionOptions) (limit : Int) (d : Draft) : List Node :=
  d.occurrences.filterMap (Occurrence.heading o limit d.place)

end Draft

end Convert

/-! ## Headings among siblings

Headings are looked for throughout a tree, and stay where they are when inline runs are wrapped. -/

namespace Node

/-- The headings in sibling trees, in document order. -/
def headingsIn (ns : List Node) : List Node :=
  (preorders ns).filter isHeading

variable {n : Node} {ns ms : List Node}

@[simp] theorem headingsIn_nil : headingsIn [] = [] := rfl

@[simp] theorem headingsIn_append (ns ms : List Node) :
    headingsIn (ns ++ ms) = headingsIn ns ++ headingsIn ms := by
  rw [headingsIn, preorders_append, List.filter_append]
  rfl

/-- The headings in a tree are the tree itself, if it is one, and those in its children. -/
theorem headingsIn_singleton (n : Node) :
    headingsIn [n] = (if n.isHeading then [n] else []) ++ headingsIn n.children := by
  rw [headingsIn, preorders, preorder_eq, preorders, List.append_nil, List.filter_cons]
  split <;> rfl

/-- A node that is no heading has the headings of its children. -/
theorem headingsIn_around (h : n.isHeading = false) : headingsIn [n] = headingsIn n.children := by
  rw [headingsIn_singleton, h]
  rfl

theorem headingsIn_cons_of_leaf (h : n.isHeading = false) (hn : n.children = []) :
    headingsIn (n :: ns) = headingsIn ns := by
  rw [← List.singleton_append, headingsIn_append, headingsIn_around h, hn]
  rfl

/-- Leaves that are no headings have none in them. -/
theorem headingsIn_leaves (h : ∀ n ∈ ns, n.isHeading = false ∧ n.children = []) :
    headingsIn ns = [] := by
  induction ns with
  | nil => rfl
  | cons n ns ih =>
    obtain ⟨hn, hns⟩ := List.forall_mem_cons.1 h
    rw [headingsIn_cons_of_leaf hn.1 hn.2, ih hns]

/-- Collecting the headings of a tree is looking through its children. -/
theorem collect_isHeading (h : n.isHeading = false) :
    n.collect isHeading = headingsIn n.children := by
  rw [collect, preorder_eq, List.filter_cons, h]
  rfl

/-- Normalizing a node neither makes a heading of it nor unmakes one. -/
theorem isHeading_normalize (n : Node) : n.normalize.isHeading = n.isHeading := by
  cases n <;> rfl

theorem normalize_normalize (n : Node) : n.normalize.normalize = n.normalize :=
  normalize_eq_self _ (isNormal_normalize n)

mutual

/-- All nodes of a normal tree are normal. -/
theorem isNormal_of_mem_preorder (n : Node) (h : n.IsNormal) : ∀ m ∈ n.preorder, m.IsNormal := by
  rw [forall_preorder_iff]
  refine ⟨h, ?_⟩
  match n with
  | root cs | blockquote cs | list _ _ cs | listItem cs | footnoteDefinition _ _ cs
  | flowComponent _ _ cs => exact isNormal_of_mem_preorders cs h.2
  | heading _ cs | paragraph cs | emphasis cs | strong cs | link _ cs | textComponent _ _ cs =>
    exact isNormal_of_mem_preorders cs h
  | code .. | thematicBreak | html _ | yaml _ | imports _ | text _ | inlineCode _ | lineBreak
  | footnoteReference .. => exact List.forall_mem_nil _

theorem isNormal_of_mem_preorders (ns : List Node) (h : AllNormal ns) :
    ∀ m ∈ preorders ns, m.IsNormal := by
  match ns with
  | [] => exact List.forall_mem_nil _
  | n :: ns =>
    rw [preorders, List.forall_mem_append]
    exact ⟨isNormal_of_mem_preorder n h.1, isNormal_of_mem_preorders ns h.2⟩

end

/-- **The headings of a wrapped tree are those of the tree**, each of them wrapped. -/
theorem headingsIn_wrapInlineRuns (ns : List Node) :
    headingsIn (wrapInlineRuns ns) = (headingsIn ns).map normalize := by
  let f (n : Node) : Option Node := if n.isHeading then some n.normalize else none
  have hmap (ms : List Node) : (headingsIn ms).map normalize = (preorders ms).filterMap f := by
    rw [headingsIn, ← List.filterMap_eq_map, List.filterMap_filter]
    rfl
  -- in a wrapped tree every node is wrapped already
  have hself : ∀ n ∈ headingsIn (wrapInlineRuns ns), n.normalize = n := fun n hn =>
    normalize_eq_self n
      (isNormal_of_mem_preorders _ (isNormal_root_wrapInlineRuns ns).2 n (List.mem_filter.1 hn).1)
  calc headingsIn (wrapInlineRuns ns)
      = (headingsIn (wrapInlineRuns ns)).map normalize := by
        rw [List.map_congr_left hself, List.map_id']
    _ = (preorders (wrapInlineRuns ns)).filterMap f := hmap _
    _ = (preorders ns).filterMap f :=
        filterMap_preorders_wrapInlineRuns (fun _ => rfl) (fun n => by
          simp only [f, isHeading_normalize, normalize_normalize]) ns
    _ = (headingsIn ns).map normalize := (hmap ns).symm

end Node

namespace Convert

open MdxPages.Source Node

variable {σ : Type} {run : Run σ} {I : σ → Prop} {o : ConversionOptions} {place : Place}
  {depth limit : Int} {fields : Entries Value} {children : List Source} {parts : Parts σ}
  {hs hs' : List Node} {made : Part → List Node}

/-! ## Conversions that make headings

`Heads` is a promise about a conversion, so the rules for promises apply.  It says the headings of
the answer, and allows for any fault. -/

/-- The headings in what a conversion gives are the given ones. -/
def Heads (I : σ → Prop) (hs : List Node) (x : Conversion σ (List Node)) : Prop :=
  Meets I (fun _ => True) (fun ns => headingsIn ns = hs) x

/-- The same of what a node converts to. -/
def HeadsOnce (I : σ → Prop) (hs : List Node) (x : Conversion σ Converted) : Prop :=
  Meets I (fun _ => True) (fun c => headingsIn c.toList = hs) x

/-- Nodes put into one more node, which is no heading, keep their headings. -/
theorem Heads.one {x : Conversion σ (List Node)} (h : Heads I hs x) {g : List Node → Node}
    (hg : ∀ ns, (g ns).isHeading = false ∧ (g ns).children = ns) :
    HeadsOnce I hs (x >>= fun ns => pure (.one (g ns))) :=
  h.map fun ns hns => by
    rw [Converted.toList, headingsIn_around (hg ns).1, (hg ns).2, hns]

/-- Nodes left in their own place keep their headings. -/
theorem Heads.several {x : Conversion σ (List Node)} (h : Heads I hs x) :
    HeadsOnce I hs (x >>= fun ns => pure (.several ns)) :=
  h.map fun _ hns => hns

/-- One list after the other gives the headings of both. -/
theorem Heads.append {x y : Conversion σ (List Node)} (hx : Heads I hs x) (hy : Heads I hs' y) :
    Heads I (hs ++ hs') (x >>= fun ns => y >>= fun ms => pure (ns ++ ms)) :=
  hx.bind fun ns hns => hy.map fun ms hms => by rw [headingsIn_append, hns, hms]

/-- A leaf that is no heading gives none. -/
theorem HeadsOnce.leaf {n : Node} (h : n.isHeading = false) (hn : n.children = []) :
    HeadsOnce I [] (pure (.one n) : Conversion σ Converted) :=
  .pure (headingsIn_cons_of_leaf h hn)

/-- A node without children, with a record about it. -/
theorem HeadsOnce.recorded {n : Node} (level : Level) (message : String)
    (h : n.isHeading = false) (hn : n.children = []) :
    HeadsOnce I []
      (record level message >>= fun _ => pure (.one n) : Conversion σ Converted) :=
  (Meets.record (P := fun _ => True) level message trivial).bind fun _ _ => leaf h hn

/-- A heading around what a conversion gives, of which the answer is known. -/
theorem Heads.heading {x : Conversion σ (List Node)} {ms : List Node} (depth : Number)
    (h : Heads I hs x) (hx : ∀ s ns, (x s).1 = .ok ns → ns = ms) :
    Meets I (fun _ => True)
      (fun ns => headingsIn [.heading depth ns] = .heading depth ms :: hs) x := by
  intro s hI
  obtain ⟨hkept, hanswer⟩ := h s hI
  refine ⟨hkept, ?_⟩
  cases hns : (x s).1 with
  | error f => trivial
  | ok ns =>
    rw [hns] at hanswer
    change headingsIn _ = _
    rw [headingsIn_singleton, hx s ns hns]
    exact congrArg _ (hx s ns hns ▸ hanswer)

theorem promised_eq {α : Type} (e : Except Fault α) :
    Promised (fun _ => True) (fun v => e = .ok v) e := by
  cases e with
  | ok v => exact rfl
  | error f => trivial

/-! ## Depths

The depth that a node states comes before that of its section, and the limit of the options over
both. -/

/-- The depth that a heading asks for, if it asks for one that can be had: the one that it states,
or else that of its section. -/
theorem headingDepth_eq_ok {v : Value} {wanted : Int} (h : headingDepth depth v = .ok wanted) :
    wanted = (statedDepth? v).getD depth := by
  match v with
  | .null | .bool _ | .str _ | .arr _ | .obj _ | .num (.int _) | .num (.float (.finite ..)) =>
    cases h
    rfl
  | .num (.float (.infinite _)) | .num (.float .nan) => cases h
  | .foreign x => cases x <;> cases h <;> rfl

/-! ## Answers -/

/-- What siblings convert to is always the same. -/
theorem eq_converted {ss : List Source} {s : Session σ} {ns : List Node}
    (h : (convertAll run place depth ss s).1 = .ok ns) :
    ns = converted run.options place depth ss := by
  obtain ⟨a, -, hperforms⟩ := convertAll_follows run.options place depth ss
  have hanswer := (hperforms σ run rfl s).1.symm.trans h
  rw [converted, (hperforms Unit ⟨run.options, none⟩ rfl ⟨{}, (), []⟩).1, hanswer]

/-- A title is converted as the siblings in it are. -/
theorem convertTitle_eq (run : Run σ) (place : Place) (depth : Int) (ss : List Source) :
    convertTitle run place depth ss = convertAll run place depth (titleContent ss) := by
  induction ss with
  | nil => rw [convertTitle, titleContent, List.find?_nil, Option.elim_none, convertAll]
  | cons s ss ih =>
    cases s with
    | stray v =>
      rw [convertTitle, ih]
      rfl
    | node fields children term argument =>
      rw [convertTitle, titleContent, List.find?_cons, Source.fields]
      cases isTitle fields with
      | true => rfl
      | false => exact ih

/-! ## Handlers

One lemma for each kind of handler.  The lists of a node come with their headings, and a handler
adds at most its own. -/

/-- The conversion of one of the lists of a node. -/
@[simp] def Parts.part (parts : Parts σ) : Part → Conversion σ (List Node)
  | .children => parts.children
  | .term => parts.term
  | .argument => parts.argument
  | .title => parts.title
  | .body => parts.body
  | .lines => parts.lines

/-- The lists that a node has converted give the headings `made`, what its title and its children
convert to is known, and the emitter may be handed the fragment that it includes. -/
structure Parts.Make (run : Run σ) (I : σ → Prop) (place : Place) (depth : Int)
    (fields : Entries Value) (children : List Source) (made : Part → List Node)
    (parts : Parts σ) : Prop where
  part : ∀ p ∈ partsOf (kindOf fields) fields children, Heads I (made p) (parts.part p)
  title_eq : ∀ s ns, (parts.title s).1 = .ok ns →
    ns = converted run.options place depth (titleContent children)
  children_eq : ∀ s ns, (parts.children s).1 = .ok ns →
    ns = converted run.options place depth children
  fragment : kindOf fields = .directive → directiveOf fields = .inclusion → ∀ fragment,
    fragmentOf run.options place fields = some fragment →
      Meets I (fun _ => True)
        (fun tree => ∀ kept, I kept → I (deliver run.emitter kept (fragment, tree)))
        (fragmentTree place fragment parts.content)

/-- The limit of headings is a whole number from 1 on. -/
structure Run.WholeLimit (run : Run σ) (limit : Int) : Prop where
  bound : run.options.headingLimit = .int limit
  one : 1 ≤ limit

/-- **An include gives its file no heading**: those of its content are in the fragment. -/
theorem handleInclusion_headings
    (h : ∀ fragment, fragmentOf run.options place fields = some fragment →
      Meets I (fun _ => True)
        (fun tree => ∀ kept, I kept → I (deliver run.emitter kept (fragment, tree)))
        (fragmentTree place fragment parts.content)) :
    HeadsOnce I [] (handleInclusion run place fields parts) := by
  unfold handleInclusion
  refine Meets.ite (fun _ => ?_) fun hargument => ?_
  · exact HeadsOnce.recorded _ _ rfl rfl
  refine Meets.ite (fun _ => ?_) fun hcycle => ?_
  · exact (Meets.lift (promised_trivial _)).bind fun _ _ => HeadsOnce.recorded _ _ rfl rfl
  · refine (h _ (by simp [fragmentOf, hargument, hcycle])).bind fun tree htree => ?_
    refine (Meets.emitting (P := fun _ => True) htree trivial).bind fun _ _ => ?_
    refine (Meets.lift (promised_trivial _)).bind fun _ _ => ?_
    refine (Meets.registerImport (P := fun _ => True) _ _ trivial).bind fun _ _ => ?_
    exact HeadsOnce.leaf rfl rfl

/-- A figure gives no heading. -/
theorem handleFigure_headings : HeadsOnce I [] (handleFigure run place fields children) := by
  unfold handleFigure
  refine Meets.ite (fun _ => ?_) fun _ => ?_
  · exact HeadsOnce.recorded _ _ rfl rfl
  · refine (Meets.lift (promised_trivial _)).bind fun _ _ => ?_
    refine (Meets.registerImport (P := fun _ => True) _ _ trivial).bind fun _ _ => ?_
    exact (Meets.lift (promised_trivial _)).bind fun _ _ => HeadsOnce.leaf rfl rfl

/-- Other directives give the headings of their lists. -/
theorem handleDirective_headings
    (h : ∀ p ∈ directiveParts fields, Heads I (made p) (parts.part p))
    (hgeneric : directiveOf fields = .generic) :
    HeadsOnce I ((directiveParts fields).flatMap made) (handleDirective run fields parts) := by
  have hchildren (lead : List Node) (hlead : Heads I lead (directiveLead fields parts))
      (hmem : Part.children ∈ directiveParts fields) :
      HeadsOnce I (lead ++ made .children) (handleDirective run fields parts) := by
    refine Meets.bind hlead fun ns hns => (h _ hmem).map fun ms hms => ?_
    rw [← hns, ← hms, ← headingsIn_append]
    unfold directiveComponent
    split
    · next hempty =>
      simp only [Bool.and_eq_true, List.isEmpty_iff] at hempty
      rw [hempty.1.2]
      rfl
    · exact headingsIn_around rfl
  cases hcondition : hasCondition fields with
  | true =>
    have hparts : directiveParts fields = [.children] := by
      simp only [directiveParts, hgeneric, hcondition, if_true]
    rw [hparts] at hchildren ⊢
    have hlead : Heads I [] (directiveLead fields parts) := by
      simp only [directiveLead, hcondition, if_true]
      exact .pure rfl
    simpa using hchildren [] hlead
  | false =>
    cases hargument : Value.field "argument" fields with
    | arr items =>
      have hparts : directiveParts fields = [.argument, .children] := by
        simp [directiveParts, hgeneric, hcondition, hargument]
      rw [hparts] at h hchildren ⊢
      have hlead : Heads I (made .argument) (directiveLead fields parts) := by
        simpa [directiveLead, hcondition, hargument] using h .argument (by simp)
      simpa using hchildren _ hlead
    | _ =>
      have hparts : directiveParts fields = [.children] := by
        simp [directiveParts, hgeneric, hcondition, hargument]
      rw [hparts] at hchildren ⊢
      have hlead : Heads I [] (directiveLead fields parts) := by
        simp only [directiveLead, hcondition, hargument]
        exact .pure (by split <;> rfl)
      simpa using hchildren [] hlead

/-- A section with a title starts with a heading around it, at the depth of the section. -/
theorem sectionNodes_headings
    (h : parts.Make run I place depth fields children made)
    (hkind : kindOf fields = .sectionBlock) :
    Heads I ((if hasTitle children then
        [Node.heading (clampDepth run.options depth)
          (converted run.options place depth (titleContent children))] else []) ++
        (partsOf .sectionBlock fields children).flatMap made)
      (sectionNodes run depth children parts) := by
  have hpart := h.part
  rw [hkind] at hpart
  simp only [partsOf, sectionNodes] at hpart ⊢
  cases htitle : hasTitle children with
  | true =>
    simp only [htitle, if_true] at hpart ⊢
    have hheading := (hpart .title (by simp)).heading (clampDepth run.options depth) h.title_eq
    refine Meets.bind hheading fun ns hns => (hpart .body (by simp)).map fun ms hms => ?_
    rw [headingsIn_append, hns, hms]
    simp
  | false =>
    simp only [htitle] at hpart ⊢
    refine (hpart .body (by simp)).map fun ms hms => ?_
    simpa using hms

theorem headingsIn_anchorNodes (ids : List Value) : headingsIn (anchorNodes ids).toList = [] := by
  have hanchors : headingsIn (anchors ids) = [] := by
    refine headingsIn_leaves fun n hn => ?_
    obtain ⟨id, -, hid⟩ := List.mem_filterMap.1 hn
    split at hid
    · cases hid
    · cases hid
    · obtain rfl := Option.some.inj hid
      exact ⟨rfl, rfl⟩
  unfold anchorNodes
  split
  · rfl
  · exact hanchors

/-- A role gives the headings of its children. -/
theorem handleRole_headings (h : Heads I hs parts.children) :
    HeadsOnce I hs (handleRole fields parts) := by
  refine Meets.map h fun ns hns => (headingsIn_around rfl).trans ?_
  simp only [Node.children]
  split
  · next hempty =>
    rw [Bool.and_eq_true, List.isEmpty_iff] at hempty
    rw [← hns, hempty.1]
    rfl
  · exact hns

/-- A footnote gives the headings of its children. -/
theorem handleFootnote_headings (h : Heads I hs parts.children) :
    HeadsOnce I hs (handleFootnote fields parts) := by
  unfold handleFootnote
  exact Meets.ite (fun _ => h.several) fun _ => h.one fun _ => ⟨rfl, rfl⟩

theorem headingsIn_footnoteReferenceOf (fields : Entries Value) :
    headingsIn (footnoteReferenceOf fields).toList = [] := by
  simp only [footnoteReferenceOf]
  split <;> rfl

/-- A node of an unknown kind gives the headings of its lists. -/
theorem handleUnknown_headings
    (h : ∀ p ∈ partsOf .unknown fields children, Heads I (made p) (parts.part p)) :
    HeadsOnce I ((partsOf .unknown fields children).flatMap made)
      (handleUnknown fields children parts) := by
  simp only [partsOf, handleUnknown] at h ⊢
  cases hempty : children.isEmpty with
  | true => exact HeadsOnce.recorded _ _ rfl rfl
  | false =>
    simp only [hempty] at h
    simpa using (h .children (by simp)).several

/-- A section is never too shallow for a heading. -/
theorem clampDepth_level (hrun : run.WholeLimit limit) (x : Occurrence) :
    clampDepth run.options (x.level + 1) = .int (min (x.level + 1) limit) := by
  have hone := hrun.one
  rw [clampDepth_eq hrun.bound]
  exact congrArg _ (by omega)

/-- A heading is as deep as it states, or else as its section. -/
theorem clampDepth_of_headingDepth (hrun : run.WholeLimit limit) (x : Occurrence) {v : Value}
    {wanted : Int} (h : headingDepth (x.level + 1) v = .ok wanted) :
    clampDepth run.options wanted =
      .int (match statedDepth? v with
        | some stated => max 1 (min stated limit)
        | none => min (x.level + 1) limit) := by
  rw [headingDepth_eq_ok h]
  cases statedDepth? v with
  | some stated => exact clampDepth_eq hrun.bound stated
  | none => exact clampDepth_level hrun x

/-- **A node makes its own heading, and then those of its lists.** -/
theorem handle_headings (hrun : run.WholeLimit limit) (x : Occurrence)
    (h : parts.Make run I place (x.level + 1) x.fields x.children made) :
    HeadsOnce I ((x.heading run.options limit place).toList ++
        (partsOf (kindOf x.fields) x.fields x.children).flatMap made)
      (handle run place (x.level + 1) (kindOf x.fields) x.fields x.children parts) := by
  have hpart := h.part
  have hlist {p : Part} (hparts : partsOf (kindOf x.fields) x.fields x.children = [p]) :
      Heads I ((none : Option Node).toList ++ [p].flatMap made) (parts.part p) := by
    simpa using hpart p (by simp [hparts])
  unfold Occurrence.heading Occurrence.heading?
  cases hkind : kindOf x.fields with
  | text | line | literal | code | transition => exact .leaf rfl rfl
  | dropped => exact .pure rfl
  | target | inlineTarget => exact .pure (headingsIn_anchorNodes _)
  | footnoteReference => exact .pure (headingsIn_footnoteReferenceOf _)
  | paragraph | emphasis | titleReference | strong | listItem | blockQuote | bulletList
  | fieldList | definitionList | tabs | methodSelector | admonition | tablePart | field | cardGroup
  | ctaBanner | only | superscript | subscript | substitution | lineBlock =>
    have hone := hlist (by rw [hkind]; rfl)
    refine hone.one fun _ => ?_
    exact ⟨rfl, rfl⟩
  | transparent => exact (hlist (by rw [hkind]; rfl)).several
  | enumeratedList =>
    have hone := hlist (by rw [hkind]; rfl)
    exact (Meets.lift (promised_trivial _)).bind fun _ _ => hone.one fun _ => ⟨rfl, rfl⟩
  | list =>
    have hone := hlist (by rw [hkind]; rfl)
    refine Meets.ite (fun _ => ?_) fun _ => hone.one fun _ => ⟨rfl, rfl⟩
    exact (Meets.lift (promised_trivial _)).bind fun _ _ => hone.one fun _ => ⟨rfl, rfl⟩
  | reference | refRole =>
    have hone := hlist (by rw [hkind]; rfl)
    exact Meets.ite (fun _ => hone.one fun _ => ⟨rfl, rfl⟩) fun _ => hone.several
  | role => exact handleRole_headings (hlist (by rw [hkind]; rfl))
  | footnote => exact handleFootnote_headings (hlist (by rw [hkind]; rfl))
  | definitionListItem =>
    rw [hkind] at hpart
    refine (hpart .term (by simp [partsOf])).bind fun term hterm =>
      (hpart .children (by simp [partsOf])).map fun ns hns => (headingsIn_around rfl).trans ?_
    simp [Node.children, hterm, hns, partsOf]
  | unknown =>
    rw [hkind] at hpart
    exact handleUnknown_headings hpart
  | sectionBlock =>
    have hsection := (sectionNodes_headings h hkind).several
    rw [clampDepth_level hrun] at hsection
    simp only
    split
    · next htitle =>
      rw [if_pos htitle] at hsection
      exact hsection
    · next htitle =>
      rw [if_neg htitle] at hsection
      exact hsection
  | heading =>
    have hinside := hpart .children (by simp [hkind, partsOf])
    refine (Meets.lift (promised_eq _)).bind fun wanted hwanted => ?_
    have hheading := hinside.heading (clampDepth run.options wanted) h.children_eq
    rw [clampDepth_of_headingDepth hrun x hwanted] at hheading ⊢
    exact hheading.map fun ns hns => hns.trans (by simp [partsOf])
  | directive =>
    rw [hkind] at hpart
    simp only [partsOf] at hpart ⊢
    simp only [handle]
    cases hdirective : directiveOf x.fields with
    | generic => exact handleDirective_headings hpart hdirective
    | metadata =>
      simp only [directiveParts, hdirective]
      exact (Meets.addMetadata (P := fun _ => True) _ trivial).bind fun _ _ => .pure rfl
    | figure =>
      simp only [directiveParts, hdirective]
      exact handleFigure_headings
    | literalInclude =>
      simp only [directiveParts, hdirective]
      exact .leaf rfl rfl
    | inclusion =>
      simp only [directiveParts, hdirective]
      exact handleInclusion_headings (h.fragment hkind hdirective)

/-! ## The pass

The induction is on the source, with the trail and its level as parameters: a list of a node is
looked through at the end of a longer trail. -/

/-- The emitter may be handed what a fragment comes out as, if it comes out. -/
def Takes (run : Run σ) (I : σ → Prop) (f : Draft) : Prop :=
  f.Faultless run.options → ∀ kept, I kept → I (deliver run.emitter kept (f.emission run.options))

/-- The headings that some occurrences in the file of a place make. -/
def headingsOf (o : ConversionOptions) (limit : Int) (place : Place) (xs : List Occurrence) :
    List Node :=
  xs.filterMap (Occurrence.heading o limit place)

/-- Occurrences in sequence make headings in sequence. -/
theorem headingsOf_append (o : ConversionOptions) (limit : Int) (place : Place)
    (xs ys : List Occurrence) :
    headingsOf o limit place (xs ++ ys) =
      headingsOf o limit place xs ++ headingsOf o limit place ys :=
  List.filterMap_append

theorem mem_fragments_partsOutline {part : Part → Outline} {ps : List Part} {p : Part} {f : Draft}
    (hp : p ∈ ps) (hf : f ∈ (part p).fragments) : f ∈ (partsOutline part ps).fragments := by
  induction ps with
  | nil => cases hp
  | cons q ps ih =>
    cases ps with
    | nil =>
      obtain rfl := List.mem_singleton.1 hp
      exact hf
    | cons r ps =>
      rw [partsOutline, Outline.fragments_append, List.mem_append]
      · obtain rfl | hp := List.mem_cons.1 hp
        · exact .inl hf
        · exact .inr (ih hp)
      · simp

/-- A directive has no other lists converted than its argument and its children. -/
theorem mem_directiveParts {p : Part} (h : p ∈ directiveParts fields) :
    p = .argument ∨ p = .children := by
  unfold directiveParts at h
  split at h
  · split at h
    · simp_all
    · split at h <;> simp_all
  · cases h

/-- By how many levels a list that a node has converted is further in than the node. -/
def Part.levels : Part → Nat
  | .body => 1
  | _ => 0

/-- Of the lists that a node has converted, only the body of a section is a level further in. -/
theorem levelOf_step (trail : List Step) {p : Part}
    (hp : p ∈ partsOf (kindOf fields) fields children) :
    levelOf (trail ++ [⟨fields, p⟩]) = levelOf trail + p.levels := by
  rw [levelOf, List.countP_append, List.countP_singleton, ← levelOf, Step.deepens]
  refine congrArg _ ?_
  generalize kindOf fields = kind at hp
  cases kind with
  | directive =>
    obtain rfl | rfl := mem_directiveParts hp <;> rfl
  | sectionBlock =>
    simp only [partsOf] at hp
    split at hp <;> cases p <;> simp_all [Part.levels]
  | _ => cases p <;> simp_all [partsOf, Part.levels]

/-- A node has its own occurrence, and then those in its lists. -/
theorem headingsOf_node (o : ConversionOptions) (limit : Int) (place : Place) (trail : List Step)
    (fields : Entries Value) (children term argument : List Source) :
    headingsOf o limit place (occurrences trail (.node fields children term argument)) =
      (Occurrence.heading o limit place ⟨trail, fields, children⟩).toList ++
        (partsOf (kindOf fields) fields children).flatMap fun part =>
          headingsOf o limit place
            (let trail := trail ++ [⟨fields, part⟩]
            match part with
            | .children | .lines => occurrencesAll trail children
            | .term => occurrencesAll trail term
            | .argument => occurrencesAll trail argument
            | .title => occurrencesTitle trail children
            | .body => occurrencesBody trail false children) := by
  rw [occurrences, headingsOf, List.filterMap_cons, List.filterMap_flatMap]
  cases Occurrence.heading o limit place ⟨trail, fields, children⟩ <;> rfl

/-- A node before others makes its headings before theirs. -/
theorem HeadsOnce.cons {x : Conversion σ Converted} {y : Conversion σ (List Node)}
    {g : List Node → List Node} (hx : HeadsOnce I hs x) (hy : Heads I hs' y)
    (hg : ∀ ns, headingsIn (g ns) = headingsIn ns) :
    Heads I (hs ++ hs') (x >>= fun first => y >>= fun ns => pure (first.toList ++ g ns)) :=
  hx.bind fun first hfirst => hy.map fun ns hns => by
    rw [headingsIn_append, hfirst, hg, hns]

theorem HeadsOnce.toList {x : Conversion σ Converted} (h : HeadsOnce I hs x) :
    Heads I hs (x >>= fun only => pure only.toList) :=
  h.map fun _ honly => honly

/-- The fragment of an include may be handed to the emitter, if what is in it may. -/
theorem fragmentTree_deliverable {fragment : String}
    (hcontent : Heads I hs (convertContent run (place.enter fragment) children))
    (htakes : Takes run I (draftOf place fragment children)) :
    Meets I (fun _ => True)
      (fun tree => ∀ kept, I kept → I (deliver run.emitter kept (fragment, tree)))
      (fragmentTree place fragment fun place => convertContent run place children) := by
  intro s hI
  have hinside := (hcontent { s with file := {} } hI).1
  rw [convertContent_eq] at hinside
  simp only [fragmentTree, inNewFile, bind_apply, get_apply, pure_apply, convertContent_eq]
  generalize h : convertAll run (place.enter fragment) 1 (includedContent children)
    { s with file := {} } = p at hinside
  obtain ⟨f | ns, s'⟩ := p
  · exact ⟨hinside, trivial⟩
  · obtain ⟨hdraft, rfl, hfile⟩ :=
      Draft.faultless_of_convertAll (d := draftOf place fragment children) rfl h
    refine ⟨hinside, fun kept hkept => ?_⟩
    have hhanded := htakes hdraft kept hkept
    rw [Draft.emission, Draft.tree, ← hfile] at hhanded
    exact hhanded

mutual

/-- **The headings of what a node converts to** are those that the occurrences in it make. -/
theorem convertNode_headings (hrun : run.WholeLimit limit) (place : Place)
    {trail : List Step} {level : Nat} (hlevel : levelOf trail = level) (s : Source)
    (htakes : ∀ f ∈ (outline run.options place s).fragments, Takes run I f) :
    HeadsOnce I (headingsOf run.options limit place (occurrences trail s))
      (convertNode run place (level + 1) s) := by
  match s with
  | .stray v =>
    rw [convertNode, occurrences]
    exact (Meets.record (P := fun _ => True) _ _ trivial).bind fun _ _ => .pure rfl
  | .node fields children term argument =>
    rw [outline, Outline.fragments_append] at htakes
    rw [convertNode, headingsOf_node, ← hlevel]
    refine handle_headings hrun ⟨trail, fields, children⟩
      { part := fun p hp => ?_
        title_eq := fun s ns h => eq_converted (convertTitle_eq run place _ children ▸ h)
        children_eq := fun s ns h => eq_converted h
        fragment := fun hkind hdirective fragment hfragment => ?_ }
    · have hlevel := levelOf_step trail hp
      have hinner {f : Draft} hf :=
        htakes f (List.mem_append_right _ (mem_fragments_partsOutline hp hf))
      cases p with
      | children => exact convertAll_headings hrun place hlevel children fun _ => hinner
      | lines => exact convertLines_headings hrun place hlevel children fun _ => hinner
      | term => exact convertAll_headings hrun place hlevel term fun _ => hinner
      | argument => exact convertAll_headings hrun place hlevel argument fun _ => hinner
      | title => exact convertTitle_headings hrun place hlevel children fun _ => hinner
      | body => exact convertBody_headings hrun place hlevel false children fun _ => hinner
    · rw [hkind, ownOutline, directiveOutline, hdirective, hfragment] at htakes
      simp only [List.forall_mem_append, List.forall_mem_singleton] at htakes
      exact fragmentTree_deliverable
        (convertContent_headings hrun (place.enter fragment) children htakes.1.1) htakes.1.2

/-- **The headings of what siblings convert to** are those that their occurrences make, if the
emitter may be handed the fragments on the way. -/
theorem convertAll_headings (hrun : run.WholeLimit limit) (place : Place)
    {trail : List Step} {level : Nat} (hlevel : levelOf trail = level) (ss : List Source)
    (htakes : ∀ f ∈ (outlineAll run.options place ss).fragments, Takes run I f) :
    Heads I (headingsOf run.options limit place (occurrencesAll trail ss))
      (convertAll run place (level + 1) ss) := by
  match ss with
  | [] =>
    rw [convertAll]
    exact .pure rfl
  | s :: ss =>
    rw [outlineAll, Outline.fragments_append, List.forall_mem_append] at htakes
    rw [convertAll, occurrencesAll, headingsOf_append]
    exact (convertNode_headings hrun place hlevel s htakes.1).cons
      (convertAll_headings hrun place hlevel ss htakes.2) fun _ => rfl

/-- …of the first title among siblings. -/
theorem convertTitle_headings (hrun : run.WholeLimit limit) (place : Place)
    {trail : List Step} {level : Nat} (hlevel : levelOf trail = level) (ss : List Source)
    (htakes : ∀ f ∈ (outlineTitle run.options place ss).fragments, Takes run I f) :
    Heads I (headingsOf run.options limit place (occurrencesTitle trail ss))
      (convertTitle run place (level + 1) ss) := by
  match ss with
  | [] =>
    rw [convertTitle]
    exact .pure rfl
  | .stray v :: ss =>
    rw [outlineTitle] at htakes
    rw [convertTitle, occurrencesTitle]
    exact convertTitle_headings hrun place hlevel ss htakes
  | .node fields children term argument :: ss =>
    rw [outlineTitle] at htakes
    rw [convertTitle, occurrencesTitle]
    split at htakes
    · next h =>
      rw [if_pos h, if_pos h]
      exact convertAll_headings hrun place hlevel children htakes
    · next h =>
      rw [if_neg h, if_neg h]
      exact convertTitle_headings hrun place hlevel ss htakes

/-- …of siblings without the first title among them. -/
theorem convertBody_headings (hrun : run.WholeLimit limit) (place : Place)
    {trail : List Step} {level : Nat} (hlevel : levelOf trail = level) (passed : Bool)
    (ss : List Source)
    (htakes : ∀ f ∈ (outlineBody run.options place passed ss).fragments, Takes run I f) :
    Heads I (headingsOf run.options limit place (occurrencesBody trail passed ss))
      (convertBody run place (level + 1) passed ss) := by
  match ss with
  | [] =>
    rw [convertBody]
    exact .pure rfl
  | s :: ss =>
    rw [outlineBody] at htakes
    rw [convertBody, occurrencesBody]
    split at htakes
    · next h =>
      rw [if_pos h, if_pos h]
      exact convertBody_headings hrun place hlevel true ss htakes
    · next h =>
      rw [Outline.fragments_append, List.forall_mem_append] at htakes
      rw [if_neg h, if_neg h, headingsOf_append]
      exact (convertNode_headings hrun place hlevel s htakes.1).cons
        (convertBody_headings hrun place hlevel passed ss htakes.2) fun _ => rfl

/-- …of lines, between which there are breaks only. -/
theorem convertLines_headings (hrun : run.WholeLimit limit) (place : Place)
    {trail : List Step} {level : Nat} (hlevel : levelOf trail = level) (ss : List Source)
    (htakes : ∀ f ∈ (outlineAll run.options place ss).fragments, Takes run I f) :
    Heads I (headingsOf run.options limit place (occurrencesAll trail ss))
      (convertLines run place (level + 1) ss) := by
  match ss with
  | [] =>
    rw [convertLines]
    exact .pure rfl
  | [s] =>
    rw [outlineAll, Outline.fragments_append, List.forall_mem_append] at htakes
    rw [convertLines, occurrencesAll, occurrencesAll, List.append_nil]
    exact (convertNode_headings hrun place hlevel s htakes.1).toList
  | s :: t :: ss =>
    rw [outlineAll, Outline.fragments_append, List.forall_mem_append] at htakes
    rw [convertLines, occurrencesAll, headingsOf_append]
    · exact (convertNode_headings hrun place hlevel s htakes.1).cons
        (convertLines_headings hrun place hlevel (t :: ss) htakes.2)
        fun _ => headingsIn_cons_of_leaf rfl rfl
    · simp

/-- What is in a fragment starts at the top again. -/
theorem convertContent_headings (hrun : run.WholeLimit limit) (place : Place) (ss : List Source)
    (htakes : ∀ f ∈ (outlineContent run.options place ss).fragments, Takes run I f) :
    Heads I (headingsOf run.options limit place (occurrencesAll [] (includedContent ss)))
      (convertContent run place ss) := by
  match ss with
  | [] =>
    rw [convertContent]
    exact .pure rfl
  | [.stray v] =>
    rw [convertContent, includedContent, occurrencesAll, occurrencesAll, List.append_nil]
    · exact (convertNode_headings hrun place rfl (.stray v) htakes).toList
    · simp
  | [.node fields children term argument] =>
    rw [outlineContent] at htakes
    rw [convertContent, includedContent]
    split at htakes
    · next h =>
      rw [if_pos h, if_pos h]
      exact convertAll_headings hrun place rfl children htakes
    · next h =>
      rw [if_neg h, if_neg h, occurrencesAll, occurrencesAll, List.append_nil]
      exact (convertNode_headings hrun place rfl (.node fields children term argument)
        htakes).toList
  | s :: t :: ss =>
    rw [outlineContent_eq, includedContent] at htakes
    · rw [outlineAll, Outline.fragments_append, List.forall_mem_append] at htakes
      rw [convertContent, includedContent, occurrencesAll, headingsOf_append]
      · exact (convertNode_headings hrun place rfl s htakes.1).cons
          (convertAll_headings hrun place rfl (t :: ss) htakes.2) fun _ => rfl
      all_goals simp
    · simp

end

/-! ## Files

Of a file only the content has headings, and wrapping it moves none of them. -/

/-- The frontmatter of a file has no heading. -/
theorem headingsIn_frontmatterBlock (options metadata : Entries Value) :
    headingsIn (frontmatterBlock options metadata) = [] := by
  simp only [frontmatterBlock]
  split <;> rfl

/-- The imports of a file have no heading. -/
theorem headingsIn_importBlock (imports : Entries String) :
    headingsIn (importBlock imports) = [] := by
  simp only [importBlock]
  split <;> rfl

/-- The headings of a file are those of its content, each of them wrapped. -/
theorem collect_assemble (options : Entries Value) (file : FileState) (content : List Node) :
    (assemble options file content).collect isHeading = (headingsIn content).map normalize := by
  rw [assemble, collect_isHeading rfl, Node.children, headingsIn_wrapInlineRuns, headingsIn_append,
    headingsIn_append, headingsIn_frontmatterBlock, headingsIn_importBlock]
  rfl

/-- **The headings of a file that comes out** are those that its sections and headings make. -/
theorem Draft.collect_tree {f : Draft} (hf : f.Faultless o)
    (hrun : (⟨o, none⟩ : Run Unit).WholeLimit limit) :
    (f.tree o).collect isHeading = (f.headings o limit).map normalize := by
  obtain ⟨s, hs, -⟩ := hf.convertAll_eq (⟨o, none⟩ : Run Unit) rfl (s := ⟨{}, (), []⟩) rfl
  have hheadings := (convertAll_headings (I := fun _ => True) hrun f.place
    (rfl : levelOf [] = 0) f.content (fun _ _ _ _ _ => trivial) ⟨{}, (), []⟩ trivial).2
  have hnodes : headingsIn (f.nodes o) = f.headings o limit := by
    change Promised _ _ (convertAll _ _ 1 _ _).1 at hheadings
    rw [hs] at hheadings
    exact hheadings
  rw [Draft.tree, collect_assemble, hnodes]

/-- Whatever a page ends with, what it has emitted until then are fragments that came out. -/
theorem exists_draft_of_emission (path : String) (root : Entries Value)
    (hrun : (⟨o, some .recording⟩ : Run (List (String × Node))).WholeLimit limit) :
    ∀ e ∈ (convertPage ⟨o, some .recording⟩ path root []).2.emitter,
      ∃ f ∈ ((Draft.page path root).outline o).fragments, f.Faultless o ∧ e = f.emission o := by
  have hkept := (convertAll_headings (I := fun kept : List (String × Node) => ∀ e ∈ kept,
      ∃ f ∈ ((Draft.page path root).outline o).fragments, f.Faultless o ∧ e = f.emission o)
    hrun ⟨path, []⟩ (rfl : levelOf [] = 0) (ofField "children" root) ?_ ⟨{}, [], []⟩
    (List.forall_mem_nil _)).1
  · rw [convertPage_eq]
    change ∀ e ∈ (convertAll _ _ 1 _ _).2.emitter, _ at hkept
    generalize convertAll ⟨o, some .recording⟩ ⟨path, []⟩ 1 (ofField "children" root)
      ⟨{}, [], []⟩ = p at hkept
    obtain ⟨_ | _, _⟩ := p <;> exact hkept
  · exact fun f hf hfaultless kept hkept => List.forall_mem_append.2
      ⟨hkept, List.forall_mem_singleton.2 ⟨f, hf, hfaultless, rfl⟩⟩

/-! ## Pages -/

/-- **Headings are as deep as their sections are nested.**  The headings of a page that comes out
are, in document order, those that its sections and headings make; and so are those of each of the
fragments that have been emitted, also when the page does not come out. -/
theorem headings_of_convertPage {path : String} {root : Entries Value} {answer : Except Fault Node}
    {s : Session (List (String × Node))} (hlimit : o.maxHeadingDepth.number? = some (.int limit))
    (hcheck : ConversionOptions.checkHeadingDepth o.maxHeadingDepth = .ok ())
    (h : convertPage ⟨o, some .recording⟩ path root [] = (answer, s)) :
    (∀ tree, answer = .ok tree →
      tree.collect isHeading = ((Draft.page path root).headings o limit).map normalize) ∧
    ∀ e ∈ s.emitter, ∃ f ∈ ((Draft.page path root).outline o).fragments, e = f.emission o ∧
      e.2.collect isHeading = (f.headings o limit).map normalize := by
  have hone := (limit_of_checkHeadingDepth hlimit hcheck).1
  have hbound := headingLimit_eq hlimit
  constructor
  · rintro tree rfl
    obtain ⟨hpage, rfl, -⟩ := faultless_of_convertPage h
    exact Draft.collect_tree hpage ⟨hbound, hone⟩
  · intro e he
    have hdraft := exists_draft_of_emission path root ⟨hbound, hone⟩
    rw [h] at hdraft
    obtain ⟨f, hf, hfaultless, rfl⟩ := hdraft e he
    exact ⟨f, hf, rfl, Draft.collect_tree hfaultless ⟨hbound, hone⟩⟩

/-- A heading that states a depth. -/
def statedHeading (type : String) (depth : Int) (text : String) : Value :=
  .obj [("type", .str type), ("depth", .int depth), ("children", .arr [textValue text])]

/-- A page with a section inside tabs inside a section, and with an include inside the outer one. -/
def nestedRoot : Entries Value :=
  rootOf [nodeValue "section" [statedHeading "title" 4 "outer",
    nodeValue "tabs" [nodeValue "section" [nodeValue "title" [textValue "inner"],
      statedHeading "heading" 9 "stated", nodeValue "heading" [textValue "nested"]]],
    directiveValue "include" "/part.rst" [nodeValue "section" [statedHeading "title" 3 "part"]]]]

/-- The inner section is one level further in, and the fragment starts at the top again. -/
theorem headings_of_convertPage_nested :
    ∃ tree s, convertPage ⟨{}, some .recording⟩ "index.mdx" nestedRoot [] = (.ok tree, s) ∧
      tree.collect isHeading =
        [.heading (.int 1) [.text "outer"], .heading (.int 2) [.text "inner"],
          .heading (.int 6) [.text "stated"], .heading (.int 3) [.text "nested"]] ∧
      ∀ e ∈ s.emitter, e.2.collect isHeading = [.heading (.int 1) [.text "part"]] := by
  have hpage : (Draft.page "index.mdx" nestedRoot).Faultless {} := by rfl
  obtain ⟨s, hs, -⟩ := convertPage_of_faultless ⟨{}, some .recording⟩ hpage []
  obtain ⟨htree, hfragments⟩ := headings_of_convertPage rfl (by rfl) hs
  refine ⟨_, s, hs, (htree _ rfl).trans (by rfl), fun e he => ?_⟩
  obtain ⟨f, hf, -, hheadings⟩ := hfragments e he
  obtain rfl := List.mem_singleton.1 hf
  exact hheadings.trans (by rfl)

end Convert

end MdxPages
