import MdxPages.Proofs.Mdx.Render
import MdxPages.Proofs.Tree.Normal
import MdxPages.Proofs.Tree.Serialization
import MdxPages.Tree.Json
import MdxPages.Tree.Validation

/-!
# Proofs/Tree/Typed — trees whose fields have their types

In a converted tree, headings are no deeper than a limit, ordered lists start with a whole number
and others with nothing, what needs an identifier or a destination has one, and the fields that a
tree read from JSON may fill with anything hold a text or nothing (`WellTyped`).  Of such a tree in
normal form, validation reports only what depends on names, on import lines and on the kinds of
children (`problems_eq_openProblems`), it has a text unless the number of an item is too long
(`succeeds_render`), and a JSON text unless a start is (`integersWritable_iff`).
-/

namespace MdxPages

namespace Node

variable {limit : Int} {n tree : Node} {ns : List Node}

/-! ## Types of fields -/

/-- The fields of a node have their types, and a heading is no deeper than the limit. -/
def WellTyped (limit : Int) : Node → Prop
  | heading depth _ => ∃ d : Int, depth = .int d ∧ 1 ≤ d ∧ d ≤ limit
  | list ordered start _ => if ordered then ∃ i : Int, start = .int i else start = .null
  | code _ lang => IsText? lang
  | link url _ => url ≠ ""
  | footnoteDefinition identifier label _ | footnoteReference identifier label =>
    identifier ≠ "" ∧ IsText? label
  | flowComponent _ attributes _ | textComponent _ attributes _ => ∀ a ∈ attributes, a.IsLiteral
  | root _ | paragraph _ | blockquote _ | listItem _ | thematicBreak | html _ | yaml _ | imports _
  | text _ | emphasis _ | strong _ | inlineCode _ | lineBreak => True

/-- Whether a node is well-typed is decided by its fields. -/
theorem wellTyped_ofFields (limit : Int) : OfFields (WellTyped limit) where
  withChildren n cs h := by cases n <;> exact h
  ofParagraph _ := trivial

/-! ## Problems

Validation asks each node by itself.  Most of what it asks is answered by the types. -/

mutual

/-- The problems of a tree are those of its nodes, in document order. -/
theorem problems_eq (n : Node) : n.problems = n.preorder.flatMap ownProblems := by
  match n with
  | root cs | heading _ cs | paragraph cs | blockquote cs | list _ _ cs | listItem cs
  | footnoteDefinition _ _ cs | flowComponent _ _ cs | emphasis cs | strong cs | link _ cs
  | textComponent _ _ cs =>
    rw [problems, preorder, List.flatMap_cons, problemsEach_eq cs]
  | code .. | thematicBreak | html _ | yaml _ | imports _ | text _ | inlineCode _ | lineBreak
  | footnoteReference .. => simp [problems, preorder]

theorem problemsEach_eq (ns : List Node) :
    problemsEach ns = (preorders ns).flatMap ownProblems := by
  match ns with
  | [] => rfl
  | n :: ns => rw [problemsEach, preorders, List.flatMap_append, problems_eq n, problemsEach_eq ns]

end

mutual

/-- A tree is in normal form if no flow container in it has a phrasing child. -/
theorem isNormal_iff (n : Node) : n.IsNormal ↔
    ∀ m ∈ n.preorder, m.isFlowContainer = true → ∀ c ∈ m.children, c.isPhrasing = false := by
  match n with
  | root cs | blockquote cs | list _ _ cs | listItem cs | footnoteDefinition _ _ cs
  | flowComponent _ _ cs =>
    rw [IsNormal, forall_preorder_iff, children, allNormal_iff_preorders cs]
    simp [isFlowContainer, children]
  | heading _ cs | paragraph cs | emphasis cs | strong cs | link _ cs | textComponent _ _ cs =>
    rw [IsNormal, forall_preorder_iff, children, allNormal_iff_preorders cs]
    simp [isFlowContainer]
  | code .. | thematicBreak | html _ | yaml _ | imports _ | text _ | inlineCode _ | lineBreak
  | footnoteReference .. => simp [IsNormal, preorder, isFlowContainer]

theorem allNormal_iff_preorders (ns : List Node) : AllNormal ns ↔
    ∀ m ∈ preorders ns, m.isFlowContainer = true → ∀ c ∈ m.children, c.isPhrasing = false := by
  match ns with
  | [] => simp [AllNormal, preorders]
  | n :: ns =>
    rw [AllNormal, preorders, List.forall_mem_append, isNormal_iff n, allNormal_iff_preorders ns]

end

/-- The problems of a node that its types leave open: missing names of components, blocks under
nodes that are to hold phrasing content, children of a list that are no items, and other lines in
a block of imports. -/
def openProblems : Node → List String
  | n@(paragraph cs) | n@(emphasis cs) | n@(strong cs) | n@(heading _ cs) | n@(link _ cs) =>
    flowProblems n.type cs
  | list _ _ cs => itemProblems cs
  | imports value => importProblems value
  | flowComponent name _ _ => problemIf name.isEmpty "Flow component requires a name"
  | n@(textComponent name _ cs) =>
    problemIf name.isEmpty "Inline component requires a name" ++ flowProblems n.type cs
  | _ => []

theorem phrasingProblems_eq_nil {type : String} (h : ∀ c ∈ ns, c.isPhrasing = false) :
    phrasingProblems type ns = [] := by
  refine List.filterMap_eq_nil_iff.2 fun c hc => ?_
  simp [h c hc]

theorem problemIf_false {condition : Bool} (problem : String) (h : condition = false) :
    problemIf condition problem = [] := by
  rw [h]
  rfl

/-- A well-typed node in normal form is reported for nothing but what its types leave open. -/
theorem ownProblems_eq (hlimit : limit ≤ deepestHeading) (htyped : n.WellTyped limit)
    (hnormal : n.isFlowContainer = true → ∀ c ∈ n.children, c.isPhrasing = false) :
    n.ownProblems = n.openProblems := by
  cases n with
  | root cs | blockquote cs | listItem cs => exact phrasingProblems_eq_nil (hnormal rfl)
  | footnoteDefinition identifier label cs =>
    have hcs : ∀ c ∈ cs, c.isPhrasing = false := hnormal rfl
    rw [ownProblems, phrasingProblems_eq_nil hcs,
      problemIf_false _ (String.isEmpty_eq_false_iff.2 htyped.1)]
    rfl
  | flowComponent name attributes cs =>
    have hcs : ∀ c ∈ cs, c.isPhrasing = false := hnormal rfl
    rw [ownProblems, phrasingProblems_eq_nil hcs, List.append_nil]
    rfl
  | heading depth cs =>
    obtain ⟨d, rfl, hone, hd⟩ := htyped
    rw [ownProblems, problemIf_false]
    · rfl
    · simp [Number.le_int, hone, Int.le_trans hd hlimit]
  | list ordered start cs =>
    have hstart : (!ordered && !start.isNull) = false := by
      cases ordered with
      | true => rfl
      | false =>
        obtain rfl : start = .null := htyped
        rfl
    rw [ownProblems, problemIf_false _ hstart, List.append_nil]
    rfl
  | link url cs =>
    rw [ownProblems, problemIf_false _ (String.isEmpty_eq_false_iff.2 htyped)]
    rfl
  | footnoteReference identifier label =>
    exact problemIf_false _ (String.isEmpty_eq_false_iff.2 htyped.1)
  | paragraph cs | emphasis cs | strong cs | imports value | textComponent name attributes cs
  | code value lang | thematicBreak | html value | yaml value | text value | inlineCode value
  | lineBreak => rfl

/-- **Of a well-typed tree in normal form, validation reports nothing but open problems.** -/
theorem problems_eq_openProblems (hlimit : limit ≤ deepestHeading)
    (htyped : ∀ m ∈ tree.preorder, m.WellTyped limit) (hnormal : tree.IsNormal) :
    tree.problems = tree.preorder.flatMap openProblems := by
  rw [problems_eq, List.flatMap_def, List.flatMap_def]
  refine congrArg List.flatten (List.map_congr_left fun m hm => ?_)
  exact ownProblems_eq hlimit (htyped m hm) ((isNormal_iff tree).1 hnormal m hm)

/-! ## Text -/

/-- The numbers of the items of a node, if it is an ordered list. -/
def itemNumbers : Node → List Int
  | list true (.num (.int start)) cs =>
    (List.range cs.length).map fun (index : Nat) => start + index
  | _ => []

/-- A well-typed node can be rendered if its items can be numbered. -/
theorem renderable_iff (h : n.WellTyped limit) :
    Mdx.Renderable n ↔ ∀ i ∈ n.itemNumbers, Number.Writable i := by
  cases n with
  | list ordered start cs =>
    cases ordered with
    | false => simp [Mdx.Renderable, itemNumbers]
    | true =>
      obtain ⟨i, rfl⟩ : ∃ i : Int, start = .int i := h
      simp [Mdx.Renderable, itemNumbers, Mdx.succeeds_orderedMarker]
  | heading depth cs =>
    obtain ⟨d, rfl, -⟩ := h
    simp [Mdx.Renderable, itemNumbers, Mdx.headingMarks]
  | flowComponent name attributes cs | textComponent name attributes cs =>
    exact iff_of_true h fun _ hi => absurd hi List.not_mem_nil
  | _ => exact iff_of_true trivial fun _ hi => absurd hi List.not_mem_nil

/-- **A well-typed tree has a text exactly if the numbers of all items can be written.** -/
theorem succeeds_render (o : RenderOptions) (h : ∀ m ∈ tree.preorder, m.WellTyped limit) :
    Succeeds (Mdx.render o tree) ↔
      ∀ m ∈ tree.preorder, ∀ i ∈ m.itemNumbers, Number.Writable i := by
  rw [Mdx.succeeds_render_iff]
  exact forall₂_congr fun m hm => renderable_iff (h m hm)

/-! ## JSON -/

/-- The start of a node, if it is an ordered list. -/
def start? : Node → Option Int
  | list true (.num (.int start)) _ => some start
  | _ => none

/-- The depth of a heading is not too long to be written. -/
theorem writable_of_depth {d : Int} (hone : 1 ≤ d) (hlimit : d ≤ deepestHeading) :
    Number.Writable d := by
  rw [deepestHeading] at hlimit
  exact Number.writable_of_lt (by omega)

/-- The fields of a well-typed node have their declared types. -/
theorem WellTyped.declared (h : n.WellTyped limit) : n.Declared := by
  cases n with
  | heading depth cs =>
    obtain ⟨d, hd, -⟩ := h
    exact ⟨d, hd⟩
  | list ordered start cs =>
    cases ordered with
    | true => exact .inr h
    | false => exact .inl h
  | code value lang => exact h
  | footnoteDefinition identifier label cs | footnoteReference identifier label => exact h.2
  | flowComponent name attributes cs | textComponent name attributes cs => exact h
  | root _ | paragraph _ | blockquote _ | listItem _ | thematicBreak | html _ | yaml _ | imports _
  | text _ | emphasis _ | strong _ | inlineCode _ | link _ _ | lineBreak => trivial

/-- Of the whole numbers in a well-typed node, only the start of a list can be too long. -/
theorem forall_integers_iff (hlimit : limit ≤ deepestHeading) (h : n.WellTyped limit) :
    (∀ i ∈ n.integers, Number.Writable i) ↔ ∀ i ∈ n.start?, Number.Writable i := by
  cases n with
  | heading depth cs =>
    obtain ⟨d, rfl, hone, hd⟩ := h
    have hdepth := writable_of_depth hone (Int.le_trans hd hlimit)
    simp [integers, start?, hdepth]
  | list ordered start cs =>
    cases ordered with
    | true =>
      obtain ⟨i, rfl⟩ : ∃ i : Int, start = .int i := h
      simp [integers, start?]
    | false =>
      obtain rfl : start = .null := h
      simp [integers, start?]
  | _ => simp [integers, start?]

/-- **Of the whole numbers in a well-typed tree, only the starts of lists can be too long.** -/
theorem integersWritable_iff (hlimit : limit ≤ deepestHeading)
    (h : ∀ m ∈ n.preorder, m.WellTyped limit) :
    n.IntegersWritable ↔ ∀ m ∈ n.preorder, ∀ i ∈ m.start?, Number.Writable i :=
  forall₂_congr fun m hm => forall_integers_iff hlimit (h m hm)

end Node

end MdxPages
