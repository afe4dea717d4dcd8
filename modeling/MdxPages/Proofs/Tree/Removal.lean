import Mathlib.Data.List.Forall2
import MdxPages.Proofs.Tree.Preorder

/-!
# Proofs/Tree/Removal — taking nodes out of a tree by their type

A node goes with all that is below it.  A walk through what is left meets, in the same order, the
nodes that neither are of a removed type nor stand below one that is; each has kept its fields, and
so have the nodes above it (`forall₂_placed_without`).  Removing nothing changes nothing, and
removing twice is removing once by both sets of types (`without_removes_subtrees`).
-/

namespace MdxPages.Node

variable {dropped : String → Bool} {n : Node}

/-! ## One node and its children -/

mutual

/-- What holds of a node if it holds of its children holds of all nodes. -/
theorem childrenInduction {P : Node → Prop} (h : ∀ n, (∀ c ∈ n.children, P c) → P n) (n : Node) :
    P n := by
  refine h n ?_
  match n with
  | root cs | heading _ cs | paragraph cs | blockquote cs | list _ _ cs | listItem cs
  | footnoteDefinition _ _ cs | flowComponent _ _ cs | emphasis cs | strong cs | link _ cs
  | textComponent _ _ cs => exact childrenInductionEach h cs
  | code .. | thematicBreak | html _ | yaml _ | imports _ | text _ | inlineCode _ | lineBreak
  | footnoteReference .. => exact List.forall_mem_nil P

theorem childrenInductionEach {P : Node → Prop} (h : ∀ n, (∀ c ∈ n.children, P c) → P n)
    (ns : List Node) : ∀ n ∈ ns, P n := by
  match ns with
  | [] => exact List.forall_mem_nil P
  | n :: ns => exact List.forall_mem_cons.2 ⟨childrenInduction h n, childrenInductionEach h ns⟩

end

/-- Siblings are removed one by one. -/
theorem withouts_eq_filterMap (dropped : String → Bool) (ns : List Node) :
    withouts dropped ns = ns.filterMap (without dropped) := by
  induction ns with
  | nil => rfl
  | cons n ns ih =>
    rw [withouts, ih, List.filterMap_cons]
    cases without dropped n <;> rfl

/-- A node is removed by its own type; otherwise it stays, with what its children leave. -/
theorem without_eq (dropped : String → Bool) (n : Node) : n.without dropped =
    if dropped n.type then none
    else some (n.withChildren (n.children.filterMap (without dropped))) := by
  rw [← withouts_eq_filterMap]
  cases n <;> rfl

theorem children_withChildren_filterMap (f : Node → Option Node) (n : Node) :
    (n.withChildren (n.children.filterMap f)).children = n.children.filterMap f := by
  cases n <;> rfl

/-! ## Removing nothing, and removing twice -/

/-- Removing nothing leaves the tree. -/
theorem without_nothing (n : Node) : n.without (fun _ => false) = some n := by
  induction n using childrenInduction with
  | h n ih =>
    have hchildren : n.children.filterMap (without fun _ => false) = n.children := by
      rw [List.filterMap_congr ih, List.filterMap_some]
    rw [without_eq, if_neg Bool.false_ne_true, hchildren, withChildren_children]

/-- **Removing twice is removing once by both sets of types.** -/
theorem bind_without (dropped dropped' : String → Bool) (n : Node) :
    (n.without dropped).bind (without dropped') =
      n.without fun type => dropped type || dropped' type := by
  induction n using childrenInduction with
  | h n ih =>
    rw [without_eq dropped, without_eq fun type => dropped type || dropped' type]
    cases hdropped : dropped n.type with
    | true => rfl
    | false =>
      rw [if_neg Bool.false_ne_true, Option.bind_some, without_eq, type_withChildren,
        withChildren_withChildren, children_withChildren_filterMap, List.filterMap_filterMap,
        List.filterMap_congr ih, Bool.false_or]

/-! ## What a walk meets

Each node is met together with the nodes above it, so that what is kept can be said of a node by
itself. -/

/-- A node of a tree and the nodes above it, from its parent up. -/
structure Placed where
  node : Node
  above : List Node

mutual

/-- The nodes of a tree in document order, each with the nodes above it. -/
def placed (above : List Node) : Node → List Placed
  | n@(root cs) | n@(heading _ cs) | n@(paragraph cs) | n@(blockquote cs) | n@(list _ _ cs)
  | n@(listItem cs) | n@(footnoteDefinition _ _ cs) | n@(flowComponent _ _ cs) | n@(emphasis cs)
  | n@(strong cs) | n@(link _ cs) | n@(textComponent _ _ cs) =>
    ⟨n, above⟩ :: placedEach (n :: above) cs
  | leaf => [⟨leaf, above⟩]

/-- The nodes of sibling trees, each with the nodes above it. -/
def placedEach (above : List Node) : List Node → List Placed
  | [] => []
  | n :: ns => placed above n ++ placedEach above ns

end

/-- Whether neither a node nor one above it is of a type to be removed. -/
def Placed.isKept (dropped : String → Bool) (x : Placed) : Bool :=
  !dropped x.node.type && x.above.all fun n => !dropped n.type

theorem placedEach_eq_flatMap (above ns : List Node) :
    placedEach above ns = ns.flatMap (placed above) := by
  induction ns with
  | nil => rfl
  | cons n ns ih => rw [placedEach, ih, List.flatMap_cons]

/-- A walk meets the node, and then what is below it, with the node above. -/
theorem placed_eq (above : List Node) (n : Node) :
    placed above n = ⟨n, above⟩ :: n.children.flatMap (placed (n :: above)) := by
  rw [← placedEach_eq_flatMap]
  cases n <;> rfl

/-- What a walk meets in a node of whose children some are left. -/
theorem placed_withChildren_filterMap (above : List Node) (f : Node → Option Node) (n : Node) :
    let left := n.withChildren (n.children.filterMap f)
    placed above left = ⟨left, above⟩ ::
      n.children.flatMap fun c => (f c).toList.flatMap (placed (left :: above)) := by
  intro left
  rw [placed_eq, children_withChildren_filterMap, List.filterMap_eq_flatMap_toList,
    List.flatMap_assoc]

/-- The nodes that are met are those of the walk. -/
theorem map_node_placed (above : List Node) (n : Node) :
    (placed above n).map Placed.node = n.preorder := by
  induction n using childrenInduction generalizing above with
  | h n ih =>
    rw [placed_eq, preorder_eq, preorders_eq_flatMap, List.map_cons, List.map_flatMap]
    exact congrArg (n :: ·) (List.flatMap_congr fun c hc => ih c hc _)

/-- What a node is below stays above all that is below the node. -/
theorem subset_above_of_mem_placed {above : List Node} {x : Placed} (h : x ∈ placed above n) :
    above ⊆ x.above := by
  induction n using childrenInduction generalizing above with
  | h n ih =>
    rw [placed_eq, List.mem_cons, List.mem_flatMap] at h
    obtain rfl | ⟨c, hc, hx⟩ := h
    · exact List.Subset.refl above
    · exact fun a ha => ih c hc hx (List.mem_cons_of_mem n ha)

/-- **A node goes with all that is below it.** -/
theorem filter_placed_eq_nil (h : dropped n.type = true) (above : List Node) :
    (placed above n).filter (Placed.isKept dropped) = [] := by
  rw [placed_eq, List.filter_cons_of_neg (by simp [Placed.isKept, h]), List.filter_eq_nil_iff]
  intro x hx hkept
  obtain ⟨c, -, hx⟩ := List.mem_flatMap.1 hx
  have hn : n ∈ x.above := subset_above_of_mem_placed hx List.mem_cons_self
  rw [Placed.isKept, Bool.and_eq_true, List.all_eq_true] at hkept
  simpa [h] using hkept.2 n hn

/-- A node is another one but for its children. -/
def SameButBelow (m n : Node) : Prop :=
  m.withChildren n.children = n

/-- Two nodes and the nodes above them are the same but for their children. -/
structure Placed.SameButBelow (x y : Placed) : Prop where
  node : x.node.SameButBelow y.node
  above : List.Forall₂ Node.SameButBelow x.above y.above

/-- A node with other children is the same but for them. -/
theorem sameButBelow_withChildren (cs : List Node) (n : Node) :
    (n.withChildren cs).SameButBelow n := by
  rw [SameButBelow, withChildren_withChildren, withChildren_children]

/-- **A walk through what is left meets the nodes that are kept, in their order**: each with its
fields, and below the same nodes as before. -/
theorem forall₂_placed_without {above above' : List Node}
    (habove : List.Forall₂ SameButBelow above' above)
    (hkept : above.all (fun a => !dropped a.type) = true) (n : Node) :
    List.Forall₂ Placed.SameButBelow ((n.without dropped).toList.flatMap (placed above'))
      ((placed above n).filter (Placed.isKept dropped)) := by
  induction n using childrenInduction generalizing above above' with
  | h n ih =>
    cases hdropped : dropped n.type with
    | true =>
      rw [without_eq, if_pos hdropped, filter_placed_eq_nil hdropped]
      exact .nil
    | false =>
      let left := n.withChildren (n.children.filterMap (without dropped))
      have hleft : left.SameButBelow n := sameButBelow_withChildren _ n
      have hn : Placed.isKept dropped ⟨n, above⟩ = true := by
        rw [Placed.isKept, hdropped, hkept]
        rfl
      have hbelow : (n :: above).all (fun a => !dropped a.type) = true := by
        rw [List.all_cons, hdropped, hkept]
        rfl
      rw [without_eq, if_neg (by simp [hdropped]), Option.toList_some, List.flatMap_singleton,
        placed_withChildren_filterMap, placed_eq, List.filter_cons_of_pos hn,
        List.filter_flatMap]
      refine .cons ⟨hleft, habove⟩ ?_
      have hsame : List.Forall₂ (fun c d => c = d ∧ c ∈ n.children) n.children n.children :=
        List.forall₂_same.2 fun c hc => ⟨rfl, hc⟩
      refine List.rel_flatMap hsame ?_
      rintro c _ ⟨rfl, hc⟩
      exact ih c hc (.cons hleft habove) hbelow

/-- **Removing nodes by their type is clean.**  Where no type is removed the tree stays as it is; a
collector of what is left meets the nodes that are not of a removed type, nor below one that is, in
their order and each the same but for its children; and removing twice is removing once by both sets
of types. -/
theorem without_removes_subtrees (dropped dropped' : String → Bool) (tree : Node) :
    tree.without (fun _ => false) = some tree ∧
    tree.collect (fun _ => true) = (placed [] tree).map Placed.node ∧
    List.Forall₂ SameButBelow
      ((tree.without dropped).toList.flatMap (collect fun _ => true))
      (((placed [] tree).filter (Placed.isKept dropped)).map Placed.node) ∧
    (tree.without dropped).bind (without dropped') =
      tree.without fun type => dropped type || dropped' type := by
  have hcollect (n : Node) : n.collect (fun _ => true) = (placed [] n).map Placed.node := by
    rw [collect, List.filter_true, map_node_placed]
  refine ⟨without_nothing tree, hcollect tree, ?_, bind_without dropped dropped' tree⟩
  rw [funext hcollect, ← List.map_flatMap, List.forall₂_map_left_iff, List.forall₂_map_right_iff]
  exact (forall₂_placed_without .nil rfl tree).imp fun _ _ h => h.node

end MdxPages.Node
