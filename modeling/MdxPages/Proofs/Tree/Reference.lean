import MdxPages.Proofs.Tree.Preorder

/-!
# Proofs/Tree/Reference — the imported names that a tree uses

A component of a block without children stands for something imported: an image names it in its
source, any other component by its own name.  Wrapping runs of phrasing puts paragraphs around such
components but neither adds nor drops nor moves one (`references_wrapInlineRuns`).
-/

namespace MdxPages.Node

/-- The import that the source of an image names. -/
def importedSource : String → List Attribute → Option String
  | "Image", ⟨"src", .expression source⟩ :: _ => some source
  | _, _ => none

/-- The name that a block component without children refers to. -/
def reference? : Node → Option String
  | flowComponent name attributes [] => some ((importedSource name attributes).getD name)
  | _ => none

/-- The names that sibling trees refer to, in document order. -/
def references (ns : List Node) : List String :=
  (preorders ns).filterMap reference?

@[simp] theorem references_nil : references [] = [] := rfl

@[simp] theorem references_append (xs ys : List Node) :
    references (xs ++ ys) = references xs ++ references ys := by
  simp only [references, preorders_append, List.filterMap_append]

/-- A tree refers to its own name and to those below it, before its siblings do. -/
theorem references_cons (n : Node) (ns : List Node) :
    references (n :: ns) = n.reference?.toList ++ references n.children ++ references ns :=
  filterMap_preorders_cons reference? n ns

theorem references_singleton (n : Node) :
    references [n] = n.reference?.toList ++ references n.children := by
  rw [references_cons, references_nil, List.append_nil]

/-- Nothing below a node is lost when the node is put around it. -/
theorem references_children_sublist (n : Node) :
    (references n.children).Sublist (references [n]) := by
  rw [references_singleton]
  exact List.sublist_append_right _ _

/-- The names are those of the nodes that a walk meets. -/
theorem mem_references_iff {name : String} {ns : List Node} :
    name ∈ references ns ↔ ∃ n ∈ preorders ns, n.reference? = some name := by
  rw [references, List.mem_filterMap]

/-- A tree uses an imported name: a component without children has the name, or is an image with
the name as its source. -/
def Uses (name : String) (n : Node) : Prop :=
  ∃ attributes, flowComponent name attributes [] ∈ n.preorder ∨
    (flowComponent "Image" attributes [] ∈ n.preorder ∧
      attribute? "src" attributes = some (.expression name))

/-- What is referred to below a node is used in it. -/
theorem uses_of_mem_references {name : String} {n : Node} (h : name ∈ references n.children) :
    n.Uses name := by
  obtain ⟨m, hm, href⟩ := mem_references_iff.1 h
  have hm : m ∈ n.preorder := preorder_eq n ▸ List.mem_cons_of_mem n hm
  unfold reference? at href
  split at href
  · next component attributes =>
    unfold importedSource at href
    split at href
    · obtain rfl := Option.some.inj href
      exact ⟨_, .inr ⟨hm, rfl⟩⟩
    · obtain rfl := Option.some.inj href
      exact ⟨_, .inl hm⟩
  · cases href

/-! ## Normal forms -/

theorem wrapFrom_eq_nil_iff (run ns : List Node) : wrapFrom run ns = [] ↔ run = [] ∧ ns = [] := by
  induction ns generalizing run with
  | nil => cases run <;> simp [wrapFrom, wrapRun]
  | cons n ns ih =>
    rw [wrapFrom]
    split
    · simp [ih]
    · simp

theorem wrapRuns_normalizeEach_eq_nil_iff (ns : List Node) :
    wrapRuns (normalizeEach ns) = [] ↔ ns = [] := by
  rw [wrapRuns, wrapFrom_eq_nil_iff]
  cases ns <;> simp [normalizeEach]

/-- A component keeps what it refers to: it has children afterwards iff it had any. -/
theorem reference?_normalize (n : Node) : n.normalize.reference? = n.reference? := by
  cases n with
  | flowComponent name attributes cs =>
    rw [normalize]
    cases cs with
    | nil => rfl
    | cons c cs =>
      have h : wrapRuns (normalizeEach (c :: cs)) ≠ [] := by
        simp [wrapRuns_normalizeEach_eq_nil_iff]
      obtain ⟨d, ds, hd⟩ := List.exists_cons_of_ne_nil h
      rw [hd]
      rfl
  | _ => rfl

/-- A block is left where it is. -/
theorem mem_wrapFrom {n : Node} {ns : List Node} (run : List Node) (hn : n ∈ ns)
    (h : n.isPhrasing = false) : n ∈ wrapFrom run ns := by
  induction ns generalizing run with
  | nil => cases hn
  | cons m ns ih =>
    rw [wrapFrom]
    obtain rfl | hn := List.mem_cons.1 hn
    · rw [h]
      exact List.mem_append_right _ List.mem_cons_self
    · split
      · exact ih _ hn
      · exact List.mem_append_right _ (List.mem_cons_of_mem _ (ih _ hn))

/-- A block without children stays as it is. -/
theorem mem_wrapInlineRuns {n : Node} {ns : List Node} (hn : n ∈ ns)
    (h : n.isPhrasing = false) (hnormal : n.normalize = n) : n ∈ wrapInlineRuns ns := by
  refine mem_wrapFrom [] ?_ h
  induction ns with
  | nil => cases hn
  | cons m ns ih =>
    rw [normalizeEach]
    obtain rfl | hn := List.mem_cons.1 hn
    · rw [hnormal]
      exact List.mem_cons_self
    · exact List.mem_cons_of_mem _ (ih hn)

/-- **Wrapping runs of phrasing keeps every reference in its place.** -/
theorem references_wrapInlineRuns (ns : List Node) :
    references (wrapInlineRuns ns) = references ns :=
  filterMap_preorders_wrapInlineRuns (fun _ => rfl) reference?_normalize ns

end MdxPages.Node
