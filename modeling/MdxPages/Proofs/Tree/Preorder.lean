import MdxPages.Tree.Content
import MdxPages.Tree.Normal

/-!
# Proofs/Tree/Preorder — what a walk through a tree meets, before and after wrapping

The walk meets a node and then its children (`preorder_eq`).  What it gathers from nodes other than
paragraphs, by their fields and not by the form of their children, it gathers from a wrapped tree
as well, in the same order (`filterMap_preorders_wrapInlineRuns`).
-/

namespace MdxPages.Node

/-- The walk meets a node, and then what is below it. -/
theorem preorder_eq (n : Node) : n.preorder = n :: preorders n.children := by
  cases n <;> simp [preorder, children, preorders]

theorem preorders_eq_flatMap (ns : List Node) : preorders ns = ns.flatMap preorder := by
  induction ns with
  | nil => rfl
  | cons n ns ih => rw [preorders, ih, List.flatMap_cons]

/-- Siblings are walked one after the other. -/
theorem preorders_append (xs ys : List Node) :
    preorders (xs ++ ys) = preorders xs ++ preorders ys := by
  induction xs with
  | nil => rfl
  | cons x xs ih => simp only [List.cons_append, preorders, ih, List.append_assoc]

variable {α : Type} {f : Node → Option α}

theorem filterMap_preorders_cons (f : Node → Option α) (n : Node) (ns : List Node) :
    (preorders (n :: ns)).filterMap f =
      (f n).toList ++ (preorders n.children).filterMap f ++ (preorders ns).filterMap f := by
  rw [preorders, preorder_eq, List.filterMap_append, List.filterMap_cons]
  cases f n <;> rfl

/-! ## Wrapping -/

/-- A paragraph around a run gives nothing itself. -/
theorem filterMap_preorders_wrapRun (hparagraph : ∀ cs, f (paragraph cs) = none)
    (run : List Node) :
    (preorders (wrapRun run)).filterMap f = (preorders run).filterMap f := by
  cases run with
  | nil => rfl
  | cons n ns =>
    change (preorders [paragraph (n :: ns)]).filterMap f = _
    rw [filterMap_preorders_cons, hparagraph, children, preorders]
    simp

/-- So wrapping siblings changes nothing. -/
theorem filterMap_preorders_wrapFrom (hparagraph : ∀ cs, f (paragraph cs) = none)
    (run ns : List Node) :
    (preorders (wrapFrom run ns)).filterMap f = (preorders (run ++ ns)).filterMap f := by
  induction ns generalizing run with
  | nil => rw [wrapFrom, filterMap_preorders_wrapRun hparagraph, List.append_nil]
  | cons n ns ih =>
    rw [wrapFrom]
    split
    · rw [ih, List.append_assoc, List.singleton_append]
    · rw [preorders_append, preorders_append, List.filterMap_append, List.filterMap_append,
        filterMap_preorders_wrapRun hparagraph, filterMap_preorders_cons, ih, List.nil_append,
        ← filterMap_preorders_cons]

mutual

/-- Nor does wrapping at every depth, by induction on the tree. -/
theorem filterMap_preorders_normalize (hparagraph : ∀ cs, f (paragraph cs) = none)
    (hnormalize : ∀ n, f n.normalize = f n) (n : Node) :
    (preorders n.normalize.children).filterMap f = (preorders n.children).filterMap f := by
  match n with
  | root cs | blockquote cs | list _ _ cs | listItem cs | footnoteDefinition _ _ cs
  | flowComponent _ _ cs =>
    simp only [normalize, children, wrapRuns, filterMap_preorders_wrapFrom hparagraph,
      List.nil_append, filterMap_preorders_normalizeEach hparagraph hnormalize cs]
  | heading _ cs | paragraph cs | emphasis cs | strong cs | link _ cs | textComponent _ _ cs =>
    simp only [normalize, children, filterMap_preorders_normalizeEach hparagraph hnormalize cs]
  | code .. | thematicBreak | html _ | yaml _ | imports _ | text _ | inlineCode _ | lineBreak
  | footnoteReference .. => rfl

theorem filterMap_preorders_normalizeEach (hparagraph : ∀ cs, f (paragraph cs) = none)
    (hnormalize : ∀ n, f n.normalize = f n) (ns : List Node) :
    (preorders (normalizeEach ns)).filterMap f = (preorders ns).filterMap f := by
  match ns with
  | [] => rfl
  | n :: ns =>
    rw [normalizeEach, filterMap_preorders_cons, filterMap_preorders_cons, hnormalize,
      filterMap_preorders_normalize hparagraph hnormalize n,
      filterMap_preorders_normalizeEach hparagraph hnormalize ns]

end

/-- **Wrapping keeps what is gathered from nodes in its order**, if nothing is gathered from
paragraphs and the children of a node may be wrapped. -/
theorem filterMap_preorders_wrapInlineRuns (hparagraph : ∀ cs, f (paragraph cs) = none)
    (hnormalize : ∀ n, f n.normalize = f n) (ns : List Node) :
    (preorders (wrapInlineRuns ns)).filterMap f = (preorders ns).filterMap f := by
  rw [wrapInlineRuns, wrapRuns, filterMap_preorders_wrapFrom hparagraph, List.nil_append,
    filterMap_preorders_normalizeEach hparagraph hnormalize]

end MdxPages.Node
