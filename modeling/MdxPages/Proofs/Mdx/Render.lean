import MdxPages.Mdx.Render
import MdxPages.Proofs.Tree.Declared

/-!
# Proofs/Mdx/Render — which trees have a text

A tree has a text exactly if each of its nodes can be rendered by itself (`succeeds_render_iff`).
Only few nodes cannot: headings whose depth is no whole number, components with an attribute that
is neither a text nor an expression, and ordered lists with an item that cannot be numbered.
-/

namespace MdxPages

/-! ## Results of operations

Which text an operation gives is of no interest here, only whether it gives one. -/

/-- An operation gives a result. -/
def Succeeds {α : Type} (e : Except Fault α) : Prop :=
  ∃ v, e = .ok v

section

variable {α β γ : Type} {e : Except Fault α} {e' : Except Fault β}

@[simp] theorem succeeds_ok (v : α) : Succeeds (.ok v : Except Fault α) :=
  ⟨v, rfl⟩

@[simp] theorem not_succeeds_error (f : Fault) : ¬ Succeeds (.error f : Except Fault α) := by
  rintro ⟨v, h⟩
  cases h

/-- If it does not matter with which result, a sequence succeeds if both of its steps do. -/
theorem succeeds_bind {f : α → Except Fault β} {p : Prop} (hf : ∀ v, Succeeds (f v) ↔ p) :
    Succeeds (e >>= f) ↔ Succeeds e ∧ p := by
  cases e with
  | ok v => exact (hf v).trans (and_iff_right (succeeds_ok v)).symm
  | error f => exact iff_of_false (not_succeeds_error f) fun h => not_succeeds_error f h.1

/-- What is done with a result does not matter. -/
theorem succeeds_map (g : α → β) : Succeeds (e >>= fun v => pure (g v)) ↔ Succeeds e :=
  (succeeds_bind fun v => iff_of_true (succeeds_ok (g v)) trivial).trans (and_iff_left trivial)

/-- Two operations succeed together if each of them does. -/
theorem succeeds_seq (g : α → β → γ) :
    Succeeds (e >>= fun v => e' >>= fun w => pure (g v w)) ↔ Succeeds e ∧ Succeeds e' :=
  succeeds_bind fun v => succeeds_map (g v)

/-- Operations in a row succeed if each of them does. -/
theorem succeeds_mapM {f : α → Except Fault β} {xs : List α} :
    Succeeds (xs.mapM f) ↔ ∀ x ∈ xs, Succeeds (f x) := by
  induction xs with
  | nil => exact iff_of_true (succeeds_ok []) fun _ h => absurd h List.not_mem_nil
  | cons x xs ih => rw [List.mapM_cons, succeeds_seq, ih, List.forall_mem_cons]

end

namespace Mdx

variable {o : RenderOptions} {marker : String}

/-- Blocks are joined by blank lines, but for those without a text. -/
theorem joinBlocks_eq (texts : List String) :
    joinBlocks texts = "\n\n".intercalate (texts.filter (· ≠ "")) := by
  have hempty : (fun text : String => !text.isEmpty) = fun text => decide (text ≠ "") := by
    funext text
    rw [Bool.eq_iff_iff]
    simp
  rw [joinBlocks, hempty]
  rfl

/-! ## Single nodes

What a node needs to be rendered, if all that is in it can be. -/

/-- A number has a marker if it can be written. -/
theorem succeeds_wholeMarker {i : Int} : Succeeds (wholeMarker i) ↔ Number.Writable i := by
  unfold wholeMarker Number.Writable
  split
  · next h => exact iff_of_true (succeeds_ok _) h
  · next h => exact iff_of_false (not_succeeds_error _) h

/-- The item at an index is numbered if the number there can be written. -/
theorem succeeds_orderedMarker {start : Int} {index : Nat} :
    Succeeds (orderedMarker (.int start) index) ↔ Number.Writable (start + index) := by
  rw [← succeeds_wholeMarker]
  rfl

/-- Attributes have a text if their values are literal. -/
theorem succeeds_attributesText {attributes : List Attribute} :
    Succeeds (attributesText attributes) ↔ ∀ a ∈ attributes, a.IsLiteral := by
  rw [attributesText, succeeds_map, succeeds_mapM]
  refine forall₂_congr fun a _ => ?_
  unfold attributeText Attribute.IsLiteral
  cases a.value <;> simp

/-- A node by itself can be rendered. -/
def Renderable : Node → Prop
  | .heading depth _ => Succeeds (headingMarks depth)
  | .list ordered start cs =>
    ordered = true → ∀ index < cs.length, Succeeds (orderedMarker start index)
  | .flowComponent _ attributes _ | .textComponent _ attributes _ => ∀ a ∈ attributes, a.IsLiteral
  | _ => True

/-! ## Trees

A container succeeds if what it holds does, so that the nodes which cannot be rendered decide. -/

/-- Siblings are rendered one by one. -/
theorem nodeTexts_eq_mapM (o : RenderOptions) (marker : String) (ns : List Node) :
    nodeTexts o marker ns = ns.mapM (nodeText o marker) := by
  induction ns with
  | nil => rfl
  | cons n ns ih => rw [nodeTexts, List.mapM_cons, ih]

mutual

/-- A tree has a text if each of its nodes can be rendered, by induction on the tree. -/
theorem succeeds_nodeText (o : RenderOptions) (marker : String) (n : Node) :
    Succeeds (nodeText o marker n) ↔ ∀ m ∈ n.preorder, Renderable m := by
  rw [Node.forall_preorder_iff]
  match n with
  | .root cs | .paragraph cs | .blockquote cs | .footnoteDefinition _ _ cs | .emphasis cs
  | .strong cs | .link _ cs =>
    rw [nodeText, succeeds_map, succeeds_nodeTexts o marker cs]
    exact (and_iff_right trivial).symm
  | .listItem cs =>
    rw [nodeText, succeeds_map, succeeds_nodeTexts o o.bullet.text cs]
    exact (and_iff_right trivial).symm
  | .heading depth cs =>
    rw [nodeText, succeeds_seq, succeeds_nodeTexts o marker cs]
    exact and_comm
  | .list ordered start cs =>
    rw [nodeText, succeeds_map, succeeds_itemTexts o ordered start 0 cs]
    simp only [Nat.zero_add]
    rfl
  | .flowComponent name attributes cs | .textComponent name attributes cs =>
    rw [nodeText, succeeds_seq, succeeds_attributesText, succeeds_nodeTexts o marker cs]
    rfl
  | .code .. | .thematicBreak | .html _ | .yaml _ | .imports _ | .text _ | .inlineCode _
  | .lineBreak | .footnoteReference .. =>
    simp [nodeText, Renderable, Node.children, Node.preorders]

/-- …for siblings. -/
theorem succeeds_nodeTexts (o : RenderOptions) (marker : String) (ns : List Node) :
    Succeeds (nodeTexts o marker ns) ↔ ∀ m ∈ Node.preorders ns, Renderable m := by
  match ns with
  | [] => simp [nodeTexts, Node.preorders]
  | n :: ns =>
    rw [nodeTexts, succeeds_seq, succeeds_nodeText o marker n, succeeds_nodeTexts o marker ns,
      Node.preorders, List.forall_mem_append]

/-- …for the items of a list, each of which has to be numbered as well. -/
theorem succeeds_itemTexts (o : RenderOptions) (ordered : Bool) (start : Value) (index : Nat)
    (ns : List Node) :
    Succeeds (itemTexts o ordered start index ns) ↔
      (ordered = true → ∀ k < ns.length, Succeeds (orderedMarker start (index + k))) ∧
        ∀ m ∈ Node.preorders ns, Renderable m := by
  match ns with
  | [] => simp [itemTexts, Node.preorders]
  | n :: ns =>
    have hnodes (first : String) :
        Succeeds (nodeText o first n >>= fun v =>
          itemTexts o ordered start (index + 1) ns >>= fun vs => pure (v :: vs)) ↔
        (∀ m ∈ n.preorder, Renderable m) ∧
          (ordered = true → ∀ k < ns.length, Succeeds (orderedMarker start (index + 1 + k))) ∧
            ∀ m ∈ Node.preorders ns, Renderable m := by
      rw [succeeds_seq, succeeds_nodeText o first n,
        succeeds_itemTexts o ordered start (index + 1) ns]
    rw [Node.preorders, List.forall_mem_append, List.length_cons]
    cases ordered with
    | false => simpa [itemTexts] using (succeeds_bind hnodes).trans (and_iff_right (succeeds_ok _))
    | true =>
      -- the first of the items has the first number, and the others those after it
      rw [Nat.forall_lt_succ_left]
      simp only [itemTexts, if_true, forall_const] at hnodes ⊢
      refine (succeeds_bind hnodes).trans ?_
      simp only [Nat.add_zero, Nat.add_assoc, Nat.add_comm 1]
      exact ⟨fun ⟨h, hn, hs, hns⟩ => ⟨⟨h, hs⟩, hn, hns⟩, fun ⟨⟨h, hs⟩, hn, hns⟩ => ⟨h, hn, hs, hns⟩⟩

end

/-- **A tree has a text exactly if each of its nodes can be rendered by itself.** -/
theorem succeeds_render_iff (o : RenderOptions) (tree : Node) :
    Succeeds (render o tree) ↔ ∀ m ∈ tree.preorder, Renderable m := by
  rw [render, succeeds_map, succeeds_nodeText]

end Mdx

end MdxPages
