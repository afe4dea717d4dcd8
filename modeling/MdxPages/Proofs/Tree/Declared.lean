import MdxPages.Proofs.Tree.Normal
import MdxPages.Proofs.Value
import MdxPages.Tree.Json

/-!
# Proofs/Tree/Declared — trees whose fields have their declared types

Depths and starts are whole numbers, languages and labels are texts, and attributes are texts or
expressions; languages, labels and starts may be missing.  Of the scalars in the JSON value of such
a tree, only the whole numbers differ from tree to tree in kind (`scalars_toValue_iff`).
-/

namespace MdxPages

/-- An attribute is a text or an expression. -/
def Attribute.IsLiteral (a : Attribute) : Prop :=
  match a.value with
  | .text _ | .expression _ => True
  | .other _ => False

namespace Node

/-- A field that holds a text or nothing. -/
def IsText? (v : Value) : Prop :=
  v = .null ∨ ∃ s, v = .str s

/-- The fields of a node have their declared types. -/
def Declared : Node → Prop
  | heading depth _ => ∃ d : Int, depth = .int d
  | list _ start _ => start = .null ∨ ∃ i : Int, start = .int i
  | code _ lang => IsText? lang
  | footnoteDefinition _ label _ | footnoteReference _ label => IsText? label
  | flowComponent _ attributes _ | textComponent _ attributes _ => ∀ a ∈ attributes, a.IsLiteral
  | _ => True

/-- The whole numbers in the fields of a node: the depth of a heading, the start of a list. -/
def integers : Node → List Int
  | heading (.int d) _ => [d]
  | list _ (.num (.int i)) _ => [i]
  | _ => []

variable {p : Value → Prop}

/-- A field that holds a text or nothing. -/
theorem IsText?.scalars {v : Value} (hnull : p .null) (hstr : ∀ s, p (.str s)) (h : IsText? v) :
    v.Scalars p := by
  obtain rfl | ⟨s, rfl⟩ := h
  · exact hnull
  · exact hstr s

theorem IsText?.scalarsIn_optionalField {v : Value} (hstr : ∀ s, p (.str s)) (h : IsText? v)
    (key : String) : Value.ScalarsIn p (optionalField key v) := by
  obtain rfl | ⟨s, rfl⟩ := h
  · exact trivial
  · exact ⟨hstr s, trivial⟩

/-- Literal attributes hold texts and nothing else. -/
theorem scalarsEach_attributes {attributes : List Attribute} (hstr : ∀ s, p (.str s))
    (h : ∀ a ∈ attributes, a.IsLiteral) :
    Value.ScalarsEach p (attributes.map Attribute.toValue) := by
  induction attributes with
  | nil => exact trivial
  | cons a attributes ih =>
    rw [List.forall_mem_cons] at h
    refine ⟨?_, ih h.2⟩
    obtain ⟨name, value⟩ := a
    cases value with
    | text s => exact ⟨hstr _, hstr _, hstr _, trivial⟩
    | expression source => exact ⟨hstr _, hstr _, ⟨hstr _, hstr _, trivial⟩, trivial⟩
    | other v => exact h.1.elim

mutual

/-- **Only the whole numbers in a tree with its declared types** decide what holds of the scalars
of its JSON value. -/
theorem scalars_toValue_iff (hnull : p .null) (hbool : ∀ b, p (.bool b)) (hstr : ∀ s, p (.str s))
    (n : Node) (h : ∀ m ∈ n.preorder, m.Declared) :
    n.toValue.Scalars p ↔ ∀ m ∈ n.preorder, ∀ i ∈ m.integers, p (.int i) := by
  rw [forall_preorder_iff] at h ⊢
  match n with
  | root cs | paragraph cs | blockquote cs | listItem cs | emphasis cs | strong cs | link _ cs =>
    have hcs := scalarsEach_toValues_iff hnull hbool hstr cs h.2
    simp [toValue, Value.Scalars, Value.ScalarsIn, integers, children, hcs, hstr]
  | heading depth cs =>
    have hcs := scalarsEach_toValues_iff hnull hbool hstr cs h.2
    obtain ⟨d, rfl⟩ := h.1
    simp [toValue, Value.Scalars, Value.ScalarsIn, integers, children, hcs, hstr]
  | list ordered start cs =>
    have hcs := scalarsEach_toValues_iff hnull hbool hstr cs h.2
    obtain rfl | ⟨i, rfl⟩ := h.1
    · simp [toValue, Value.Scalars, Value.ScalarsIn, optionalField, integers, children, hcs, hstr,
        hbool]
    · simp [toValue, Value.Scalars, Value.ScalarsIn, optionalField, integers, children, hcs, hstr,
        hbool]
  | footnoteDefinition identifier label cs =>
    have hcs := scalarsEach_toValues_iff hnull hbool hstr cs h.2
    have hlabel := IsText?.scalarsIn_optionalField hstr h.1 "label"
    simp [toValue, Value.Scalars, Value.ScalarsIn, Value.scalarsIn_append, integers, children, hcs,
      hstr, hlabel]
  | flowComponent name attributes cs | textComponent name attributes cs =>
    have hcs := scalarsEach_toValues_iff hnull hbool hstr cs h.2
    have hattributes := scalarsEach_attributes hstr h.1
    simp [toValue, Value.Scalars, Value.ScalarsIn, integers, children, hcs, hstr, hattributes]
  | footnoteReference identifier label =>
    have hlabel := IsText?.scalarsIn_optionalField hstr h.1 "label"
    simp [toValue, Value.Scalars, Value.ScalarsIn, integers, children, preorders, hstr, hlabel]
  | code value lang =>
    have hlang := IsText?.scalars hnull hstr h.1
    simp [toValue, Value.Scalars, Value.ScalarsIn, integers, children, preorders, hstr, hlang]
  | thematicBreak | html _ | yaml _ | imports _ | text _ | inlineCode _ | lineBreak =>
    simp [toValue, Value.Scalars, Value.ScalarsIn, integers, children, preorders, hstr]

/-- …for siblings. -/
theorem scalarsEach_toValues_iff (hnull : p .null) (hbool : ∀ b, p (.bool b))
    (hstr : ∀ s, p (.str s)) (ns : List Node) (h : ∀ m ∈ preorders ns, m.Declared) :
    Value.ScalarsEach p (toValues ns) ↔ ∀ m ∈ preorders ns, ∀ i ∈ m.integers, p (.int i) := by
  match ns with
  | [] => simp [toValues, Value.ScalarsEach, preorders]
  | n :: ns =>
    rw [preorders, List.forall_mem_append] at h ⊢
    rw [toValues, Value.ScalarsEach, scalars_toValue_iff hnull hbool hstr n h.1,
      scalarsEach_toValues_iff hnull hbool hstr ns h.2]

end

end Node

end MdxPages
