import MdxPages.Proofs.Json.RoundTrip
import MdxPages.Proofs.Tree.Declared
import MdxPages.Tree.JsonText

/-!
# Proofs/Tree/Serialization — a tree is read back from its JSON form

Writing and reading a tree agree on every tree whose fields already are as reading leaves them
(`ofValue_toValue`), and reading leaves them so whatever it reads (`settledTree_ofValue`).  Trees
whose fields have their declared types are among these, and their JSON texts read back as well, on
one line or indented (`exists_toJson_eq_ok`).  What they may lack is a text, for a whole number that
is too long or a margin that is too wide (`declared_trees_without_text`).
-/

namespace MdxPages

/-! ## Results of operations -/

/-- Every result of an operation has a property. -/
def Gives {α : Type} (P : α → Prop) (e : Except Failure α) : Prop :=
  ∀ v, e = .ok v → P v

section

variable {α β : Type} {P : α → Prop} {Q : β → Prop} {e : Except Failure α}

theorem gives_ok {v : α} (h : P v) : Gives P (.ok v) := by
  intro w hw
  exact Except.ok.inj hw ▸ h

theorem gives_error (f : Failure) : Gives P (.error f) :=
  fun _ h => nomatch h

/-- What a sequence gives is what its second step gives after anything that the first one does. -/
theorem Gives.bind {f : α → Except Failure β} (he : Gives P e) (hf : ∀ v, P v → Gives Q (f v)) :
    Gives Q (e >>= f) := by
  cases e with
  | ok v => exact hf v (he v rfl)
  | error f => exact gives_error f

theorem Gives.map {f : α → β} (he : Gives P e) (hf : ∀ v, P v → Q (f v)) : Gives Q (f <$> e) := by
  cases e with
  | ok v => exact gives_ok (hf v (he v rfl))
  | error f => exact gives_error f

/-- Operations in a row give a list of what they give. -/
theorem gives_mapM {f : α → Except Failure β} (h : ∀ v, Gives Q (f v)) (vs : List α) :
    Gives (fun ws => ∀ w ∈ ws, Q w) (vs.mapM f) := by
  induction vs with
  | nil => exact gives_ok (by simp)
  | cons v vs ih =>
    rw [List.mapM_cons]
    refine (h v).bind fun w hw => ih.bind fun ws hws => ?_
    exact gives_ok (List.forall_mem_cons.2 ⟨hw, hws⟩)

end

/-! ## Attributes -/

/-- An attribute value that reading gives back as it is. -/
def AttributeValue.Settled (a : AttributeValue) : Prop :=
  ofValue a.toValue = a

/-- What is read as the value of an attribute is settled. -/
theorem AttributeValue.settled_ofValue (v : Value) : (ofValue v).Settled := by
  cases v <;> rfl

/-- A settled attribute is read back. -/
theorem Attribute.ofValue_toValue {a : Attribute} (h : a.value.Settled) :
    ofValue a.toValue = .ok a := by
  change Except.ok (⟨a.name, .ofValue a.value.toValue⟩ : Attribute) = .ok a
  rw [h]

/-- What is read as an attribute is settled. -/
theorem Attribute.settled_of_ofValue {v : Value} {a : Attribute} (h : ofValue v = .ok a) :
    a.value.Settled := by
  cases v with
  | obj fields =>
    obtain rfl := Except.ok.inj h
    exact AttributeValue.settled_ofValue _
  | null | bool | num | str | arr | foreign => cases h

theorem Attribute.IsLiteral.settled {a : Attribute} (h : a.IsLiteral) : a.value.Settled := by
  obtain ⟨name, value⟩ := a
  cases value with
  | text s | expression s => rfl
  | other v => exact h.elim

namespace Node

variable {n : Node} {ns : List Node} {fields : List (String × Value)}

/-- The fields of a node are as reading leaves them. -/
def Settled : Node → Prop
  | heading depth _ => ∃ d : Int, depth = .int d
  | flowComponent _ attributes _ | textComponent _ attributes _ =>
    ∀ a ∈ attributes, a.value.Settled
  | _ => True

/-- Fields with their declared types are settled. -/
theorem Declared.settled (h : n.Declared) : n.Settled := by
  cases n with
  | heading depth cs => exact h
  | flowComponent name attributes cs | textComponent name attributes cs =>
    exact fun a ha => (h a ha).settled
  | _ => trivial

/-! ## Reading what was written

Reading fills in what is left out, and takes what it does not expect for something else.  Settled
fields are those for which neither happens. -/

theorem mapM_ofValue_toValue {attributes : List Attribute}
    (h : ∀ a ∈ attributes, a.value.Settled) :
    (attributes.map Attribute.toValue).mapM Attribute.ofValue = .ok attributes := by
  induction attributes with
  | nil => rfl
  | cons a attributes ih =>
    rw [List.forall_mem_cons] at h
    rw [List.map_cons, List.mapM_cons, Attribute.ofValue_toValue h.1, ih h.2]
    rfl

/-- Settled attributes are read back from their field. -/
theorem attributesOf_toValue {attributes : List Attribute} (h : ∀ a ∈ attributes, a.value.Settled)
    (hfields : Value.field "attributes" fields = .arr (attributes.map Attribute.toValue)) :
    attributesOf fields = .ok attributes := by
  rw [attributesOf, hfields]
  cases attributes with
  | nil => rfl
  | cons a attributes => exact mapM_ofValue_toValue h

theorem textIfGiven_str (s : String) : (Value.str s).textIfGiven = s := by
  unfold Value.textIfGiven
  split
  · rfl
  · next h => exact (String.isEmpty_iff.1 (by simpa [Value.isGiven] using h)).symm

/-- A field that is left out if it is null is there, or it is null. -/
theorem optionalField_cases (key : String) (v : Value) :
    optionalField key v = [(key, v)] ∨ v = .null := by
  cases v <;> simp [optionalField]

mutual

/-- **A settled tree is read back from its JSON value.** -/
theorem ofValue_toValue (n : Node) (h : ∀ m ∈ n.preorder, m.Settled) :
    ofValue n.toValue = .ok n := by
  rw [forall_preorder_iff] at h
  match n with
  | root cs | paragraph cs | blockquote cs | listItem cs | emphasis cs | strong cs =>
    have hcs := ofValues_toValues cs h.2
    simp [toValue, ofValue, Entries.get?, ofChildren, hcs, assemble, plainContainer?, Except.map]
  | link url cs =>
    have hcs := ofValues_toValues cs h.2
    simp [toValue, ofValue, Entries.get?, ofChildren, hcs, assemble, plainContainer?, textLeaf?,
      textField, Value.field, textIfGiven_str, Functor.map, Except.map]
  | heading depth cs =>
    obtain ⟨d, rfl⟩ := h.1
    have hcs := ofValues_toValues cs h.2
    simp [toValue, ofValue, Entries.get?, ofChildren, hcs, assemble, plainContainer?, textLeaf?,
      wholeNumber, bind, Except.bind, pure, Except.pure]
  | list ordered start cs =>
    have hcs := ofValues_toValues cs h.2
    obtain hstart | rfl := optionalField_cases "start" start
    · simp [toValue, hstart, ofValue, Entries.get?, ofChildren, hcs, assemble, plainContainer?,
        textLeaf?, Value.field, Value.isGiven, Functor.map, Except.map]
    · simp [toValue, optionalField, ofValue, Entries.get?, ofChildren, hcs, assemble,
        plainContainer?, textLeaf?, Value.field, Value.isGiven, Functor.map, Except.map]
  | footnoteDefinition identifier label cs =>
    have hcs := ofValues_toValues cs h.2
    obtain hlabel | rfl := optionalField_cases "label" label
    · simp [toValue, hlabel, ofValue, Entries.get?, ofChildren, hcs, assemble, plainContainer?,
        textLeaf?, Value.field, textField, textIfGiven_str, Functor.map, Except.map]
    · simp [toValue, optionalField, ofValue, Entries.get?, ofChildren, hcs, assemble,
        plainContainer?, textLeaf?, Value.field, textField, textIfGiven_str, Functor.map,
        Except.map]
  | flowComponent name attributes cs | textComponent name attributes cs =>
    have hcs := ofValues_toValues cs h.2
    simp [toValue, ofValue, Entries.get?, ofChildren, hcs, assemble, plainContainer?, textLeaf?,
      textField, Value.field, textIfGiven_str, attributesOf_toValue h.1, bind, Except.bind,
      pure, Except.pure]
  | footnoteReference identifier label =>
    obtain hlabel | rfl := optionalField_cases "label" label
    · simp [toValue, hlabel, ofValue, Entries.get?, assemble, plainContainer?, textLeaf?,
        Value.field, textField, textIfGiven_str]
    · simp [toValue, optionalField, ofValue, Entries.get?, assemble, plainContainer?, textLeaf?,
        Value.field, textField, textIfGiven_str]
  | code value lang =>
    simp [toValue, ofValue, Entries.get?, assemble, plainContainer?, textLeaf?, textField,
      Value.field, textIfGiven_str]
  | thematicBreak | html _ | yaml _ | imports _ | text _ | inlineCode _ | lineBreak =>
    simp [toValue, ofValue, Entries.get?, assemble, plainContainer?, textLeaf?, textField,
      Value.field, textIfGiven_str]

/-- Settled siblings are read back from their JSON values. -/
theorem ofValues_toValues (ns : List Node) (h : ∀ m ∈ preorders ns, m.Settled) :
    ofValues (toValues ns) = .ok ns := by
  match ns with
  | [] => rfl
  | n :: ns =>
    rw [preorders, List.forall_mem_append] at h
    rw [toValues, ofValues, ofValue_toValue n h.1, ofValues_toValues ns h.2]
    rfl

end

/-! ## Whatever is read

Any value may be read, so this holds of fields of any kind. -/

/-- Whatever is read as attributes is settled. -/
theorem settled_attributesOf (fields : List (String × Value)) :
    Gives (fun attributes => ∀ a ∈ attributes, a.value.Settled) (attributesOf fields) := by
  unfold attributesOf
  dsimp only
  split
  · exact Gives.bind (P := fun _ => True) (fun _ _ => trivial) fun vs _ =>
      gives_mapM (fun _ _ => Attribute.settled_of_ofValue) vs
  · exact gives_ok (by simp)

/-- Every node of a tree is settled. -/
def SettledTree (n : Node) : Prop :=
  ∀ m ∈ n.preorder, m.Settled

theorem settledTree_of_children (hn : n.Settled) (h : ∀ m ∈ preorders n.children, m.Settled) :
    n.SettledTree :=
  forall_preorder_iff.2 ⟨hn, h⟩

/-- A container without fields is settled if its children are. -/
theorem settledTree_plainContainer {type : String} {make : List Node → Node}
    (hmake : plainContainer? type = some make) (h : ∀ m ∈ preorders ns, m.Settled) :
    (make ns).SettledTree := by
  unfold plainContainer? at hmake
  split at hmake <;> cases hmake
  all_goals exact settledTree_of_children trivial h

theorem settledTree_textLeaf {type : String} {make : String → Node}
    (hmake : textLeaf? type = some make) (s : String) : (make s).SettledTree := by
  unfold textLeaf? at hmake
  split at hmake <;> cases hmake
  all_goals exact settledTree_of_children trivial (by simp [children, preorders])

/-- Children that are no list of nodes are refused, or there are none. -/
theorem settled_scatteredChildren (v : Value) :
    Gives (fun ns => ∀ m ∈ preorders ns, m.Settled) (scatteredChildren v) := by
  unfold scatteredChildren
  split
  · refine Gives.bind (P := fun _ => True) (fun _ _ => trivial) fun vs _ ns hns => ?_
    rw [forall_preorders_iff]
    exact gives_mapM (Q := SettledTree) (fun _ => gives_error _) vs ns hns
  · exact gives_ok (by simp [preorders])

/-- What a node is assembled from its fields and its children is settled. -/
theorem settledTree_assemble {children : Except Failure (List Node)} (type : String)
    (fields : List (String × Value))
    (h : Gives (fun ns => ∀ m ∈ preorders ns, m.Settled) children) :
    Gives SettledTree (assemble type fields children) := by
  have hattributes := settled_attributesOf fields
  unfold assemble
  split
  · next make _ hmake => exact h.map fun ns hns => settledTree_plainContainer hmake hns
  · next make _ hmake => exact gives_ok (settledTree_textLeaf hmake _)
  · split
    · exact gives_ok (settledTree_of_children trivial (by simp [Node.children, preorders]))
    · exact gives_ok (settledTree_of_children trivial (by simp [Node.children, preorders]))
    · exact Gives.bind (P := fun _ => True) (fun _ _ => trivial) fun d _ =>
        h.map fun ns hns => settledTree_of_children ⟨d, rfl⟩ hns
    · exact gives_ok (settledTree_of_children trivial (by simp [Node.children, preorders]))
    · exact h.map fun ns hns => settledTree_of_children trivial hns
    · exact h.map fun ns hns => settledTree_of_children trivial hns
    · exact h.map fun ns hns => settledTree_of_children trivial hns
    · exact gives_ok (settledTree_of_children trivial (by simp [Node.children, preorders]))
    · exact hattributes.bind fun as has =>
        h.map fun ns hns => settledTree_of_children has hns
    · exact hattributes.bind fun as has =>
        h.map fun ns hns => settledTree_of_children has hns
    · exact gives_error _

mutual

/-- **Whatever is read is settled.** -/
theorem settledTree_ofValue (v : Value) : Gives SettledTree (ofValue v) := by
  match v with
  | .obj fields =>
    rw [ofValue]
    split
    · exact gives_error _
    · exact settledTree_assemble _ fields (settled_ofChildren fields)
    · exact gives_error _
    · exact gives_error _
    · exact gives_error _
  | .null | .bool _ | .num _ | .str _ | .arr _ | .foreign _ => exact gives_error _

/-- …for the children of a node. -/
theorem settled_ofChildren (fields : List (String × Value)) :
    Gives (fun ns => ∀ m ∈ preorders ns, m.Settled) (ofChildren fields) := by
  match fields with
  | [] => exact gives_ok (by simp [preorders])
  | (key, .arr items) :: rest =>
    rw [ofChildren]
    split
    · exact settled_ofValues items
    · exact settled_ofChildren rest
  | (key, .null) :: rest | (key, .bool _) :: rest | (key, .num _) :: rest | (key, .str _) :: rest
  | (key, .obj _) :: rest | (key, .foreign _) :: rest =>
    simp only [ofChildren]
    split
    · exact settled_scatteredChildren _
    · exact settled_ofChildren rest

theorem settled_ofValues (vs : List Value) :
    Gives (fun ns => ∀ m ∈ preorders ns, m.Settled) (ofValues vs) := by
  match vs with
  | [] => exact gives_ok (by simp [preorders])
  | v :: vs =>
    rw [ofValues]
    refine (settledTree_ofValue v).bind fun n hn => (settled_ofValues vs).map fun ns hns => ?_
    rw [preorders, List.forall_mem_append]
    exact ⟨hn, hns⟩

end

/-! ## Texts

The text of a tree is that of its value, and a value with numbers of few enough digits is read back
from its text. -/

theorem IsText?.plain {v : Value} (h : IsText? v) : v.Plain := by
  obtain rfl | ⟨s, rfl⟩ := h <;> exact trivial

theorem plainEach_attributes {attributes : List Attribute} (h : ∀ a ∈ attributes, a.IsLiteral) :
    Value.PlainEach (attributes.map Attribute.toValue) := by
  induction attributes with
  | nil => exact trivial
  | cons a attributes ih =>
    rw [List.forall_mem_cons] at h
    refine ⟨?_, ih h.2⟩
    obtain ⟨name, value⟩ := a
    cases value with
    | text s =>
      simp [Attribute.toValue, AttributeValue.toValue, Value.Plain, Value.PlainIn, Entries.keys]
    | expression source =>
      simp [Attribute.toValue, AttributeValue.toValue, Value.Plain, Value.PlainIn, Entries.keys]
    | other v => exact h.1.elim

mutual

/-- The value of a tree with declared types is plain, if its numbers can be written. -/
theorem plain_toValue (n : Node)
    (h : ∀ m ∈ n.preorder, m.Declared ∧ ∀ i ∈ m.integers, Number.Writable i) :
    n.toValue.Plain := by
  rw [forall_preorder_iff] at h
  match n with
  | root cs | paragraph cs | blockquote cs | listItem cs | emphasis cs | strong cs | link _ cs =>
    have hcs := plainEach_toValues cs h.2
    simp [toValue, Value.Plain, Value.PlainIn, Entries.keys, hcs]
  | heading depth cs =>
    have hcs := plainEach_toValues cs h.2
    obtain ⟨⟨d, rfl⟩, hd⟩ := h.1
    have hdepth := hd d List.mem_cons_self
    simp [toValue, Value.Plain, Value.PlainIn, Entries.keys, hcs, hdepth]
  | list ordered start cs =>
    have hcs := plainEach_toValues cs h.2
    obtain ⟨rfl | ⟨i, rfl⟩, hi⟩ := h.1
    · simp [toValue, optionalField, Value.Plain, Value.PlainIn, Entries.keys, hcs]
    · have hstart := hi i List.mem_cons_self
      simp [toValue, optionalField, Value.Plain, Value.PlainIn, Entries.keys, hcs, hstart]
  | footnoteDefinition identifier label cs =>
    have hcs := plainEach_toValues cs h.2
    obtain rfl | ⟨s, rfl⟩ := h.1.1
    · simp [toValue, optionalField, Value.Plain, Value.PlainIn, Entries.keys, hcs]
    · simp [toValue, optionalField, Value.Plain, Value.PlainIn, Entries.keys, hcs]
  | flowComponent name attributes cs | textComponent name attributes cs =>
    have hcs := plainEach_toValues cs h.2
    have hattributes := plainEach_attributes h.1.1
    simp [toValue, Value.Plain, Value.PlainIn, Entries.keys, hcs, hattributes]
  | footnoteReference identifier label =>
    obtain rfl | ⟨s, rfl⟩ := h.1.1
    · simp [toValue, optionalField, Value.Plain, Value.PlainIn, Entries.keys]
    · simp [toValue, optionalField, Value.Plain, Value.PlainIn, Entries.keys]
  | code value lang =>
    have hlang := IsText?.plain h.1.1
    simp [toValue, Value.Plain, Value.PlainIn, Entries.keys, hlang]
  | thematicBreak | html _ | yaml _ | imports _ | text _ | inlineCode _ | lineBreak =>
    simp [toValue, Value.Plain, Value.PlainIn, Entries.keys]

theorem plainEach_toValues (ns : List Node)
    (h : ∀ m ∈ preorders ns, m.Declared ∧ ∀ i ∈ m.integers, Number.Writable i) :
    Value.PlainEach (toValues ns) := by
  match ns with
  | [] => exact trivial
  | n :: ns =>
    rw [preorders, List.forall_mem_append] at h
    exact ⟨plain_toValue n h.1, plainEach_toValues ns h.2⟩

end

/-- The whole numbers in a tree are not too long to be written. -/
def IntegersWritable (n : Node) : Prop :=
  ∀ m ∈ n.preorder, ∀ i ∈ m.integers, Number.Writable i

/-- Only a whole number that is too long is refused in a tree with its declared types. -/
theorem scalars_refusal?_iff (h : ∀ m ∈ n.preorder, m.Declared) :
    (n.toValue.Scalars fun v => Json.refusal? v = none) ↔ n.IntegersWritable := by
  rw [scalars_toValue_iff (p := fun v => Json.refusal? v = none) rfl (fun _ => rfl)
    (fun _ => rfl) n h]
  exact forall₂_congr fun m _ => forall₂_congr fun i _ => Json.refusal?_eq_none_iff i

/-- A margin whose blanks can be counted: their number fits into 64 bits. -/
def CountsMargin (indent : Option Int) : Prop :=
  ∀ i ∈ indent, Int64.minValue.toInt ≤ i ∧ i ≤ Int64.maxValue.toInt

/-- A margin is accepted if its blanks can be counted. -/
theorem all_isMargin_iff {indent : Option Int} :
    indent.all isMargin = true ↔ CountsMargin indent := by
  cases indent <;> simp [CountsMargin, isMargin]

/-- With such a margin a tree is written as any value is. -/
theorem toJson_eq_dump {indent : Option Int} (hindent : CountsMargin indent) :
    n.toJson indent = (Json.dump (.indented indent) n.toValue).mapError .fault :=
  if_pos (all_isMargin_iff.2 hindent)

/-- **The text of a tree is read back as the tree.** -/
theorem exists_toJson_eq_ok {indent : Option Int} (hindent : CountsMargin indent)
    (h : ∀ m ∈ n.preorder, m.Declared) (hn : n.IntegersWritable) :
    ∃ text, n.toJson indent = .ok text ∧ ofJson text = .ok n := by
  have hplain := plain_toValue n fun m hm => ⟨h m hm, hn m hm⟩
  refine ⟨Json.write (.indented indent) n.toValue, ?_, ?_⟩
  · rw [toJson_eq_dump hindent, Json.dump_eq_ok _ ((scalars_refusal?_iff h).2 hn)]
    rfl
  · rw [ofJson, Json.read_write (Json.Style.spaced_indented indent) hplain]
    exact ofValue_toValue n fun m hm => (h m hm).settled

/-- A tree with a number that is too long has no text. -/
theorem toJson_eq_tooManyDigits {indent : Option Int} (hindent : CountsMargin indent)
    (h : ∀ m ∈ n.preorder, m.Declared) (hn : ¬n.IntegersWritable) :
    n.toJson indent = .error (.fault .tooManyDigits) := by
  have hreason : n.toValue.Scalars fun v => ∀ f ∈ Json.refusal? v, f = .tooManyDigits := by
    rw [scalars_toValue_iff (p := fun v => ∀ f ∈ Json.refusal? v, f = .tooManyDigits)
      (fun _ hf => nomatch hf) (fun _ _ hf => nomatch hf) (fun _ _ hf => nomatch hf) n h]
    exact fun m _ i _ => Json.eq_tooManyDigits_of_refusal? i
  rw [toJson_eq_dump hindent,
    Json.dump_eq_error _ hreason fun hnone => hn ((scalars_refusal?_iff h).1 hnone)]
  rfl

/-- No tree has a text with a margin whose blanks cannot be counted. -/
theorem toJson_eq_unfitMargin {indent : Option Int} (hindent : ¬CountsMargin indent) :
    n.toJson indent = .error (.fault .unfitMargin) :=
  if_neg fun h => hindent (all_isMargin_iff.1 h)

/-- **Serialization loses nothing.**  A tree whose fields have their declared types is read back
from its JSON value, and from its JSON text with whatever margin; there is no text where a whole
number in the tree has more digits than can be written, or where the blanks of the margin cannot be
counted.  And a tree that is read from any JSON value, however loosely typed, is read back from its
own one. -/
theorem serialization_lossless (tree : Node) (v : Value) :
    ((∀ m ∈ tree.preorder, m.Declared) →
      ofValue tree.toValue = .ok tree ∧
      ∀ indent : Option Int,
        (CountsMargin indent → tree.IntegersWritable →
          ∃ text, tree.toJson indent = .ok text ∧ ofJson text = .ok tree) ∧
        (CountsMargin indent → ¬tree.IntegersWritable →
          tree.toJson indent = .error (.fault .tooManyDigits)) ∧
        (¬CountsMargin indent → tree.toJson indent = .error (.fault .unfitMargin))) ∧
    ∀ n, ofValue v = .ok n → ofValue n.toValue = .ok n := by
  refine ⟨fun h => ⟨ofValue_toValue tree fun m hm => (h m hm).settled, fun indent => ?_⟩, ?_⟩
  · exact ⟨fun hindent => exists_toJson_eq_ok hindent h,
      fun hindent => toJson_eq_tooManyDigits hindent h, toJson_eq_unfitMargin⟩
  · exact fun n hn => ofValue_toValue n (settledTree_ofValue v n hn)

/-- A tree with depths, starts, labels and attributes of every declared form. -/
def sampleTree : Node :=
  root [heading (.int 2) [text "Café \"Ω\"", footnoteReference "n" .null],
    list true (.int 3) [listItem [code "x = \\n" (.str "py"), code "" .null]],
    list false .null [],
    flowComponent "Image" [⟨"src", .expression "picture"⟩, ⟨"alt", .text ""⟩] [],
    footnoteDefinition "n" (.str "N") []]

/-- A component without a name, with attributes of no declared type and children that are null. -/
def looseValue : Value :=
  .obj [("children", .null), ("type", .str "mdxJsxTextElement"),
    ("attributes", .arr [.obj [("value", .arr [.null, .obj []])], .obj [("name", .bool true)],
      .obj [("value", .obj [("value", .int 7)])]])]

/-- The sample has declared types. -/
theorem declared_sampleTree : ∀ m ∈ sampleTree.preorder, m.Declared := by
  simp [sampleTree, preorder, preorders, Declared, IsText?, Attribute.IsLiteral]

/-- And its numbers can be written. -/
theorem integersWritable_sampleTree : sampleTree.IntegersWritable := by
  have h (i : Int) (hi : i = 2 ∨ i = 3) : Number.Writable i := by
    rw [Number.writable_iff_length]
    obtain rfl | rfl := hi <;> decide
  simp [IntegersWritable, sampleTree, preorder, preorders, integers, h]

/-- A heading whose depth is the least number that is too long. -/
def longTree : Node :=
  heading (.int Number.leastTooLong) []

theorem preorder_longTree : longTree.preorder = [longTree] := by
  rw [longTree, preorder, preorders]

theorem declared_longTree : ∀ m ∈ longTree.preorder, m.Declared := by
  rw [preorder_longTree, List.forall_mem_singleton]
  exact ⟨_, rfl⟩

theorem not_integersWritable_longTree : ¬ longTree.IntegersWritable := by
  intro h
  rw [IntegersWritable, preorder_longTree, List.forall_mem_singleton] at h
  exact Number.not_writable_leastTooLong (h _ List.mem_cons_self)

/-- The sample is read back from its text, and the loose value as what it is read as. -/
theorem serialization_lossless_sample :
    (∀ m ∈ sampleTree.preorder, m.Declared) ∧ CountsMargin (some 2) ∧
      sampleTree.IntegersWritable ∧ ofValue sampleTree.toValue = .ok sampleTree ∧
      (∃ text, sampleTree.toJson (some 2) = .ok text ∧ ofJson text = .ok sampleTree) ∧
      ∃ n, ofValue looseValue = .ok n ∧ ofValue n.toValue = .ok n := by
  obtain ⟨hdeclared, hread⟩ := serialization_lossless sampleTree looseValue
  obtain ⟨hvalue, htext⟩ := hdeclared declared_sampleTree
  have hmargin : CountsMargin (some 2) := all_isMargin_iff.1 (by decide)
  have hloose : ofValue looseValue = .ok (textComponent ""
      [⟨"", .other (.arr [.null, .obj []])⟩, ⟨"True", .text ""⟩, ⟨"", .expression "7"⟩] []) := by
    rfl
  exact ⟨declared_sampleTree, hmargin, integersWritable_sampleTree, hvalue,
    (htext (some 2)).1 hmargin integersWritable_sampleTree, _, hloose, hread _ hloose⟩

/-- **A tree with its declared types can be without a text**, and a tree of nothing but a break is
without one where the margin is too wide. -/
theorem declared_trees_without_text :
    (∀ m ∈ longTree.preorder, m.Declared) ∧
      longTree.toJson none = .error (.fault .tooManyDigits) ∧
      (∀ m ∈ lineBreak.preorder, m.Declared) ∧
      lineBreak.toJson (some 9223372036854775808) = .error (.fault .unfitMargin) := by
  have hmargin : CountsMargin none := by simp [CountsMargin]
  have hwide : ¬CountsMargin (some 9223372036854775808) := mt all_isMargin_iff.2 (by decide)
  refine ⟨declared_longTree, toJson_eq_tooManyDigits hmargin declared_longTree
    not_integersWritable_longTree, ?_, toJson_eq_unfitMargin hwide⟩
  simp [preorder, Declared]

end Node

end MdxPages
