import MdxPages.Proofs.Convert.Meets
import MdxPages.Proofs.Convert.Storage
import MdxPages.Proofs.Tree.Normal

/-!
# Proofs/Convert/PlainText — no text is lost, doubled or moved

Most kinds of nodes are converted to their children, or to one node around them (`KeepsChildren`).
A page of such nodes and of texts has the texts of its source, in the order of the document, but for
one thing: the first title of a section comes before the rest of it (`plainText_convertPage`).
-/

namespace MdxPages

namespace Source

/-! ## Sources that are kept

The kinds are listed that convert to their children or to one node around them.  A source of such
nodes can be put into the order in which it is converted without converting it. -/

/-- The first title among siblings. -/
def frontTitle (ss : List Source) : List Source :=
  (ss.find? fun s => isTitle s.fields).toList

/-- Siblings without the first title among them. -/
def behindTitle (ss : List Source) : List Source :=
  ss.eraseP fun s => isTitle s.fields

/-- Siblings with the first title among them in front. -/
def titleFirst (ss : List Source) : List Source :=
  frontTitle ss ++ behindTitle ss

mutual

/-- A tree with the first title of every section in front of the rest of the section. -/
def titlesFirst : Source → Source
  | .stray v => .stray v
  | .node fields children term argument =>
    .node fields
      (if kindOf fields = .sectionBlock then titleFirst (titlesFirstEach children)
        else titlesFirstEach children)
      term argument

/-- Sibling trees, with the first title of every section in them in front. -/
def titlesFirstEach : List Source → List Source
  | [] => []
  | s :: ss => titlesFirst s :: titlesFirstEach ss

end

/-- A node of this kind is converted to its children, or to one node around them. -/
def KeepsChildren (fields : Entries Value) : Prop :=
  match kindOf fields with
  | .text | .line | .literal | .code | .lineBlock | .footnoteReference | .transition | .target
  | .inlineTarget | .dropped => False
  | .directive => directiveOf fields = .generic
  | _ => True

/-- A tree of texts, and of nodes around others that have no value, term or argument of their
own. -/
inductive InPlace : Source → Prop
  | text {fields : Entries Value} {term argument : List Source} (kind : kindOf fields = .text) :
    InPlace (.node fields [] term argument)
  | node {fields : Entries Value} {children argument : List Source} (keeps : KeepsChildren fields)
    (noValue : Value.field "value" fields = .null)
    (noArgument : Value.field "argument" fields = .null) (inside : ∀ s ∈ children, InPlace s) :
    InPlace (.node fields children [] argument)

@[simp] theorem fields_titlesFirst (s : Source) : (titlesFirst s).fields = s.fields := by
  cases s <;> simp [titlesFirst, fields]

/-- Titles are put in front in each of the siblings. -/
theorem titlesFirstEach_eq_map (ss : List Source) : titlesFirstEach ss = ss.map titlesFirst := by
  induction ss with
  | nil => rw [titlesFirstEach, List.map_nil]
  | cons s ss ih => rw [titlesFirstEach, ih, List.map_cons]

theorem frontTitle_cons (s : Source) (ss : List Source) :
    frontTitle (s :: ss) = if isTitle s.fields then [s] else frontTitle ss := by
  rw [frontTitle, List.find?_cons]
  split <;> simp_all [frontTitle]

theorem behindTitle_cons (s : Source) (ss : List Source) :
    behindTitle (s :: ss) = if isTitle s.fields then ss else s :: behindTitle ss := by
  rw [behindTitle, List.eraseP_cons]
  cases isTitle s.fields <;> rfl

/-- Siblings in sequence say their texts in sequence. -/
theorem valuesEach_append (ss ts : List Source) :
    valuesEach (ss ++ ts) = valuesEach ss ++ valuesEach ts := by
  induction ss with
  | nil => simp [valuesEach]
  | cons s ss ih => simp [valuesEach, ih, String.append_assoc]

/-- A title is a heading by its type. -/
theorem kindOf_of_isTitle {fields : Entries Value} (h : isTitle fields = true) :
    kindOf fields = .heading := by
  have htype {name : String} (hname : isText name (Value.field "type" fields) = true) :
      typeName fields = name := by
    unfold Value.field at hname
    unfold typeName
    cases hfield : fields.get? "type" with
    | none => simp [hfield, isText] at hname
    | some v => cases v <;> simp_all [isText]
  rw [isTitle, Bool.or_eq_true] at h
  obtain h | h := h
  · rw [kindOf, htype h]
    rfl
  · rw [kindOf, htype h]
    rfl

/-- A title keeps its children, and says no more than they do. -/
theorem InPlace.title {fields : Entries Value} {children term argument : List Source}
    (h : InPlace (.node fields children term argument)) (htitle : isTitle fields = true) :
    (∀ s ∈ children, InPlace s) ∧
      values (titlesFirst (.node fields children term argument)) =
        valuesEach (titlesFirstEach children) := by
  have hkind := kindOf_of_isTitle htitle
  cases h with
  | text htext => cases hkind.symm.trans htext
  | node hkeeps hvalue hargument hinside =>
    refine ⟨hinside, ?_⟩
    simp [titlesFirst, values, hkind, hvalue, Value.strOrEmpty, Value.str?]

end Source

namespace Convert

open MdxPages.Source

variable {σ : Type} {place : Place} {depth : Int} {fields : Entries Value}
  {children : List Source} {parts : Parts σ} {text front rest : String}

/-! ## Conversions that say a text

A conversion says a text whatever state it starts in.  The one fault it may meet instead is that of
a number which is not finite. -/

/-- The fault of a number that is no finite one. -/
def IsUnbounded (f : Fault) : Prop :=
  f = .infiniteInteger ∨ f = .undefinedInteger

/-- A conversion gives nodes of a text, or it meets a number that is no finite one. -/
def Says (text : String) (x : Conversion σ (List Node)) : Prop :=
  Meets (fun _ => True) IsUnbounded (fun ns => Node.plainTexts "" ns = text) x

/-- The same of what a node converts to. -/
def SaysOnce (text : String) (x : Conversion σ Converted) : Prop :=
  Meets (fun _ => True) IsUnbounded (fun c => Node.plainTexts "" c.toList = text) x

/-- Nodes put into one more node say what they said. -/
theorem Says.one {x : Conversion σ (List Node)} (h : Says text x) {g : List Node → Node}
    (hg : ∀ ns, (g ns).plainText "" = Node.plainTexts "" ns) :
    SaysOnce text (x >>= fun ns => pure (.one (g ns))) :=
  h.map fun ns hns => (hg ns).trans hns

/-- Nodes left in their own place say what they said. -/
theorem Says.several {x : Conversion σ (List Node)} (h : Says text x) :
    SaysOnce text (x >>= fun ns => pure (.several ns)) :=
  h.map fun _ hns => hns

/-- One conversion after the other says one text after the other. -/
theorem Says.append {x y : Conversion σ (List Node)} (hx : Says front x) (hy : Says rest y) :
    Says (front ++ rest) (x >>= fun ns => y >>= fun ms => pure (ns ++ ms)) := by
  refine Meets.bind hx fun ns hns => Meets.map hy fun ms hms => ?_
  rw [Node.plainTexts_empty_append, hns, hms]

/-- A start value fails only where a number is not finite. -/
theorem promised_startOf (v : Value) : Promised IsUnbounded (fun _ => True) (startOf v) := by
  unfold startOf
  split <;> simp [Promised, IsUnbounded]

theorem promised_listStart (vs : List Value) :
    Promised IsUnbounded (fun _ => True) (listStart vs) := by
  induction vs with
  | nil => trivial
  | cons v vs ih =>
    refine (promised_startOf v).bind fun start _ => ?_
    cases start with
    | none => exact ih
    | some i => trivial

/-- A depth fails only where a number is not finite. -/
theorem promised_headingDepth (depth : Int) (v : Value) :
    Promised IsUnbounded (fun _ => True) (headingDepth depth v) := by
  unfold headingDepth
  split <;> simp [Promised, IsUnbounded]

/-! ## Handlers

The lists of a node come with what they say, and a node that keeps its children adds nothing. -/

/-- The conversions of the lists of a node say what is in its children, its term says nothing, and
if it is a section, its title and its body say what is in the first title and in the rest. -/
structure Parts.Say (parts : Parts σ) (sources : List Source) : Prop where
  children : Says (valuesEach (titlesFirstEach sources)) parts.children
  term : Says "" parts.term
  title : Says (valuesEach (frontTitle (titlesFirstEach sources))) parts.title
  body : Says (valuesEach (behindTitle (titlesFirstEach sources))) parts.body

/-- A directive without an argument says what its children say. -/
theorem handleDirective_text (run : Run σ) (h : parts.Say children)
    (hargument : Value.field "argument" fields = .null) :
    SaysOnce (valuesEach (titlesFirstEach children)) (handleDirective run fields parts) := by
  have hlead : directiveLead fields parts = pure [] := by
    simp [directiveLead, hasCondition, hargument, Value.isGiven, Value.strOrEmpty, Value.str?]
  rw [handleDirective, hlead]
  refine Meets.bind (P := (· = [])) (.pure rfl) ?_
  rintro _ rfl
  refine h.children.map fun ns hns => ?_
  unfold directiveComponent
  split
  · next hempty =>
    simp only [List.nil_append, Bool.and_eq_true, List.isEmpty_iff] at hempty
    rw [← hns, hempty.1.2]
    rfl
  · exact hns

theorem frontTitle_of_untitled (h : hasTitle children = false) :
    frontTitle (titlesFirstEach children) = [] := by
  rw [frontTitle, List.find?_eq_none.2, Option.toList_none]
  intro s hs htitle
  rw [titlesFirstEach_eq_map] at hs
  obtain ⟨t, ht, rfl⟩ := List.mem_map.1 hs
  rw [fields_titlesFirst] at htitle
  rw [hasTitle, List.any_eq_false] at h
  exact h t ht htitle

/-- A section says its title first, and then the rest of its children. -/
theorem sectionNodes_text (run : Run σ) (h : parts.Say children) :
    Says (valuesEach (titleFirst (titlesFirstEach children)))
      (sectionNodes run depth children parts) := by
  rw [titleFirst, valuesEach_append]
  simp only [sectionNodes]
  cases htitle : hasTitle children with
  | true =>
    refine Meets.bind h.title fun ns hns => ?_
    exact Says.append (.pure hns) h.body
  | false =>
    rw [frontTitle_of_untitled htitle]
    exact Says.append (.pure rfl) h.body

/-- **A node that keeps its children says what they say**; a section says its title first. -/
theorem handle_text (run : Run σ) (h : parts.Say children) (hkeeps : KeepsChildren fields)
    (hvalue : Value.field "value" fields = .null)
    (hargument : Value.field "argument" fields = .null) :
    SaysOnce (valuesEach (if kindOf fields = .sectionBlock
        then titleFirst (titlesFirstEach children) else titlesFirstEach children))
      (handle run place depth (kindOf fields) fields children parts) := by
  unfold KeepsChildren at hkeeps
  generalize kindOf fields = kind at hkeeps ⊢
  cases kind with
  | text | line | literal | code | lineBlock | footnoteReference | transition | target
  | inlineTarget | dropped => exact hkeeps.elim
  | sectionBlock =>
    rw [if_pos rfl]
    exact (sectionNodes_text run h).several
  | paragraph | emphasis | titleReference | strong | bulletList | listItem | fieldList | field
  | superscript | subscript | definitionList | substitution | cardGroup | ctaBanner | tabs | only
  | methodSelector | blockQuote | admonition | tablePart => exact h.children.one fun _ => rfl
  | transparent => exact h.children.several
  | enumeratedList =>
    exact (Meets.lift (promised_listStart _)).bind fun _ _ => h.children.one fun _ => rfl
  | heading =>
    exact (Meets.lift (promised_headingDepth _ _)).bind fun _ _ => h.children.one fun _ => rfl
  | list =>
    simp only [handle]
    refine Meets.ite (fun _ => ?_) fun _ => h.children.one fun _ => rfl
    exact (Meets.lift (promised_listStart _)).bind fun _ _ => h.children.one fun _ => rfl
  | reference =>
    simp only [handle]
    exact Meets.ite (fun _ => h.children.one fun _ => rfl) fun _ => h.children.several
  | refRole =>
    simp only [handle]
    exact Meets.ite (fun _ => h.children.one fun _ => rfl) fun _ => h.children.several
  | role =>
    refine h.children.map fun ns hns => ?_
    simp only [hvalue, Value.isGiven, Bool.and_false]
    exact hns
  | definitionListItem =>
    refine h.term.bind fun term hterm => h.children.map fun ns hns => ?_
    change Node.plainTexts "" (term ++ ns) = _
    rw [Node.plainTexts_empty_append, hterm, hns]
    exact String.empty_append
  | footnote =>
    simp only [handle, handleFootnote]
    exact Meets.ite (fun _ => h.children.several) fun _ => h.children.one fun _ => rfl
  | unknown =>
    simp only [handle, handleUnknown]
    refine Meets.ite (fun hempty => ?_) fun _ => h.children.several
    rw [List.isEmpty_iff.1 hempty]
    exact Meets.bind (.record (P := fun _ => True) _ _ trivial) fun _ _ => .pure rfl
  | directive =>
    simp only [handle, hkeeps]
    exact handleDirective_text run h hargument

/-! ## The pass -/

/-- What a sibling says, and then what those after it say. -/
theorem cons_text {x : Conversion σ Converted} {y : Conversion σ (List Node)}
    (hx : SaysOnce front x) (hy : Says rest y) :
    Says (front ++ rest) (x >>= fun first => y >>= fun ns => pure (first.toList ++ ns)) := by
  refine Meets.bind hx fun first hfirst => Meets.map hy fun ns hns => ?_
  rw [Node.plainTexts_empty_append, hfirst, hns]

mutual

/-- **What a tree converts to says the texts of the tree**, with the titles in front. -/
theorem convertNode_text (run : Run σ) (place : Place) (depth : Int) (s : Source)
    (h : s.InPlace) : SaysOnce (values (titlesFirst s)) (convertNode run place depth s) := by
  match s, h with
  | .node fields [] term argument, .text hkind =>
    rw [convertNode]
    simp only [hkind, handle, titlesFirst, titlesFirstEach, values]
    exact .pure (by simp [Converted.toList, Node.plainTexts, Node.plainText, valuesEach])
  | .node fields children [] argument, .node hkeeps hvalue hargument hchildren =>
    rw [convertNode, titlesFirst, values, hvalue]
    refine (String.empty_append (s := _)).symm ▸ handle_text run
      { children := convertAll_text run place depth children hchildren
        term := by rw [convertAll]; exact .pure rfl
        title := convertTitle_text run place depth children hchildren
        body := convertBody_text run place (depth + 1) false children hchildren }
      hkeeps hvalue hargument

/-- …for siblings. -/
theorem convertAll_text (run : Run σ) (place : Place) (depth : Int) (ss : List Source)
    (h : ∀ s ∈ ss, s.InPlace) :
    Says (valuesEach (titlesFirstEach ss)) (convertAll run place depth ss) := by
  match ss with
  | [] =>
    rw [convertAll]
    exact .pure rfl
  | s :: ss =>
    rw [List.forall_mem_cons] at h
    rw [convertAll, titlesFirstEach, valuesEach]
    exact cons_text (convertNode_text run place depth s h.1)
      (convertAll_text run place depth ss h.2)

/-- …for the first title among siblings. -/
theorem convertTitle_text (run : Run σ) (place : Place) (depth : Int) (ss : List Source)
    (h : ∀ s ∈ ss, s.InPlace) :
    Says (valuesEach (frontTitle (titlesFirstEach ss))) (convertTitle run place depth ss) := by
  match ss with
  | [] =>
    rw [convertTitle]
    exact .pure rfl
  | .stray v :: ss =>
    nomatch h (.stray v) List.mem_cons_self
  | .node fields children term argument :: ss =>
    rw [List.forall_mem_cons] at h
    rw [convertTitle, titlesFirstEach, frontTitle_cons, fields_titlesFirst]
    by_cases htitle : isTitle fields = true
    · obtain ⟨hinside, hvalues⟩ := h.1.title htitle
      simp only [Source.fields, htitle, if_true, valuesEach, String.append_empty, hvalues]
      exact convertAll_text run place depth children hinside
    · simp only [Source.fields, htitle]
      exact convertTitle_text run place depth ss h.2

/-- …for siblings without it. -/
theorem convertBody_text (run : Run σ) (place : Place) (depth : Int) (passed : Bool)
    (ss : List Source) (h : ∀ s ∈ ss, s.InPlace) :
    Says (valuesEach (if passed then titlesFirstEach ss else behindTitle (titlesFirstEach ss)))
      (convertBody run place depth passed ss) := by
  match ss with
  | [] =>
    rw [convertBody]
    exact .pure (by cases passed <;> rfl)
  | s :: ss =>
    rw [List.forall_mem_cons] at h
    rw [convertBody, titlesFirstEach, behindTitle_cons, fields_titlesFirst]
    refine Meets.ite (fun hfirst => ?_) fun hrest => ?_
    · rw [Bool.and_eq_true, Bool.not_eq_true'] at hfirst
      simp only [hfirst.1, hfirst.2, if_true]
      exact convertBody_text run place depth true ss h.2
    · have hvalues : valuesEach (if passed then titlesFirst s :: titlesFirstEach ss
          else if isTitle s.fields then titlesFirstEach ss
            else titlesFirst s :: behindTitle (titlesFirstEach ss)) =
          values (titlesFirst s) ++ valuesEach (if passed then titlesFirstEach ss
            else behindTitle (titlesFirstEach ss)) := by
        cases passed with
        | true => rfl
        | false => simp_all [valuesEach]
      rw [hvalues]
      exact cons_text (convertNode_text run place depth s h.1)
        (convertBody_text run place depth passed ss h.2)

end

/-! ## Pages -/

theorem plainTexts_frontmatterBlock (options metadata : Entries Value) :
    Node.plainTexts "" (frontmatterBlock options metadata) = "" := by
  simp only [frontmatterBlock]
  split <;> rfl

theorem plainTexts_importBlock (imports : Entries String) :
    Node.plainTexts "" (importBlock imports) = "" := by
  simp only [importBlock]
  split <;> rfl

/-- Only the content of a file has a text. -/
theorem plainText_assemble (options : Entries Value) (file : FileState) (ns : List Node) :
    (assemble options file ns).plainText "" = Node.plainTexts "" ns := by
  rw [assemble, Node.plainText, Node.plainTexts_wrapInlineRuns, Node.plainTexts_empty_append,
    Node.plainTexts_empty_append, plainTexts_frontmatterBlock, plainTexts_importBlock,
    String.empty_append, String.empty_append]

/-- **A page has the texts of its source**, in their order, but for the titles of its sections,
which come first in them; it fails only over a number that is no finite one. -/
theorem plainText_convertPage (run : Run σ) (path : String) (root : Entries Value) (emitter : σ)
    (h : ∀ s ∈ ofField "children" root, s.InPlace) :
    Promised IsUnbounded
      (fun tree => tree.plainText "" = valuesEach (titlesFirstEach (ofField "children" root)))
      (convertPage run path root emitter).1 := by
  have hcontent := (convertAll_text run ⟨path, []⟩ 1 (ofField "children" root) h
    ⟨{}, emitter, []⟩ trivial).2
  rw [convertPage_eq]
  generalize convertAll run ⟨path, []⟩ 1 (ofField "children" root) ⟨{}, emitter, []⟩ = p at hcontent
  obtain ⟨f | ns, s⟩ := p
  · exact hcontent
  · exact (plainText_assemble _ _ ns).trans hcontent

/-- A page with a section whose title comes after a paragraph, and a node of unknown type. -/
def lateTitleRoot : Entries Value :=
  rootOf [nodeValue "section" [nodeValue "paragraph" [textValue "a"],
    nodeValue "title" [textValue "b"], nodeValue "other" [textValue "c"]]]

/-- The page has nothing but nodes that keep their children. -/
theorem lateTitle_inPlace : ∀ s ∈ ofField "children" lateTitleRoot, s.InPlace := by
  have htext (s : String) : ∀ t ∈ ofValues [textValue s], t.InPlace :=
    List.forall_mem_singleton.2 (.text (by rfl))
  have hinside : ∀ s ∈ ofValues [nodeValue "paragraph" [textValue "a"],
      nodeValue "title" [textValue "b"], nodeValue "other" [textValue "c"]], s.InPlace := by
    simp only [ofValues, List.forall_mem_cons]
    exact ⟨.node trivial rfl rfl (htext "a"), .node trivial rfl rfl (htext "b"),
      .node trivial rfl rfl (htext "c"), fun _ h => absurd h List.not_mem_nil⟩
  exact List.forall_mem_singleton.2 (.node trivial rfl rfl hinside)

/-- The title comes first. -/
theorem plainText_convertPage_lateTitle :
    ∃ tree, (convertPage ⟨{}, none⟩ "index.mdx" lateTitleRoot ()).1 = .ok tree ∧
      tree.plainText "" = "bac" := by
  have htext := plainText_convertPage ⟨{}, none⟩ "index.mdx" lateTitleRoot () lateTitle_inPlace
  obtain ⟨tree, htree⟩ := exists_ok_of_faultIn
    (e := (convertPage ⟨{}, none⟩ "index.mdx" lateTitleRoot ()).1) (by decide +kernel)
  rw [htree] at htext
  exact ⟨tree, htree, htext.trans (by decide +kernel)⟩

end Convert

end MdxPages
