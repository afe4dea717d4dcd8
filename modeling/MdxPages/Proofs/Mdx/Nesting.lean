import MdxPages.Proofs.Mdx.Document
import MdxPages.Proofs.Mdx.Fence
import MdxPages.Proofs.Results

/-!
# Proofs/Mdx/Nesting — code within containers

The lines of a block in a container stand in its text one below the other, behind a margin that the
container sets before them (`SetsBehind`).  **Code comes back from any depth when the margins are
taken away one after the other** (`code_of_render_nest`).  Not all of it: components, list items and
footnotes leave nothing of a line of white space, and a footnote cuts the end of the line behind its
label (`render_nest_loses_blanks`).
-/

namespace MdxPages.Mdx

open Text

/-! ## Lines that are set behind a margin

A margin goes before every line, or is a head for the first one and blanks for the others.  Blank
lines may be emptied on the way. -/

/-- The margin of the lines in a block quote. -/
def quoteMargin : String := "> "

/-- The margin of the lines after the first in a list item. -/
def itemMargin (marker : String) : String :=
  String.ofList (List.replicate (marker.length + 1) ' ')

/-- What stands before the first line of a footnote. -/
def footnoteLead (identifier : String) : String :=
  "[^" ++ identifier ++ "]: "

theorem endsWith_itemMargin (marker : String) : endsWith (itemMargin marker) " " = true := by
  have hend : itemMargin marker = String.ofList (List.replicate marker.length ' ') ++ " " := by
    rw [← String.toList_inj]
    simp [itemMargin, List.replicate_succ']
  rw [hend]
  exact endsWith_append _ _

/-- The margin below a marker is blank. -/
theorem isBlank_itemMargin (marker : String) : isBlank (itemMargin marker) = true := by
  rw [isBlank, itemMargin, String.toList_ofList, List.all_replicate]
  rfl

theorem notMem_itemMargin (marker : String) : '\n' ∉ (itemMargin marker).toList := by
  simp [itemMargin]

theorem endsWith_footnoteLead (identifier : String) :
    endsWith (lastLine (footnoteLead identifier)) " " = true := by
  have hend : footnoteLead identifier = "[^" ++ identifier ++ "]:" ++ " " := by
    rw [← String.toList_inj]
    simp [footnoteLead]
  rw [hend]
  exact endsWith_lastLine _

/-- Lines that are set behind a margin are the lines of the text that they make. -/
theorem split_join_setLine {margin : String} (hmargin : '\n' ∉ margin.toList) (s : String) :
    split '\n' (join "\n" ((split '\n' s).map (setLine margin))) =
      (split '\n' s).map (setLine margin) := by
  refine split_join rfl (by simp [split_ne_nil]) (List.forall_mem_map.2 fun line hline hmem => ?_)
  exact (mem_of_mem_setLine hmem).elim hmargin (notMem_of_mem_split hline)

/-- The lines of an indented text. -/
theorem split_indent {margin : String} (hblank : isBlank margin = true)
    (hmargin : '\n' ∉ margin.toList) (s : String) :
    split '\n' (indent margin s) = (split '\n' s).map (setLine margin) := by
  have hline (line : String) :
      (if isBlank line then "" else margin ++ line) = setLine margin line := by
    split
    · next h => exact (setLine_of_isBlank hblank h).symm
    · next h => exact (setLine_of_not_isBlank margin (Bool.eq_false_iff.2 h)).symm
  simp only [indent, hline]
  exact split_join_setLine hmargin s

/-- The lines of a quote. -/
theorem split_quoteText (content : String) :
    split '\n' (quoteText content) = (split '\n' content).map (setLine quoteMargin) := by
  have hline (line : String) :
      (if line.isEmpty then ">" else "> " ++ line) = setLine quoteMargin line := by
    have hblank : isBlank quoteMargin = false := by decide
    have hend : stripEnd quoteMargin = ">" := by decide
    rw [setLine, hblank, clearIf_false, behind, hend]
    rfl
  simp only [quoteText, hline]
  exact split_join_setLine (by decide) content

/-- The lines of a component: its tags, and its content between them. -/
theorem split_componentText {content : String} (name attributes : String) (h : content ≠ "") :
    split '\n' (componentText name attributes content) =
      split '\n' ("<" ++ name ++ attributes ++ ">") ++
        (split '\n' content).map (setLine componentMargin) ++ split '\n' ("</" ++ name ++ ">") := by
  have htext : componentText name attributes content = "<" ++ name ++ attributes ++ ">" ++ "\n" ++
      indent componentMargin content ++ "\n" ++ ("</" ++ name ++ ">") := by
    rw [← String.toList_inj]
    simp [componentText, h]
  rw [htext, split_append rfl, split_append rfl, split_indent rfl (by decide)]

/-- A text whose first line stands behind a head, and the others in a margin. -/
def hangingText (head : String → String) (margin content : String) : String :=
  let (first, rest) := firstLine content
  if rest.isEmpty then head first else head first ++ "\n" ++ indent margin rest

/-- A text is cut at its first line end. -/
theorem firstLine_append {first : String} (h : '\n' ∉ first.toList) (rest : String) :
    firstLine (first ++ "\n" ++ rest) = (first, rest) := by
  have hfirst : ∀ c ∈ first.toList, (c != '\n') = true := fun c hc =>
    bne_iff_ne.2 fun heq => h (heq ▸ hc)
  simp [firstLine, cutAt, List.takeWhile_append_of_pos hfirst, List.dropWhile_append_of_pos hfirst]

theorem firstLine_of_notMem {s : String} (h : '\n' ∉ s.toList) : firstLine s = (s, "") := by
  have hall : ∀ c ∈ s.toList, (c != '\n') = true := fun c hc =>
    bne_iff_ne.2 fun heq => h (heq ▸ hc)
  have htake : s.toList.takeWhile (· != '\n') = s.toList := List.takeWhile_eq_self_iff.2 hall
  have hdrop : s.toList.dropWhile (· != '\n') = [] := List.dropWhile_eq_nil_iff.2 hall
  simp [firstLine, cutAt, htake, hdrop]

/-- What is below the first line is left out if it is nothing but a line end. -/
theorem split_hangingText {content first margin : String} {rest : List String}
    (head : String → String) (hblank : isBlank margin = true) (hmargin : '\n' ∉ margin.toList)
    (hcontent : split '\n' content = first :: rest) :
    split '\n' (hangingText head margin content) = split '\n' (head first) ++
      if rest = [] ∨ rest = [""] then [] else rest.map (setLine margin) := by
  have hmem : ∀ piece ∈ first :: rest, '\n' ∉ piece.toList := by
    rw [← hcontent]
    exact fun _ => notMem_of_mem_split
  rw [List.forall_mem_cons] at hmem
  have hnewline : ("\n" : String).toList = ['\n'] := rfl
  by_cases hne : rest = []
  · have hfirst : content = first := by
      rw [← join_split hnewline content, hcontent, hne]
      rfl
    rw [hangingText, hfirst, firstLine_of_notMem hmem.1, if_pos (.inl hne), List.append_nil]
    rfl
  · have hlines : split '\n' (join "\n" rest) = rest := split_join rfl hne hmem.2
    have hempty : (join "\n" rest).isEmpty = true ↔ rest = [] ∨ rest = [""] := by
      rw [String.isEmpty_iff, or_iff_right hne]
      constructor
      · intro hjoin
        rw [← hlines, hjoin]
        rfl
      · rintro rfl
        rfl
    rw [hangingText, ← join_split hnewline content, hcontent, join_cons _ _ hne,
      firstLine_append hmem.1]
    simp only [hempty]
    split
    · rw [List.append_nil]
    · rw [split_append rfl, split_indent hblank hmargin, hlines]

theorem not_bare_of_exists {rest : List String} (h : ∃ line ∈ rest, isBlank line = false) :
    ¬(rest = [] ∨ rest = [""]) := by
  rintro (rfl | rfl) <;> simp [isBlank] at h

/-! ## Texts that set lines behind a margin

Only lines that begin and end with something visible are followed, for blank lines at an end may be
cut off. -/

/-- Lines of a text that is put into another stand there behind margins, and what is above and below
them does not depend on them.  The margins can be others where nothing stands above (`top`). -/
def SetsBehind (f : String → String) (margins : Bool → List Margin) : Prop :=
  ∀ above below, ∃ top above' below', ∀ {text shown},
    split '\n' text = above ++ shown ++ below → Bounded shown →
      split '\n' (f text) = above' ++ puts (margins top) shown ++ below'

/-- Texts that are put into one another set lines behind one margin and then behind the other. -/
theorem SetsBehind.comp {f g : String → String} {margins : Bool → List Margin}
    (hf : SetsBehind f margins) (hg : SetsBehind g fun _ => []) :
    SetsBehind (fun text => f (g text)) margins := by
  intro above below
  obtain ⟨_, above', below', hg⟩ := hg above below
  obtain ⟨top, above'', below'', hf⟩ := hf above' below'
  exact ⟨top, above'', below'', fun htext hshown => hf (hg htext hshown) hshown⟩

theorem ne_empty_of_split {text : String} {above shown below : List String}
    (h : split '\n' text = above ++ shown ++ below) (hshown : Bounded shown) : text ≠ "" := by
  rintro rfl
  obtain ⟨first, middle, last, rfl, -⟩ := hshown
  have hlength := congrArg List.length h
  rw [show split '\n' "" = [""] from rfl] at hlength
  simp at hlength
  omega

/-- Lines stay as they are when texts are joined by whole lines. -/
theorem setsBehind_join {separator : String} {gap : List String}
    (h : ∀ s t, split '\n' (s ++ separator ++ t) = split '\n' s ++ gap ++ split '\n' t)
    (before after : List String) :
    SetsBehind (fun text => join separator (before ++ text :: after)) fun _ => [] := by
  have hafter : ∃ below, ∀ text,
      split '\n' (join separator (text :: after)) = split '\n' text ++ below := by
    cases after with
    | nil => exact ⟨[], fun text => (List.append_nil _).symm⟩
    | cons next after =>
      refine ⟨gap ++ split '\n' (join separator (next :: after)), fun text => ?_⟩
      rw [join_cons _ _ (List.cons_ne_nil _ _), h, List.append_assoc]
  obtain ⟨textsBelow, hbelow⟩ := hafter
  intro above below
  by_cases hbefore : before = []
  · refine ⟨true, above, below ++ textsBelow, fun htext _ => ?_⟩
    simp [hbefore, hbelow, htext]
  · refine ⟨false, split '\n' (join separator before) ++ gap ++ above, below ++ textsBelow,
      fun {text shown} htext _ => ?_⟩
    have hcut : join separator (before ++ text :: after) =
        join separator before ++ separator ++ join separator (text :: after) :=
      String.intercalate_append_of_ne_nil hbefore (List.cons_ne_nil _ _)
    simp [hcut, h, hbelow, htext]

/-- Blocks before and after leave the lines of a block as they are. -/
theorem setsBehind_joinBlocks (before after : List String) :
    SetsBehind (fun text => joinBlocks (before ++ text :: after)) fun _ => [] := by
  have hgap (s t : String) :
      split '\n' (s ++ "\n\n" ++ t) = split '\n' s ++ [""] ++ split '\n' t := by
    have hempty : s ++ "\n\n" ++ t = s ++ "\n" ++ "" ++ "\n" ++ t := by
      rw [← String.toList_inj]
      simp
    rw [hempty, split_append rfl, split_append rfl]
    rfl
  intro above below
  obtain ⟨top, above', below', h⟩ := setsBehind_join hgap (before.filter (!·.isEmpty))
    (after.filter (!·.isEmpty)) above below
  refine ⟨top, above', below', fun {text shown} htext hshown => ?_⟩
  have hfilter : (before ++ text :: after).filter (!·.isEmpty) =
      before.filter (!·.isEmpty) ++ text :: after.filter (!·.isEmpty) := by
    simp [ne_empty_of_split htext hshown]
  exact (congrArg (fun blocks => split '\n' (join "\n\n" blocks)) hfilter).trans (h htext hshown)

/-- A quote sets all lines behind its margin. -/
theorem setsBehind_quoteText : SetsBehind quoteText fun _ => [.flat quoteMargin rfl] := by
  intro above below
  refine ⟨false, above.map (setLine quoteMargin), below.map (setLine quoteMargin),
    fun htext hshown => ?_⟩
  rw [split_quoteText, htext, List.map_append, List.map_append, ← Margin.put_flat hshown rfl]
  rfl

/-- A component sets all lines behind its margin, between its tags. -/
theorem setsBehind_componentText (name attributes : String) :
    SetsBehind (componentText name attributes) fun _ => [.flat componentMargin rfl] := by
  intro above below
  let opening := split '\n' ("<" ++ name ++ attributes ++ ">")
  let closing := split '\n' ("</" ++ name ++ ">")
  refine ⟨false, opening ++ above.map (setLine componentMargin),
    below.map (setLine componentMargin) ++ closing, fun htext hshown => ?_⟩
  rw [split_componentText name attributes (ne_empty_of_split htext hshown), htext]
  simp only [List.map_append, List.append_assoc]
  rw [← Margin.put_flat hshown rfl]
  rfl

/-- The first of the lines is behind the end of the head if nothing stands above it. -/
theorem setsBehind_hangingText {head : String → String} {lead margin : String} {trims : Bool}
    (hhead : ∀ {first}, isBlank first = false → head first = lead ++ trimIf trims first)
    (hlead : endsWith (lastLine lead) " " = true) (hend : endsWith margin " " = true)
    (hblank : isBlank margin = true) (hmargin : '\n' ∉ margin.toList) :
    SetsBehind (hangingText head margin) fun top =>
      [.hanging lead margin trims top hlead hend] := by
  intro above below
  cases above with
  | nil =>
    refine ⟨true, (split '\n' lead).dropLast, below.map (setLine margin), ?_⟩
    intro content shown hcontent hshown
    obtain ⟨first, middle, last, rfl, hfirst, hlast, -⟩ := hshown
    have hpiece : first ∈ split '\n' content := by simp [hcontent]
    have hnewline : '\n' ∉ (trimIf trims first).toList := fun hmem =>
      notMem_of_mem_split hpiece (mem_of_mem_trimIf hmem)
    rw [split_hangingText head hblank hmargin hcontent,
      if_neg (not_bare_of_exists ⟨last, by simp, hlast⟩), hhead hfirst,
      split_append_of_split (split_eq_append_lastLine lead) (split_of_notMem hnewline), puts_cons,
      puts_nil, Margin.put_cons]
    simp [Margin.hanging]
  | cons line above =>
    refine ⟨false, split '\n' (head line) ++ above.map (setLine margin),
      below.map (setLine margin), ?_⟩
    intro content shown hcontent hshown
    rw [puts_cons, puts_nil, Margin.put_eq_map hshown rfl rfl]
    obtain ⟨first, middle, last, rfl, hfirst, -⟩ := hshown
    rw [split_hangingText head hblank hmargin hcontent,
      if_neg (not_bare_of_exists ⟨first, by simp, hfirst⟩)]
    simp [Margin.hanging]

/-- An item sets the first line behind its marker, and the others behind its margin. -/
theorem setsBehind_itemText (marker : String) : SetsBehind (itemText marker) fun top =>
    [.hanging (marker ++ " ") (itemMargin marker) false top (endsWith_lastLine marker)
      (endsWith_itemMargin marker)] := by
  have hhead {first} (hfirst : isBlank first = false) :
      (if first.isEmpty then marker else marker ++ " " ++ first) =
        marker ++ " " ++ trimIf false first := by
    rw [ne_empty_of_not_isBlank hfirst]
    rfl
  exact setsBehind_hangingText hhead _ _ (isBlank_itemMargin marker) (notMem_itemMargin marker)

/-- A footnote sets the first line behind its label, and the others behind its margin. -/
theorem setsBehind_footnoteText (identifier : String) : SetsBehind (footnoteText identifier)
    fun top => [.hanging (footnoteLead identifier) footnoteMargin true top
      (endsWith_footnoteLead identifier) rfl] := by
  have hhead {first} (hfirst : isBlank first = false) :
      stripEnd (footnoteLead identifier ++ first) =
        footnoteLead identifier ++ trimIf true first :=
    stripEnd_append (footnoteLead identifier) hfirst
  exact setsBehind_hangingText hhead _ _ rfl (by decide)

/-! ## Containers

A level is a container with a hole in it.  What stands before and after the hole does not touch the
lines in it. -/

/-- A node that holds others, without what it holds. -/
inductive Container
  | root
  | component (name : String) (attributes : List Attribute)
  | list (ordered : Bool) (start : Value)
  | item
  | footnote (identifier : String) (label : Value)
  | quote

namespace Container

/-- The node, holding what it is given. -/
def node (children : List Node) : Container → Node
  | root => .root children
  | component name attributes => .flowComponent name attributes children
  | list ordered start => .list ordered start children
  | item => .listItem children
  | footnote identifier label => .footnoteDefinition identifier label children
  | quote => .blockquote children

/-- The margin that a container sets before the lines of a block in it; `marker` is what a list item
is led by, and `top` says whether the block begins on the first line of the container. -/
def margin? (marker : String) (top : Bool) : Container → Option Margin
  | root | list .. => none
  | component .. => some (.flat componentMargin rfl)
  | item => some (.hanging (marker ++ " ") (itemMargin marker) false top
      (endsWith_lastLine marker) (endsWith_itemMargin marker))
  | footnote identifier _ =>
    some (.hanging (footnoteLead identifier) footnoteMargin true top
      (endsWith_footnoteLead identifier) rfl)
  | quote => some (.flat quoteMargin rfl)

/-- The attributes of a container, as they are written. -/
def attributesText : Container → Except Fault String
  | component _ attributes => Mdx.attributesText attributes
  | _ => .ok ""

/-- The texts of what a container holds. -/
def childTexts (o : RenderOptions) (marker : String) (children : List Node) :
    Container → Except Fault (List String)
  | list ordered start => itemTexts o ordered start 0 children
  | item => nodeTexts o o.bullet.text children
  | _ => nodeTexts o marker children

/-- The text of a container, given the texts of its attributes and of what it holds. -/
def text (marker attributes : String) (texts : List String) : Container → String
  | root => joinBlocks texts
  | component name _ => componentText name attributes (joinBlocks texts)
  | list .. => join "\n" texts
  | item => itemText marker (joinBlocks texts)
  | footnote identifier _ => footnoteText identifier (joinBlocks texts)
  | quote => quoteText (joinBlocks texts)

end Container

/-- A container with what it holds before and after one of its children. -/
structure Level where
  container : Container
  before : List Node
  after : List Node

/-- A node as the child of a container. -/
def Level.around (l : Level) (n : Node) : Node :=
  l.container.node (l.before ++ n :: l.after)

/-- What the item of a list at an index is led by. -/
def listMarker (o : RenderOptions) (ordered : Bool) (start : Value) (index : Nat) :
    Except Fault String :=
  if ordered then orderedMarker start index else .ok o.bullet.text

/-- What a list item is led by that a container holds, given what the container is led by. -/
def Level.marker (o : RenderOptions) (marker : String) (l : Level) : Except Fault String :=
  match l.container with
  | .list ordered start => listMarker o ordered start l.before.length
  | .item => .ok o.bullet.text
  | _ => .ok marker

/-- A node within containers, the outermost first. -/
def nest (levels : List Level) (n : Node) : Node :=
  levels.foldr Level.around n

/-- The margins that containers, the outermost first, can set before the lines of a block. -/
inductive Margins (o : RenderOptions) : String → List Level → List Margin → Prop
  | nil (marker : String) : Margins o marker [] []
  | cons {marker inner : String} {l : Level} {ls : List Level} {ms : List Margin} (top : Bool)
      (hmarker : l.marker o marker = .ok inner) (hinner : Margins o inner ls ms) :
      Margins o marker (l :: ls) ((l.container.margin? marker top).toList ++ ms)

variable {o : RenderOptions} {marker : String}

/-- Of texts in a row one may be exchanged without touching the others. -/
theorem exists_nodeTexts {before after : List Node} {n₀ : Node} {texts₀ : List String}
    (h : nodeTexts o marker (before ++ n₀ :: after) = .ok texts₀) :
    ∃ text₀ textsBefore textsAfter, nodeText o marker n₀ = .ok text₀ ∧
      ∀ {n text}, nodeText o marker n = .ok text →
        nodeTexts o marker (before ++ n :: after) = .ok (textsBefore ++ text :: textsAfter) := by
  induction before generalizing texts₀ with
  | nil =>
    rw [List.nil_append, nodeTexts] at h
    obtain ⟨text₀, htext₀, h⟩ := exists_of_bind h
    obtain ⟨textsAfter, hafter, -⟩ := exists_of_bind h
    refine ⟨text₀, [], textsAfter, htext₀, fun {n text} htext => ?_⟩
    rw [List.nil_append, nodeTexts, htext, hafter]
    rfl
  | cons sibling before ih =>
    rw [List.cons_append, nodeTexts] at h
    obtain ⟨first, hfirst, h⟩ := exists_of_bind h
    obtain ⟨rest₀, hrest₀, -⟩ := exists_of_bind h
    obtain ⟨text₀, textsBefore, textsAfter, htext₀, hrest⟩ := ih hrest₀
    refine ⟨text₀, first :: textsBefore, textsAfter, htext₀, fun {n text} htext => ?_⟩
    rw [List.cons_append, nodeTexts, hfirst, hrest htext]
    rfl

theorem itemTexts_cons (ordered : Bool) (start : Value) (index : Nat) (n : Node) (ns : List Node) :
    itemTexts o ordered start index (n :: ns) = (do
      let first ← (listMarker o ordered start index >>= fun marker => nodeText o marker n)
      return first :: (← itemTexts o ordered start (index + 1) ns)) := by
  rw [itemTexts]
  cases ordered with
  | true => exact (bind_assoc _ _ _).symm
  | false => rfl

/-- The same of the items of a list, where the marker depends on the place. -/
theorem exists_itemTexts {ordered : Bool} {start : Value} {index : Nat} {before after : List Node}
    {n₀ : Node} {texts₀ : List String}
    (h : itemTexts o ordered start index (before ++ n₀ :: after) = .ok texts₀) :
    ∃ inner text₀ textsBefore textsAfter,
      listMarker o ordered start (index + before.length) = .ok inner ∧
      nodeText o inner n₀ = .ok text₀ ∧
      ∀ {n text}, nodeText o inner n = .ok text →
        itemTexts o ordered start index (before ++ n :: after) =
          .ok (textsBefore ++ text :: textsAfter) := by
  induction before generalizing index texts₀ with
  | nil =>
    rw [List.nil_append, itemTexts_cons] at h
    obtain ⟨text₀, htext₀, h⟩ := exists_of_bind h
    obtain ⟨inner, hinner, htext₀⟩ := exists_of_bind htext₀
    obtain ⟨textsAfter, hafter, -⟩ := exists_of_bind h
    refine ⟨inner, text₀, [], textsAfter, hinner, htext₀, fun {n text} htext => ?_⟩
    rw [List.nil_append, itemTexts_cons, hinner, hafter]
    exact congrArg (· >>= fun first => pure (first :: textsAfter)) htext
  | cons sibling before ih =>
    rw [List.cons_append, itemTexts_cons] at h
    obtain ⟨first, hfirst, h⟩ := exists_of_bind h
    obtain ⟨rest₀, hrest₀, -⟩ := exists_of_bind h
    obtain ⟨inner, text₀, textsBefore, textsAfter, hinner, htext₀, hrest⟩ := ih hrest₀
    rw [Nat.add_right_comm] at hinner
    refine ⟨inner, text₀, first :: textsBefore, textsAfter, hinner, htext₀,
      fun {n text} htext => ?_⟩
    rw [List.cons_append, itemTexts_cons, hfirst, hrest htext]
    rfl

/-- A container is rendered from its attributes and from what it holds. -/
theorem nodeText_node (c : Container) (children : List Node) :
    nodeText o marker (c.node children) = (do
      let attributes ← c.attributesText
      return c.text marker attributes (← c.childTexts o marker children)) := by
  cases c <;> rw [Container.node, nodeText] <;> rfl

/-- The same of what any container holds. -/
theorem exists_childTexts {l : Level} {n₀ : Node} {texts₀ : List String}
    (h : l.container.childTexts o marker (l.before ++ n₀ :: l.after) = .ok texts₀) :
    ∃ inner text₀ before after, l.marker o marker = .ok inner ∧ nodeText o inner n₀ = .ok text₀ ∧
      ∀ {n text}, nodeText o inner n = .ok text →
        l.container.childTexts o marker (l.before ++ n :: l.after) =
          .ok (before ++ text :: after) := by
  obtain ⟨c, before, after⟩ := l
  cases c with
  | list ordered start =>
    obtain ⟨inner, text₀, textsBefore, textsAfter, hinner, htexts⟩ := exists_itemTexts h
    rw [Nat.zero_add] at hinner
    exact ⟨inner, text₀, textsBefore, textsAfter, hinner, htexts⟩
  | item =>
    obtain ⟨text₀, textsBefore, textsAfter, htexts⟩ := exists_nodeTexts h
    exact ⟨o.bullet.text, text₀, textsBefore, textsAfter, rfl, htexts⟩
  | root | component | footnote | quote =>
    obtain ⟨text₀, textsBefore, textsAfter, htexts⟩ := exists_nodeTexts h
    exact ⟨marker, text₀, textsBefore, textsAfter, rfl, htexts⟩

/-- The text of a container is made of the texts of what it holds, each by itself. -/
theorem exists_texts {l : Level} {n₀ : Node} {text₀ : String}
    (h : nodeText o marker (l.around n₀) = .ok text₀) :
    ∃ inner inner₀ before after attributes, l.marker o marker = .ok inner ∧
      nodeText o inner n₀ = .ok inner₀ ∧
      ∀ {n text}, nodeText o inner n = .ok text → nodeText o marker (l.around n) =
        .ok (l.container.text marker attributes (before ++ text :: after)) := by
  rw [Level.around, nodeText_node] at h
  obtain ⟨attributes, hattributes, h⟩ := exists_of_bind h
  obtain ⟨texts₀, htexts₀, -⟩ := exists_of_bind h
  obtain ⟨inner, inner₀, before, after, hinner, hinner₀, htexts⟩ := exists_childTexts htexts₀
  refine ⟨inner, inner₀, before, after, attributes, hinner, hinner₀, fun {n text} htext => ?_⟩
  rw [Level.around, nodeText_node, hattributes, htexts htext]
  rfl

/-- **Each container sets the lines of a block in it behind its margin.** -/
theorem setsBehind_text (c : Container) (marker attributes : String) (before after : List String) :
    SetsBehind (fun text => c.text marker attributes (before ++ text :: after))
      fun top => (c.margin? marker top).toList := by
  have hblocks := setsBehind_joinBlocks before after
  cases c with
  | root => exact hblocks
  | component name _ => exact (setsBehind_componentText name attributes).comp hblocks
  | list =>
    exact setsBehind_join (fun s t => by rw [split_append rfl, List.append_nil]) before after
  | item => exact (setsBehind_itemText marker).comp hblocks
  | footnote identifier _ => exact (setsBehind_footnoteText identifier).comp hblocks
  | quote => exact setsBehind_quoteText.comp hblocks

/-! ## Code

The fences of code are not blank, so that the lines of a code block can be followed through any
containers. -/

/-- A fence is not blank. -/
theorem isBlank_ticks {n : Nat} (h : n ≠ 0) : isBlank (ticks n) = false := by
  rw [isBlank_eq_false_iff]
  exact ⟨'`', by simp [ticks, h], by decide⟩

theorem stripEnd_ticks (n : Nat) : stripEnd (ticks n) = ticks n :=
  stripEnd_of_forall fun c hc => by
    rw [ticks, String.toList_ofList] at hc
    rw [List.eq_of_mem_replicate hc]
    decide

/-- Code begins and ends with a line that is not blank. -/
theorem bounded_codeText (value : String) (lang : Value) :
    Bounded (split '\n' (codeText value lang)) := by
  have hblank : isBlank (ticks (fenceLength value)) = false :=
    isBlank_ticks (by rw [fenceLength]; omega)
  rw [split_codeText]
  cases hlang : split '\n' lang.textIfGiven with
  | nil => exact absurd hlang (split_ne_nil _ _)
  | cons first rest =>
    refine ⟨ticks (fenceLength value) ++ first, rest ++ codeLines value, ticks (fenceLength value),
      ?_, ?_, hblank, stripEnd_ticks _⟩
    · have hfence : split '\n' (ticks (fenceLength value)) = [] ++ [ticks (fenceLength value)] :=
        split_of_notMem (notMem_ticks _)
      rw [split_append_of_split hfence hlang]
      simp
    · rw [isBlank_append, hblank, Bool.false_and]

/-- The lines of code in containers stand behind the margins of all of them. -/
theorem exists_nodeText_nest {levels : List Level} {value₀ : String} {lang₀ : Value}
    {text₀ : String} (h : nodeText o marker (nest levels (.code value₀ lang₀)) = .ok text₀) :
    ∃ margins above below, Margins o marker levels margins ∧ ∀ value lang, ∃ text,
      nodeText o marker (nest levels (.code value lang)) = .ok text ∧
      split '\n' text = above ++ puts margins (split '\n' (codeText value lang)) ++ below := by
  induction levels generalizing marker text₀ with
  | nil => exact ⟨[], [], [], .nil marker, fun value lang => ⟨_, rfl, by simp⟩⟩
  | cons l levels ih =>
    obtain ⟨inner, inner₀, before, after, attributes, hmarker, hinner, htext⟩ := exists_texts h
    obtain ⟨margins, above, below, hmargins, hnest⟩ := ih hinner
    obtain ⟨top, above', below', hsplit⟩ :=
      setsBehind_text l.container marker attributes before after above below
    refine ⟨(l.container.margin? marker top).toList ++ margins, above', below',
      .cons top hmarker hmargins, fun value lang => ?_⟩
    obtain ⟨text, hok, hlines⟩ := hnest value lang
    refine ⟨_, htext hok, (hsplit hlines ((bounded_codeText value lang).puts margins)).trans ?_⟩
    rw [puts, puts, puts, List.foldr_append]

/-- The lines of a document that holds nothing but some code. -/
theorem exists_render_code (o : RenderOptions) (value : String) (lang : Value) :
    ∃ own, render o (.root [.code value lang]) = .ok own ∧
      split '\n' own = (split '\n' (codeText value lang)).map dropReturn ++ [""] := by
  have hbounded := bounded_codeText value lang
  have hlines : split '\n' (codeText value lang) =
      [] ++ split '\n' (codeText value lang) ++ [] := by simp
  have hblocks : joinBlocks [codeText value lang] = codeText value lang := by
    have hne : (!(codeText value lang).isEmpty) = true := by
      simpa using ne_empty_of_split hlines hbounded
    simp only [joinBlocks, List.filter, hne]
    rfl
  obtain ⟨below, hbelow, hclosed⟩ := exists_split_closeDocument []
  refine ⟨closeDocument (codeText value lang), ?_, ?_⟩
  · rw [← hblocks]
    rfl
  · rw [hclosed hlines hbounded, hbelow rfl]
    rfl

/-- **Code survives nesting.**  If a document with some code within containers is rendered, then
with any code there: what stands above and below the code stays, and the lines in between, taken out
of the margins of the containers one after the other, are the lines that the code is rendered to by
itself.  Only white space is lost: lines of white space come back empty unless the innermost of the
margins is that of a block quote, and the first line comes back without the white space at its end
if it stands behind the label of a footnote. -/
theorem code_of_render_nest {levels : List Level} {value₀ : String} {lang₀ : Value}
    {document₀ : String} (h : render o (nest levels (.code value₀ lang₀)) = .ok document₀) :
    ∃ margins above below, Margins o o.bullet.text levels margins ∧ ∀ value lang,
      ∃ document own lines shown,
        render o (nest levels (.code value lang)) = .ok document ∧
        render o (.root [.code value lang]) = .ok own ∧
        split '\n' document = above ++ shown ++ below ∧
        split '\n' own = lines ++ [""] ∧
        removeAll? margins shown = some (kept margins lines) := by
  obtain ⟨text₀, htext₀, -⟩ := exists_of_bind h
  obtain ⟨margins, above, below, hmargins, hnest⟩ := exists_nodeText_nest htext₀
  obtain ⟨below', -, hclosed⟩ := exists_split_closeDocument below
  refine ⟨margins, above.map dropReturn, below', hmargins, fun value lang => ?_⟩
  have hbounded := bounded_codeText value lang
  obtain ⟨text, htext, hlines⟩ := hnest value lang
  obtain ⟨own, hown, hownLines⟩ := exists_render_code o value lang
  refine ⟨closeDocument text, own, _, _, ?_, hown, hclosed hlines (hbounded.puts margins),
    hownLines, ?_⟩
  · rw [render, htext]
    rfl
  · rw [kept, ← map_dropReturn_keep]
    exact removeAll?_dropReturn (removeAll?_puts hbounded margins)

/-- Code in a quote that is in a list item. -/
theorem code_of_render_nest_quoted :
    ∃ margins above below document own lines shown,
      Margins {} "-" [⟨.root, [], []⟩, ⟨.list false .null, [.listItem []], []⟩, ⟨.item, [], []⟩,
        ⟨.quote, [.paragraph [.text "b"]], []⟩] margins ∧
      render {} (.root [.list false .null [.listItem [], .listItem
        [.blockquote [.paragraph [.text "b"], .code "a\n\n  \n" (.str "py")]]]]) = .ok document ∧
      render {} (.root [.code "a\n\n  \n" (.str "py")]) = .ok own ∧
      split '\n' document = above ++ shown ++ below ∧
      split '\n' own = lines ++ [""] ∧
      removeAll? margins shown = some (kept margins lines) := by
  obtain ⟨margins, above, below, hmargins, hcode⟩ := @code_of_render_nest {}
    [⟨.root, [], []⟩, ⟨.list false .null, [.listItem []], []⟩, ⟨.item, [], []⟩,
      ⟨.quote, [.paragraph [.text "b"]], []⟩] "" .null "-\n- > b\n  >\n  > ```\n  > ```\n"
    (by decide)
  obtain ⟨document, own, lines, shown, h⟩ := hcode "a\n\n  \n" (.str "py")
  exact ⟨margins, above, below, document, own, lines, shown, hmargins, h⟩

/-- A component leaves nothing of a line of white space, and a footnote cuts the white space at the
end of the line that opens the code in it. -/
theorem render_nest_loses_blanks :
    render {} (nest [⟨.root, [], []⟩, ⟨.component "Note" [], [], []⟩] (.code "a\n  \nb" .null)) =
        .ok "<Note>\n  ```\n  a\n\n  b\n  ```\n</Note>\n" ∧
      render {} (.root [.code "a\n  \nb" .null]) = .ok "```\na\n  \nb\n```\n" ∧
      (∀ line ∈ split '\n' "<Note>\n  ```\n  a\n\n  b\n  ```\n</Note>\n",
        dropMargin componentMargin line ≠ some "  ") ∧
      render {} (nest [⟨.root, [], []⟩, ⟨.footnote "1" .null, [], []⟩] (.code "a" (.str "py "))) =
        .ok "[^1]: ```py\n    a\n    ```\n" ∧
      render {} (.root [.code "a" (.str "py ")]) = .ok "```py \na\n```\n" ∧
      ∀ line ∈ split '\n' "[^1]: ```py\n    a\n    ```\n",
        dropMargin "[^1]: " line ≠ some "```py " ∧
          dropMargin footnoteMargin line ≠ some "```py " := by
  refine ⟨?_, ?_, ?_, ?_, ?_, ?_⟩ <;> decide

end MdxPages.Mdx
