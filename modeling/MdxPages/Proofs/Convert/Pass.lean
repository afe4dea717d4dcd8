import MdxPages.Proofs.Convert.Handling

/-!
# Proofs/Convert/Pass — the pass over a tree follows its outline

**Main statement** (`convertAll_follows`): from every state and with every emitter, converting
siblings stops at the first fault of their outline; without one, it notes the mentions of the
outline, emits its fragments, and returns nodes that refer to all names mentioned.
-/

namespace MdxPages.Convert

open MdxPages.Source

variable {o : ConversionOptions} {place : Place} {fields : Entries Value} {children : List Source}
  {P : ∀ σ : Type, Run σ → Parts σ} {part : Part → Outline} {inner : String → Outline}

/-! ## One node

The lists of the node are taken as converted.  What is left is one case for each kind. -/

/-- A directive follows its own outline and then those of its lists. -/
theorem directive_follows (depth : Int) (hP : Lists o place children P part inner)
    (hk : kindOf fields = .directive) :
    Follows o place (fun σ run => handle run place depth .directive fields children (P σ run))
      Converted.toList
      (directiveOutline o place fields children inner ++
        partsOutline part (directiveParts fields)) := by
  have hv := directive_fault? o place children hk
  simp only [handle]
  cases h : directiveOf fields with
  | metadata =>
    simp only [directiveFault, h] at hv
    simpa [directiveOutline, directiveParts, partsOutline, h] using metadata_follows _ hv
  | figure =>
    simpa [directiveParts, partsOutline, h] using figure_follows hk h
  | literalInclude =>
    simp only [directiveFault, h] at hv
    simpa [directiveOutline, directiveParts, partsOutline, h] using
      (Follows.pure (Converted.one (literalIncludeCode fields))).visiting hv
  | inclusion =>
    simpa [directiveParts, partsOutline, h] using inclusion_follows hP hk h
  | generic =>
    simp only [directiveFault, h] at hv
    simpa [directiveOutline, h] using (generic_follows hP h).visiting hv

/-- **Every handler follows the outline of its node**, if the conversions of its lists follow
theirs. -/
theorem handle_follows (depth : Int) (hP : Lists o place children P part inner) {kind : Kind}
    (hk : kindOf fields = kind) :
    Follows o place (fun σ run => handle run place depth kind fields children (P σ run))
      Converted.toList
      (ownOutline o place kind fields children inner ++
        partsOutline part (partsOf kind fields children)) := by
  have hv : Visit.fault? o ⟨place, fields, children⟩ = ownFault o place kind fields children := by
    rw [Visit.fault?, hk]
  cases kind with
  | text | line | literal | code | footnoteReference | transition | target | inlineTarget
  | dropped => exact (Follows.pure _).visiting hv
  | directive => exact directive_follows depth hP hk
  | paragraph | emphasis | titleReference | strong | bulletList | listItem | fieldList | field
  | superscript | subscript | definitionList | substitution | cardGroup | ctaBanner | tabs | only
  | methodSelector | blockQuote | admonition | tablePart =>
    exact (hP.one _ fun _ => rfl).visiting hv
  | transparent => exact hP.several.visiting hv
  | enumeratedList => exact Follows.checking hv fun _ _ => hP.one _ fun _ => rfl
  | list =>
    simp only [ownFault] at hv
    simp only [handle]
    split at hv
    · next h =>
      simp only [h, if_true]
      exact Follows.checking hv fun _ _ => hP.one _ fun _ => rfl
    · next h =>
      simp only [h, Bool.false_eq_true, if_false]
      exact (hP.one _ fun _ => rfl).visiting hv
  | heading =>
    refine Follows.congr (fun σ run hrun => ?_) (Follows.checking
      (hv.trans (faultIn_headingDepth depth _).symm)
      fun wanted _ => hP.one (.heading (clampDepth o wanted)) fun _ => rfl)
    rw [handle, hrun]
  | reference =>
    simp only [handle]
    split
    · exact (hP.one _ fun _ => rfl).visiting hv
    · exact hP.several.visiting hv
  | refRole =>
    simp only [handle]
    split
    · exact (hP.one _ fun _ => rfl).visiting hv
    · exact hP.several.visiting hv
  | role => exact (role_follows hP).visiting hv
  | sectionBlock => exact ((section_follows hP).map Converted.several fun _ => .refl _).visiting hv
  | definitionListItem =>
    exact (hP.term.seq hP.children _ fun _ _ => references_one rfl).visiting hv
  | lineBlock => exact (hP.lines.map _ fun _ => references_one rfl).visiting hv
  | footnote => exact (footnote_follows hP).visiting hv
  | unknown =>
    simp only [handle, handleUnknown, partsOf]
    cases children.isEmpty with
    | true => exact ((Follows.pure _).visiting hv).recording _ _
    | false => exact hP.several.visiting hv

/-! ## Trees

The functions of the pass call each other on smaller lists, and so do the lemmas about them. -/

/-- The content of a fragment is converted at the top depth. -/
theorem convertContent_eq {σ : Type} (run : Run σ) (place : Place) (ss : List Source) :
    convertContent run place ss = convertAll run place 1 (includedContent ss) := by
  fun_cases convertContent run place ss with
  | case1 => simp only [includedContent, convertAll]
  | case2 v => simp [includedContent, convertAll]
  | case3 fields children term argument hextract => simp [includedContent, hextract]
  | case4 fields children term argument hextract => simp [includedContent, convertAll, hextract]
  | case5 s ss =>
    rw [includedContent, convertAll]
    grind

/-- The nodes of a sibling and of those after it. -/
theorem cons_follows {x : ∀ σ : Type, Run σ → Conversion σ Converted}
    {y : ∀ σ : Type, Run σ → Conversion σ (List Node)} {out₁ out₂ : Outline}
    (hx : Follows o place x Converted.toList out₁) (hy : Follows o place y id out₂) :
    Follows o place
      (fun σ run => x σ run >>= fun first => y σ run >>= fun ns => pure (first.toList ++ ns)) id
      (out₁ ++ out₂) :=
  hx.seq hy _ fun _ _ => .refl _

/-- The nodes of a line and of those after it: the line break between them refers to nothing. -/
theorem lines_follows {x : ∀ σ : Type, Run σ → Conversion σ Converted}
    {y : ∀ σ : Type, Run σ → Conversion σ (List Node)} {out₁ out₂ : Outline}
    (hx : Follows o place x Converted.toList out₁) (hy : Follows o place y id out₂) :
    Follows o place
      (fun σ run => x σ run >>= fun line => y σ run >>= fun ns =>
        pure (line.toList ++ Node.lineBreak :: ns)) id (out₁ ++ out₂) := by
  refine hx.seq hy _ fun line ns => ?_
  simp only [id, Node.references_append, Node.references_cons]
  exact .refl _

mutual

/-- **A conversion follows the outline of its node**, by induction on the tree. -/
theorem convertNode_follows (o : ConversionOptions) (place : Place) (depth : Int) (s : Source) :
    Follows o place (fun _ run => convertNode run place depth s) Converted.toList
      (outline o place s) := by
  match s with
  | .stray v =>
    exact ((Follows.pure .nothing).recording .debug _).congr fun σ run _ => by rw [convertNode]
  | .node fields children term argument =>
    rw [outline]
    exact (handle_follows depth
      { children := convertAll_follows o place depth children
        term := convertAll_follows o place depth term
        argument := convertAll_follows o place depth argument
        title := convertTitle_follows o place depth children
        body := convertBody_follows o place (depth + 1) false children
        lines := convertLines_follows o place depth children
        content := fun fragment => convertContent_follows o (place.enter fragment) children
        content_eq := fun σ run inside => convertContent_eq run inside children } rfl).congr
      fun σ run _ => by rw [convertNode]

theorem convertAll_follows (o : ConversionOptions) (place : Place) (depth : Int)
    (ss : List Source) :
    Follows o place (fun _ run => convertAll run place depth ss) id (outlineAll o place ss) := by
  match ss with
  | [] => exact (Follows.pure []).congr fun σ run _ => by rw [convertAll]
  | s :: ss =>
    rw [outlineAll]
    exact (cons_follows (convertNode_follows o place depth s)
      (convertAll_follows o place depth ss)).congr fun σ run _ => by rw [convertAll]

/-- …of the first title among siblings. -/
theorem convertTitle_follows (o : ConversionOptions) (place : Place) (depth : Int)
    (ss : List Source) :
    Follows o place (fun _ run => convertTitle run place depth ss) id
      (outlineTitle o place ss) := by
  match ss with
  | [] => exact (Follows.pure []).congr fun σ run _ => by rw [convertTitle]
  | .stray _ :: ss =>
    rw [outlineTitle]
    exact (convertTitle_follows o place depth ss).congr fun σ run _ => by rw [convertTitle]
  | .node fields children _ _ :: ss =>
    rw [outlineTitle]
    split
    · next h =>
      exact (convertAll_follows o place depth children).congr fun σ run _ => by
        rw [convertTitle, if_pos h]
    · next h =>
      exact (convertTitle_follows o place depth ss).congr fun σ run _ => by
        rw [convertTitle, if_neg h]

/-- …of siblings without it. -/
theorem convertBody_follows (o : ConversionOptions) (place : Place) (depth : Int) (passed : Bool)
    (ss : List Source) :
    Follows o place (fun _ run => convertBody run place depth passed ss) id
      (outlineBody o place passed ss) := by
  match ss with
  | [] => exact (Follows.pure []).congr fun σ run _ => by rw [convertBody]
  | s :: ss =>
    rw [outlineBody]
    split
    · next h =>
      exact (convertBody_follows o place depth true ss).congr fun σ run _ => by
        rw [convertBody, if_pos h]
    · next h =>
      exact (cons_follows (convertNode_follows o place depth s)
        (convertBody_follows o place depth passed ss)).congr fun σ run _ => by
          rw [convertBody, if_neg h]

/-- …of siblings as lines, for a line break refers to nothing. -/
theorem convertLines_follows (o : ConversionOptions) (place : Place) (depth : Int)
    (ss : List Source) :
    Follows o place (fun _ run => convertLines run place depth ss) id (outlineAll o place ss) := by
  match ss with
  | [] => exact (Follows.pure []).congr fun σ run _ => by rw [convertLines]
  | [s] =>
    rw [outlineAll, outlineAll, Outline.append_empty]
    exact ((convertNode_follows o place depth s).map Converted.toList fun _ => .refl _).congr
      fun σ run _ => by rw [convertLines]
  | s :: t :: ss =>
    rw [outlineAll]
    refine Follows.congr (fun σ run _ => ?_) (lines_follows (convertNode_follows o place depth s)
      (convertLines_follows o place depth (t :: ss)))
    rw [convertLines]
    simp

/-- …of the content of a fragment. -/
theorem convertContent_follows (o : ConversionOptions) (place : Place) (ss : List Source) :
    Follows o place (fun _ run => convertContent run place ss) id
      (outlineContent o place ss) := by
  match ss with
  | [] => exact (Follows.pure []).congr fun σ run _ => by rw [convertContent]
  | [.stray v] =>
    exact ((convertNode_follows o place 1 (.stray v)).map Converted.toList fun _ => .refl _).congr
      fun σ run _ => by rw [convertContent]
  | [.node fields children term argument] =>
    rw [outlineContent]
    split
    · next h =>
      exact (convertAll_follows o place 1 children).congr fun σ run _ => by
        rw [convertContent, if_pos h]
    · next h =>
      exact ((convertNode_follows o place 1 (.node fields children term argument)).map
        Converted.toList fun _ => .refl _).congr fun σ run _ => by rw [convertContent, if_neg h]
  | s :: t :: ss =>
    have hout : outlineContent o place (s :: t :: ss) =
        outline o place s ++ outlineAll o place (t :: ss) := by
      rw [outlineContent]
      all_goals simp
    rw [hout]
    exact (cons_follows (convertNode_follows o place 1 s)
      (convertAll_follows o place 1 (t :: ss))).congr fun σ run _ => by
        rw [convertContent]
        all_goals simp

end

end MdxPages.Convert
