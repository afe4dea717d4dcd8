import MdxPages.Proofs.Convert.Outline

/-!
# Proofs/Convert/Closure — an outline holds the outlines of its fragments

What holds of each node by itself and is kept by a sequence holds of every outline
(`Hereditary.outlineAll`).  **Closure** (`Draft.outline_closed`) is the first use: the mentions of a
file are what the nodes visited at its own place mean, its includes are fragments that are emitted,
whatever a fragment emits is emitted just before it, and whatever is visited in a fragment is
visited in the file that it belongs to.  So the files that come from one draft can be taken one by
one, each after all those that it needs (`Draft.nested_of_files`).
-/

namespace MdxPages.Convert

open MdxPages.Source

variable {o : ConversionOptions} {place : Place}

/-! ## Induction on outlines

The outline of a tree is put together from three things: the outline of a node by itself, that of
its fragment, and sequences.  A property that these three keep holds throughout. -/

/-- A property of outlines that each node has by itself, if its own fragment has it, and that a
sequence keeps. -/
structure Hereditary (o : ConversionOptions) (Q : Place → Outline → Prop) : Prop where
  empty (place : Place) : Q place {}
  append (place : Place) (a b : Outline) : Q place a → Q place b → Q place (a ++ b)
  own (place : Place) (fields : Entries Value) (children : List Source) :
    (∀ fragment, Q (place.enter fragment) ((draftOf place fragment children).outline o)) →
    Q place (ownOutline o place (kindOf fields) fields children fun fragment =>
      (draftOf place fragment children).outline o)

/-- The outline of a fragment is that of its content, one fragment further in. -/
theorem outline_draftOf (o : ConversionOptions) (place : Place) (fragment : String)
    (children : List Source) :
    (draftOf place fragment children).outline o =
      outlineContent o (place.enter fragment) children :=
  (outlineContent_eq o _ children).symm

namespace Hereditary

variable {Q : Place → Outline → Prop}

/-- What holds of the lists of a node holds of all of them together. -/
theorem partsOutline (hQ : Hereditary o Q) {part : Part → Outline}
    (hpart : ∀ p, Q place (part p)) : ∀ ps, Q place (partsOutline part ps)
  | [] => hQ.empty place
  | [p] => hpart p
  | p :: q :: ps => hQ.append place _ _ (hpart p) (partsOutline hQ hpart (q :: ps))

mutual

/-- Every node has the property, by induction on the tree. -/
theorem outline (hQ : Hereditary o Q) (place : Place) (s : Source) :
    Q place (outline o place s) := by
  match s with
  | .stray _ => exact hQ.empty place
  | .node fields children term argument =>
    rw [Convert.outline]
    refine hQ.append place _ _ ?_ (hQ.partsOutline (fun p => ?_) _)
    · -- what is inside an include is the outline of a draft, of which `own` speaks
      simp only [← outline_draftOf]
      refine hQ.own place fields children fun fragment => ?_
      rw [outline_draftOf]
      exact outlineContent hQ (place.enter fragment) children
    · cases p with
      | children | lines => exact outlineAll hQ place children
      | term => exact outlineAll hQ place term
      | argument => exact outlineAll hQ place argument
      | title => exact outlineTitle hQ place children
      | body => exact outlineBody hQ place false children

/-- **Induction on the outline of siblings.** -/
theorem outlineAll (hQ : Hereditary o Q) (place : Place) (ss : List Source) :
    Q place (outlineAll o place ss) := by
  match ss with
  | [] => exact hQ.empty place
  | s :: ss =>
    rw [Convert.outlineAll]
    exact hQ.append place _ _ (outline hQ place s) (outlineAll hQ place ss)

theorem outlineTitle (hQ : Hereditary o Q) (place : Place) (ss : List Source) :
    Q place (outlineTitle o place ss) := by
  match ss with
  | [] => exact hQ.empty place
  | .stray _ :: ss =>
    rw [Convert.outlineTitle]
    exact outlineTitle hQ place ss
  | .node fields children _ _ :: ss =>
    rw [Convert.outlineTitle]
    split
    · exact outlineAll hQ place children
    · exact outlineTitle hQ place ss

theorem outlineBody (hQ : Hereditary o Q) (place : Place) (passed : Bool) (ss : List Source) :
    Q place (outlineBody o place passed ss) := by
  match ss with
  | [] => exact hQ.empty place
  | s :: ss =>
    rw [Convert.outlineBody]
    split
    · exact outlineBody hQ place true ss
    · exact hQ.append place _ _ (outline hQ place s) (outlineBody hQ place passed ss)

/-- The content of a fragment has the property, for it is a list of siblings. -/
theorem outlineContent (hQ : Hereditary o Q) (place : Place) (ss : List Source) :
    Q place (outlineContent o place ss) := by
  match ss with
  | [] => exact hQ.empty place
  | [.stray _] => exact hQ.empty place
  | [.node fields children term argument] =>
    rw [Convert.outlineContent]
    split
    · exact outlineAll hQ place children
    · exact outline hQ place (.node fields children term argument)
  | s :: t :: ss =>
    rw [outlineContent_eq, includedContent]
    · exact hQ.append place _ _ (outline hQ place s) (outlineAll hQ place (t :: ss))
    · simp

end

/-- A hereditary property holds of the outline of every draft. -/
theorem draft (hQ : Hereditary o Q) (d : Draft) : Q d.place (d.outline o) :=
  hQ.outlineAll d.place d.content

end Hereditary

/-! ## Closed outlines

A closed outline says of each of its entries where it comes from, so that nothing is emitted or
mentioned without a node that asks for it. -/

/-- What a visited node means for the file that it is in. -/
def Visit.mention? (o : ConversionOptions) (v : Visit) : Option Mention :=
  match kindOf v.fields, directiveOf v.fields with
  | .directive, .metadata => some (.metadata (Value.field "options" v.fields).fields)
  | .directive, .figure =>
    let asset := figureAsset v.fields v.children
    if asset.isEmpty then none
    else some (.figure (figureTarget o (importerOf o v.place) asset))
  | .directive, .inclusion =>
    (fragmentOf o v.place v.fields).map fun fragment =>
      .inclusion (draftOf v.place fragment v.children)
  | _, _ => none

/-- The visits among some that are in the file of a place. -/
def visitsAt (place : Place) (vs : List Visit) : List Visit :=
  vs.filter fun v => v.place = place

/-- An outline is closed if its mentions are what the nodes visited at its place mean, its visits
are at its place or further in, and its fragments are all that is included, inner ones just before
outer ones. -/
structure Outline.Closed (o : ConversionOptions) (place : Place) (out : Outline) : Prop where
  own : out.mentions = (visitsAt place out.visits).filterMap (Visit.mention? o)
  within : ∀ v ∈ out.visits, place.chain <+: v.place.chain
  included : ∀ f, .inclusion f ∈ out.mentions → f ∈ out.fragments
  nested : ∀ before f after, out.fragments = before ++ f :: after →
    (f.outline o).fragments <:+ before
  inside : ∀ f ∈ out.fragments, (f.outline o).visits ⊆ out.visits

/-- Whatever is visited within an included fragment is not in the file that includes it. -/
theorem visitsAt_of_enter {fragment : String} {vs : List Visit}
    (h : ∀ v ∈ vs, (place.enter fragment).chain <+: v.place.chain) : visitsAt place vs = [] := by
  refine List.filter_eq_nil_iff.2 fun v hv hplace => ?_
  -- its chain of enclosing fragments is longer than that of the place
  have hlength := (h v hv).length_le
  rw [of_decide_eq_true hplace, Place.enter, List.length_append] at hlength
  exact absurd hlength (Nat.not_succ_le_self _)

namespace Outline

theorem Closed.empty (place : Place) : Closed o place {} where
  own := rfl
  within _ h := absurd h List.not_mem_nil
  included _ h := absurd h List.not_mem_nil
  nested before f after h := by simp at h
  inside _ h := absurd h List.not_mem_nil

/-- Two closed outlines in sequence are closed. -/
theorem Closed.append {a b : Outline} (ha : Closed o place a) (hb : Closed o place b) :
    Closed o place (a ++ b) where
  own := by
    rw [mentions_append, visits_append, visitsAt, List.filter_append, List.filterMap_append, ha.own,
      hb.own]
    rfl
  within v hv := (List.mem_append.1 hv).elim (ha.within v) (hb.within v)
  included f hf :=
    List.mem_append.2 ((List.mem_append.1 hf).imp (ha.included f) (hb.included f))
  nested before f after h := by
    -- `f` comes from the second outline, except where the split leaves a rest of the first
    obtain ⟨rest, rfl, hrest⟩ | ⟨rest, ha', hb'⟩ := List.append_eq_append_iff.1 h
    · exact (hb.nested rest f after hrest).trans (List.suffix_append _ _)
    · cases rest with
      | nil =>
        obtain rfl : a.fragments = before := by simpa using ha'
        exact (hb.nested [] f after hb'.symm).trans (List.nil_suffix)
      | cons g rest =>
        obtain ⟨rfl, -⟩ := List.cons_eq_cons.1 hb'
        exact ha.nested before f rest ha'
  inside f hf := by
    obtain h | h := List.mem_append.1 hf
    · exact List.subset_append_of_subset_left _ (ha.inside f h)
    · exact List.subset_append_of_subset_right _ (hb.inside f h)

/-- A node that includes nothing, and means at most one thing for its file. -/
theorem Closed.visiting {v : Visit} (hplace : v.place = place)
    (h : ∀ f, v.mention? o ≠ some (.inclusion f)) :
    Closed o place { mentions := (v.mention? o).toList, visits := [v] } where
  own := by
    simp only [visitsAt, List.filter_cons, hplace, decide_true, if_true, List.filter_nil,
      List.filterMap_cons, List.filterMap_nil]
    cases v.mention? o <;> rfl
  within w hw := by
    obtain rfl := List.mem_singleton.1 hw
    exact hplace ▸ List.prefix_refl _
  included f hf := absurd (Option.mem_toList.1 hf) (h f)
  nested before f after h := by simp at h
  inside _ h := absurd h List.not_mem_nil

/-- The last of the files of a draft is the draft, and all others are among its fragments. -/
theorem Closed.nested_files {d f : Draft} {before after : List Draft}
    (hd : Closed o d.place (d.outline o)) (h : d.files o = before ++ f :: after) :
    (f.outline o).fragments <:+ before := by
  obtain rfl | ⟨rest, last, rfl⟩ := List.eq_nil_or_concat after
  · obtain ⟨hbefore, hlast⟩ := List.append_inj' h rfl
    obtain rfl := List.singleton_inj.1 hlast
    exact hbefore ▸ List.suffix_refl _
  · rw [List.concat_eq_append, ← List.cons_append, ← List.append_assoc] at h
    exact hd.nested before f rest (List.append_inj' h rfl).1

/-- A file among those of a draft is visited within the draft. -/
theorem Closed.inside_files {d f : Draft} (hd : Closed o d.place (d.outline o))
    (h : f ∈ d.files o) : (f.outline o).visits ⊆ (d.outline o).visits := by
  obtain h | h := List.mem_append.1 h
  · exact hd.inside f h
  · obtain rfl := List.mem_singleton.1 h
    exact List.Subset.refl _

/-- An include whose fragment is closed: the fragment comes last. -/
theorem Closed.including {v : Visit} {d : Draft} {fragment : String} (hplace : v.place = place)
    (hv : v.mention? o = some (.inclusion d)) (hd : Closed o d.place (d.outline o))
    (henter : d.place = place.enter fragment) :
    Closed o place
      { mentions := [.inclusion d]
        fragments := (d.outline o).fragments ++ [d]
        visits := (d.outline o).visits ++ [v] } where
  own := by
    have hinner : visitsAt place (d.outline o).visits = [] :=
      visitsAt_of_enter fun w hw => henter ▸ hd.within w hw
    rw [visitsAt] at hinner
    simp [visitsAt, hinner, hplace, hv]
  within w hw := by
    obtain h | h := List.mem_append.1 hw
    · have hstart := henter ▸ hd.within w h
      exact (List.prefix_append _ _).trans hstart
    · obtain rfl := List.mem_singleton.1 h
      exact hplace ▸ List.prefix_refl _
  included f hf := by
    cases List.mem_singleton.1 hf
    exact List.mem_append_right _ (List.mem_singleton_self d)
  nested _ _ _ h := hd.nested_files h
  inside _ hf := List.subset_append_of_subset_left _ (hd.inside_files hf)

/-- Being closed is kept by every step of an outline. -/
theorem closed_hereditary (o : ConversionOptions) : Hereditary o (Closed o) where
  empty := Closed.empty
  append _ _ _ := Closed.append
  own place fields children hinner := by
    have hnone (h : Visit.mention? o ⟨place, fields, children⟩ = none) :
        Closed o place { visits := [⟨place, fields, children⟩] } := by
      simpa [h] using Closed.visiting (o := o) (v := ⟨place, fields, children⟩) rfl (by simp [h])
    cases hk : kindOf fields with
    | directive =>
      simp only [ownOutline, directiveOutline]
      cases hd : directiveOf fields with
      | metadata =>
        simpa [Visit.mention?, hk, hd] using Closed.visiting (o := o)
          (v := ⟨place, fields, children⟩) rfl (by simp [Visit.mention?, hk, hd])
      | figure =>
        cases hasset : (figureAsset fields children).isEmpty with
        | true => simpa [hasset] using hnone (by simp [Visit.mention?, hk, hd, hasset])
        | false =>
          simpa [Visit.mention?, hk, hd, hasset] using Closed.visiting (o := o)
            (v := ⟨place, fields, children⟩) rfl (by simp [Visit.mention?, hk, hd, hasset])
      | inclusion =>
        cases hf : fragmentOf o place fields with
        | none => exact hnone (by simp [Visit.mention?, hk, hd, hf])
        | some fragment =>
          exact Closed.including rfl (by simp [Visit.mention?, hk, hd, hf]) (hinner fragment) rfl
      | literalInclude | generic => exact hnone (by simp [Visit.mention?, hk, hd])
    | _ => exact hnone (by simp [Visit.mention?, hk])

end Outline

namespace Draft

/-- **The outline of every draft is closed.** -/
theorem outline_closed (o : ConversionOptions) (d : Draft) :
    (d.outline o).Closed o d.place :=
  (Outline.closed_hereditary o).draft d

/-- The nodes that are converted in the file of a draft itself. -/
def visits (o : ConversionOptions) (d : Draft) : List Visit :=
  visitsAt d.place (d.outline o).visits

/-- **The mentions of a file are what its own nodes mean.** -/
theorem mentions_eq (o : ConversionOptions) (d : Draft) :
    (d.outline o).mentions = (d.visits o).filterMap (Visit.mention? o) :=
  (d.outline_closed o).own

variable {d f g : Draft} {before after : List Draft}

/-- What a node of a file means is mentioned in it. -/
theorem mem_mentions_of_visit {v : Visit} {m : Mention} (hv : v ∈ d.visits o)
    (hm : v.mention? o = some m) : m ∈ (d.outline o).mentions := by
  rw [mentions_eq]
  exact List.mem_filterMap.2 ⟨v, hv, hm⟩

/-- **The fragments of a file come just before it**, among all files that come from a draft. -/
theorem nested_of_files (h : d.files o = before ++ f :: after) :
    (f.outline o).fragments <:+ before :=
  (d.outline_closed o).nested_files h

/-- What a file includes is finished before the file is. -/
theorem mem_before_of_inclusion (h : d.files o = before ++ f :: after)
    (hg : .inclusion g ∈ (f.outline o).mentions) : g ∈ before :=
  (nested_of_files h).subset ((f.outline_closed o).included g hg)

/-- What a file includes is among the fragments of the draft that the file comes from. -/
theorem mem_fragments_of_inclusion (hf : f ∈ d.files o)
    (hg : .inclusion g ∈ (f.outline o).mentions) : g ∈ (d.outline o).fragments := by
  have hown := (f.outline_closed o).included g hg
  obtain hf | hf := List.mem_append.1 hf
  · obtain ⟨before, after, hsplit⟩ := List.append_of_mem hf
    have hbefore := ((d.outline_closed o).nested before f after hsplit).subset hown
    exact hsplit ▸ List.mem_append_left _ hbefore
  · obtain rfl := List.mem_singleton.1 hf
    exact hown

/-- Whatever is visited in one of the files is visited in the conversion of the draft. -/
theorem visits_subset_of_mem_files (h : f ∈ d.files o) :
    (f.outline o).visits ⊆ (d.outline o).visits :=
  (d.outline_closed o).inside_files h

end Draft

end MdxPages.Convert
