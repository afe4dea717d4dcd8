import MdxPages.Proofs.Convert.Imports
import MdxPages.Proofs.Convert.Inclusion
import MdxPages.Proofs.Convert.Shared

/-!
# Proofs/Convert/Order — cycles are cut, and inner fragments come first

**Main statement** (`orderly`).  If cycles are cut, no fragment is ever on the stack twice.  An
include whose fragment is on the stack leaves a marker and does nothing else; any other one that
returns has emitted the fragments of its content, then its own one once, and then the siblings after
it are converted.  So the fragments of a file are emitted in post-order (`Draft.files_eq`): for each
of its includes, in the order of the document, those of its content before itself.
-/

namespace MdxPages.Convert

open MdxPages.Source

variable {σ : Type} {o : ConversionOptions} {place : Place} {depth : Int} {fields : Entries Value}
  {children content : List Source} {fragment : String} {node : Source} {inner : String → Outline}

/-! ## The includes of a file

A file includes only what it converts itself: an include within a fragment belongs to the fragment.
-/

/-- The fragment that a mention includes. -/
def Mention.inclusion? : Mention → Option Draft
  | inclusion fragment => some fragment
  | metadata _ | figure _ => none

/-- The fragment that a visited node includes; none if it is no include, or one that is cut. -/
def Visit.inclusion? (o : ConversionOptions) (v : Visit) : Option Draft :=
  (v.mention? o).bind Mention.inclusion?

/-- The fragments that a file itself includes, in the order in which its nodes are converted. -/
def Draft.inclusions (o : ConversionOptions) (d : Draft) : List Draft :=
  (d.visits o).filterMap (Visit.inclusion? o)

/-- The includes of a file are those among its mentions. -/
theorem Draft.inclusions_eq (o : ConversionOptions) (d : Draft) :
    d.inclusions o = (d.outline o).mentions.filterMap Mention.inclusion? := by
  rw [mentions_eq, List.filterMap_filterMap]
  rfl

/-- By itself, a node includes nothing, or one fragment that closes no cycle. -/
theorem ownOutline_cases (o : ConversionOptions) (place : Place) (fields : Entries Value)
    (children : List Source) (inner : String → Outline) :
    ((ownOutline o place (kindOf fields) fields children inner).fragments = [] ∧
      (ownOutline o place (kindOf fields) fields children inner).mentions.filterMap
        Mention.inclusion? = []) ∨
    ∃ fragment, fragmentOf o place fields = some fragment ∧
      (ownOutline o place (kindOf fields) fields children inner).fragments =
        (inner fragment).fragments ++ [draftOf place fragment children] ∧
      (ownOutline o place (kindOf fields) fields children inner).mentions =
        [.inclusion (draftOf place fragment children)] := by
  cases hkind : kindOf fields with
  | directive =>
    simp only [ownOutline, directiveOutline]
    cases directiveOf fields with
    | metadata | literalInclude | generic => exact .inl ⟨rfl, rfl⟩
    | figure => cases (figureAsset fields children).isEmpty <;> exact .inl ⟨rfl, rfl⟩
    | inclusion =>
      cases fragmentOf o place fields with
      | none => exact .inl ⟨rfl, rfl⟩
      | some fragment => exact .inr ⟨fragment, rfl, rfl, rfl⟩
  | _ => exact .inl ⟨rfl, rfl⟩

/-! ## Post-order

Each include adds the files of its fragment, and the fragment is the last of them. -/

/-- Post-order is kept by every step of an outline. -/
theorem postorder_hereditary (o : ConversionOptions) : Hereditary o fun _ out =>
    out.fragments = (out.mentions.filterMap Mention.inclusion?).flatMap (Draft.files o) where
  empty _ := rfl
  append _ a b ha hb := by
    rw [Outline.fragments_append, Outline.mentions_append, List.filterMap_append,
      List.flatMap_append, ha, hb]
  own place fields children _ := by
    obtain ⟨hfragments, hmentions⟩ | ⟨fragment, -, hfragments, hmentions⟩ :=
      ownOutline_cases o place fields children fun fragment =>
        (draftOf place fragment children).outline o
    · rw [hfragments, hmentions, List.flatMap_nil]
    · rw [hfragments, hmentions]
      simp [Mention.inclusion?, Draft.files]

/-- The fragments of a file are the files of its includes, one include after the other. -/
theorem Draft.fragments_eq (o : ConversionOptions) (d : Draft) :
    (d.outline o).fragments = (d.inclusions o).flatMap (files o) := by
  rw [inclusions_eq]
  exact (postorder_hereditary o).draft d

/-- **Post-order**: the files of a draft are those of its includes, in their order, and then the
draft itself. -/
theorem Draft.files_eq (o : ConversionOptions) (d : Draft) :
    d.files o = (d.inclusions o).flatMap (files o) ++ [d] := by
  rw [← fragments_eq, files]

/-! ## No fragment within itself

What is on the stack is not entered again, so a path below it differs from all of them. -/

/-- With cycles cut, no fragment lies on the stack at which it is entered. -/
theorem fresh_hereditary (hcut : o.detectIncludeCycles.isGiven) :
    Hereditary o fun place out => ∀ f ∈ out.fragments, f.place.path ∉ place.chain where
  empty _ _ hf := absurd hf List.not_mem_nil
  append _ _ _ ha hb f hf := (List.mem_append.1 hf).elim (ha f) (hb f)
  own place fields children hinner := by
    intro f hf
    obtain ⟨hfragments, -⟩ | ⟨fragment, hfragment, hfragments, -⟩ :=
      ownOutline_cases o place fields children fun fragment =>
        (draftOf place fragment children).outline o
    · exact absurd (hfragments ▸ hf) List.not_mem_nil
    · rw [hfragments] at hf
      obtain hf | hf := List.mem_append.1 hf
      · exact fun hmem => hinner fragment f hf (List.mem_append_left _ hmem)
      · obtain rfl := List.mem_singleton.1 hf
        simp only [fragmentOf] at hfragment
        split at hfragment
        · cases hfragment
        · next hc =>
          obtain rfl := Option.some.inj hfragment
          rw [Bool.or_eq_true, not_or, closesCycle_eq_true_iff hcut] at hc
          exact hc.2

/-- **Nothing within a fragment is emitted under its path.** -/
theorem Draft.path_ne_of_mem_fragments (hcut : o.detectIncludeCycles.isGiven) {f : Draft}
    (hf : f ∈ (Draft.outline o ⟨place.enter fragment, [], content⟩).fragments) :
    f.place.path ≠ fragment := by
  rintro rfl
  exact (fresh_hereditary hcut).draft _ f hf (List.mem_append_right _ (List.mem_singleton_self _))

/-! ## Cut includes -/

/-- An include does nothing but leave a marker for its fragment; its warning must be able to name
the importer. -/
structure LeavesMarker (run : Run σ) (depth : Int) (node : Source) (fragment : String)
    (s : Session (Standing σ)) : Prop where
  answer : (s.emitter.place.path ≠ "" ∨ ∃ path, run.options.defaultImporterPath = .str path) →
    (Shared.convertNode run depth node s).1 = .ok (.one (cycleMarker fragment))
  file : (Shared.convertNode run depth node s).2.file = s.file
  emitter : (Shared.convertNode run depth node s).2.emitter = s.emitter

/-- A place has an importer if it has a path, or if the default one is a text. -/
theorem exists_importerPath_eq_ok
    (h : place.path ≠ "" ∨ ∃ path, o.defaultImporterPath = .str path) :
    ∃ importer, importerPath o place = .ok importer := by
  unfold importerPath
  split
  · next hempty =>
    obtain h | ⟨path, hpath⟩ := h
    · exact absurd (String.isEmpty_iff.1 hempty) h
    · exact ⟨_, by rw [hpath]⟩
  · exact ⟨_, rfl⟩

/-- **An include whose fragment is on the stack leaves a marker.** -/
theorem leavesMarker (run : Run σ) (s : Session (Standing σ))
    (hcut : run.options.detectIncludeCycles.isGiven)
    (hnode : Includes run.options fragment content node)
    (hmem : fragment ∈ s.emitter.place.chain) : LeavesMarker run depth node fragment s := by
  match node with
  | .stray v => exact hnode.elim
  | .node fields children term argument =>
    have hcycle := (closesCycle_eq_true_iff hcut).2 hmem
    obtain ⟨parts, hhandle⟩ : ∃ parts, Shared.convertNode run depth
        (.node fields children term argument) s =
          handle run.shared s.emitter.place depth (kindOf fields) fields children parts s :=
      ⟨_, by rw [Shared.convertNode, bind_apply, get_apply]⟩
    have hmarker : Performs run.shared s.emitter.place
        (handle run.shared s.emitter.place depth (kindOf fields) fields children parts) _ :=
      handle_performs_of_cycle hnode hcycle
    obtain ⟨hanswer, hfile, hemitter⟩ := hmarker s
    refine ⟨fun h => ?_, by rw [hhandle]; exact hfile, by rw [hhandle]; exact hemitter⟩
    obtain ⟨importer, himporter⟩ := exists_importerPath_eq_ok h
    rw [hhandle, hanswer, cutAnswer, Run.shared_options, himporter]
    rfl

/-! ## Uncut includes -/

/-- An include that returns emits the fragments of its content, in their order, and then its own
one; nothing else is emitted under the path of that, and the siblings after the include go on from
there. -/
structure EmitsOnce (run : Run σ) (place : Place) (depth : Int) (node : Source) (fragment : String)
    (content : List Source) (s s' : Session σ) : Prop where
  emitter : s'.emitter =
    ((Draft.files run.options ⟨place.enter fragment, [], content⟩).map
      (Draft.emission run.options)).foldl (deliver run.emitter) s.emitter
  once : ∀ f ∈ (Draft.outline run.options ⟨place.enter fragment, [], content⟩).fragments,
    f.place.path ≠ fragment
  later : ∀ siblings, ∃ emissions : List (String × Node),
    (∀ t, (convertAll run place depth siblings t).2.emitter =
      emissions.foldl (deliver run.emitter) t.emitter) ∧
    (convertAll run place depth (node :: siblings) s).2.emitter =
      emissions.foldl (deliver run.emitter) s'.emitter

/-- What an include emits is what the files of its fragment come out as. -/
theorem emitter_of_includes {run : Run σ} {s s' : Session σ} {first : Converted}
    (hnode : Includes run.options fragment content node)
    (hfresh : closesCycle run.options place fragment = false)
    (h : convertNode run place depth node s = (.ok first, s')) :
    s'.emitter =
      ((Draft.files run.options ⟨place.enter fragment, [], content⟩).map
        (Draft.emission run.options)).foldl (deliver run.emitter) s.emitter := by
  match node with
  | .stray v => exact hnode.elim
  | .node fields children term argument =>
    obtain ⟨a, ha, hperf⟩ := convertAll_follows run.options (place.enter fragment) 1 content
    have hinclude : Performs run place (convertNode run place depth _) _ :=
      convertNode_performs_of_includes hnode hfresh (hperf σ run rfl)
    obtain ⟨hanswer, -, hemitter⟩ := hinclude s
    rw [h] at hanswer hemitter
    cases ha with
    | stopped f answer first => simp [inclusionAccount, Account.bind, answer, Except.map] at hanswer
    | completed ns answer faults mentions emissions references =>
      have htree := tree_of_performs (d := ⟨place.enter fragment, [], content⟩)
        (hperf Unit ⟨run.options, none⟩ rfl) answer
      rw [hemitter, emissions_inclusionAccount, Account.fragmentTree, answer, emissions]
      simp only [Except.map, delivery, Draft.files, List.map_append, List.map_cons, List.map_nil,
        Draft.emission, htree]
      rfl

/-- **An include that is not cut emits its fragment once**, after those of its content. -/
theorem emitsOnce {run : Run σ} {s s' : Session σ} {first : Converted}
    (hcut : run.options.detectIncludeCycles.isGiven)
    (hnode : Includes run.options fragment content node) (hmem : fragment ∉ place.chain)
    (h : convertNode run place depth node s = (.ok first, s')) :
    EmitsOnce run place depth node fragment content s s' where
  emitter := emitter_of_includes hnode
    (Bool.eq_false_iff.2 fun hcycle => hmem ((closesCycle_eq_true_iff hcut).1 hcycle)) h
  once f hf := Draft.path_ne_of_mem_fragments hcut hf
  later siblings := by
    obtain ⟨a, -, hperf⟩ := convertAll_follows run.options place depth siblings
    refine ⟨a.emissions, fun t => (hperf σ run rfl t).2.2, ?_⟩
    rw [← (hperf σ run rfl s').2.2, convertAll]
    simp only [bind_apply, h]
    generalize convertAll run place depth siblings s' = p
    obtain ⟨_ | ns, _⟩ := p <;> rfl

/-! ## Order

All of it together, for a conversion on the shared stack that starts with distinct fragments on it.
-/

/-- At a place whose enclosing fragments are distinct: the stack never holds a fragment twice, an
include whose fragment is on it is cut, any other one that returns emits its fragment once, between
its content and its siblings, and siblings that return have emitted their fragments in
post-order. -/
structure Orderly (o : ConversionOptions) (place : Place) : Prop where
  stack : ∀ {σ : Type} (run : Run σ) (depth : Int) (node : Source) (s : Session (Standing σ)),
    run.options = o → s.emitter.place = place → ∃ reached,
      (Shared.convertNode run depth node s).2.emitter.reached = s.emitter.reached ++ reached ∧
        ∀ chain ∈ reached, chain.Nodup
  cut : ∀ {σ : Type} (run : Run σ) (depth : Int) (node : Source) (fragment : String)
    (content : List Source) (s : Session (Standing σ)), run.options = o → s.emitter.place = place →
      Includes o fragment content node → fragment ∈ place.chain →
        LeavesMarker run depth node fragment s
  uncut : ∀ {σ : Type} (run : Run σ) (depth : Int) (node : Source) (fragment : String)
    (content : List Source) (first : Converted) (s s' : Session σ), run.options = o →
      Includes o fragment content node → fragment ∉ place.chain →
        convertNode run place depth node s = (.ok first, s') →
          EmitsOnce run place depth node fragment content s s'
  postorder : ∀ {σ : Type} (run : Run σ) (depth : Int) (content : List Source) (ns : List Node)
    (s s' : Session σ), run.options = o → convertAll run place depth content s = (.ok ns, s') →
      s'.emitter =
        (((Draft.inclusions o ⟨place, [], content⟩).flatMap (Draft.files o)).map
          (Draft.emission o)).foldl (deliver run.emitter) s.emitter

/-- What siblings hand to the emitter are the files of their includes, in order. -/
theorem emitter_of_convertAll {run : Run σ} {s s' : Session σ} {ns : List Node}
    (h : convertAll run place depth content s = (.ok ns, s')) :
    s'.emitter =
      (((Draft.inclusions run.options ⟨place, [], content⟩).flatMap
        (Draft.files run.options)).map (Draft.emission run.options)).foldl
          (deliver run.emitter) s.emitter := by
  obtain ⟨a, ha, hperf⟩ := convertAll_follows run.options place depth content
  obtain ⟨hanswer, -, hemitter⟩ := hperf σ run rfl s
  simp only [h] at hanswer hemitter
  cases ha with
  | stopped f answer first =>
    rw [answer] at hanswer
    cases hanswer
  | completed ns answer faults mentions emissions references =>
    rw [hemitter, emissions, ← Draft.fragments_eq]
    rfl

/-- **Cycles are cut, and inner fragments come first**: the files of every draft are in post-order,
and so are those that a conversion emits. -/
theorem orderly (hcut : o.detectIncludeCycles.isGiven) (hplace : place.chain.Nodup) :
    Orderly o place ∧
      ∀ d : Draft, d.files o = (d.inclusions o).flatMap (Draft.files o) ++ [d] := by
  refine ⟨⟨?_, ?_, ?_, ?_⟩, Draft.files_eq o⟩
  · rintro σ run depth node s rfl rfl
    obtain ⟨reached, hs, hnodup⟩ := convertNode_shares run s.emitter.place depth node s rfl
    exact ⟨reached, by rw [hs]; rfl, hnodup hcut hplace⟩
  · rintro σ run depth node fragment content s rfl rfl hnode hmem
    exact leavesMarker run s hcut hnode hmem
  · rintro σ run depth node fragment content first s s' rfl hnode hmem h
    exact emitsOnce hcut hnode hmem h
  · rintro σ run depth content ns s s' rfl h
    exact emitter_of_convertAll h

/-- The include of a path, with nodes in it. -/
def includeOf (path : String) (children : List Value) : Source :=
  .ofValue (directiveValue "include" path children)

/-- An include within `a`, of nodes that include `a` again and `c`. -/
def cyclingContent : List Value :=
  [directiveValue "include" "/a.rst" [], directiveValue "include" "/c.rst" []]

/-- The two includes have the fragments that their paths name. -/
theorem cycling_includes :
    Includes {} "a.mdx" [] (includeOf "/a.rst" []) ∧
      Includes {} "b.mdx" (ofValues cyclingContent) (includeOf "/b.rst" cyclingContent) :=
  ⟨⟨by rfl, by rfl, by decide +kernel, by rfl, by rfl⟩,
    ⟨by rfl, by rfl, by decide +kernel, by rfl, by rfl⟩⟩

/-- Within `a`, an include of `a` is cut, and an include of `b` emits `c` and then `b`. -/
theorem orderly_withinA :
    let run : Run (List (String × Node)) := ⟨{}, some .recording⟩
    LeavesMarker run 1 (includeOf "/a.rst" []) "a.mdx"
        ⟨{}, ⟨[], ⟨"a.mdx", ["a.mdx"]⟩, []⟩, []⟩ ∧
      ∃ first s, convertNode run ⟨"a.mdx", ["a.mdx"]⟩ 1 (includeOf "/b.rst" cyclingContent)
          ⟨{}, [], []⟩ = (.ok first, s) ∧
        s.emitter.map Prod.fst = ["c.mdx", "b.mdx"] ∧
        EmitsOnce run ⟨"a.mdx", ["a.mdx"]⟩ 1 (includeOf "/b.rst" cyclingContent) "b.mdx"
          (ofValues cyclingContent) ⟨{}, [], []⟩ s := by
  intro run
  obtain ⟨horderly, -⟩ : Orderly {} ⟨"a.mdx", ["a.mdx"]⟩ ∧ _ := orderly rfl (by decide)
  obtain ⟨hcycle, hinclude⟩ := cycling_includes
  obtain ⟨first, hfirst⟩ := exists_ok_of_faultIn (e := (convertNode run ⟨"a.mdx", ["a.mdx"]⟩ 1
    (includeOf "/b.rst" cyclingContent) ⟨{}, [], []⟩).1) (by decide +kernel)
  refine ⟨horderly.cut run 1 _ _ _ _ rfl rfl hcycle (List.mem_singleton_self _), first, _,
    Prod.ext hfirst rfl, by decide +kernel, ?_⟩
  exact horderly.uncut run 1 _ _ _ _ _ _ rfl hinclude (by decide) (Prod.ext hfirst rfl)

end MdxPages.Convert
