import MdxPages.Proofs.Convert.Imports
import MdxPages.Proofs.Convert.Inclusion
import MdxPages.Proofs.Convert.Shared
import MdxPages.Proofs.Entries

/-!
# Proofs/Convert/Isolation — files and fragments keep apart

**Main statement** (`conversion_isolated`).  A conversion leaves the stack of fragments and the path
of its file as it has found them, and only adds to the imports and the metadata of the file, also
when it stops with a fault.  Of an include, the enclosing file gets one import at most; and what the
include emits depends on its content, its path and the fragments around it, but not on the file.
-/

namespace MdxPages.Convert

open MdxPages.Source

variable {σ : Type} {o : ConversionOptions} {place : Place} {depth : Int} {fields : Entries Value}
  {children content : List Source} {fragment : String} {node : Source}

/-! ## Files only grow

Keys are never taken out of the imports and the metadata, and never moved: a later value goes to the
place of the earlier one. -/

/-- A later state of a file: all keys are where they were, and new ones come after them. -/
structure FileState.Extends (before after : FileState) : Prop where
  imports : before.imports.keys <+: after.imports.keys
  metadata : before.metadata.keys <+: after.metadata.keys

namespace FileState.Extends

theorem refl (file : FileState) : file.Extends file :=
  ⟨List.prefix_refl _, List.prefix_refl _⟩

theorem trans {a b c : FileState} (h : a.Extends b) (h' : b.Extends c) : a.Extends c :=
  ⟨h.imports.trans h'.imports, h.metadata.trans h'.metadata⟩

/-- Registering an import moves no key. -/
theorem importing (name path : String) (file : FileState) :
    file.Extends (file.importing name path) := by
  unfold FileState.importing
  split
  · exact refl file
  · exact ⟨Entries.keys_prefix_put _, List.prefix_refl _⟩

/-- A mention that is noted moves no key. -/
theorem note (file : FileState) (m : Mention) : file.Extends (file.note o place m) := by
  cases m with
  | metadata fields => exact ⟨List.prefix_refl _, Entries.keys_prefix_merge _ _⟩
  | figure target => exact importing _ _ file
  | inclusion fragment => exact importing _ _ file

/-- **Noting mentions moves no key.** -/
theorem foldl_note (file : FileState) (ms : List Mention) :
    file.Extends (ms.foldl (FileState.note o place) file) := by
  induction ms generalizing file with
  | nil => exact refl file
  | cons m ms ih => exact (note file m).trans (ih _)

end FileState.Extends

/-- The state of the file after a conversion, whether that has succeeded or not. -/
theorem extends_of_convertNode (run : Run σ) (place : Place) (depth : Int) (node : Source)
    (s : Session σ) : s.file.Extends (convertNode run place depth node s).2.file := by
  obtain ⟨a, -, hperf⟩ := convertNode_follows run.options place depth node
  rw [(hperf σ run rfl s).2.1]
  exact .foldl_note _ _

/-! ## Includes

Whatever an include contains, the file around it is changed by the one import of the fragment. -/

/-- The file that holds an include, afterwards: it has at most one import more. -/
structure FileState.ImportsAtMost (name path : String) (before after : FileState) : Prop where
  metadata : after.metadata = before.metadata
  imports : after.imports = before.imports ∨ after.imports = before.imports.put name path

/-- Registering one import is at most one. -/
theorem FileState.ImportsAtMost.importing (name path : String) (file : FileState) :
    file.ImportsAtMost name path (file.importing name path) := by
  unfold FileState.importing
  split
  · exact ⟨rfl, .inl rfl⟩
  · exact ⟨rfl, .inr rfl⟩

/-- No import at all is at most one. -/
theorem FileState.ImportsAtMost.refl (name path : String) (file : FileState) :
    file.ImportsAtMost name path file :=
  ⟨rfl, .inl rfl⟩

/-- An include that is not cut enters the fragment of its own path. -/
theorem fragmentPath_of_fragmentOf (h : fragmentOf o place fields = some fragment) :
    Path.fragmentPath (inclusionArgument fields) o.fragmentExtension = fragment := by
  simp only [fragmentOf] at h
  split at h
  · cases h
  · exact Option.some.inj h

/-- **The file of an include sees at most one import of it**, also if the include has no path, is
cut, or stops with a fault. -/
theorem inclusion_importsAtMost (run : Run σ) (place : Place) (depth : Int)
    (term argument : List Source) (hkind : kindOf fields = .directive)
    (hdirective : directiveOf fields = .inclusion)
    (hfragment : Path.fragmentPath (inclusionArgument fields) run.options.fragmentExtension =
      fragment) (s : Session σ) :
    s.file.ImportsAtMost (Path.fragmentComponent fragment run.options.fragmentExtension)
      (Path.fragmentImport (importerOf run.options place) fragment)
      (convertNode run place depth (.node fields children term argument) s).2.file := by
  simp only [convertNode, handle, hkind, hdirective]
  cases hf : fragmentOf run.options place fields with
  | none =>
    rw [(uninclusion_performs hf s).2.1]
    exact .refl _ _ s.file
  | some entered =>
    obtain rfl : fragment = entered := hfragment.symm.trans (fragmentPath_of_fragmentOf hf)
    obtain ⟨a, -, hperf⟩ := convertContent_follows run.options (place.enter fragment) children
    have hinclude (parts : Parts σ) (hparts : parts.content = fun inside =>
        convertContent run inside children) : Performs run place
          (handleInclusion run place fields parts)
          (inclusionAccount run.options place fragment children a) :=
      inclusion_performs rfl hf (hparts ▸ hperf σ run rfl)
    rw [(hinclude _ rfl s).2.1]
    obtain hnone | hone :
        _ ∨ (inclusionAccount run.options place fragment children a).mentions = _ :=
      mentions_inclusionAccount a
    · rw [hnone]
      exact .refl _ _ s.file
    · rw [hone]
      simp only [List.foldl_cons, List.foldl_nil, FileState.note, draftOf, Place.enter]
      exact .importing _ _ s.file

/-! ## What an include produces

The account of an include is that of its content, which mentions neither the file nor the depth. -/

/-- An include with a path does to its fragment and to the emitter what its content says: with
`tree` the tree of its fragment, or the fault that stops it, and `nested` what is emitted in it. -/
structure Produces (run : Run σ) (place : Place) (depth : Int) (node : Source) (fragment : String)
    (content : List Source) (tree : Except Fault Node) (nested : List (String × Node))
    (s : Session σ) : Prop where
  answer : closesCycle run.options place fragment = false →
    (fragmentTree place fragment (fun inside => convertAll run inside 1 content) s).1 = tree
  emitter : (convertNode run place depth node s).2.emitter =
    (if closesCycle run.options place fragment then [] else nested ++ delivery fragment tree).foldl
      (deliver run.emitter) s.emitter

/-- **What an include produces depends on its content, its path, the options and the fragments
around it.** -/
theorem exists_produces (o : ConversionOptions) (chain : List String) (fragment : String)
    (content : List Source) : ∃ tree nested, ∀ {σ : Type} (run : Run σ) (path : String)
      (depth : Int) (node : Source) (s : Session σ), run.options = o →
      Includes o fragment content node →
      Produces run ⟨path, chain⟩ depth node fragment content tree nested s := by
  obtain ⟨a, -, hperf⟩ := convertAll_follows o ⟨fragment, chain ++ [fragment]⟩ 1 content
  refine ⟨a.fragmentTree o ⟨fragment, chain ++ [fragment]⟩, a.emissions, ?_⟩
  rintro σ run path depth node s rfl hnode
  have ha : Performs run (Place.enter ⟨path, chain⟩ fragment)
      (convertAll run (Place.enter ⟨path, chain⟩ fragment) 1 content) a := hperf σ run rfl
  refine ⟨fun _ => (Performs.fragmentTree ha s).1, ?_⟩
  match node with
  | .stray v => exact hnode.elim
  | .node fields children term argument =>
    cases hcycle : closesCycle run.options ⟨path, chain⟩ fragment with
    | true =>
      rw [convertNode]
      exact (handle_performs_of_cycle hnode hcycle s).2.2
    | false =>
      rw [(convertNode_performs_of_includes hnode hcycle ha s).2.2, emissions_inclusionAccount]
      rfl

/-! ## Isolation

The stack is shared by all conversions, as in `Shared`, so that leaving it as it was is something to
prove. -/

/-- A conversion with the shared stack leaves the stack and the path as they are, and its file with
all that was in it; apart from the stack it does what the conversion at that place does. -/
structure Frames (run : Run σ) (depth : Int) (node : Source) (s : Session (Standing σ)) :
    Prop where
  place : (Shared.convertNode run depth node s).2.emitter.place = s.emitter.place
  file : s.file.Extends (Shared.convertNode run depth node s).2.file
  answer : (Shared.convertNode run depth node s).1 =
    (convertNode run s.emitter.place depth node s.alone).1
  state : (Shared.convertNode run depth node s).2.alone =
    (convertNode run s.emitter.place depth node s.alone).2

/-- **Every conversion frames the stack and the path**, whether it succeeds or not. -/
theorem frames (run : Run σ) (depth : Int) (node : Source) (s : Session (Standing σ)) :
    Frames run depth node s := by
  obtain ⟨reached, hs, -⟩ := convertNode_shares run s.emitter.place depth node s rfl
  exact ⟨by rw [hs]; rfl, by rw [hs]; exact extends_of_convertNode run _ depth node s.alone,
    by rw [hs], by rw [hs]; rfl⟩

/-- **Files and fragments keep apart.** -/
theorem conversion_isolated (o : ConversionOptions) :
    (∀ {σ : Type} (run : Run σ) (depth : Int) (node : Source) (s : Session (Standing σ)),
      Frames run depth node s) ∧
    (∀ {σ : Type} (run : Run σ) (place : Place) (depth : Int) (fields : Entries Value)
      (children term argument : List Source) (s : Session σ),
      run.options = o → kindOf fields = .directive → directiveOf fields = .inclusion →
      let fragment := Path.fragmentPath (inclusionArgument fields) o.fragmentExtension
      s.file.ImportsAtMost (Path.fragmentComponent fragment o.fragmentExtension)
        (Path.fragmentImport (importerOf o place) fragment)
        (convertNode run place depth (.node fields children term argument) s).2.file) ∧
    ∀ (chain : List String) (fragment : String) (content : List Source), ∃ tree nested,
      ∀ {σ : Type} (run : Run σ) (path : String) (depth : Int) (node : Source) (s : Session σ),
        run.options = o → Includes o fragment content node →
        Produces run ⟨path, chain⟩ depth node fragment content tree nested s := by
  refine ⟨frames, ?_, exists_produces o⟩
  rintro σ run place depth fields children term argument s rfl hkind hdirective
  exact inclusion_importsAtMost run place depth term argument hkind hdirective rfl s

/-- The fields of an include of a fragment with a figure in it. -/
def figureIncludeFields : Entries Value :=
  (directiveValue "include" "/a/steps.rst" [directiveValue "figure" "/images/x.png" []]).fields

/-- The include. -/
def figureInclude : Source :=
  .node figureIncludeFields (ofField "children" figureIncludeFields) [] []

/-- The include has the fragment that its path names. -/
theorem figureInclude_includes : Includes {} "a/steps.mdx"
    (ofValues [directiveValue "figure" "/images/x.png" []]) figureInclude :=
  ⟨by rfl, by rfl, by decide +kernel, by rfl, by rfl⟩

/-- In two files and at two depths, the include emits the same fragment, of which the first file
gets one import, and the image stays in the fragment. -/
theorem conversion_isolated_figureInclude :
    let run : Run (List (String × Node)) := ⟨{}, some .recording⟩
    let s := (convertNode run ⟨"index.mdx", []⟩ 1 figureInclude ⟨{}, [], []⟩).2
    let s' := (convertNode run ⟨"b/c.mdx", []⟩ 3 figureInclude
      ⟨⟨[("Note", "./n.mdx")], [("k", .null)]⟩, [], []⟩).2
    s.emitter.map Prod.fst = ["a/steps.mdx"] ∧ s'.emitter = s.emitter ∧
      FileState.ImportsAtMost "Steps" "./a/steps.mdx" {} s.file ∧
      Frames run 1 figureInclude ⟨{}, ⟨[], ⟨"index.mdx", []⟩, []⟩, []⟩ := by
  intro run s s'
  obtain ⟨hframes, hfile, hproduces⟩ := conversion_isolated {}
  obtain ⟨tree, nested, hsame⟩ := hproduces [] "a/steps.mdx" _
  refine ⟨by decide +kernel, ?_, ?_, hframes _ _ _ _⟩
  · have hemitted (path : String) (depth : Int) (file : FileState) :
        (convertNode run ⟨path, []⟩ depth figureInclude ⟨file, [], []⟩).2.emitter =
          (nested ++ delivery "a/steps.mdx" tree).foldl (deliver run.emitter) [] :=
      (hsame run path depth figureInclude ⟨file, [], []⟩ rfl figureInclude_includes).emitter
    exact (hemitted _ _ _).trans (hemitted _ _ _).symm
  · have hfragment : Path.fragmentPath (inclusionArgument figureIncludeFields) ".mdx" =
        "a/steps.mdx" := figureInclude_includes.2.2.2.1
    have hname : Path.fragmentComponent "a/steps.mdx" ".mdx" = "Steps" := by decide +kernel
    have hpath : Path.fragmentImport "index.mdx" "a/steps.mdx" = "./a/steps.mdx" := by
      decide +kernel
    have himporter : importerOf {} ⟨"index.mdx", []⟩ = "index.mdx" := by decide +kernel
    have hown := hfile run ⟨"index.mdx", []⟩ 1 figureIncludeFields
      (ofField "children" figureIncludeFields) [] [] ⟨{}, [], []⟩ rfl (by rfl) (by rfl)
    simpa only [hfragment, hname, himporter, hpath, s, figureInclude] using hown

end MdxPages.Convert
